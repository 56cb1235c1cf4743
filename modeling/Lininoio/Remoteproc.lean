import Lininoio.Daemon

/-! Setting up the remote processors of a node: `setup_remoteproc_fw`,
`setup_remoteproc` and `setup_remoteprocs` of etherd/lininoio-ether.c, with
`add_fd_event` and `schedule_udev_event`. -/

namespace Lininoio

def pathMax : Nat := 4096

def backendMemSize : Nat := 1024 * 1024

def asciiBytes (s : String) : List UInt8 := s.toList.map (fun c => UInt8.ofNat c.toNat)

/-- What `snprintf` leaves in a buffer when it is told `size`. -/
def snprintf (size : Nat) (text : List UInt8) : List UInt8 := text.take (size - 1)

def u32Bytes (bigEndian : Bool) (v : Nat) : List UInt8 :=
  let le := [UInt8.ofNat v, UInt8.ofNat (v / 2 ^ 8), UInt8.ofNat (v / 2 ^ 16), UInt8.ofNat (v / 2 ^ 24)]
  if bigEndian then le.reverse else le

def memcpy (p : Memory) (off : Nat) (bytes : List UInt8) : Memory :=
  fun i => if off ≤ i ∧ i < off + bytes.length then bytes.getD (i - off) 0 else p i

/-- Sizes of `struct r2p_simple_firmware` and `struct resource_table`, and so
the offset of the resource table and of its `offset` array. -/
def r2pHdrSize : Nat := 8

def resourceTableSize : Nat := 16

/-- The loop over the channels: the `i`-th resource goes to the cursor `r`. -/
def placeResources (bigEndian : Bool) (rt : Nat) :
    Nat → Nat → List (List UInt8) → Memory → Memory × Nat
  | _, r, [], p => (p, r)
  | i, r, res :: rest, p =>
    let p := memcpy p (rt + resourceTableSize + 4 * i) (u32Bytes bigEndian (r - rt))
    placeResources bigEndian rt (i + 1) (r + res.length) rest (memcpy p r res)

/-- What `setup_remoteproc_fw` writes to the firmware file. -/
def firmwareImage (bigEndian : Bool) (magic nchannels : Nat) (resources : List (List UInt8)) :
    List UInt8 :=
  let rt := r2pHdrSize
  let p := memcpy (fun _ => 0) 0 (u32Bytes bigEndian magic)
  let p := memcpy p rt (u32Bytes bigEndian 1)
  let p := memcpy p (rt + 4) (u32Bytes bigEndian nchannels)
  let (p, r) := placeResources bigEndian rt 0 (rt + resourceTableSize + 4 * nchannels) resources p
  let p := memcpy p 4 (u32Bytes bigEndian (r - rt))
  (List.range r).map p

section

variable {L σ : Type} (env : Env σ)

/-- `add_fd_event(fd, EVT_FD_RD, cb, data)`; the answer tells whether it succeeded. -/
def addFdEvent (fd : Int) (cb : FdCallback) : EtherM L σ Bool := do
  if (← sys env (.malloc .fdEvent)) < 0 then
    return false
  emit (.addFdEvent ⟨fd, cb⟩)
  modify (fun s => { s with fdEvents := s.fdEvents ++ [⟨fd, cb⟩] })
  return true

def assignFdEvt (fd : Int) (cb : FdCallback) : EtherM L σ Int := do
  if fd < 0 then
    return -1
  if (← addFdEvent env fd cb) then
    return fd
  return -1

def scheduleUdevEvent (id : UdevEventId) (cbData : CorePtr) : EtherM L σ Int := do
  if (← sys env (.malloc .udevEvent)) < 0 then
    return -1
  emit (.scheduleUdevEvent ⟨id, cbData⟩)
  modify (fun s => { s with udevEvents := s.udevEvents ++ [⟨id, cbData⟩] })
  return 0

/-- The resources the loop of `setup_remoteproc_fw` copies. -/
def channelResources : List ChanPtr → EtherM L σ (List (List UInt8))
  | [] => return []
  | c :: rest => do
    let ch ← readChannel c
    let res ← match ch.data.resources with
      | some res => pure res
      | none => do
        emit (.readUnset c)
        pure (env.unset c)
    return res :: (← channelResources rest)

/-- The name of the firmware file, or `none` for a negative return value. -/
def setupRemoteprocFw (c : CorePtr) : EtherM L σ (Option (List UInt8)) := do
  let core ← readCore c
  if core.rprocName.isEmpty then
    return none
  let firmwareName := snprintf (pathMax - 1) (env.firmwarePrefix ++ core.rprocName ++ asciiBytes "-fw")
  let firmwarePath := snprintf (pathMax - 1) (asciiBytes "/lib/firmware/" ++ firmwareName)
  let fd ← sys env (.openFirmware firmwarePath)
  if fd < 0 then
    return none
  if (← sys env (.malloc .firmwarePage)) < 0 then
    return none
  let resources ← channelResources env core.channels
  let _ ← sys env (.write fd
    (firmwareImage env.bigEndian env.simpleFirmwareMagic core.nchannels resources))
  let _ ← sys env (.close fd)
  return some firmwareName

def setupRemoteprocErr0 (fd : Int) : EtherM L σ Unit := do
  let _ ← sys env (.close fd)

def setupRemoteprocErr1 (fd : Int) : EtherM L σ Unit := do
  let _ ← sys env (.free .firmwareName)
  setupRemoteprocErr0 env fd

def setupRemoteprocErr2 (firmwareName : List UInt8) (fd : Int) : EtherM L σ Unit := do
  let _ ← sys env (.unlink firmwareName)
  setupRemoteprocErr1 env fd

def setupRemoteproc (c : CorePtr) : EtherM L σ Unit := do
  emit (.setupRemoteproc c)
  let fd ← sys env .openMiscDev
  if fd < 0 then
    return
  if (← sys env (.malloc .firmwareName)) < 0 then
    setupRemoteprocErr0 env fd
    return
  let some firmwareName ← setupRemoteprocFw env c | setupRemoteprocErr1 env fd
  modifyCore c (fun core => { core with
    pd.fwType := some .simple
    pd.fwName := firmwareName.take (env.fwNameSize - 1)
    pd.name := core.rprocName.take (env.pdNameSize - 1) })
  let startFd ← assignFdEvt env (← sys env .eventfd) (.start c)
  modifyCore c (fun core => { core with pd.startFd := startFd })
  let stopFd ← assignFdEvt env (← sys env .eventfd) (.stop c)
  modifyCore c (fun core => { core with pd.stopFd := stopFd, pd.reservedMemsize := backendMemSize })
  if (← scheduleUdevEvent env .newVirtioBackend c) < 0 then
    setupRemoteprocErr2 env firmwareName fd
    return
  if (← sys env (.addProc c (← readCore c).pd)) < 0 then
    setupRemoteprocErr2 env firmwareName fd

/-- The loop of `setup_remoteprocs`, which ends at the first unused core id. -/
def setupCores (cores : Fin lininoioMaxNcores → Option CorePtr) :
    List (Fin lininoioMaxNcores) → EtherM L σ Unit
  | [] => return
  | i :: rest =>
    match cores i with
    | none => return
    | some c => do
      setupRemoteproc env c
      setupCores cores rest

def setupRemoteprocs (n : Slot) : EtherM L σ Int := do
  setupCores env (← readNode n).cores (List.finRange lininoioMaxNcores)
  return 0

end

end Lininoio
