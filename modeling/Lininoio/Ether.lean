import Lininoio.Remoteproc

/-! Nodes, associations and received packets: the rest of
etherd/lininoio-ether.c, and `lininoio_find_proto_ops` of util/lininoio.c. -/

namespace Lininoio

def optAliveTimeout : Nat := 2000

def einval : Int := 22

/-- The C string in a buffer and the memory behind it. -/
def cString (bytes : List UInt8) : List UInt8 := bytes.takeWhile (fun b => b ≠ 0)

def strncpy (size : Nat) (bytes : List UInt8) : List UInt8 :=
  let s := (cString bytes).take size
  s ++ List.replicate (size - s.length) 0

def decimal (n : Nat) : List UInt8 := (Nat.toDigits 10 n).map (fun c => UInt8.ofNat c.toNat)

section Nodes

variable {L σ : Type} [NodeLists L] (env : Env σ)

def macToNode (mac : Vector UInt8 8) : EtherM L σ (Option Slot) := do
  let s ← get
  ofNodeSearch (NodeLists.search (fun n => (s.node n).addr.sllAddr = mac) s.lists)

def findNode (sender : SockaddrLl) : EtherM L σ (Option Slot) := do
  let s ← get
  ofNodeSearch (NodeLists.search (fun n => sender = (s.node n).addr) s.lists)

def getNode (sender : SockaddrLl) : EtherM L σ (Option Slot) := do
  match ← ofNodeSearch (NodeLists.firstFree (← get).lists) with
  | none => return none
  | some out => do
    emit (.getNode out)
    modifyNode out (fun n => { n with
      name := n.name.set 0 0
      aliveTo := none
      cores := fun _ => none
      nchannels := 0
      channels := fun _ => none })
    modifyLists (NodeLists.moveToNodes out)
    modifyNode out (fun n => { n with addr := sender })
    return some out

/-- The body of `kill_remoteprocs` is empty. -/
def killRemoteprocs (_n : Slot) : EtherM L σ Unit := return

/-- The loop of `kill_node` over the channel table. -/
def killChannels (n : Slot) : List (Fin lininoioMaxNchannels) → EtherM L σ Unit
  | [] => return
  | i :: rest => do
    let node ← readNode n
    match node.channels i with
    | none => return
    | some c => do
      let ch ← readChannel c
      match ch.ops with
      | none => throw .nullDeref
      | some ops =>
        match (env.ops ops).disconnect with
        | none => pure ()
        | some disconnect => do
          emit (.disconnect c)
          modify (fun s => { s with world := disconnect ch node s.world })
      modify (fun s => { s with chan := Function.update s.chan c none })
      killChannels n rest

def killNode (n : Slot) : EtherM L σ Unit := do
  emit (.killNode n)
  killRemoteprocs n
  killChannels env n (List.finRange lininoioMaxNchannels)
  modifyLists (NodeLists.moveToFree n)

def scheduleAliveTimeout (n : Slot) : EtherM L σ (Option Nat) := do
  let mem ← sys env (.malloc .timeout)
  let s ← get
  let r := scheduleTimeout env.ulong.bits optAliveTimeout (some ToHandler.killNode) n
    (decide (0 ≤ mem)) s.timeouts
  setTimeouts r.2
  return r.1

/-- `cancel_timeout` of a pointer that may be NULL or stale. -/
def cancelAliveTimeout (a : Option Nat) : EtherM L σ Unit := do
  match a with
  | none => throw .nullDeref
  | some a =>
    match cancelTimeout a (← get).timeouts with
    | none => throw .useAfterFree
    | some t => setTimeouts t

/-- The vector entry of a channel: its association data, as long as `chan_dlen` says. -/
def adataVec (a : AssociationData) : List UInt8 :=
  (u16Bytes env.bigEndian a.chanDlen ++ a.chanData).take ((lininoioDecodeCdlen a.chanDlen).1.toNat + 2)

/-- The loop of `ether_send_areply` over the channels: it advances `i` twice a round,
and never `c`. Of the vector `left` entries are left from `i` on. -/
def fillVecs : Option ChanPtr → (left i : Nat) → List (Option (List UInt8)) →
    EtherM L σ (List (Option (List UInt8)))
  | none, _, _, vecs => return vecs
  -- the entry would be written behind the vector
  | some _, 0, _, _ => throw .overrun
  | some c, 1, i, vecs => do
    let adata := (← readChannel c).data.adata
    fillVecs (some c) 0 (i + 2) (vecs.set i (some (adataVec env adata)))
  | some c, left + 2, i, vecs => do
    let adata := (← readChannel c).data.adata
    fillVecs (some c) left (i + 2) (vecs.set i (some (adataVec env adata)))

def etherSendAreply (n : Slot) (stat : Int) : EtherM L σ Int := do
  if (← sys env (.malloc .iovecs)) < 0 then
    return -1
  let node ← readNode n
  let header := [(htole32 env.bigEndian 2).toUInt8, UInt8.ofNat (stat % 256).toNat]
  let vecs := some header :: List.replicate node.nchannels none
  let vecs ← fillVecs env (node.channels 0) node.nchannels 1 vecs
  sys env (.sendmsg node.addr vecs)

end Nodes

section Association

variable {L σ : Type} [NodeLists L] (env : Env σ)

def lininoioFindProtoOps (protoId : UInt16) : EtherM L σ (Option OpsPtr) := do
  match (← get).lininoioOps with
  | none => return none
  | some table =>
    if lininoioNProtos ≤ protoId.toNat then
      return none
    match table protoId with
    | some ops => return some ops
    | none => do
      let s ← get
      let r := env.loadProtoHandler protoId s.world
      set { s with world := r.2 }
      match r.1 with
      | none => return none
      | some ops => do
        modify (fun s => { s with lininoioOps := some (Function.update table protoId ops) })
        return ops

def getCore (n : Slot) (coreId : Fin lininoioMaxNcores) : EtherM L σ (Option CorePtr) := do
  let node ← readNode n
  match node.cores coreId with
  | some core => return some core
  | none =>
    if (← sys env (.malloc .core)) < 0 then
      return none
    let core := (← get).freshCore
    let rprocName := snprintf 32
      (cString (node.name ++ env.pastName node) ++ asciiBytes "-" ++ decimal coreId)
    modify (fun s => { s with
      core := Function.update s.core core
        ⟨rprocName, ⟨none, [], [], 0, 0, 0⟩, 0, [], n⟩
      freshCore := core + 1 })
    modifyNode n (fun node => { node with cores := Function.update node.cores coreId (some core) })
    return some core

def newChannel (n : Slot) (_chanId : Nat) (cdescr : UInt16) : EtherM L σ (Option ChanPtr) := do
  let coreId := lininoioCdescrToCoreId cdescr
  match ← getCore env n ⟨coreId.toNat, cdescrToCoreId_lt cdescr⟩ with
  | none => return none
  | some core => do
    if (← sys env (.malloc .channel)) < 0 then
      return none
    let out := (← get).freshChan
    modify (fun s => { s with
      chan := Function.update s.chan out (some ⟨0, 0, 0, none, ⟨none, ⟨0, []⟩, none⟩⟩)
      freshChan := out + 1 })
    modifyCore core (fun co => { co with
      channels := co.channels ++ [out]
      nchannels := co.nchannels + 1 })
    return some out

/-- One round of the channel loop of `ether_rx_arequest`: the value of `stat`. -/
def addChannel (n : Slot) (packet : Memory) (i : Nat) : EtherM L σ Int := do
  let cdescr := le16toh env.bigEndian (ArequestPacket.chanDescr env.bigEndian packet i)
  match ← newChannel env n i cdescr with
  -- the caller writes to the channel without looking at the pointer
  | none => throw .nullDeref
  | some c => do
    let protocol := lininoioCdescrToProtoId cdescr
    let id := UInt8.ofNat i
    let ch : Channel := ⟨protocol, lininoioCdescrToCoreId cdescr, id, none,
      ⟨none, ⟨lininoioEncodeCdlen 0 id, []⟩, none⟩⟩
    let ops ← lininoioFindProtoOps env protocol
    let ch := { ch with ops := ops }
    writeChannel c ch
    match ops with
    | none => return 0
    | some ops =>
      match (env.ops ops).connect with
      | none => return 0
      | some connect => do
        let s ← get
        let r := connect ch (s.node n) s.world
        set { s with world := r.2 }
        writeChannel c { ch with data := r.1.2 }
        emit (.connect c ops r.1.1)
        return r.1.1

/-- The channel loop, left as soon as `stat` is not 0. -/
def addChannels (n : Slot) (packet : Memory) : List Nat → EtherM L σ Int
  | [] => return 0
  | i :: rest => do
    let stat ← addChannel env n packet i
    if stat ≠ 0 then
      return stat
    addChannels n packet rest

/-- The end of `ether_rx_arequest`, once the channel loop has set `stat`. -/
def concludeArequest (n : Slot) (stat : Int) : EtherM L σ Unit := do
  let stat ← if stat = 0 then setupRemoteprocs env n else pure stat
  let _ ← etherSendAreply env n stat
  if stat ≠ 0 then
    cancelAliveTimeout (← readNode n).aliveTo
    killNode env n

/-- What `ether_rx_arequest` does with a node that `get_node` has handed out. -/
def associate (n : Slot) (packet : Memory) : EtherM L σ Unit := do
  let nchannels := (ArequestPacket.nchannels packet).toNat
  modifyNode n (fun node => { node with nchannels := nchannels })
  let aliveTo ← scheduleAliveTimeout env n
  modifyNode n (fun node => { node with aliveTo := aliveTo })
  modifyLists (NodeLists.addTailNodes n)
  modifyNode n (fun node => { node with name := strncpy 16 (ArequestPacket.slaveName packet) })
  let stat ← addChannels env n packet (List.range nchannels)
  concludeArequest env n (if nchannels = 0 then -einval else stat)

def etherRxArequest (sender : SockaddrLl) (packet : Memory) (_len : Nat) : EtherM L σ Unit := do
  if lininoioMaxNchannels < (ArequestPacket.nchannels packet).toNat then
    return
  match ← findNode sender with
  | some n => do
    let _ ← etherSendAreply env n 0
  | none =>
    match ← getNode sender with
    | none => return
    | some n => associate env n packet

end Association

section Reception

variable {L σ : Type} [NodeLists L] (env : Env σ)

def etherDataPacket (mac : Vector UInt8 8) (dp : Memory) : EtherM L σ Unit := do
  -- the length is returned, the channel id would be stored through the second argument
  let chanId := (lininoioDecodeCdlen
    (le16toh env.bigEndian (DataPacket.cdlen env.bigEndian dp))).1.toUInt8
  match ← macToNode mac with
  | none => return
  | some n =>
    if h : chanId.toNat < lininoioMaxNchannels then do
      match (← readNode n).channels ⟨chanId.toNat, h⟩ with
      | none => return
      | some c => do
        cancelAliveTimeout (← readNode n).aliveTo
        let aliveTo ← scheduleAliveTimeout env n
        modifyNode n (fun node => { node with aliveTo := aliveTo })
        let ch ← readChannel c
        match ch.ops.bind (fun o => (env.ops o).inboundPacket) with
        | none => return
        | some inboundPacket => do
          emit (.inboundPacket c)
          modify (fun s => { s with world := inboundPacket ch dp s.world })
    else return

def etherRxCb (sender : SockaddrLl) (p : Memory) (len : Nat) : EtherM L σ Unit :=
  match LininoioPacketType.ofByte (p 0) with
  | some .data => etherDataPacket env sender.sllAddr p
  | some .arequest => etherRxArequest env sender p len
  | some .areply => return
  | none => return

/-- The state in which the main loop is entered, for the descriptors of the udev
monitor and of the socket. -/
def daemonInit (w : σ) (udevFd netifFd : Int) : Daemon L σ where
  lists := NodeLists.init
  node := fun _ => ⟨List.replicate 16 0, none, fun _ => none, 0, fun _ => none,
    ⟨0, 0, 0, 0, 0, 0, Vector.replicate 8 0⟩⟩
  core := fun _ => ⟨[], ⟨none, [], [], 0, 0, 0⟩, 0, [], 0⟩
  freshCore := 0
  chan := fun _ => none
  freshChan := 0
  timeouts := timeoutsInit
  fdEvents := [⟨udevFd, .udevMonitor⟩, ⟨netifFd, .etherRx⟩]
  udevEvents := []
  backends := []
  lininoioOps := some (fun _ => none)
  world := w
  trace := []

end Reception

end Lininoio
