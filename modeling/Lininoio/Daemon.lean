import Lininoio.NodeLists
import Lininoio.Packets
import Lininoio.StateFault
import Lininoio.TimeoutQueue

/-! The data of the daemon: nodes, cores, channels, the registries it shares
with its main loop, and what lies outside of it (the operating system and the
protocol handlers), whose answers depend on a state of their own. -/

namespace Lininoio

structure SockaddrLl where
  sllFamily : UInt16
  sllProtocol : UInt16
  sllIfindex : UInt32
  sllHatype : UInt16
  sllPkttype : UInt8
  sllHalen : UInt8
  sllAddr : Vector UInt8 8
deriving DecidableEq

/-- The MAC address: the first `ETHER_ADDR_LEN` bytes of `sll_addr`. -/
def SockaddrLl.mac (a : SockaddrLl) : List UInt8 := a.sllAddr.toList.take 6

abbrev CorePtr := Nat

abbrev ChanPtr := Nat

abbrev OpsPtr := Nat

structure AssociationData where
  chanDlen : UInt16
  chanData : List UInt8
deriving DecidableEq

/-- What the connect method of a channel may set. `none` stands for memory
that nothing has set; the length of `resources` is `resources_len`. -/
structure ChannelData where
  priv : Option Nat
  adata : AssociationData
  resources : Option (List UInt8)
deriving DecidableEq

structure Channel where
  protocol : UInt16
  coreId : UInt8
  id : UInt8
  ops : Option OpsPtr
  data : ChannelData
deriving DecidableEq

inductive FwType
  | simple
deriving DecidableEq

/-- `struct r2p_processor_data`; `none` before it is set. -/
structure ProcessorData where
  fwType : Option FwType
  fwName : List UInt8
  name : List UInt8
  startFd : Int
  stopFd : Int
  reservedMemsize : Nat
deriving DecidableEq

structure Core where
  rprocName : List UInt8
  pd : ProcessorData
  nchannels : Nat
  channels : List ChanPtr
  node : Slot
deriving DecidableEq

/-- `struct lininoio_node`, and the address of its `struct lininoio_ether_node`. -/
structure Node where
  name : List UInt8
  aliveTo : Option Nat
  cores : Fin lininoioMaxNcores → Option CorePtr
  nchannels : Nat
  channels : Fin lininoioMaxNchannels → Option ChanPtr
  addr : SockaddrLl

inductive Alloc
  | timeout
  | core
  | channel
  | iovecs
  | firmwareName
  | firmwarePage
  | fdEvent
  | udevEvent
  | backend
deriving DecidableEq

/-- Calls into the operating system. A negative answer is a failure. -/
inductive SysCall
  | malloc (what : Alloc)
  | free (what : Alloc)
  | openMiscDev
  | openFirmware (path : List UInt8)
  | write (fd : Int) (bytes : List UInt8)
  | close (fd : Int)
  | unlink (path : List UInt8)
  | eventfd
  | read (fd : Int)
  | openBackend (devname : List UInt8)
  | mmapBackend (fd : Int)
  | addProc (core : CorePtr) (pd : ProcessorData)
  /-- An entry of the vector that was never written is `none`. -/
  | sendmsg (dest : SockaddrLl) (iov : List (Option (List UInt8)))
deriving DecidableEq

inductive FdCallback
  | etherRx
  | udevMonitor
  | start (c : CorePtr)
  | stop (c : CorePtr)
  | virtioBackend (vbe : Nat)
deriving DecidableEq

structure FdEvent where
  fd : Int
  cb : FdCallback
deriving DecidableEq

inductive UdevEventId
  | newVirtioBackend
  | delVirtioBackend
deriving DecidableEq

/-- `struct udev_event`; the callback is `virtio_backend_add`, its data a core. -/
structure UdevEvent where
  id : UdevEventId
  cbData : CorePtr
deriving DecidableEq

/-- `struct virtio_backend`; `mapped` tells whether `vring_ptr` can be used. -/
structure VirtioBackend where
  devname : List UInt8
  fd : Int
  mapped : Bool
  phyOffset : Nat
  minor : Nat
  vringIndex : Nat
  core : CorePtr
  channel : Option ChanPtr
deriving DecidableEq

/-- What the daemon does to its surroundings, and what it sets up for later, in order. -/
inductive Effect
  | sys (call : SysCall) (ret : Int)
  | getNode (n : Slot)
  | killNode (n : Slot)
  | connect (c : ChanPtr) (ops : OpsPtr) (ret : Int)
  | inboundPacket (c : ChanPtr)
  | disconnect (c : ChanPtr)
  | setupRemoteproc (c : CorePtr)
  | readUnset (c : ChanPtr)
  | addFdEvent (evt : FdEvent)
  | scheduleUdevEvent (evt : UdevEvent)
  | virtioBackendAdd (c : CorePtr) (path : List UInt8)
  | newBackend (vbe : VirtioBackend)
deriving DecidableEq

/-- Why the program cannot go on as the source says. -/
inductive Fault
  | nullDeref
  | useAfterFree
  | wildRead
  | overrun
  | endless
  | assertion
deriving DecidableEq

/-- `struct lininoio_proto_ops`, a method being `none` for NULL. -/
structure LininoioProtoOps (σ : Type) where
  connect : Option (Channel → Node → σ → (Int × ChannelData) × σ)
  inboundPacket : Option (Channel → Memory → σ → σ)
  disconnect : Option (Channel → Node → σ → σ)

inductive LongWidth
  | bits32
  | bits64

def LongWidth.bits : LongWidth → Nat
  | .bits32 => 32
  | .bits64 => 64

/-- The surroundings of the daemon, with states in `σ`. -/
structure Env (σ : Type) where
  bigEndian : Bool
  ulong : LongWidth
  sys : SysCall → σ → Int × σ
  /-- `load_lininoio_proto_handler`: no handler, or one with its `ops` pointer. -/
  loadProtoHandler : UInt16 → σ → Option (Option OpsPtr) × σ
  ops : OpsPtr → LininoioProtoOps σ
  firmwarePrefix : List UInt8
  simpleFirmwareMagic : Nat
  /-- `sizeof(pd.fw_name)` and `sizeof(pd.name)` -/
  fwNameSize : Nat
  pdNameSize : Nat
  /-- The first byte of a pointer to a timeout, NULL being `none`. -/
  aliveToHead : Option Nat → UInt8
  /-- The rest of the memory that follows `name` in a node. -/
  pastAliveTo : Node → List UInt8
  /-- What the resource fields of a channel stand for when nothing set them. -/
  unset : ChanPtr → List UInt8

/-- The memory that follows `name` in a node begins with `alive_to`. -/
def Env.pastName {σ : Type} (env : Env σ) (n : Node) : List UInt8 :=
  env.aliveToHead n.aliveTo :: env.pastAliveTo n

inductive ToHandler
  | killNode
deriving DecidableEq

/-- The state of the daemon. Cores are never freed; a channel that is freed is
`none`. The `trace` is what has been done so far. -/
structure Daemon (L σ : Type) where
  lists : L
  node : Slot → Node
  core : CorePtr → Core
  freshCore : CorePtr
  chan : ChanPtr → Option Channel
  freshChan : ChanPtr
  timeouts : Timeouts ToHandler Slot
  fdEvents : List FdEvent
  udevEvents : List UdevEvent
  backends : List VirtioBackend
  lininoioOps : Option (UInt16 → Option OpsPtr)
  world : σ
  trace : List Effect

abbrev EtherM (L σ : Type) := EStateM Fault (Daemon L σ)

section Primitives

variable {L σ : Type}

def emit (e : Effect) : EtherM L σ Unit :=
  modify (fun s => { s with trace := s.trace ++ [e] })

def sys (env : Env σ) (call : SysCall) : EtherM L σ Int := do
  let s ← get
  let r := env.sys call s.world
  set { s with world := r.2, trace := s.trace ++ [Effect.sys call r.1] }
  return r.1

def readNode (n : Slot) : EtherM L σ Node := do
  return (← get).node n

def modifyNode (n : Slot) (f : Node → Node) : EtherM L σ Unit :=
  modify (fun s => { s with node := Function.update s.node n (f (s.node n)) })

def readCore (c : CorePtr) : EtherM L σ Core := do
  return (← get).core c

def modifyCore (c : CorePtr) (f : Core → Core) : EtherM L σ Unit :=
  modify (fun s => { s with core := Function.update s.core c (f (s.core c)) })

def readChannel (c : ChanPtr) : EtherM L σ Channel := do
  match (← get).chan c with
  | some ch => return ch
  | none => throw .useAfterFree

def writeChannel (c : ChanPtr) (ch : Channel) : EtherM L σ Unit :=
  modify (fun s => { s with chan := Function.update s.chan c (some ch) })

def modifyLists (f : L → L) : EtherM L σ Unit :=
  modify (fun s => { s with lists := f s.lists })

def setTimeouts (t : Timeouts ToHandler Slot) : EtherM L σ Unit :=
  modify (fun s => { s with timeouts := t })

def ofNodeSearch : NodeSearch → EtherM L σ (Option Slot)
  | .found n => return some n
  | .none => return none
  | .wild => throw .wildRead
  | .endless => throw .endless

end Primitives

end Lininoio
