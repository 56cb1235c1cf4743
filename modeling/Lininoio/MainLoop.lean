import Lininoio.Ether

/-! The main loop of etherd/main.c: what select returns decides whether
`handle_timeouts` or the callback of the network socket runs. -/

namespace Lininoio

open StateFault Timeval

section Timeouts

variable {L σ : Type} [NodeLists L] (env : Env σ)

def callHandler : ToHandler → Slot → EtherM L σ Unit
  | .killNode, n => killNode env n

/-- The loop of `handle_timeouts`, for a number of rounds. -/
def handleLoop : Nat → Option Nat → Option Nat → EtherM L σ Unit
  | 0, _, _ => throw .endless
  | fuel + 1, pos, tmp => do
    match loopTest (← get).timeouts.queue pos with
    | .leave => return
    | .freed => throw .useAfterFree
    | .expired e => do
      setTimeouts (takeOff e (← get).timeouts)
      match e.handler with
      -- `assert(h)`
      | none => throw .assertion
      | some h => do
        if e.armed then
          callHandler env h e.priv
        setTimeouts (freeRunning (← get).timeouts)
        handleLoop fuel tmp (nextPos (← get).timeouts.queue tmp)

/-- No handler of the daemon schedules a timeout, so no more rounds are made
than there are entries. -/
def handleTimeouts : EtherM L σ Unit := do
  let q := (← get).timeouts.queue
  if q.isEmpty then
    throw .assertion
  handleLoop env (q.length + 1) (nextPos q none) (nextPos q (nextPos q none))

end Timeouts

/-- What one iteration of the main loop meets: select returning 0, select
failing, or a readable socket from which recvfrom fails or takes a frame. Unless
select returns 0 it waits at most `us` microseconds. -/
inductive MainEvent
  | timeout
  | error (us : Nat)
  | recvError (us : Nat)
  | frame (us : Nat) (sender : SockaddrLl) (payload : List UInt8)

/-- The daemon between two iterations, its static receive buffer, and the
microseconds waited in select so far. -/
structure Etherd (L σ : Type) where
  daemon : Daemon L σ
  buf : Memory
  now : Nat

abbrev EtherdM (L σ : Type) := EStateM Fault (Etherd L σ)

section MainLoop

variable {L σ : Type}

def onDaemon {α : Type} (x : EtherM L σ α) : EtherdM L σ α := fun s =>
  match x s.daemon with
  | .ok a d => .ok a { s with daemon := d }
  | .error f d => .error f { s with daemon := d }

@[simp] theorem wp_onDaemon {α : Type} (x : EtherM L σ α) (Q : α → Etherd L σ → Prop)
    (E : Fault → Etherd L σ → Prop) (s : Etherd L σ) : wp (onDaemon x) Q E s ↔
      wp x (fun a d => Q a { s with daemon := d })
        (fun f d => E f { s with daemon := d }) s.daemon := by
  simp only [wp, onDaemon]
  cases x s.daemon <;> rfl

def waitInSelect (us : Nat) : EtherdM L σ Unit :=
  modify (fun s =>
    let r := selectWait us s.daemon.timeouts
    { s with daemon := { s.daemon with timeouts := r.2 }, now := s.now + r.1 })

variable [NodeLists L] (env : Env σ)

def recvBufSize : Nat := 1024

def received (buf : Memory) (payload : List UInt8) : Memory :=
  memcpy buf 0 (payload.take recvBufSize)

/-- `_ether_rx_cb` for a frame; recvfrom cuts it to the size of the buffer. -/
def etherRx (sender : SockaddrLl) (payload : List UInt8) : EtherdM L σ Unit := do
  let received := payload.take recvBufSize
  modify (fun s => { s with buf := memcpy s.buf 0 received })
  onDaemon (etherRxCb env sender (← get).buf received.length)

def iteration : MainEvent → EtherdM L σ Unit
  | .timeout => do
    match getNextTimeout (← get).daemon.timeouts with
    -- select waits without a limit and never returns 0
    | none => return
    | some tv => do
      waitInSelect tv.micros
      onDaemon (handleTimeouts env)
  | .error us => waitInSelect us
  | .recvError us => waitInSelect us
  | .frame us sender payload => do
    waitInSelect us
    etherRx env sender payload

def mainLoop : List MainEvent → EtherdM L σ Unit
  | [] => return
  | e :: rest => do
    iteration env e
    mainLoop rest

def etherdInit (w : σ) (udevFd netifFd : Int) : Etherd L σ where
  daemon := daemonInit w udevFd netifFd
  buf := fun _ => 0
  now := 0

@[simp] theorem wp_mainLoop_nil (Q : Unit → Etherd L σ → Prop)
    (E : Fault → Etherd L σ → Prop) (s : Etherd L σ) : wp (mainLoop env []) Q E s ↔ Q () s := Iff.rfl

theorem wp_mainLoop_cons (e : MainEvent) (es : List MainEvent) (Q : Unit → Etherd L σ → Prop)
    (E : Fault → Etherd L σ → Prop) (s : Etherd L σ) : wp (mainLoop env (e :: es)) Q E s ↔
      wp (iteration env e) (fun _ t => wp (mainLoop env es) Q E t) E s := by
  rw [mainLoop, wp_bind]

end MainLoop

end Lininoio
