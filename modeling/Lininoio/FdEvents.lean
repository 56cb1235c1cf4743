import Lininoio.CircularLinks
import Lininoio.Daemon

/-! The descriptor events of util/fd_event.c, and one round of the main loop over them. As for the
timeouts, malloc never returns an address twice, and an address that is no longer live belongs to
freed memory. -/

namespace Lininoio.FdEvents

open CircularLinks

inductive FdEventType
  | rd
  | wr
  | exc
deriving DecidableEq

abbrev EvtPtr := Nat

inductive EvtCell
  | head (t : FdEventType)
  | evt (e : EvtPtr)
  | poison1
  | poison2
deriving DecidableEq

/-- `struct fd_event` without its links; the callback stands for `cb` and `data`. -/
structure FdEvt (κ : Type) where
  fd : Nat
  cb : κ
deriving DecidableEq

structure FdEventLists (κ : Type) where
  links : Links EvtCell
  heap : EvtPtr → Option (FdEvt κ)
  fresh : EvtPtr

/-- An `fd_set`, `none` for a NULL pointer. It is a set of descriptors without a limit: a
descriptor from `FD_SETSIZE` on, which nothing keeps `add_fd_event` from taking, is left out. -/
abbrev FdSet := Option (Nat → Bool)

/-- The calls of the module's users, all of them for `EVT_FD_RD` and descriptors that are not
negative, a callback making finitely many of them; `mem` tells whether malloc succeeds. -/
inductive Call (κ : Type)
  | add (fd : Nat) (cb : κ) (mem : Bool)
  | cancel (e : EvtPtr)
deriving DecidableEq

section

variable {κ : Type}

def fdEventsInit : FdEventLists κ where
  links := initListHead (.head .exc) (initListHead (.head .wr) (initListHead (.head .rd) ⟨id, id⟩))
  heap _ := none
  fresh := 0

def addFdEvent (fd : Nat) (t : FdEventType) (cb : κ) (mem : Bool) (s : FdEventLists κ) :
    Option EvtPtr × FdEventLists κ :=
  if mem then
    (some s.fresh, {
      links := listAddTail (.evt s.fresh) (.head t) s.links
      heap := Function.update s.heap s.fresh (some ⟨fd, cb⟩)
      fresh := s.fresh + 1 })
  else (none, s)

/-- `list_del`, which leaves poison behind. -/
def listDel (entry : EvtCell) (l : Links EvtCell) : Links EvtCell :=
  let l := listDelEntry entry l
  ⟨Function.update l.next entry .poison1, Function.update l.prev entry .poison2⟩

def cancelFdEvent (e : EvtPtr) (s : FdEventLists κ) : Except Fault (FdEventLists κ) :=
  match s.heap e with
  | none => .error .useAfterFree
  | some _ => .ok { s with
      links := listDel (.evt e) s.links
      heap := Function.update s.heap e none }

def Call.run : Call κ → FdEventLists κ → Except Fault (FdEventLists κ)
  | .add fd cb mem, s => .ok (addFdEvent fd .rd cb mem s).2
  | .cancel e, s => cancelFdEvent e s

def runCalls : List (Call κ) → FdEventLists κ → Except Fault (FdEventLists κ)
  | [], s => .ok s
  | c :: calls, s => do runCalls calls (← c.run s)

structure Turn (κ : Type) where
  evt : EvtPtr × FdEvt κ
  calls : List (Call κ)

/-- Where a traversal ends: the callbacks it has called, the calls of the callbacks still to
come, and the state. -/
structure Handled (κ : Type) where
  turns : List (Turn κ)
  script : List (List (Call κ))
  state : FdEventLists κ

/-- The loop of `do_handle_fd_events` from a position on, for as many steps as there may be
events. -/
def handleFrom (fds : FdSet) (t : FdEventType) :
    Nat → EvtCell → List (List (Call κ)) → FdEventLists κ → Except Fault (Handled κ)
  | 0, _, _, _ => .error .endless
  | n + 1, pos, script, s =>
    if pos = .head t then .ok ⟨[], script, s⟩
    else match pos with
      | .evt p =>
        match s.heap p, fds with
        | none, _ => .error .useAfterFree
        | some _, none => .error .nullDeref
        | some e, some isset =>
          if isset e.fd then do
            let calls := script.headD []
            let s ← runCalls calls s
            -- the next position is read from the event when its callback has returned
            match s.heap p with
            | none => .error .useAfterFree
            | some _ =>
              let rest ← handleFrom fds t n (s.links.next pos) script.tail s
              .ok { rest with turns := ⟨(p, e), calls⟩ :: rest.turns }
          else handleFrom fds t n (s.links.next pos) script s
      | _ => .error .wildRead

def doHandleFdEvents (fds : FdSet) (t : FdEventType) (script : List (List (Call κ)))
    (s : FdEventLists κ) : Except Fault (Handled κ) :=
  handleFrom fds t (s.fresh + script.flatten.length + 1) (s.links.next (.head t)) script s

def handleFdEvents (rdFds wrFds excFds : FdSet) (script : List (List (Call κ))) (s : FdEventLists κ) :
    Except Fault (Handled κ) := do
  let rd ← doHandleFdEvents rdFds .rd script s
  let wr ← doHandleFdEvents wrFds .wr rd.script rd.state
  let exc ← doHandleFdEvents excFds .exc wr.script wr.state
  return { exc with turns := rd.turns ++ wr.turns ++ exc.turns }

/-- The loop of `do_prepare_fd_events` from a position on. -/
def prepareFrom (t : FdEventType) (s : FdEventLists κ) :
    Nat → EvtCell → FdSet × Int → Except Fault (FdSet × Int)
  | 0, _, _ => .error .endless
  | n + 1, pos, (fds, maxFd) =>
    if pos = .head t then .ok (fds, maxFd)
    else match pos with
      | .evt p =>
        match s.heap p, fds with
        | none, _ => .error .useAfterFree
        | some _, none => .error .nullDeref
        | some e, some isset => prepareFrom t s n (s.links.next pos)
            (some (Function.update isset e.fd true), if maxFd < e.fd then (e.fd : Int) else maxFd)
      | _ => .error .wildRead

def doPrepareFdEvents (fds : FdSet) (t : FdEventType) (maxFd : Int) (s : FdEventLists κ) :
    Except Fault (FdSet × Int) :=
  prepareFrom t s (s.fresh + 1) (s.links.next (.head t)) (fds, maxFd)

/-- The three sets as they are left, and the greatest descriptor. -/
def prepareFdEvents (rdFds wrFds excFds : FdSet) (s : FdEventLists κ) :
    Except Fault (FdSet × FdSet × FdSet × Int) := do
  let rd ← doPrepareFdEvents rdFds .rd (-1) s
  let wr ← doPrepareFdEvents wrFds .wr rd.2 s
  let exc ← doPrepareFdEvents excFds .exc wr.2 s
  return (rd.1, wr.1, exc.1, exc.2)

structure Round (κ : Type) where
  marks : FdSet
  maxFd : Int
  turns : List (Turn κ)
  state : FdEventLists κ

/-- One iteration of the loop of `main` in which `select` finds the descriptors of `ready` among
those it has been given, and the callbacks make the calls of `script`, in turn. -/
def round (ready : Nat → Bool) (script : List (List (Call κ))) (s : FdEventLists κ) :
    Except Fault (Round κ) := do
  let (marks, _, _, maxFd) ← prepareFdEvents (some fun _ => false) none none s
  let handled ← handleFdEvents (marks.map fun isset fd => isset fd && ready fd) none none script s
  return ⟨marks, maxFd, handled.turns, handled.state⟩

end

end Lininoio.FdEvents
