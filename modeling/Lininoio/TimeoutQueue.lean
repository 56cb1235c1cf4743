import Lininoio.DeltaQueue
import Lininoio.Timeval

/-! The timeouts of util/timeout.c. The queue holds the entries from
`timeouts.next` on; an address is a number that malloc never returns twice, so
an address that is no longer live belongs to freed memory. -/

namespace Lininoio

open DeltaQueue Timeval

structure Timeout (η π : Type) where
  addr : Nat
  expires : Timeval
  handler : Option η
  priv : π
  armed : Bool

structure Timeouts (η π : Type) where
  queue : List (Timeout η π)
  /-- The entry `handle_timeouts` took off the list and has not freed yet. -/
  running : Option (Timeout η π)
  fresh : Nat

variable {η π : Type}

def timeoutsInit : Timeouts η π := ⟨[], none, 0⟩

/-- The insertion loop of `schedule_timeout`. -/
def insertTimeout (e : Timeout η π) : List (Timeout η π) → List (Timeout η π)
  | [] => [e]
  | ptr :: rest =>
    if timercmpLt e.expires ptr.expires then
      e :: { ptr with expires := timersub ptr.expires e.expires } :: rest
    else
      ptr :: insertTimeout { e with expires := timersub e.expires ptr.expires } rest

/-- `schedule_timeout`; `mem` tells whether malloc succeeds. -/
def scheduleTimeout (ulongBits ms : Nat) (toh : Option η) (priv : π) (mem : Bool)
    (t : Timeouts η π) : Option Nat × Timeouts η π :=
  match toh with
  | none => (none, t)
  | some h =>
    if mem then
      let e : Timeout η π := ⟨t.fresh, ofMillis ulongBits ms, some h, priv, true⟩
      (some t.fresh, { t with queue := insertTimeout e t.queue, fresh := t.fresh + 1 })
    else (none, t)

def Timeout.disarm (a : Nat) (e : Timeout η π) : Timeout η π :=
  if e.addr = a then { e with armed := false } else e

def Timeouts.Live (t : Timeouts η π) (a : Nat) : Prop :=
  a ∈ t.queue.map Timeout.addr ∨ a ∈ t.running.map Timeout.addr

instance (t : Timeouts η π) (a : Nat) : Decidable (t.Live a) :=
  inferInstanceAs (Decidable (_ ∨ _))

/-- `cancel_timeout`; there is no result when the entry has been freed. -/
def cancelTimeout (a : Nat) (t : Timeouts η π) : Option (Timeouts η π) :=
  if t.Live a then
    some { t with
      queue := t.queue.map (Timeout.disarm a)
      running := t.running.map (Timeout.disarm a) }
  else none

def getNextTimeout (t : Timeouts η π) : Option Timeval :=
  t.queue.head?.map Timeout.expires

/-- Linux select waiting for `us` microseconds, or less when the time it was
given ends before: the time that passes, and what is left written back. -/
def selectWait (us : Nat) (t : Timeouts η π) : Nat × Timeouts η π :=
  match t.queue with
  | [] => (us, t)
  | e :: rest =>
    let waited := min us e.expires.micros
    (waited, { t with queue := { e with expires := ofMicros (e.expires.micros - waited) } :: rest })

/-- The next position of the loop of `handle_timeouts`; a position is the address of an entry, or
`none` for the list head. -/
def nextPos (q : List (Timeout η π)) : Option Nat → Option Nat
  | none => q.head?.map Timeout.addr
  | some a => (q.dropWhile (fun e => e.addr ≠ a)).tail.head?.map Timeout.addr

@[simp] theorem nextPos_head (e : Timeout η π) (q : List (Timeout η π)) :
    nextPos (e :: q) (some e.addr) = nextPos q none := by
  simp [nextPos, List.dropWhile]

inductive LoopTest (η π : Type)
  | leave
  | freed
  | expired (e : Timeout η π)

/-- The loop condition and the test that breaks out of the loop. -/
def loopTest (q : List (Timeout η π)) : Option Nat → LoopTest η π
  | none => .leave
  | some a =>
    match q.find? (fun e => e.addr = a) with
    | none => .freed
    | some e => if timercmpEq e.expires zerot then .expired e else .leave

/-- `list_del_init` of the entry the loop stands on. -/
def takeOff (e : Timeout η π) (t : Timeouts η π) : Timeouts η π :=
  { t with queue := t.queue.eraseP (fun x => x.addr = e.addr), running := some e }

def freeRunning (t : Timeouts η π) : Timeouts η π := { t with running := none }

/-- Everything about an entry but its place in time. -/
structure Tag (η π : Type) where
  addr : Nat
  handler : Option η
  priv : π
  armed : Bool

def Timeout.tag (e : Timeout η π) : Tag η π := ⟨e.addr, e.handler, e.priv, e.armed⟩

def Tag.disarm (a : Nat) (t : Tag η π) : Tag η π :=
  if t.addr = a then { t with armed := false } else t

def deltas (q : List (Timeout η π)) : List (Nat × Tag η π) :=
  q.map (fun e => (e.expires.micros, e.tag))

/-- The entries with their absolute deadlines when the clock shows `now`. -/
def agenda (now : Nat) (q : List (Timeout η π)) : List (Nat × Tag η π) := dueTimes now (deltas q)

def QueueNormal (q : List (Timeout η π)) : Prop := ∀ e ∈ q, e.expires.Normal

@[simp] theorem tag_withExpires (e : Timeout η π) (left : Timeval) :
    Timeout.tag { e with expires := left } = e.tag := rfl

@[simp] theorem deltas_nil : deltas ([] : List (Timeout η π)) = [] := rfl

@[simp] theorem deltas_cons (e : Timeout η π) (q : List (Timeout η π)) :
    deltas (e :: q) = (e.expires.micros, e.tag) :: deltas q := rfl

theorem deltas_insertTimeout {e : Timeout η π} {q : List (Timeout η π)}
    (ht : e.expires.Normal) (hq : QueueNormal q) :
    QueueNormal (insertTimeout e q) ∧
      deltas (insertTimeout e q) = insertDelta e.expires.micros e.tag (deltas q) := by
  induction q generalizing e with
  | nil => exact ⟨by simpa [QueueNormal, insertTimeout] using ht, rfl⟩
  | cons ptr rest ih =>
    have hptr : ptr.expires.Normal := hq ptr (by simp)
    have hrest : QueueNormal rest := fun x he => hq x (List.mem_cons_of_mem _ he)
    have hcmp := ht.timercmpLt_iff hptr
    by_cases hlt : e.expires.micros < ptr.expires.micros
    · have hs := hptr.timersub ht hlt.le
      refine ⟨?_, ?_⟩
      · intro x he
        simp only [insertTimeout, hcmp.mpr hlt, if_true, List.mem_cons] at he
        rcases he with rfl | rfl | he
        · exact ht
        · exact hs.1
        · exact hrest x he
      · simp [insertTimeout, hcmp.mpr hlt, insertDelta, hlt, hs.2]
    · have hs := ht.timersub hptr (not_lt.mp hlt)
      have hno : timercmpLt e.expires ptr.expires = false :=
        Bool.eq_false_iff.mpr (fun h => hlt (hcmp.mp h))
      have hh := ih (e := { e with expires := timersub e.expires ptr.expires }) hs.1 hrest
      refine ⟨?_, ?_⟩
      · intro x he
        simp only [insertTimeout, hno, Bool.false_eq_true, if_false, List.mem_cons] at he
        rcases he with rfl | he
        · exact hptr
        · exact hh.1 x he
      · simp [insertTimeout, hno, insertDelta, hlt, hh.2, hs.2]

theorem insertTimeout_perm (e : Timeout η π) (q : List (Timeout η π)) :
    ((insertTimeout e q).map Timeout.tag).Perm (e.tag :: q.map Timeout.tag) := by
  induction q generalizing e with
  | nil => simp [insertTimeout]
  | cons ptr rest ih =>
    by_cases hlt : timercmpLt e.expires ptr.expires = true
    · simp [insertTimeout, hlt]
    · have hh := (ih { e with expires := timersub e.expires ptr.expires }).cons ptr.tag
      simp only [insertTimeout, hlt, Bool.false_eq_true, if_false, List.map_cons]
      exact hh.trans (List.Perm.swap _ _ _)

section Agenda

variable {q : List (Timeout η π)} {now : Nat}

theorem agenda_insertTimeout {e : Timeout η π} (now : Nat)
    (ht : e.expires.Normal) (hq : QueueNormal q) :
    agenda now (insertTimeout e q) =
      insertDue (now + e.expires.micros) e.tag (agenda now q) := by
  rw [agenda, (deltas_insertTimeout ht hq).2, dueTimes_insertDelta, agenda]

theorem map_snd_agenda (now : Nat) (q : List (Timeout η π)) :
    (agenda now q).map Prod.snd = q.map Timeout.tag := by
  simp [agenda, deltas]

theorem exists_due {e : Timeout η π} (now : Nat) (he : e ∈ q) : ∃ u, (u, e.tag) ∈ agenda now q := by
  have hm : e.tag ∈ (agenda now q).map Prod.snd := by
    rw [map_snd_agenda]
    exact List.mem_map_of_mem he
  obtain ⟨d, hd, he⟩ := List.mem_map.mp hm
  exact ⟨d.1, he ▸ hd⟩

theorem exists_entry {d : Nat × Tag η π} (hd : d ∈ agenda now q) : ∃ e ∈ q, e.tag = d.2 := by
  have hm : d.2 ∈ (agenda now q).map Prod.snd := List.mem_map_of_mem hd
  rw [map_snd_agenda] at hm
  exact List.mem_map.mp hm

@[simp] theorem tag_disarm (a : Nat) (e : Timeout η π) : (e.disarm a).tag = e.tag.disarm a := by
  by_cases ha : e.addr = a <;> simp [Timeout.disarm, Tag.disarm, Timeout.tag, ha]

@[simp] theorem expires_disarm (a : Nat) (e : Timeout η π) : (e.disarm a).expires = e.expires := by
  by_cases ha : e.addr = a <;> simp [Timeout.disarm, ha]

@[simp] theorem addr_disarm (a : Nat) (e : Timeout η π) : (e.disarm a).addr = e.addr := by
  by_cases ha : e.addr = a <;> simp [Timeout.disarm, ha]

theorem agenda_disarm (a : Nat) (q : List (Timeout η π)) : agenda now (q.map (Timeout.disarm a)) =
    (agenda now q).map (fun d => (d.1, d.2.disarm a)) := by
  induction q generalizing now with
  | nil => rfl
  | cons e q ih =>
    have hh := @ih (now + e.expires.micros)
    simp only [agenda] at hh ⊢
    simp [dueTimes, hh]

theorem queueNormal_disarm {a : Nat} (hq : QueueNormal q) : QueueNormal (q.map (Timeout.disarm a)) := by
  intro x hx
  obtain ⟨e, he, rfl⟩ := List.mem_map.mp hx
  simpa using hq e he

theorem agenda_selectWait (us now : Nat) (t : Timeouts η π) :
    agenda (now + (selectWait us t).1) (selectWait us t).2.queue = agenda now t.queue := by
  cases hq : t.queue with
  | nil => simp [selectWait, hq, agenda, dueTimes]
  | cons e rest =>
    have hw := dueTimes_wait now (min_le_right us e.expires.micros) e.tag (deltas rest)
    simpa [selectWait, hq, agenda] using hw

theorem selectWait_le (us : Nat) (t : Timeouts η π) : (selectWait us t).1 ≤ us := by
  cases hq : t.queue with
  | nil => simp [selectWait, hq]
  | cons e rest => simp [selectWait, hq]

theorem queueNormal_selectWait {us : Nat} {t : Timeouts η π} (hq : QueueNormal t.queue) :
    QueueNormal (selectWait us t).2.queue := by
  cases hc : t.queue with
  | nil => simp [selectWait, hc, QueueNormal]
  | cons e rest =>
    intro x hx
    simp only [selectWait, hc, List.mem_cons] at hx
    rcases hx with rfl | hx
    · exact normal_ofMicros _
    · exact hq x (by simp [hc, hx])

theorem agenda_cons_expired {e : Timeout η π} (he : e.expires.micros = 0) :
    agenda now (e :: q) = (now, e.tag) :: agenda now q := by
  simp [agenda, dueTimes, he]

end Agenda

end Lininoio
