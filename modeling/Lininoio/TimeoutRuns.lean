import Lininoio.TimeoutQueue
import Mathlib.Data.List.Induction
import Mathlib.Logic.Relation

/-! Runs of the timeout queue: the callers schedule, cancel and wait, and
`handle_timeouts` goes through its loop one iteration at a time, so that a
handler can schedule and cancel between two of its steps. -/

namespace Lininoio

open DeltaQueue Timeval

/-- What happens to timeouts, in the order in which it happens. Times count
the microseconds waited in select. -/
inductive TimeoutEvent
  | scheduled (addr ms now : Nat)
  | cancelled (addr : Nat)
  | removed (addr now : Nat)
  | invoked (addr now : Nat)

/-- Where the program is. The positions are the two loop variables of
`list_for_each_entry_safe`. -/
inductive HandlePc
  | idle
  | loop (pos tmp : Option Nat)
  | handler (tmp : Option Nat)
  | aborted

structure TimeoutRun (η π : Type) where
  timeouts : Timeouts η π
  pc : HandlePc
  now : Nat
  log : List TimeoutEvent

variable {η π : Type}

namespace TimeoutRun

def init : TimeoutRun η π := ⟨timeoutsInit, .idle, 0, []⟩

def schedule (ulongBits ms : Nat) (toh : Option η) (priv : π) (s : TimeoutRun η π) :
    TimeoutRun η π :=
  let r := scheduleTimeout ulongBits ms toh priv true s.timeouts
  { s with
    timeouts := r.2
    log := s.log ++ (r.1.map (fun a => TimeoutEvent.scheduled a ms s.now)).toList }

def cancel (a : Nat) (s : TimeoutRun η π) : Option (TimeoutRun η π) :=
  (cancelTimeout a s.timeouts).map
    (fun t => { s with timeouts := t, log := s.log ++ [.cancelled a] })

def wait (us : Nat) (s : TimeoutRun η π) : TimeoutRun η π :=
  let r := selectWait us s.timeouts
  { s with timeouts := r.2, now := s.now + r.1 }

/-- The call of `handle_timeouts` up to the first test of its loop. -/
def enter (s : TimeoutRun η π) : TimeoutRun η π :=
  let q := s.timeouts.queue
  if q.isEmpty then { s with pc := .aborted }
  else { s with pc := .loop (nextPos q none) (nextPos q (nextPos q none)) }

/-- `free(to)` and the step to the saved next entry. -/
def advance (tmp : Option Nat) (s : TimeoutRun η π) : TimeoutRun η π :=
  { s with timeouts := freeRunning s.timeouts, pc := .loop tmp (nextPos s.timeouts.queue tmp) }

/-- One iteration of the loop, up to the call of the handler if there is one. -/
def iterate (pos tmp : Option Nat) (s : TimeoutRun η π) : TimeoutRun η π :=
  match loopTest s.timeouts.queue pos with
  | .leave => { s with pc := .idle }
  | .freed => { s with pc := .aborted }
  | .expired e =>
    let s' := { s with
      timeouts := takeOff e s.timeouts
      log := s.log ++ [TimeoutEvent.removed e.addr s.now] }
    if e.handler.isNone then { s' with pc := .aborted }
    else if e.armed then
      { s' with pc := .handler tmp, log := s'.log ++ [TimeoutEvent.invoked e.addr s.now] }
    else s'.advance tmp

def CallerRuns (s : TimeoutRun η π) : Prop := s.pc = .idle ∨ ∃ tmp, s.pc = .handler tmp

/-- Schedules whose product with 1000 does not wrap, cancels of entries that
are not freed, waits of select, and `handle_timeouts` after select returned 0. -/
inductive Step (ulongBits : Nat) : TimeoutRun η π → TimeoutRun η π → Prop
  | schedule {s} (ms : Nat) (toh : Option η) (priv : π) (hpc : s.CallerRuns)
      (hms : ms * 1000 < 2 ^ ulongBits) : Step ulongBits s (s.schedule ulongBits ms toh priv)
  | cancel {s t} (a : Nat) (hpc : s.CallerRuns) (h : s.cancel a = some t) : Step ulongBits s t
  | wait {s} (us : Nat) (hpc : s.pc = .idle) : Step ulongBits s (s.wait us)
  | enter {s} (hpc : s.pc = .idle) (h : getNextTimeout s.timeouts = some zerot) :
      Step ulongBits s s.enter
  | iterate {s} (pos tmp : Option Nat) (hpc : s.pc = .loop pos tmp) :
      Step ulongBits s (s.iterate pos tmp)
  | handlerReturns {s} (tmp : Option Nat) (hpc : s.pc = .handler tmp) :
      Step ulongBits s (s.advance tmp)

abbrev Reachable (ulongBits : Nat) (s : TimeoutRun η π) : Prop :=
  Relation.ReflTransGen (Step ulongBits) init s

end TimeoutRun

namespace TimeoutEvent

/-- What has to hold of an event, given the events before it. A deadline is
the time of the scheduling plus the requested milliseconds; addresses number
the schedulings, so equal deadlines are served in the order of scheduling. -/
def Allowed (past : List TimeoutEvent) : TimeoutEvent → Prop
  | .scheduled a _ _ => ∀ b ms at', .scheduled b ms at' ∈ past → b < a
  | .cancelled _ => True
  | .removed a now => ∃ ms at', .scheduled a ms at' ∈ past ∧ now = at' + ms * 1000
  | .invoked a now =>
    (∃ ms at', .scheduled a ms at' ∈ past ∧ now = at' + ms * 1000) ∧
    .cancelled a ∉ past ∧
    (∀ at', .invoked a at' ∉ past) ∧
    ∀ b at', .invoked b at' ∈ past → at' < now ∨ at' = now ∧ b < a

end TimeoutEvent

def LogAllowed (log : List TimeoutEvent) : Prop :=
  ∀ past e future, log = past ++ e :: future → e.Allowed past

theorem logAllowed_nil : LogAllowed [] := by
  intro past e future h
  simp at h

theorem LogAllowed.snoc {log : List TimeoutEvent} {e : TimeoutEvent} (h : LogAllowed log)
    (he : e.Allowed log) : LogAllowed (log ++ [e]) := by
  intro past o future hs
  cases future using List.reverseRecOn with
  | nil =>
    have hh := List.append_inj_left' hs (by simp)
    have ho := List.append_inj_right' hs (by simp)
    simp only [List.cons.injEq, and_true] at ho
    rw [← ho, ← hh]
    exact he
  | append_singleton future x =>
    apply h past o future
    have hs' : log ++ [e] = (past ++ o :: future) ++ [x] := by simpa using hs
    exact List.append_inj_left' hs' (by simp)

/-- What the events of the past say about the queue, as a list of deadlines. -/
structure AgendaOk (A : List (Nat × Tag η π)) (fresh now : Nat) (log : List TimeoutEvent) :
    Prop where
  handlers : ∀ d ∈ A, d.2.handler.isSome = true
  addr_lt : ∀ d ∈ A, d.2.addr < fresh
  due : ∀ d ∈ A, ∃ ms at', .scheduled d.2.addr ms at' ∈ log ∧ d.1 = at' + ms * 1000
  sorted : A.Pairwise (fun d e => d.1 < e.1 ∨ d.1 = e.1 ∧ d.2.addr < e.2.addr)
  distinct : A.Pairwise (fun d e => d.2.addr ≠ e.2.addr)
  born : ∀ a ms at', .scheduled a ms at' ∈ log → a < fresh
  past : ∀ a at', .invoked a at' ∈ log → at' ≤ now ∧ a < fresh ∧
    ∀ d ∈ A, a ≠ d.2.addr ∧ (at' < d.1 ∨ at' = d.1 ∧ a < d.2.addr)
  cancelled : ∀ a, .cancelled a ∈ log → a < fresh ∧ ∀ d ∈ A, d.2.addr = a → d.2.armed = false
  log : LogAllowed log

namespace AgendaOk

variable {A : List (Nat × Tag η π)} {fresh now : Nat} {log : List TimeoutEvent}

theorem schedule (h : AgendaOk A fresh now log) (ms : Nat) (toh : η) (priv : π) :
    AgendaOk (insertDue (now + ms * 1000) ⟨fresh, some toh, priv, true⟩ A) (fresh + 1) now
      (log ++ [.scheduled fresh ms now]) := by
  have hdue : DueSorted A := h.sorted.imp (fun hd => hd.elim le_of_lt (fun he => he.1.le))
  obtain ⟨pre, post, hA, hins, hpre, hpost⟩ := insertDue_split (t := now + ms * 1000)
    (x := (⟨fresh, some toh, priv, true⟩ : Tag η π)) hdue
  have hlt : ∀ d ∈ pre ++ post, d.2.addr < fresh := hA ▸ h.addr_lt
  refine ⟨?_, ?_, ?_, ?_, ?_, ?_, ?_, ?_, ?_⟩
  · intro d hd
    rcases mem_insertDue.mp hd with rfl | hd
    · rfl
    · exact h.handlers d hd
  · intro d hd
    rcases mem_insertDue.mp hd with rfl | hd
    · exact Nat.lt_succ_self fresh
    · exact (h.addr_lt d hd).trans (Nat.lt_succ_self fresh)
  · intro d hd
    rcases mem_insertDue.mp hd with rfl | hd
    · exact ⟨ms, now, by simp, rfl⟩
    · obtain ⟨m, at', hm, he⟩ := h.due d hd
      exact ⟨m, at', List.mem_append_left _ hm, he⟩
  · have hs := List.pairwise_append.mp (hA ▸ h.sorted)
    rw [hins, List.pairwise_append, List.pairwise_cons]
    refine ⟨hs.1, ⟨fun d hd => .inl (hpost d hd), hs.2.1⟩, ?_⟩
    intro d hd e he
    rcases List.mem_cons.mp he with rfl | he
    · exact (hpre d hd).lt_or_eq.imp_right
        (fun heq => ⟨heq, hlt d (List.mem_append_left _ hd)⟩)
    · exact hs.2.2 d hd e he
  · have hs := List.pairwise_append.mp (hA ▸ h.distinct)
    rw [hins, List.pairwise_append, List.pairwise_cons]
    refine ⟨hs.1, ⟨fun d hd => (hlt d (List.mem_append_right _ hd)).ne', hs.2.1⟩, ?_⟩
    intro d hd e he
    rcases List.mem_cons.mp he with rfl | he
    · exact (hlt d (List.mem_append_left _ hd)).ne
    · exact hs.2.2 d hd e he
  · intro a m at' hm
    rcases List.mem_append.mp hm with hm | hm
    · exact (h.born a m at' hm).trans (Nat.lt_succ_self fresh)
    · obtain ⟨rfl, _⟩ := by simpa using hm
      exact Nat.lt_succ_self _
  · intro a at' hm
    have hm' : .invoked a at' ∈ log := by simpa using hm
    obtain ⟨hat, ha, hall⟩ := h.past a at' hm'
    refine ⟨hat, ha.trans (Nat.lt_succ_self fresh), fun d hd => ?_⟩
    rcases mem_insertDue.mp hd with rfl | hd
    · exact ⟨ha.ne, (hat.trans (Nat.le_add_right now _)).lt_or_eq.imp_right (fun he => ⟨he, ha⟩)⟩
    · exact hall d hd
  · intro a hm
    have hm' : .cancelled a ∈ log := by simpa using hm
    obtain ⟨ha, hall⟩ := h.cancelled a hm'
    refine ⟨ha.trans (Nat.lt_succ_self fresh), fun d hd he => ?_⟩
    rcases mem_insertDue.mp hd with rfl | hd
    · exact absurd he ha.ne'
    · exact hall d hd he
  · exact h.log.snoc (fun b m at' hm => h.born b m at' hm)

theorem cancel (h : AgendaOk A fresh now log) {a : Nat} (ha : a < fresh) :
    AgendaOk (A.map (fun d => (d.1, d.2.disarm a))) fresh now (log ++ [.cancelled a]) := by
  have haddr : ∀ t : Tag η π, (t.disarm a).addr = t.addr := by
    intro t
    by_cases ht : t.addr = a <;> simp [Tag.disarm, ht]
  refine ⟨?_, ?_, ?_, ?_, ?_, ?_, ?_, ?_, ?_⟩
  · intro d hd
    obtain ⟨e, he, rfl⟩ := List.mem_map.mp hd
    have hh := h.handlers e he
    by_cases ht : e.2.addr = a <;> simpa [Tag.disarm, ht] using hh
  · intro d hd
    obtain ⟨e, he, rfl⟩ := List.mem_map.mp hd
    simpa [haddr] using h.addr_lt e he
  · intro d hd
    obtain ⟨e, he, rfl⟩ := List.mem_map.mp hd
    obtain ⟨ms, at', hm, hdue⟩ := h.due e he
    exact ⟨ms, at', by simp [haddr, hm], hdue⟩
  · rw [List.pairwise_map]
    simpa [haddr] using h.sorted
  · rw [List.pairwise_map]
    simpa [haddr] using h.distinct
  · intro b m at' hm
    exact h.born b m at' (by simpa using hm)
  · intro b at' hm
    obtain ⟨hat, hb, hall⟩ := h.past b at' (by simpa using hm)
    refine ⟨hat, hb, fun d hd => ?_⟩
    obtain ⟨e, he, rfl⟩ := List.mem_map.mp hd
    simpa [haddr] using hall e he
  · intro b hm
    have hm' : .cancelled b ∈ log ∨ b = a := by simpa using hm
    refine ⟨hm'.elim (fun hb => (h.cancelled b hb).1) (fun he => he ▸ ha), fun d hd he => ?_⟩
    obtain ⟨e, hmem, rfl⟩ := List.mem_map.mp hd
    by_cases ht : e.2.addr = a
    · simp [Tag.disarm, ht]
    · have hb : b ≠ a := fun hba => ht (by rw [← hba, ← he, haddr])
      have hold := (h.cancelled b (hm'.resolve_right hb)).2 e hmem (by rw [← he, haddr])
      simpa [Tag.disarm, ht] using hold
  · exact h.log.snoc trivial

theorem wait (h : AgendaOk A fresh now log) (waited : Nat) : AgendaOk A fresh (now + waited) log :=
  { h with past := fun a at' hm =>
      ⟨(h.past a at' hm).1.trans (Nat.le_add_right now waited), (h.past a at' hm).2⟩ }

theorem remove {t : Tag η π} (h : AgendaOk ((now, t) :: A) fresh now log) :
    AgendaOk A fresh now (log ++ [.removed t.addr now]) where
  handlers d hd := h.handlers d (List.mem_cons_of_mem _ hd)
  addr_lt d hd := h.addr_lt d (List.mem_cons_of_mem _ hd)
  due d hd := by
    obtain ⟨ms, at', hm, he⟩ := h.due d (List.mem_cons_of_mem _ hd)
    exact ⟨ms, at', List.mem_append_left _ hm, he⟩
  sorted := (List.pairwise_cons.mp h.sorted).2
  distinct := (List.pairwise_cons.mp h.distinct).2
  born a m at' hm := h.born a m at' (by simpa using hm)
  past a at' hm := by
    obtain ⟨hat, ha, hall⟩ := h.past a at' (by simpa using hm)
    exact ⟨hat, ha, fun d hd => hall d (List.mem_cons_of_mem _ hd)⟩
  cancelled a hm := by
    obtain ⟨ha, hall⟩ := h.cancelled a (by simpa using hm)
    exact ⟨ha, fun d hd => hall d (List.mem_cons_of_mem _ hd)⟩
  log := h.log.snoc (h.due (now, t) (by simp))

theorem invoke {t : Tag η π} (h : AgendaOk ((now, t) :: A) fresh now log) (ht : t.armed = true) :
    AgendaOk A fresh now (log ++ [.removed t.addr now] ++ [.invoked t.addr now]) := by
  have hr := h.remove
  have hfirst := (List.pairwise_cons.mp h.sorted).1
  have hother := (List.pairwise_cons.mp h.distinct).1
  refine { hr with
    due := fun d hd => ?_
    born := fun a m at' hm => hr.born a m at' (by simpa using hm)
    past := fun a at' hm => ?_
    cancelled := fun a hm => hr.cancelled a (by simpa using hm)
    log := hr.log.snoc ⟨?_, ?_, ?_, ?_⟩ }
  · obtain ⟨ms, at', hm, he⟩ := hr.due d hd
    exact ⟨ms, at', List.mem_append_left _ hm, he⟩
  · rcases List.mem_append.mp hm with hm | hm
    · exact hr.past a at' hm
    · obtain ⟨rfl, rfl⟩ : a = t.addr ∧ at' = now := by simpa using hm
      exact ⟨le_rfl, h.addr_lt (at', t) (by simp), fun d hd => ⟨hother d hd, hfirst d hd⟩⟩
  · obtain ⟨ms, at', hm, he⟩ := h.due (now, t) (by simp)
    exact ⟨ms, at', List.mem_append_left _ hm, he⟩
  · intro hm
    have hh := (h.cancelled t.addr (by simpa using hm)).2 (now, t) (by simp) rfl
    simp [ht] at hh
  · intro at' hm
    exact ((h.past t.addr at' (by simpa using hm)).2.2 (now, t) (by simp)).1 rfl
  · intro b at' hm
    exact ((h.past b at' (by simpa using hm)).2.2 (now, t) (by simp)).2

end AgendaOk

/-- The saved next entry stays valid whatever the handler schedules: it is the first of the
queue, or it is not due. -/
def CursorOk (pos : Option Nat) (q : List (Timeout η π)) : Prop :=
  ∀ a, pos = some a → ∃ e ∈ q, e.addr = a ∧ (e.expires.micros ≠ 0 ∨ q.head? = some e)

section Cursor

variable {q : List (Timeout η π)} {e x : Timeout η π} {pos : Option Nat}

theorem insertTimeout_pending (ht : e.expires.Normal) (hq : QueueNormal q) (hx : x ∈ q)
    (h0 : x.expires.micros ≠ 0) :
    ∃ y ∈ insertTimeout e q, y.addr = x.addr ∧ y.expires.micros ≠ 0 := by
  induction q generalizing e with
  | nil => simp at hx
  | cons ptr rest ih =>
    have hptr : ptr.expires.Normal := hq ptr (by simp)
    have hcmp := ht.timercmpLt_iff hptr
    by_cases hlt : e.expires.micros < ptr.expires.micros
    · simp only [insertTimeout, hcmp.mpr hlt, if_true]
      rcases List.mem_cons.mp hx with rfl | hx
      · refine ⟨_, List.mem_cons_of_mem _ List.mem_cons_self, rfl, ?_⟩
        rw [(hptr.timersub ht hlt.le).2]
        omega
      · exact ⟨x, by simp [hx], rfl, h0⟩
    · have hno : timercmpLt e.expires ptr.expires = false :=
        Bool.eq_false_iff.mpr (fun h => hlt (hcmp.mp h))
      simp only [insertTimeout, hno, Bool.false_eq_true, if_false]
      rcases List.mem_cons.mp hx with rfl | hx
      · exact ⟨x, by simp, rfl, h0⟩
      · have hs := ht.timersub hptr (not_lt.mp hlt)
        obtain ⟨y, hy, hh⟩ := ih (e := { e with expires := timersub e.expires ptr.expires }) hs.1
          (fun z hz => hq z (List.mem_cons_of_mem _ hz)) hx
        exact ⟨y, List.mem_cons_of_mem _ hy, hh⟩

theorem CursorOk.insertTimeout (h : CursorOk pos q) (ht : e.expires.Normal) (hq : QueueNormal q) :
    CursorOk pos (insertTimeout e q) := by
  intro a ha
  obtain ⟨x, hx, rfl, hcur⟩ := h a ha
  by_cases h0 : x.expires.micros = 0
  · have hhead : q.head? = some x := hcur.resolve_left (by simp [h0])
    obtain ⟨rest, rfl⟩ : ∃ rest, q = x :: rest := by
      cases q with
      | nil => simp at hhead
      | cons y ys => exact ⟨ys, by simpa using hhead⟩
    have hno : timercmpLt e.expires x.expires = false := by
      apply Bool.eq_false_iff.mpr
      intro hlt
      have hh := (ht.timercmpLt_iff (hq x (by simp))).mp hlt
      omega
    exact ⟨x, by simp [Lininoio.insertTimeout, hno], rfl,
      .inr (by simp [Lininoio.insertTimeout, hno])⟩
  · obtain ⟨y, hy, he, hne⟩ := insertTimeout_pending ht hq hx h0
    exact ⟨y, hy, he, .inl hne⟩

theorem CursorOk.disarm (h : CursorOk pos q) (a : Nat) : CursorOk pos (q.map (Timeout.disarm a)) := by
  intro b hb
  obtain ⟨x, hx, rfl, hcur⟩ := h b hb
  refine ⟨x.disarm a, List.mem_map_of_mem hx, by simp, ?_⟩
  exact hcur.imp (fun h0 => by simpa using h0) (fun hhead => by simp [hhead])

theorem cursorOk_head : CursorOk (nextPos q none) q := by
  intro a ha
  cases q with
  | nil => simp [nextPos] at ha
  | cons x rest => exact ⟨x, by simp, by simpa [nextPos] using ha, .inr rfl⟩

end Cursor

namespace TimeoutRun

def PcOk (q : List (Timeout η π)) : HandlePc → Prop
  | .idle => True
  | .loop pos tmp => CursorOk pos q ∧ tmp = nextPos q pos
  | .handler tmp => CursorOk tmp q
  | .aborted => False

structure Ok (s : TimeoutRun η π) : Prop where
  normal : QueueNormal s.timeouts.queue
  agenda : AgendaOk (agenda s.now s.timeouts.queue) s.timeouts.fresh s.now s.log
  running : ∀ e ∈ s.timeouts.running, e.addr < s.timeouts.fresh
  pc : PcOk s.timeouts.queue s.pc

variable {s t : TimeoutRun η π}

theorem ok_init : Ok (init : TimeoutRun η π) where
  normal e he := by simp [init, timeoutsInit] at he
  agenda := by
    refine ⟨?_, ?_, ?_, ?_, ?_, ?_, ?_, ?_, logAllowed_nil⟩ <;>
      simp [init, timeoutsInit, Lininoio.agenda, dueTimes]
  running e he := by simp [init, timeoutsInit] at he
  pc := trivial

theorem CallerRuns.pcOk {q q' : List (Timeout η π)} (hpc : s.CallerRuns) (h : PcOk q s.pc)
    (hq : ∀ pos, CursorOk pos q → CursorOk pos q') : PcOk q' s.pc := by
  rcases hpc with hpc | ⟨tmp, hpc⟩
  · simp [hpc, PcOk]
  · rw [hpc] at h ⊢
    exact hq tmp h

theorem Ok.schedule (h : Ok s) (hpc : s.CallerRuns) {ulongBits ms : Nat}
    (hms : ms * 1000 < 2 ^ ulongBits) (toh : Option η) (priv : π) :
    Ok (s.schedule ulongBits ms toh priv) := by
  cases toh with
  | none =>
    have hagenda := h.agenda
    exact ⟨h.normal, by simpa [TimeoutRun.schedule, scheduleTimeout] using hagenda, h.running, h.pc⟩
  | some f =>
    have hn := normal_ofMillis ulongBits ms
    refine ⟨?_, ?_, ?_, ?_⟩
    · exact (deltas_insertTimeout (e := ⟨_, _, some f, priv, true⟩) hn h.normal).1
    · have hh := h.agenda.schedule ms f priv
      simpa [TimeoutRun.schedule, scheduleTimeout, agenda_insertTimeout, hn, h.normal,
        micros_ofMillis hms, Timeout.tag] using hh
    · intro e he
      exact (h.running e he).trans (Nat.lt_succ_self _)
    · exact hpc.pcOk h.pc (fun pos hc => hc.insertTimeout hn h.normal)

theorem Ok.addr_lt (h : Ok s) {a : Nat} (ha : s.timeouts.Live a) : a < s.timeouts.fresh := by
  rcases ha with ha | ha
  · obtain ⟨e, he, rfl⟩ := List.mem_map.mp ha
    obtain ⟨u, hu⟩ := exists_due s.now he
    exact h.agenda.addr_lt _ hu
  · obtain ⟨e, he, rfl⟩ := Option.map_eq_some_iff.mp (Option.mem_def.mp ha)
    exact h.running e he

theorem Ok.cancel (h : Ok s) (hpc : s.CallerRuns) {a : Nat} (hc : s.cancel a = some t) : Ok t := by
  simp only [TimeoutRun.cancel, cancelTimeout] at hc
  split at hc
  case isFalse => simp at hc
  case isTrue hlive =>
    obtain rfl := by simpa using hc.symm
    refine ⟨queueNormal_disarm h.normal, ?_, ?_, hpc.pcOk h.pc (fun pos hcur => hcur.disarm a)⟩
    · simpa only [agenda_disarm] using h.agenda.cancel (h.addr_lt hlive)
    · intro e he
      obtain ⟨x, hx, rfl⟩ := Option.map_eq_some_iff.mp (Option.mem_def.mp he)
      simpa using h.running x hx

theorem Ok.wait (h : Ok s) (hpc : s.pc = .idle) (us : Nat) : Ok (s.wait us) := by
  refine ⟨queueNormal_selectWait h.normal, ?_, ?_, by simp [TimeoutRun.wait, hpc, PcOk]⟩
  · have hh := h.agenda.wait (selectWait us s.timeouts).1
    rw [← agenda_selectWait us] at hh
    cases hq : s.timeouts.queue <;> simpa [TimeoutRun.wait, selectWait, hq] using hh
  · intro e he
    have hh := h.running e
    cases hq : s.timeouts.queue <;> simp_all [TimeoutRun.wait, selectWait]

theorem Ok.enter (h : Ok s) (hz : getNextTimeout s.timeouts = some zerot) : Ok s.enter := by
  cases hq : s.timeouts.queue with
  | nil => simp [getNextTimeout, hq] at hz
  | cons e rest =>
    have hne : s.timeouts.queue.isEmpty = false := by simp [hq]
    simp only [TimeoutRun.enter, hne, Bool.false_eq_true, if_false]
    exact ⟨h.normal, h.agenda, h.running, cursorOk_head, rfl⟩

theorem Ok.advance (h : Ok s) {tmp : Option Nat} (hc : CursorOk tmp s.timeouts.queue) :
    Ok (s.advance tmp) :=
  ⟨h.normal, h.agenda, by simp [TimeoutRun.advance, freeRunning], hc, rfl⟩

theorem find?_addr {q : List (Timeout η π)} {e : Timeout η π} (hd : (q.map Timeout.addr).Nodup)
    (he : e ∈ q) : q.find? (fun x => x.addr = e.addr) = some e := by
  induction q with
  | nil => simp at he
  | cons x q ih =>
    have hq := List.nodup_cons.mp hd
    rcases List.mem_cons.mp he with rfl | he
    · simp
    · have hx : x.addr ≠ e.addr := fun hx => hq.1 (hx ▸ List.mem_map_of_mem he)
      simpa [List.find?_cons, hx] using ih hq.2 he

theorem Ok.addr_nodup (h : Ok s) : (s.timeouts.queue.map Timeout.addr).Nodup := by
  have hd : ((Lininoio.agenda s.now s.timeouts.queue).map (fun d => d.2.addr)).Nodup :=
    List.pairwise_map.mpr h.agenda.distinct
  have hm : (Lininoio.agenda s.now s.timeouts.queue).map (fun d => d.2.addr) =
      s.timeouts.queue.map Timeout.addr := by
    have hh := congrArg (List.map Tag.addr) (map_snd_agenda s.now s.timeouts.queue)
    simpa [Function.comp_def, Timeout.tag] using hh
  exact hm ▸ hd

theorem Ok.iterate (h : Ok s) {pos tmp : Option Nat} (hpc : s.pc = .loop pos tmp) :
    Ok (s.iterate pos tmp) := by
  have hcur : CursorOk pos s.timeouts.queue ∧ tmp = nextPos s.timeouts.queue pos := by
    simpa only [hpc, PcOk] using h.pc
  cases pos with
  | none => exact ⟨h.normal, h.agenda, h.running, trivial⟩
  | some a =>
    obtain ⟨e, he, rfl, hfirst⟩ := hcur.1 a rfl
    have hfind := find?_addr h.addr_nodup he
    have hzero := (h.normal e he).timercmpEq_zerot_iff
    by_cases h0 : e.expires.micros = 0
    · obtain ⟨rest, hq⟩ : ∃ rest, s.timeouts.queue = e :: rest := by
        have hhead := hfirst.resolve_left (by simp [h0])
        cases hq : s.timeouts.queue with
        | nil => simp [hq] at he
        | cons x rest => exact ⟨rest, by simpa [hq] using hhead⟩
      have hag : AgendaOk ((s.now, e.tag) :: Lininoio.agenda s.now rest) s.timeouts.fresh
        s.now s.log := by
        simpa only [hq, agenda_cons_expired h0] using h.agenda
      have hsome : e.handler.isNone = false := by
        simpa [Timeout.tag, ← Option.isSome_iff_ne_none] using hag.handlers (s.now, e.tag) (by simp)
      have hlt : e.addr < s.timeouts.fresh := hag.addr_lt (s.now, e.tag) (by simp)
      have hnormal : QueueNormal rest := fun x hx => h.normal x (by simp [hq, hx])
      have htmp : tmp = nextPos rest none := by rw [hcur.2, hq, nextPos_head]
      have htest : loopTest s.timeouts.queue (some e.addr) = .expired e := by
        simp [loopTest, hfind, hzero.mpr h0]
      have hoff : takeOff e s.timeouts =
          { s.timeouts with queue := rest, running := some e } := by simp [takeOff, hq]
      simp only [TimeoutRun.iterate, htest, hsome, Bool.false_eq_true, if_false, hoff]
      by_cases harmed : e.armed = true
      · simp only [harmed, if_true]
        exact ⟨hnormal, hag.invoke harmed, by simpa using hlt, htmp ▸ cursorOk_head⟩
      · simp only [harmed, Bool.false_eq_true, if_false]
        have hs : Ok { s with
            timeouts := { s.timeouts with queue := rest, running := some e }
            log := s.log ++ [.removed e.addr s.now]
            pc := .idle } := ⟨hnormal, hag.remove, by simpa using hlt, trivial⟩
        exact hs.advance (htmp ▸ cursorOk_head)
    · have htest : loopTest s.timeouts.queue (some e.addr) = .leave := by
        have hne : timercmpEq e.expires zerot = false :=
          Bool.eq_false_iff.mpr (fun hz => h0 (hzero.mp hz))
        simp [loopTest, hfind, hne]
      simp only [TimeoutRun.iterate, htest]
      exact ⟨h.normal, h.agenda, h.running, trivial⟩

theorem Ok.step {ulongBits : Nat} (h : Ok s) (hs : Step ulongBits s t) : Ok t := by
  cases hs with
  | schedule ms toh priv hpc hms => exact h.schedule hpc hms toh priv
  | cancel a hpc hc => exact h.cancel hpc hc
  | wait us hpc => exact h.wait hpc us
  | enter hpc hz => exact h.enter hz
  | iterate pos tmp hpc => exact h.iterate hpc
  | handlerReturns tmp hpc => exact h.advance (by simpa only [hpc, PcOk] using h.pc)

theorem Reachable.ok {ulongBits : Nat} (h : Reachable ulongBits s) : Ok s := by
  induction h with
  | refl => exact ok_init
  | tail _ hs ih => exact ih.step hs

/-- Whatever the interleaving of schedules, cancels, waits and iterations of
`handle_timeouts`, its handlers included, every event is allowed by the events
before it and no assertion fails. -/
theorem timeouts_served_in_order {ulongBits : Nat} (h : Reachable ulongBits s) :
    s.pc ≠ .aborted ∧ LogAllowed s.log := by
  have hh := h.ok
  refine ⟨fun he => ?_, hh.agenda.log⟩
  have hpc := hh.pc
  simp [he, PcOk] at hpc

def firstInvoked : TimeoutRun Unit Unit :=
  ((((init.schedule 64 3 (some ()) ()).schedule 64 3 (some ()) ()).wait 3000).enter).iterate
    (some 0) (some 1)

def secondCancelled : TimeoutRun Unit Unit := (firstInvoked.cancel 1).getD firstInvoked

def firstServed : TimeoutRun Unit Unit :=
  (((secondCancelled.schedule 64 2 (some ()) ()).advance (some 1)).iterate (some 1) (some 2)).iterate
    (some 2) none

def thirdInvoked : TimeoutRun Unit Unit := ((firstServed.wait 2000).enter).iterate (some 2) none

theorem reachable_firstInvoked : Reachable 64 firstInvoked := by
  have hidle : (init : TimeoutRun Unit Unit).CallerRuns := .inl rfl
  have hfirst : Reachable 64 (init.schedule 64 3 (some ()) () : TimeoutRun Unit Unit) :=
    .tail .refl (.schedule 3 (some ()) () hidle (by decide))
  have hsecond := hfirst.tail (.schedule 3 (some ()) () (.inl rfl) (by decide))
  have hentered := (hsecond.tail (.wait 3000 rfl)).tail (.enter rfl (by decide))
  exact hentered.tail (.iterate (some 0) (some 1) rfl)

theorem reachable_firstServed : Reachable 64 firstServed := by
  have hcancelled : Reachable 64 secondCancelled :=
    reachable_firstInvoked.tail (.cancel 1 (.inr ⟨some 1, rfl⟩) rfl)
  have hthird := hcancelled.tail (.schedule 2 (some ()) () (.inr ⟨some 1, rfl⟩) (by decide))
  have hreturned := hthird.tail (.handlerReturns (some 1) rfl)
  exact (hreturned.tail (.iterate (some 1) (some 2) rfl)).tail (.iterate (some 2) none rfl)

theorem handler_cancels_and_schedules : thirdInvoked.pc ≠ .aborted ∧ LogAllowed thirdInvoked.log ∧
    thirdInvoked.log = [.scheduled 0 3 0, .scheduled 1 3 0, .removed 0 3000, .invoked 0 3000,
      .cancelled 1, .scheduled 2 2 3000, .removed 1 3000, .removed 2 5000, .invoked 2 5000] := by
  have hentered := (reachable_firstServed.tail (.wait 2000 rfl)).tail (.enter rfl (by decide))
  have hserved := timeouts_served_in_order (hentered.tail (.iterate (some 2) none rfl))
  exact ⟨hserved.1, hserved.2, rfl⟩

end TimeoutRun

end Lininoio
