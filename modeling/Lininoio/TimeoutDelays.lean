import Lininoio.TimeoutQueue
import Mathlib.Data.Nat.ModEq
import Mathlib.Logic.Relation

/-! Where `schedule_timeout` puts an entry, and the delays between the entries of two calls, for
any numbers of milliseconds: the product with 1000 may wrap. -/

namespace Lininoio

open DeltaQueue Timeval

variable {η π : Type}

theorem dueSorted_agenda (q : List (Timeout η π)) : DueSorted (agenda 0 q) :=
  dueSorted_dueTimes 0 (deltas q)

/-- The queue `q'` is `q` with an entry put in by its deadline. -/
structure InsertedAt (d : Nat) (x : Tag η π) (q q' : List (Timeout η π)) : Prop where
  normal : QueueNormal q'
  placed : ∃ pre post, agenda 0 q = pre ++ post ∧ agenda 0 q' = pre ++ (d, x) :: post ∧
    (∀ a ∈ pre, a.1 ≤ d) ∧ ∀ a ∈ post, d < a.1

/-- The entries in the queue keep their deadlines and their order. -/
theorem insertTimeout_insertedAt {e : Timeout η π} {q : List (Timeout η π)}
    (he : e.expires.Normal) (hq : QueueNormal q) :
    InsertedAt e.expires.micros e.tag q (insertTimeout e q) := by
  refine ⟨(deltas_insertTimeout he hq).1, ?_⟩
  have hagenda := agenda_insertTimeout 0 he hq
  rw [Nat.zero_add] at hagenda
  obtain ⟨pre, post, hsplit, hins, hpre, hpost⟩ := insertDue_split (t := e.expires.micros)
    (x := e.tag) (dueSorted_agenda q)
  exact ⟨pre, post, hsplit, hagenda.trans hins, hpre, hpost⟩

def queuedTimeout (addr : Nat) (expires : Timeval) : Timeout Unit Unit :=
  ⟨addr, expires, some (), (), true⟩

theorem queuedTimeout_insertedAt :
    InsertedAt 2700000 (queuedTimeout 2 ⟨2, 700000⟩).tag
      [queuedTimeout 0 ⟨2, 700000⟩, queuedTimeout 1 ⟨1, 200000⟩]
      (insertTimeout (queuedTimeout 2 ⟨2, 700000⟩)
        [queuedTimeout 0 ⟨2, 700000⟩, queuedTimeout 1 ⟨1, 200000⟩]) := by
  refine insertTimeout_insertedAt (e := queuedTimeout 2 ⟨2, 700000⟩)
    ⟨by decide, by decide, by decide⟩ fun x hx => ?_
  simp only [List.mem_cons, List.not_mem_nil, or_false] at hx
  rcases hx with rfl | rfl
  · exact ⟨by decide, by decide, by decide⟩
  · exact ⟨by decide, by decide, by decide⟩

/-- The deltas are normalised, and malloc has returned the addresses before. -/
structure Timeouts.Ok (t : Timeouts η π) : Prop where
  normal : QueueNormal t.queue
  addr_lt : ∀ e ∈ t.queue, e.addr < t.fresh

theorem timeoutsInit_ok : (timeoutsInit : Timeouts η π).Ok :=
  ⟨by simp [QueueNormal, timeoutsInit], by simp [timeoutsInit]⟩

/-- What the program does to the queue: any calls of its users, waits in select, and the steps of
`handle_timeouts` that take entries off. -/
inductive Timeouts.Step (ulongBits : Nat) : Timeouts η π → Timeouts η π → Prop
  | schedule {t} (ms : Nat) (toh : Option η) (priv : π) (mem : Bool) :
      Step ulongBits t (scheduleTimeout ulongBits ms toh priv mem t).2
  | cancel {t u} (a : Nat) (h : cancelTimeout a t = some u) : Step ulongBits t u
  | wait {t} (us : Nat) : Step ulongBits t (selectWait us t).2
  | takeOff {t} (e : Timeout η π) : Step ulongBits t (takeOff e t)
  | free {t} : Step ulongBits t (freeRunning t)

theorem mem_insertTimeout_addr {e x : Timeout η π} {q : List (Timeout η π)}
    (hx : x ∈ insertTimeout e q) : x.addr = e.addr ∨ ∃ y ∈ q, x.addr = y.addr := by
  have htag : x.tag ∈ e.tag :: q.map Timeout.tag :=
    (insertTimeout_perm e q).mem_iff.mp (List.mem_map_of_mem hx)
  rcases List.mem_cons.mp htag with htag | htag
  · exact .inl (congrArg Tag.addr htag)
  · obtain ⟨y, hy, hyx⟩ := List.mem_map.mp htag
    exact .inr ⟨y, hy, (congrArg Tag.addr hyx).symm⟩

theorem Timeouts.Ok.schedule {t : Timeouts η π} (h : t.Ok) (ulongBits ms : Nat) (toh : Option η)
    (priv : π) (mem : Bool) : (scheduleTimeout ulongBits ms toh priv mem t).2.Ok := by
  cases toh with
  | none => exact h
  | some f =>
    cases mem with
    | false => exact h
    | true =>
      refine ⟨(deltas_insertTimeout (normal_ofMillis ulongBits ms) h.normal).1, fun x hx => ?_⟩
      rcases mem_insertTimeout_addr hx with hx | ⟨y, hy, hx⟩
      · rw [hx]
        exact Nat.lt_succ_self _
      · rw [hx]
        exact (h.addr_lt y hy).trans (Nat.lt_succ_self _)

theorem Timeouts.Ok.step {ulongBits : Nat} {t u : Timeouts η π} (h : t.Ok)
    (hs : Timeouts.Step ulongBits t u) : u.Ok := by
  cases hs with
  | schedule ms toh priv mem => exact h.schedule ulongBits ms toh priv mem
  | cancel a hc =>
    simp only [cancelTimeout] at hc
    split at hc
    case isFalse => simp at hc
    case isTrue =>
      obtain rfl := by simpa using hc.symm
      refine ⟨queueNormal_disarm h.normal, fun x hx => ?_⟩
      obtain ⟨y, hy, rfl⟩ := List.mem_map.mp hx
      rw [addr_disarm]
      exact h.addr_lt y hy
  | wait us =>
    refine ⟨queueNormal_selectWait h.normal, ?_⟩
    cases hq : t.queue with
    | nil => simp [selectWait, hq]
    | cons e rest =>
      have haddr := h.addr_lt
      simpa [selectWait, hq] using haddr
  | takeOff e =>
    exact ⟨fun x hx => h.normal x (List.mem_of_mem_eraseP hx),
      fun x hx => h.addr_lt x (List.mem_of_mem_eraseP hx)⟩
  | free => exact ⟨h.normal, h.addr_lt⟩

theorem Timeouts.ok_of_reached {ulongBits : Nat} {t : Timeouts η π}
    (h : Relation.ReflTransGen (Timeouts.Step ulongBits) timeoutsInit t) : t.Ok := by
  induction h with
  | refl => exact timeoutsInit_ok
  | tail _ hs ih => exact ih.step hs

/-- How often the product of the milliseconds with 1000 wraps. -/
def wraps (ulongBits ms : Nat) : Nat := ms * 1000 / 2 ^ ulongBits

def wrapLoss (ulongBits ms : Nat) : Nat := wraps ulongBits ms * 2 ^ ulongBits % 1000000

/-- Two delays wrap equally often, and in both or in none of them the microseconds are more than
the wraps take from them. -/
def SameWraps (ulongBits ms₁ ms₂ : Nat) : Prop :=
  wraps ulongBits ms₁ = wraps ulongBits ms₂ ∧
    (wrapLoss ulongBits ms₁ ≤ ms₁ % 1000 * 1000 ↔ wrapLoss ulongBits ms₂ ≤ ms₂ % 1000 * 1000)

section Wraps

variable {ulongBits ms ms₁ ms₂ : Nat}

theorem micros_ofMillis_add_wrapLoss (ulongBits ms : Nat) :
    (ofMillis ulongBits ms).micros + wrapLoss ulongBits ms =
      ms * 1000 + if wrapLoss ulongBits ms ≤ ms % 1000 * 1000 then 0 else 1000000 := by
  have hdiv : 2 ^ ulongBits * wraps ulongBits ms + ms * 1000 % 2 ^ ulongBits = ms * 1000 :=
    Nat.div_add_mod _ _
  rw [Nat.mul_comm] at hdiv
  by_cases hle : wrapLoss ulongBits ms ≤ ms % 1000 * 1000
  · rw [if_pos hle]
    simp only [micros, ofMillis, wrapLoss] at hle ⊢
    omega
  · rw [if_neg hle]
    simp only [micros, ofMillis, wrapLoss] at hle ⊢
    omega

theorem wraps_lt (h : ms < 2 ^ ulongBits) : wraps ulongBits ms < 1000 := by
  refine Nat.div_lt_of_lt_mul ?_
  omega

theorem wrapLoss_eq_iff (h₁ : ms₁ < 2 ^ ulongBits) (h₂ : ms₂ < 2 ^ ulongBits) :
    wrapLoss ulongBits ms₁ = wrapLoss ulongBits ms₂ ↔ wraps ulongBits ms₁ = wraps ulongBits ms₂ := by
  refine ⟨fun hh => ?_, fun hh => by rw [wrapLoss, wrapLoss, hh]⟩
  have hlt₁ := wraps_lt h₁
  have hlt₂ := wraps_lt h₂
  have hmod : Nat.ModEq 15625 (wraps ulongBits ms₁ * 2 ^ ulongBits)
      (wraps ulongBits ms₂ * 2 ^ ulongBits) := Nat.ModEq.of_dvd (by decide) hh
  have hcoprime : Nat.gcd 15625 (2 ^ ulongBits) = 1 := Nat.Coprime.pow_right _ (by decide)
  have hwraps := Nat.ModEq.cancel_right_of_coprime hcoprime hmod
  exact hwraps.eq_of_lt_of_lt (by omega) (by omega)

theorem micros_ofMillis_sub_iff (hlt : ms₁ < ms₂) (hms : ms₂ < 2 ^ ulongBits) :
    (ofMillis ulongBits ms₂).micros = (ofMillis ulongBits ms₁).micros + (ms₂ - ms₁) * 1000 ↔
      SameWraps ulongBits ms₁ ms₂ := by
  have hadd₁ := micros_ofMillis_add_wrapLoss ulongBits ms₁
  have hadd₂ := micros_ofMillis_add_wrapLoss ulongBits ms₂
  have hless₁ : wrapLoss ulongBits ms₁ < 1000000 := Nat.mod_lt _ (by decide)
  have hless₂ : wrapLoss ulongBits ms₂ < 1000000 := Nat.mod_lt _ (by decide)
  rw [SameWraps, ← wrapLoss_eq_iff (hlt.trans hms) hms]
  split at hadd₁ <;> split at hadd₂ <;> omega

end Wraps

theorem Timeouts.Ok.agenda_schedule {t : Timeouts η π} (h : t.Ok) (ulongBits ms : Nat) (toh : η)
    (priv : π) : agenda 0 (scheduleTimeout ulongBits ms (some toh) priv true t).2.queue =
      insertDue (ofMillis ulongBits ms).micros ⟨t.fresh, some toh, priv, true⟩
        (agenda 0 t.queue) := by
  have hh := agenda_insertTimeout 0 (e := ⟨t.fresh, _, some toh, priv, true⟩)
    (normal_ofMillis ulongBits ms) h.normal
  rwa [Nat.zero_add] at hh

theorem Timeouts.Ok.addr_lt_agenda {t : Timeouts η π} (h : t.Ok) {d : Nat × Tag η π}
    (hd : d ∈ agenda 0 t.queue) : d.2.addr < t.fresh := by
  obtain ⟨e, he, htag⟩ := exists_entry hd
  rw [← htag]
  exact h.addr_lt e he

theorem due_of_addr {m : Nat} {x : Tag η π} {q : List (Nat × Tag η π)} {d : Nat × Tag η π}
    (hd : d ∈ insertDue m x q) (haddr : d.2.addr = x.addr) (hq : ∀ a ∈ q, a.2.addr < x.addr) :
    d.1 = m := by
  rcases mem_insertDue.mp hd with rfl | hd
  · rfl
  · have hlt := hq d hd
    omega

/-- The entry `to₁` stands before `to₂`, and their deadlines differ as the milliseconds do. -/
def DelaysRespected (ms₁ ms₂ : Nat) (to₁ to₂ : Option Nat) (q : List (Timeout η π)) : Prop :=
  ∃ d₁ d₂, [d₁, d₂].Sublist (agenda 0 q) ∧ some d₁.2.addr = to₁ ∧ some d₂.2.addr = to₂ ∧
    d₂.1 = d₁.1 + (ms₂ - ms₁) * 1000

/-- Of two calls without a wait in between, the longer delay first. -/
theorem delays_respected_iff {t : Timeouts η π} (ht : t.Ok) {ulongBits ms₁ ms₂ : Nat}
    (hlt : ms₁ < ms₂) (hms : ms₂ < 2 ^ ulongBits) (toh₁ toh₂ : η) (priv₁ priv₂ : π) :
    let r₂ := scheduleTimeout ulongBits ms₂ (some toh₂) priv₂ true t
    let r₁ := scheduleTimeout ulongBits ms₁ (some toh₁) priv₁ true r₂.2
    DelaysRespected ms₁ ms₂ r₁.1 r₂.1 r₁.2.queue ↔ SameWraps ulongBits ms₁ ms₂ := by
  intro r₂ r₁
  have hr₂ : r₂.2.Ok := ht.schedule ulongBits ms₂ (some toh₂) priv₂ true
  have hagenda₂ : agenda 0 r₂.2.queue = insertDue _ _ _ :=
    ht.agenda_schedule ulongBits ms₂ toh₂ priv₂
  have hagenda₁ : agenda 0 r₁.2.queue = insertDue _ _ _ :=
    hr₂.agenda_schedule ulongBits ms₁ toh₁ priv₁
  rw [← micros_ofMillis_sub_iff hlt hms]
  constructor
  · rintro ⟨d₁, d₂, hsub, haddr₁, haddr₂, hdiff⟩
    have hd₁ : d₁ ∈ agenda 0 r₁.2.queue := hsub.subset (by simp)
    have hd₂ : d₂ ∈ agenda 0 r₁.2.queue := hsub.subset (by simp)
    have haddr₁ : d₁.2.addr = r₂.2.fresh := Option.some.inj haddr₁
    have haddr₂ : d₂.2.addr = t.fresh := Option.some.inj haddr₂
    rw [hagenda₁] at hd₁ hd₂
    have hdue₁ := due_of_addr hd₁ haddr₁ fun _ ha => hr₂.addr_lt_agenda ha
    have hdue₂ : d₂.1 = (ofMillis ulongBits ms₂).micros := by
      rcases mem_insertDue.mp hd₂ with rfl | hd₂
      · exact absurd haddr₂ (Nat.succ_ne_self _)
      · rw [hagenda₂] at hd₂
        exact due_of_addr hd₂ haddr₂ fun _ ha => ht.addr_lt_agenda ha
    rw [← hdue₁, ← hdue₂]
    exact hdiff
  · intro hdiff
    refine ⟨((ofMillis ulongBits ms₁).micros, ⟨r₂.2.fresh, some toh₁, priv₁, true⟩),
      ((ofMillis ulongBits ms₂).micros, ⟨t.fresh, some toh₂, priv₂, true⟩), ?_, rfl, rfl, hdiff⟩
    rw [hagenda₁]
    refine sublist_insertDue (dueSorted_agenda _) ?_ (by simp only; omega)
    rw [hagenda₂]
    exact mem_insertDue.mpr (.inl rfl)

theorem short_delays_respected :
    let r₂ := scheduleTimeout 64 50 (some ()) () true (timeoutsInit : Timeouts Unit Unit)
    let r₁ := scheduleTimeout 64 20 (some ()) () true r₂.2
    DelaysRespected 20 50 r₁.1 r₂.1 r₁.2.queue :=
  (delays_respected_iff timeoutsInit_ok (by decide) (by decide) () () () ()).mpr
    ⟨by decide, by decide⟩

/-- With 32 bits a delay of 71 minutes and 34.968 seconds is shorter than one of a millisecond
less. -/
theorem long_delays_not_respected :
    let r₂ := scheduleTimeout 32 4294968 (some ()) () true (timeoutsInit : Timeouts Unit Unit)
    let r₁ := scheduleTimeout 32 4294967 (some ()) () true r₂.2
    ¬ DelaysRespected 4294967 4294968 r₁.1 r₂.1 r₁.2.queue := by
  rintro r₂ r₁ ⟨d₁, d₂, hsub, haddr₁, -, -⟩
  have htags : r₁.2.queue.map Timeout.tag = [⟨0, some (), (), true⟩, ⟨1, some (), (), true⟩] := rfl
  have hh := hsub.map Prod.snd
  rw [map_snd_agenda, htags] at hh
  have hfirst : d₁.2 = ⟨0, some (), (), true⟩ := (List.cons.inj (hh.eq_of_length rfl)).1
  rw [hfirst] at haddr₁
  cases haddr₁

end Lininoio
