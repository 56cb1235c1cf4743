import Lininoio.FdEvents

/-! The lists of descriptor events against the events that have been added and not cancelled:
what the calls do to them, and what the preparation of a round makes of them. -/

namespace Lininoio.FdEvents

open CircularLinks

structure Registered (κ : Type) where
  evts : List (EvtPtr × FdEvt κ)
  fresh : EvtPtr

def cancelled {κ : Type} : List (Call κ) → List EvtPtr := List.filterMap fun
  | .cancel e => some e
  | _ => none

@[simp] theorem cancelled_add {κ : Type} (fd : Nat) (cb : κ) (mem : Bool) (calls : List (Call κ)) :
    cancelled (.add fd cb mem :: calls) = cancelled calls := rfl

@[simp] theorem cancelled_cancel {κ : Type} (e : EvtPtr) (calls : List (Call κ)) :
    cancelled (.cancel e :: calls) = e :: cancelled calls := rfl

namespace Registered

variable {κ : Type}

def call (r : Registered κ) : Call κ → Registered κ
  | .add fd cb true => ⟨r.evts ++ [(r.fresh, ⟨fd, cb⟩)], r.fresh + 1⟩
  | .add _ _ false => r
  | .cancel e => { r with evts := r.evts.filter fun x => x.1 ≠ e }

def after (r : Registered κ) (calls : List (Call κ)) : Registered κ := calls.foldl call r

@[simp] theorem after_nil (r : Registered κ) : r.after [] = r := rfl

@[simp] theorem after_cons (r : Registered κ) (c : Call κ) (calls : List (Call κ)) :
    r.after (c :: calls) = (r.call c).after calls := rfl

theorem after_append (r : Registered κ) (calls calls' : List (Call κ)) :
    r.after (calls ++ calls') = (r.after calls).after calls' := List.foldl_append

def LegalCalls (r : Registered κ) : List (Call κ) → Prop
  | [] => True
  | c :: calls => (∀ e, c = .cancel e → e ∈ r.evts.map Prod.fst) ∧ LegalCalls (r.call c) calls

theorem legalCalls_append {r : Registered κ} {calls calls' : List (Call κ)} :
    r.LegalCalls (calls ++ calls') ↔ r.LegalCalls calls ∧ (r.after calls).LegalCalls calls' := by
  induction calls generalizing r with
  | nil => simp [LegalCalls]
  | cons c calls ih => simp [LegalCalls, ih, and_assoc]

def Bounded (r : Registered κ) : Prop := ∀ x ∈ r.evts, x.1 < r.fresh

theorem Bounded.call {r : Registered κ} (h : r.Bounded) (c : Call κ) : (r.call c).Bounded := by
  cases c with
  | add fd cb mem =>
    cases mem with
    | false => exact h
    | true =>
      intro x hx
      rcases List.mem_append.mp hx with hx | hx
      · exact (h x hx).trans (Nat.lt_succ_self _)
      · rw [List.mem_singleton.mp hx]
        exact Nat.lt_succ_self _
  | cancel e => exact fun x hx => h x (List.mem_of_mem_filter hx)

theorem Bounded.after {r : Registered κ} (h : r.Bounded) (calls : List (Call κ)) :
    (r.after calls).Bounded := by
  induction calls generalizing r with
  | nil => exact h
  | cons c calls ih => exact ih (h.call c)

theorem fresh_le_after (r : Registered κ) (calls : List (Call κ)) :
    r.fresh ≤ (r.after calls).fresh := by
  induction calls generalizing r with
  | nil => exact le_rfl
  | cons c calls ih =>
    refine le_trans ?_ (ih (r.call c))
    cases c with
    | add fd cb mem => cases mem <;> simp [call]
    | cancel e => exact le_rfl

theorem after_split (done rest : List (EvtPtr × FdEvt κ)) (fresh : EvtPtr) (calls : List (Call κ)) :
    (⟨done ++ rest, fresh⟩ : Registered κ).after calls =
      ⟨done.filter (fun x => x.1 ∉ cancelled calls) ++
        ((⟨rest, fresh⟩ : Registered κ).after calls).evts,
        ((⟨rest, fresh⟩ : Registered κ).after calls).fresh⟩ := by
  induction calls generalizing done rest fresh with
  | nil => simp [cancelled]
  | cons c calls ih =>
    cases c with
    | add fd cb mem =>
      cases mem with
      | false => exact ih done rest fresh
      | true =>
        have hh := ih done (rest ++ [(fresh, ⟨fd, cb⟩)]) (fresh + 1)
        rw [← List.append_assoc] at hh
        exact hh
    | cancel e =>
      have hh := ih (done.filter fun x => x.1 ≠ e) (rest.filter fun x => x.1 ≠ e) fresh
      rw [← List.filter_append, List.filter_filter] at hh
      rw [after_cons, after_cons]
      refine hh.trans ?_
      congr 3
      funext x
      simp [Bool.and_comm]

theorem mem_after {r : Registered κ} {calls : List (Call κ)} {x : EvtPtr × FdEvt κ}
    (h : x ∈ (r.after calls).evts) : x ∈ r.evts ∨ r.fresh ≤ x.1 := by
  induction calls generalizing r with
  | nil => exact .inl h
  | cons c calls ih =>
    rcases ih h with hx | hx
    · cases c with
      | add fd cb mem =>
        cases mem with
        | false => exact .inl hx
        | true =>
          rcases List.mem_append.mp hx with hx | hx
          · exact .inl hx
          · rw [List.mem_singleton.mp hx]
            exact .inr le_rfl
      | cancel e => exact .inl (List.mem_of_mem_filter hx)
    · exact .inr ((fresh_le_after r [c]).trans hx)

theorem not_mem_after {r : Registered κ} {calls : List (Call κ)}
    {x : EvtPtr × FdEvt κ} (hx : x.1 < r.fresh) (hc : x.1 ∈ cancelled calls) :
    x.1 ∉ (r.after calls).evts.map Prod.fst := by
  have hsplit := after_split r.evts [] r.fresh calls
  rw [List.append_nil] at hsplit
  rw [show r.after calls = _ from hsplit]
  intro hh
  obtain ⟨y, hy, hyx⟩ := List.mem_map.mp hh
  rcases List.mem_append.mp hy with hy | hy
  · have hkept := of_decide_eq_true (List.mem_filter.mp hy).2
    exact hkept (hyx ▸ hc)
  · rcases mem_after hy with hy | hy
    · exact absurd hy List.not_mem_nil
    · exact absurd hx (not_lt.mpr (hyx ▸ hy))

end Registered

section Refinement

variable {κ : Type}

/-- The lists in memory hold exactly the registered events, all of them for reading. -/
structure Represents (s : FdEventLists κ) (r : Registered κ) : Prop where
  rd : Ring s.links (.head .rd) (r.evts.map fun x => .evt x.1)
  wr : Ring s.links (.head .wr) []
  exc : Ring s.links (.head .exc) []
  heap : ∀ p e, s.heap p = some e ↔ (p, e) ∈ r.evts
  fresh : s.fresh = r.fresh
  bounded : r.Bounded

theorem represents_init : Represents (fdEventsInit : FdEventLists κ) ⟨[], 0⟩ where
  rd := ⟨by simp, by simp [Segment, fdEventsInit, initListHead]⟩
  wr := ⟨by simp, by simp [Segment, fdEventsInit, initListHead]⟩
  exc := ring_initListHead _ _
  heap _ _ := by simp [fdEventsInit]
  fresh := rfl
  bounded := fun x hx => absurd hx List.not_mem_nil

variable {s : FdEventLists κ} {r : Registered κ}

theorem Represents.nodup (h : Represents s r) : (r.evts.map Prod.fst).Nodup := by
  have hnodup := (List.nodup_cons.mp h.rd.nodup).2
  refine List.Nodup.of_map EvtCell.evt ?_
  rwa [List.map_map]

theorem other_head {t : FdEventType} (ht : t ≠ .rd) (r : Registered κ) :
    EvtCell.head t ∉ .head .rd :: r.evts.map fun x => .evt x.1 := by
  simp [ht]

theorem Represents.add (h : Represents s r) (fd : Nat) (cb : κ) :
    Represents (addFdEvent fd .rd cb true s).2 (r.call (.add fd cb true)) := by
  have hnew : EvtCell.evt s.fresh ∉ .head .rd :: r.evts.map fun x => EvtCell.evt x.1 := by
    simp only [List.mem_cons, reduceCtorEq, List.mem_map, EvtCell.evt.injEq, false_or, not_exists,
      not_and]
    intro x hx he
    have hlt := h.bounded x hx
    rw [he, h.fresh] at hlt
    exact lt_irrefl _ hlt
  have hother : ∀ t, t ≠ .rd → Ring s.links (.head t) [] →
      Ring (listAddTail (.evt s.fresh) (.head .rd) s.links) (.head t) [] := by
    intro t ht hring
    refine ring_listAddTail_frame hring (by simp) (by simpa using ht.symm) fun hp => ?_
    refine other_head ht r ?_
    rw [← List.mem_singleton.mp hp]
    exact h.rd.prev_mem List.mem_cons_self
  refine ⟨?_, hother .wr (by simp) h.wr, hother .exc (by simp) h.exc, fun p e => ?_, ?_,
    h.bounded.call _⟩
  · have hring := ring_listAddTail h.rd hnew
    simpa [addFdEvent, Registered.call, h.fresh] using hring
  · by_cases hp : p = s.fresh
    · subst hp
      have hold : (r.fresh, e) ∉ r.evts := fun he => lt_irrefl _ (h.bounded _ he)
      simp [addFdEvent, Registered.call, h.fresh, hold, eq_comm]
    · have hne : p ≠ r.fresh := h.fresh ▸ hp
      simp [addFdEvent, Registered.call, hp, hne, h.heap]
  · simp [addFdEvent, Registered.call, h.fresh]

theorem Represents.cancel (h : Represents s r) {e : EvtPtr} (he : e ∈ r.evts.map Prod.fst) :
    ∃ s', cancelFdEvent e s = .ok s' ∧ Represents s' (r.call (.cancel e)) := by
  obtain ⟨x, hx, rfl⟩ := List.mem_map.mp he
  obtain ⟨A, B, hsplit⟩ := List.append_of_mem hx
  have hsome : s.heap x.1 = some x.2 := (h.heap x.1 x.2).mpr hx
  have hnodup := h.nodup
  rw [hsplit] at hnodup
  simp only [List.map_append, List.map_cons] at hnodup
  have hnot : ∀ y ∈ A ++ B, y.1 ≠ x.1 := by
    intro y hy hyx
    have hperm := (List.perm_middle.nodup_iff.mp hnodup)
    refine (List.nodup_cons.mp hperm).1 ?_
    rw [← List.map_append, ← hyx]
    exact List.mem_map_of_mem hy
  have hrest : r.evts.filter (fun y => y.1 ≠ x.1) = A ++ B := by
    rw [hsplit, List.filter_append, List.filter_cons_of_neg (by simp), ← List.filter_append]
    exact List.filter_eq_self.mpr fun y hy => by simpa using hnot y hy
  have hrd := h.rd
  rw [hsplit, List.map_append, List.map_cons] at hrd
  have hpoison : ∀ {l : Links EvtCell} {head : EvtCell} {xs : List EvtCell},
      EvtCell.evt x.1 ∉ head :: xs → Ring (listDelEntry (.evt x.1) l) head xs →
      Ring (listDel (.evt x.1) l) head xs := by
    intro l head xs hout hring
    refine hring.congr (fun y hy => ?_) (fun y hy => ?_)
    all_goals exact Function.update_of_ne (fun he => hout (by rw [← he]; exact hy)) _ _
  have hother : ∀ t, t ≠ .rd → Ring s.links (.head t) [] →
      Ring (listDel (.evt x.1) s.links) (.head t) [] := by
    intro t ht hring
    have hmem : EvtCell.evt x.1 ∈ .head .rd :: r.evts.map fun y => EvtCell.evt y.1 :=
      List.mem_cons_of_mem _ (List.mem_map_of_mem hx)
    refine hpoison (by simp) (ring_listDelEntry_frame hring (fun hp => ?_) fun hn => ?_)
    · refine other_head ht r ?_
      rw [← List.mem_singleton.mp hp]
      exact h.rd.prev_mem hmem
    · refine other_head ht r ?_
      rw [← List.mem_singleton.mp hn]
      exact h.rd.next_mem hmem
  refine ⟨_, by simp only [cancelFdEvent, hsome]; rfl, ?_⟩
  refine ⟨?_, hother .wr (by simp) h.wr, hother .exc (by simp) h.exc, fun p e => ?_, h.fresh,
    h.bounded.call _⟩
  · simp only [Registered.call, hrest, List.map_append]
    refine hpoison ?_ (ring_listDelEntry hrd)
    simp only [List.mem_cons, reduceCtorEq, false_or, ← List.map_append, List.mem_map,
      EvtCell.evt.injEq, not_exists, not_and]
    exact hnot
  · by_cases hp : p = x.1
    · subst hp
      simp [Registered.call]
    · simp [Registered.call, hp, h.heap]

theorem Represents.run (h : Represents s r) {c : Call κ}
    (hc : ∀ e, c = .cancel e → e ∈ r.evts.map Prod.fst) :
    ∃ s', c.run s = .ok s' ∧ Represents s' (r.call c) := by
  cases c with
  | add fd cb mem =>
    cases mem with
    | false => exact ⟨s, rfl, h⟩
    | true => exact ⟨_, rfl, h.add fd cb⟩
  | cancel e => exact h.cancel (hc e rfl)

theorem Represents.runCalls_ok (h : Represents s r) {calls : List (Call κ)} (hc : r.LegalCalls calls) :
    ∃ s', runCalls calls s = .ok s' ∧ Represents s' (r.after calls) := by
  induction calls generalizing s r with
  | nil => exact ⟨s, rfl, h⟩
  | cons c calls ih =>
    obtain ⟨t, ht, hrep⟩ := h.run hc.1
    obtain ⟨s', hs', hrep'⟩ := ih hrep hc.2
    refine ⟨s', ?_, hrep'⟩
    rw [runCalls, ht]
    exact hs'

def position : List (EvtPtr × FdEvt κ) → EvtCell
  | [] => .head .rd
  | x :: _ => .evt x.1

theorem Represents.next_head (h : Represents s r) : s.links.next (.head .rd) = position r.evts := by
  have hh := h.rd.segment.next_eq
  cases hr : r.evts with
  | nil => simpa [hr, position] using hh
  | cons x rest => simpa [hr, position] using hh

theorem Represents.next_evt (h : Represents s r) {done rest : List (EvtPtr × FdEvt κ)}
    {x : EvtPtr × FdEvt κ} (hr : r.evts = done ++ x :: rest) :
    s.links.next (.evt x.1) = position rest := by
  have hseg := h.rd.segment
  rw [hr, List.map_append, List.map_cons] at hseg
  have hh := (segment_append.mp hseg).2.next_eq
  cases rest with
  | nil => simpa [position] using hh
  | cons y rest => simpa [position] using hh

theorem Represents.heap_evt (h : Represents s r) {done rest : List (EvtPtr × FdEvt κ)}
    {x : EvtPtr × FdEvt κ} (hr : r.evts = done ++ x :: rest) : s.heap x.1 = some x.2 :=
  (h.heap x.1 x.2).mpr (by simp [hr])

theorem Represents.length_le (h : Represents s r) : r.evts.length ≤ r.fresh := by
  have hsub : r.evts.map Prod.fst ⊆ List.range r.fresh := by
    intro p hp
    obtain ⟨x, hx, rfl⟩ := List.mem_map.mp hp
    exact List.mem_range.mpr (h.bounded x hx)
  have hle := (List.subperm_of_subset h.nodup hsub).length_le
  simpa using hle

def marked (evts : List (EvtPtr × FdEvt κ)) (fd : Nat) : Bool := evts.any fun x => x.2.fd == fd

def greatest (maxFd : Int) (evts : List (EvtPtr × FdEvt κ)) : Int :=
  evts.foldl (fun m x => max m x.2.fd) maxFd

theorem Represents.prepareFrom_eq (h : Represents s r) {done rest : List (EvtPtr × FdEvt κ)}
    (hr : r.evts = done ++ rest) {n : Nat} (hn : rest.length < n) (isset : Nat → Bool) (maxFd : Int) :
    prepareFrom .rd s n (position rest) (some isset, maxFd) =
      .ok (some fun fd => isset fd || marked rest fd, greatest maxFd rest) := by
  induction rest generalizing done n isset maxFd with
  | nil =>
    obtain ⟨n, rfl⟩ : ∃ m, n = m + 1 := ⟨n - 1, by omega⟩
    simp [prepareFrom, position, marked, greatest]
  | cons x rest ih =>
    obtain ⟨n, rfl⟩ : ∃ m, n = m + 1 := ⟨n - 1, by omega⟩
    have hstep : prepareFrom .rd s (n + 1) (position (x :: rest)) (some isset, maxFd) =
        prepareFrom .rd s n (position rest) (some (Function.update isset x.2.fd true),
          if maxFd < x.2.fd then (x.2.fd : Int) else maxFd) := by
      simp only [prepareFrom, position, reduceCtorEq, if_false, h.heap_evt hr, h.next_evt hr]
    rw [hstep, ih (show r.evts = (done ++ [x]) ++ rest by simp [hr]) (by simpa using hn)]
    congr 2
    · congr 1
      funext fd
      by_cases hfd : fd = x.2.fd
      · simp [hfd, marked]
      · have hne : (x.2.fd == fd) = false := beq_eq_false_iff_ne.mpr fun he => hfd he.symm
        simp [hfd, hne, marked]
    · simp only [greatest, List.foldl_cons]
      congr 1
      by_cases hlt : maxFd < x.2.fd
      · simp [hlt, hlt.le]
      · simp [hlt, not_lt.mp hlt]

theorem prepareFrom_empty {t : FdEventType} (hring : Ring s.links (.head t) []) (maxFd : Int) :
    doPrepareFdEvents none t maxFd s = .ok (none, maxFd) := by
  simp [doPrepareFdEvents, prepareFrom, hring.segment.1]

theorem Represents.prepareFdEvents_eq (h : Represents s r) :
    prepareFdEvents (some fun _ => false) none none s =
      .ok (some (marked r.evts), none, none, greatest (-1) r.evts) := by
  have hrd := h.prepareFrom_eq (show r.evts = [] ++ r.evts from rfl) (n := s.fresh + 1)
    (by rw [h.fresh]; exact Nat.lt_succ_of_le h.length_le) (fun _ => false) (-1)
  rw [← h.next_head] at hrd
  have hdo : doPrepareFdEvents (some fun _ => false) .rd (-1) s =
      .ok (some (marked r.evts), greatest (-1) r.evts) := by
    rw [doPrepareFdEvents, hrd]
    simp
  rw [prepareFdEvents, hdo]
  simp [bind, Except.bind, prepareFrom_empty h.wr, prepareFrom_empty h.exc, pure, Except.pure]

end Refinement

end Lininoio.FdEvents
