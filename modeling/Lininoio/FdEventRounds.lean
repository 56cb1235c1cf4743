import Lininoio.FdEventLists

/-! What a round over the descriptor events does while its callbacks add and cancel events. -/

namespace Lininoio.FdEvents

open CircularLinks
open scoped List

section Handling

variable {κ : Type}

/-- The callbacks whose turn comes, one list of calls being made in each of them. -/
def turns (isset : Nat → Bool) : List (List (Call κ)) → Registered κ → List (Turn κ)
  | [], r => (r.evts.filter fun x => isset x.2.fd).map (⟨·, []⟩)
  | calls :: script, r =>
    match r.evts.dropWhile fun x => !isset x.2.fd with
    | [] => []
    | x :: rest => ⟨x, calls⟩ :: turns isset script (Registered.after ⟨rest, r.fresh⟩ calls)

def callsOf (turns : List (Turn κ)) : List (Call κ) := turns.flatMap Turn.calls

def NoSelfCancel (turns : List (Turn κ)) : Prop :=
  ∀ turn ∈ turns, turn.evt.1 ∉ cancelled turn.calls

variable {isset : Nat → Bool} {script : List (List (Call κ))} {fresh : EvtPtr}
  {x : EvtPtr × FdEvt κ} {rest : List (EvtPtr × FdEvt κ)}

theorem turns_nil : turns isset script ⟨[], fresh⟩ = [] := by
  cases script <;> rfl

theorem turns_skip (h : isset x.2.fd = false) :
    turns isset script ⟨x :: rest, fresh⟩ = turns isset script ⟨rest, fresh⟩ := by
  cases script with
  | nil => simp [turns, h]
  | cons calls script => simp [turns, List.dropWhile, h]

theorem turns_call (h : isset x.2.fd = true) : turns isset script ⟨x :: rest, fresh⟩ =
    ⟨x, script.headD []⟩ ::
      turns isset script.tail (Registered.after ⟨rest, fresh⟩ (script.headD [])) := by
  cases script with
  | nil => simp [turns, h]
  | cons calls script => simp [turns, List.dropWhile, h]

theorem length_after_le (r : Registered κ) (calls : List (Call κ)) :
    (r.after calls).evts.length ≤ r.evts.length + calls.length := by
  induction calls generalizing r with
  | nil => exact le_rfl
  | cons c calls ih =>
    have hcall : (r.call c).evts.length ≤ r.evts.length + 1 := by
      cases c with
      | add fd cb mem => cases mem <;> simp [Registered.call]
      | cancel e =>
        have hle := List.length_filter_le (fun x => decide (x.1 ≠ e)) r.evts
        simp only [Registered.call]
        omega
    have hrest := ih (r.call c)
    simp only [Registered.after_cons, List.length_cons]
    omega

theorem Represents.handleFrom_skip {s : FdEventLists κ} {done : List (EvtPtr × FdEvt κ)}
    (h : Represents s ⟨done ++ x :: rest, fresh⟩) (hset : isset x.2.fd = false) (n : Nat) :
    handleFrom (some isset) .rd (n + 1) (position (x :: rest)) script s =
      handleFrom (some isset) .rd n (position rest) script s := by
  have hnext := h.next_evt (x := x) rfl
  have hheap := h.heap_evt (x := x) rfl
  simp [handleFrom, position, hheap, hset, hnext]

/-- The turn of one callback. The next position is read from its event, which is freed memory when
the callback has cancelled it. -/
theorem Represents.handleFrom_call {s : FdEventLists κ} {done : List (EvtPtr × FdEvt κ)}
    (h : Represents s ⟨done ++ x :: rest, fresh⟩) (hset : isset x.2.fd = true)
    {calls : List (Call κ)} (hcalls : calls = script.headD [])
    (hlegal : (⟨done ++ x :: rest, fresh⟩ : Registered κ).LegalCalls calls) (n : Nat) :
    (x.1 ∈ cancelled calls →
      handleFrom (some isset) .rd (n + 1) (position (x :: rest)) script s = .error .useAfterFree) ∧
    (x.1 ∉ cancelled calls → ∃ t before,
      Registered.after ⟨done ++ x :: rest, fresh⟩ calls =
        ⟨(before ++ [x]) ++ (Registered.after ⟨rest, fresh⟩ calls).evts,
          (Registered.after ⟨rest, fresh⟩ calls).fresh⟩ ∧
      Represents t (Registered.after ⟨done ++ x :: rest, fresh⟩ calls) ∧
      handleFrom (some isset) .rd (n + 1) (position (x :: rest)) script s = (do
        let later ← handleFrom (some isset) .rd n
          (position (Registered.after ⟨rest, fresh⟩ calls).evts) script.tail t
        .ok { later with turns := ⟨x, calls⟩ :: later.turns })) := by
  have hheap := h.heap_evt (x := x) rfl
  obtain ⟨t, ht, hrep⟩ := h.runCalls_ok hlegal
  refine ⟨fun hself => ?_, fun hself => ?_⟩
  · have hgone := Registered.not_mem_after (h.bounded x (by simp)) hself
    have hfreed : t.heap x.1 = none := by
      refine Option.eq_none_iff_forall_ne_some.mpr fun e he => hgone ?_
      exact List.mem_map.mpr ⟨_, (hrep.heap x.1 e).mp he, rfl⟩
    simp only [handleFrom, position, reduceCtorEq, if_false, hheap, hset, if_true, ← hcalls, ht,
      bind, Except.bind, hfreed]
  · have hsplit := Registered.after_split (done ++ [x]) rest fresh calls
    have hkept : (done ++ [x]).filter (fun y => y.1 ∉ cancelled calls) =
        done.filter (fun y => y.1 ∉ cancelled calls) ++ [x] := by
      simp [List.filter_append, hself]
    rw [← List.append_cons, hkept] at hsplit
    have hafter := hrep
    rw [hsplit] at hafter
    have hnext := hafter.next_evt (x := x) (List.append_cons _ x _).symm
    have hheap' := hafter.heap_evt (x := x) (List.append_cons _ x _).symm
    refine ⟨t, _, hsplit, hrep, ?_⟩
    rw [← hnext]
    simp only [handleFrom, position, reduceCtorEq, if_false, hheap, hset, if_true, ← hcalls, ht,
      bind, Except.bind, hheap']

theorem Represents.handleFrom_eq {s : FdEventLists κ} {done rest : List (EvtPtr × FdEvt κ)}
    (h : Represents s ⟨done ++ rest, fresh⟩)
    (hlegal : (⟨done ++ rest, fresh⟩ : Registered κ).LegalCalls
      (callsOf (turns isset script ⟨rest, fresh⟩)))
    {n : Nat} (hn : rest.length + script.flatten.length < n) :
    (NoSelfCancel (turns isset script ⟨rest, fresh⟩) → ∃ script' s',
      handleFrom (some isset) .rd n (position rest) script s =
        .ok ⟨turns isset script ⟨rest, fresh⟩, script', s'⟩ ∧
      Represents s' (Registered.after ⟨done ++ rest, fresh⟩
        (callsOf (turns isset script ⟨rest, fresh⟩)))) ∧
    (¬ NoSelfCancel (turns isset script ⟨rest, fresh⟩) →
      handleFrom (some isset) .rd n (position rest) script s = .error .useAfterFree) := by
  induction n generalizing s done rest fresh script with
  | zero => exact absurd hn (Nat.not_lt_zero _)
  | succ n ih =>
    cases rest with
    | nil =>
      rw [turns_nil]
      refine ⟨fun _ => ⟨script, s, ?_, h⟩, fun hh => absurd ?_ hh⟩
      · simp [handleFrom, position]
      · simp [NoSelfCancel]
    | cons x rest =>
      cases hset : isset x.2.fd with
      | false =>
        rw [h.handleFrom_skip hset, turns_skip hset]
        rw [turns_skip hset] at hlegal
        rw [List.append_cons] at h hlegal ⊢
        exact ih h hlegal (by simp only [List.length_cons] at hn; omega)
      | true =>
        obtain ⟨calls, hcalls⟩ : ∃ calls, calls = script.headD [] := ⟨_, rfl⟩
        rw [turns_call hset, ← hcalls] at hlegal ⊢
        obtain ⟨T, hT⟩ : ∃ T, T = turns isset script.tail (Registered.after ⟨rest, fresh⟩ calls) :=
          ⟨_, rfl⟩
        rw [← hT] at hlegal ⊢
        have hlegal' : (⟨done ++ x :: rest, fresh⟩ : Registered κ).LegalCalls calls ∧
            (Registered.after ⟨done ++ x :: rest, fresh⟩ calls).LegalCalls (callsOf T) :=
          Registered.legalCalls_append.mp hlegal
        obtain ⟨hfault, hgoes⟩ := h.handleFrom_call hset hcalls hlegal'.1 n
        by_cases hself : x.1 ∈ cancelled calls
        · exact ⟨fun hh => absurd hself (hh _ List.mem_cons_self), fun _ => hfault hself⟩
        obtain ⟨t, before, hsplit, hrep, hstep⟩ := hgoes hself
        have hn' : (Registered.after ⟨rest, fresh⟩ calls).evts.length +
            script.tail.flatten.length < n := by
          have hlater := length_after_le ⟨rest, fresh⟩ calls
          have hscript : calls.length + script.tail.flatten.length = script.flatten.length := by
            rw [hcalls]
            cases script <;> simp
          simp only [List.length_cons] at hn hlater
          omega
        have hdone : NoSelfCancel (⟨x, calls⟩ :: T) ↔ NoSelfCancel T := by
          simp [NoSelfCancel, hself]
        have hall : Registered.after ⟨done ++ x :: rest, fresh⟩ (callsOf (⟨x, calls⟩ :: T)) =
            (Registered.after ⟨done ++ x :: rest, fresh⟩ calls).after (callsOf T) :=
          Registered.after_append _ _ _
        obtain ⟨hok, hbad⟩ := ih (hsplit ▸ hrep) (by rw [← hT, ← hsplit]; exact hlegal'.2) hn'
        rw [← hT, ← hsplit] at hok
        rw [← hT] at hbad
        rw [hdone, hall, hstep]
        refine ⟨fun hh => ?_, fun hh => ?_⟩
        · obtain ⟨script', s', hrun, hrep'⟩ := hok hh
          exact ⟨script', s', by rw [hrun]; rfl, hrep'⟩
        · rw [hbad hh]
          rfl

end Handling

section Turns

variable {κ : Type} (isset : Nat → Bool)

theorem turns_induction {motive : List (List (Call κ)) → Registered κ → List (Turn κ) → Prop}
    (nil : ∀ script fresh, motive script ⟨[], fresh⟩ [])
    (skip : ∀ script fresh x rest T, isset x.2.fd = false → motive script ⟨rest, fresh⟩ T →
      motive script ⟨x :: rest, fresh⟩ T)
    (call : ∀ script fresh x rest T, isset x.2.fd = true →
      motive script.tail (Registered.after ⟨rest, fresh⟩ (script.headD [])) T →
      motive script ⟨x :: rest, fresh⟩ (⟨x, script.headD []⟩ :: T))
    (script : List (List (Call κ))) (r : Registered κ) : motive script r (turns isset script r) := by
  obtain ⟨n, hn⟩ : ∃ n, r.evts.length + script.flatten.length < n := ⟨_, Nat.lt_succ_self _⟩
  induction n generalizing script r with
  | zero => exact absurd hn (Nat.not_lt_zero _)
  | succ n ih =>
    obtain ⟨evts, fresh⟩ := r
    cases evts with
    | nil =>
      rw [turns_nil]
      exact nil script fresh
    | cons x rest =>
      simp only [List.length_cons] at hn
      cases hset : isset x.2.fd with
      | false =>
        rw [turns_skip hset]
        exact skip script fresh x rest _ hset (ih script ⟨rest, fresh⟩ (by simp only; omega))
      | true =>
        rw [turns_call hset]
        refine call script fresh x rest _ hset (ih _ _ ?_)
        have hlater := length_after_le ⟨rest, fresh⟩ (script.headD [])
        have hscript : (script.headD []).length + script.tail.flatten.length =
            script.flatten.length := by cases script <;> simp
        simp only at hlater
        omega

theorem turns_live (script : List (List (Call κ))) (r : Registered κ) :
    ∀ A turn B, turns isset script r = A ++ turn :: B →
      turn.evt ∈ (r.after (callsOf A)).evts := by
  refine turns_induction isset (motive := fun _ r T => ∀ A turn B, T = A ++ turn :: B →
    turn.evt ∈ (r.after (callsOf A)).evts) ?_ ?_ ?_ script r
  · intro script fresh A turn B hT
    simp at hT
  · intro script fresh x rest T _ ih A turn B hT
    have hsplit := Registered.after_split [x] rest fresh (callsOf A)
    rw [List.singleton_append] at hsplit
    rw [hsplit]
    exact List.mem_append_right _ (ih A turn B hT)
  · intro script fresh x rest T _ ih A turn B hT
    cases A with
    | nil =>
      obtain ⟨rfl, -⟩ := List.cons.inj hT
      exact List.mem_cons_self
    | cons a A =>
      obtain ⟨rfl, hA⟩ := List.cons.inj hT
      have hturn := ih A turn B hA
      rw [← Registered.after_append] at hturn
      have hsplit := Registered.after_split [x] rest fresh (script.headD [] ++ callsOf A)
      rw [List.singleton_append] at hsplit
      rw [callsOf, List.flatMap_cons, ← callsOf, hsplit]
      exact List.mem_append_right _ hturn

theorem turns_serve (bound : EvtPtr) (script : List (List (Call κ))) (r : Registered κ) :
    ∀ O N, r.evts = O ++ N → (∀ x ∈ O, x.1 < bound) → (∀ x ∈ N, bound ≤ x.1) →
      bound ≤ r.fresh →
      ((turns isset script r).map Turn.evt).filter (fun x => x.1 < bound) <+
          O.filter (fun x => isset x.2.fd) ∧
        ∀ x ∈ O, isset x.2.fd = true → x ∈ (turns isset script r).map Turn.evt ∨
          ∃ turn ∈ turns isset script r, x.1 ∈ cancelled turn.calls ∧ [turn.evt, x] <+ O := by
  refine turns_induction isset (motive := fun _ r T => ∀ O N, r.evts = O ++ N →
    (∀ x ∈ O, x.1 < bound) → (∀ x ∈ N, bound ≤ x.1) → bound ≤ r.fresh →
      (T.map Turn.evt).filter (fun x => x.1 < bound) <+ O.filter (fun x => isset x.2.fd) ∧
        ∀ x ∈ O, isset x.2.fd = true → x ∈ T.map Turn.evt ∨
          ∃ turn ∈ T, x.1 ∈ cancelled turn.calls ∧ [turn.evt, x] <+ O) ?_ ?_ ?_ script r
  · intro script fresh O N hsplit _ _ _
    obtain ⟨rfl, -⟩ := List.append_eq_nil_iff.mp hsplit.symm
    simp
  · intro script fresh x rest T hset ih O N hsplit hO hN hbound
    cases O with
    | nil =>
      have hN' : ∀ y ∈ rest, bound ≤ y.1 := fun y hy => hN y (by
        rw [← show x :: rest = N from hsplit]
        exact List.mem_cons_of_mem _ hy)
      exact ih [] rest rfl (by simp) hN' hbound
    | cons y O =>
      obtain ⟨rfl, hrest⟩ := List.cons.inj hsplit
      have hO' : ∀ z ∈ O, z.1 < bound := fun z hz => hO z (List.mem_cons_of_mem _ hz)
      obtain ⟨horder, hserved⟩ := ih O N hrest hO' hN hbound
      refine ⟨by simpa [hset] using horder, fun z hz hz' => ?_⟩
      rcases List.mem_cons.mp hz with rfl | hz
      · rw [hset] at hz'
        cases hz'
      · rcases hserved z hz hz' with hh | ⟨turn, hturn, hcancel, hbefore⟩
        · exact .inl hh
        · exact .inr ⟨turn, hturn, hcancel, hbefore.trans (List.sublist_cons_self _ _)⟩
  · intro script fresh x rest T hset ih O N hsplit hO hN hbound
    have hfresh := hbound.trans (Registered.fresh_le_after ⟨rest, fresh⟩ (script.headD []))
    have hnew : ∀ (M : List (EvtPtr × FdEvt κ)), (∀ y ∈ M, bound ≤ y.1) →
        ∀ y ∈ (Registered.after ⟨M, fresh⟩ (script.headD [])).evts, bound ≤ y.1 := by
      intro M hM y hy
      rcases Registered.mem_after hy with hy | hy
      · exact hM y hy
      · exact hbound.trans hy
    cases O with
    | nil =>
      have hall : ∀ y ∈ x :: rest, bound ≤ y.1 := by
        rw [show x :: rest = N from hsplit]
        exact hN
      obtain ⟨horder, -⟩ := ih [] _ rfl (by simp)
        (hnew rest fun y hy => hall y (List.mem_cons_of_mem _ hy)) hfresh
      have hx := hall x List.mem_cons_self
      exact ⟨by simpa [hx] using horder, by simp⟩
    | cons y O =>
      obtain ⟨rfl, hrest⟩ := List.cons.inj hsplit
      have hafter := congrArg Registered.evts
        (Registered.after_split O N fresh (script.headD []))
      rw [← show rest = O ++ N from hrest] at hafter
      obtain ⟨horder, hserved⟩ := ih _ _ hafter
        (fun z hz => hO z (List.mem_cons_of_mem _ (List.mem_of_mem_filter hz))) (hnew N hN) hfresh
      have hx := hO x List.mem_cons_self
      constructor
      · have hsub : ((O.filter fun z => z.1 ∉ cancelled (script.headD [])).filter
            fun z => isset z.2.fd) <+ O.filter fun z => isset z.2.fd :=
          List.filter_sublist.filter _
        simpa [hx, hset] using horder.trans hsub
      · intro z hz hz'
        rcases List.mem_cons.mp hz with rfl | hz
        · exact .inl (by simp)
        · by_cases hc : z.1 ∈ cancelled (script.headD [])
          · exact .inr ⟨_, List.mem_cons_self, hc,
              (List.singleton_sublist.mpr hz).cons_cons _⟩
          · rcases hserved z (List.mem_filter.mpr ⟨hz, by simpa using hc⟩) hz' with hh | hh
            · exact .inl (List.mem_cons_of_mem _ hh)
            · obtain ⟨turn, hturn, hcancel, hbefore⟩ := hh
              refine .inr ⟨turn, List.mem_cons_of_mem _ hturn, hcancel, ?_⟩
              exact (hbefore.trans List.filter_sublist).trans (List.sublist_cons_self _ _)

end Turns

section Rounds

variable {κ : Type}

structure RoundOk (r : Registered κ) (ready : Nat → Bool) (res : Round κ) : Prop where
  marks : ∃ isset, res.marks = some isset ∧ ∀ fd, isset fd = true ↔ ∃ x ∈ r.evts, x.2.fd = fd
  maxFd : (r.evts = [] → res.maxFd = -1) ∧ (∀ x ∈ r.evts, (x.2.fd : Int) ≤ res.maxFd) ∧
    (r.evts ≠ [] → ∃ x ∈ r.evts, (x.2.fd : Int) = res.maxFd)
  /-- No callback is called for an event that has been cancelled. -/
  live : ∀ A turn B, res.turns = A ++ turn :: B → turn.evt ∈ (r.after (callsOf A)).evts
  order : ((res.turns.map Turn.evt).filter fun x => x.1 ∈ r.evts.map Prod.fst) <+
    r.evts.filter fun x => ready x.2.fd
  /-- A ready event is served, or cancelled in the turn of an event before it. -/
  served : ∀ x ∈ r.evts, ready x.2.fd = true → x ∈ res.turns.map Turn.evt ∨
    ∃ turn ∈ res.turns, x.1 ∈ cancelled turn.calls ∧ [turn.evt, x] <+ r.evts
  remaining : Represents res.state (r.after (callsOf res.turns))

def roundTurns (ready : Nat → Bool) (script : List (List (Call κ))) (r : Registered κ) :
    List (Turn κ) :=
  turns (fun fd => marked r.evts fd && ready fd) script r

theorem greatest_spec (evts : List (EvtPtr × FdEvt κ)) (maxFd : Int) :
    maxFd ≤ greatest maxFd evts ∧
    (∀ x ∈ evts, (x.2.fd : Int) ≤ greatest maxFd evts) ∧
    (greatest maxFd evts = maxFd ∨ ∃ x ∈ evts, (x.2.fd : Int) = greatest maxFd evts) := by
  induction evts generalizing maxFd with
  | nil => exact ⟨le_rfl, by simp, .inl rfl⟩
  | cons x evts ih =>
    obtain ⟨hle, hall, hex⟩ := ih (max maxFd x.2.fd)
    change _ ≤ greatest (max maxFd x.2.fd) evts ∧
      (∀ y ∈ x :: evts, _ ≤ greatest (max maxFd x.2.fd) evts) ∧
      (greatest (max maxFd x.2.fd) evts = _ ∨ ∃ y ∈ x :: evts, _ = greatest (max maxFd x.2.fd) evts)
    refine ⟨(le_max_left _ _).trans hle, fun y hy => ?_, ?_⟩
    · rcases List.mem_cons.mp hy with rfl | hy
      · exact (le_max_right _ _).trans hle
      · exact hall y hy
    · rcases hex with hex | ⟨y, hy, hyx⟩
      · rcases max_choice maxFd (x.2.fd : Int) with hmax | hmax
        · exact .inl (hex.trans hmax)
        · exact .inr ⟨x, List.mem_cons_self, (hex.trans hmax).symm⟩
      · exact .inr ⟨y, List.mem_cons_of_mem _ hy, hyx⟩

theorem marked_iff {evts : List (EvtPtr × FdEvt κ)} {fd : Nat} :
    marked evts fd = true ↔ ∃ x ∈ evts, x.2.fd = fd := by
  simp [marked]

theorem handle_empty {s : FdEventLists κ} {t : FdEventType} (hring : Ring s.links (.head t) [])
    (script : List (List (Call κ))) : doHandleFdEvents none t script s = .ok ⟨[], script, s⟩ := by
  simp [doHandleFdEvents, handleFrom, hring.segment.1]

variable {s : FdEventLists κ} {r : Registered κ} {ready : Nat → Bool}
  {script : List (List (Call κ))}

theorem Represents.round_eq (h : Represents s r)
    (hlegal : r.LegalCalls (callsOf (roundTurns ready script r))) :
    (NoSelfCancel (roundTurns ready script r) → ∃ s',
      round ready script s =
        .ok ⟨some (marked r.evts), greatest (-1) r.evts, roundTurns ready script r, s'⟩ ∧
      Represents s' (r.after (callsOf (roundTurns ready script r)))) ∧
    (¬ NoSelfCancel (roundTurns ready script r) → round ready script s = .error .useAfterFree) := by
  have hfuel : r.evts.length + script.flatten.length < s.fresh + script.flatten.length + 1 := by
    have hle := h.length_le
    rw [← h.fresh] at hle
    omega
  have hrep : Represents s ⟨[] ++ r.evts, r.fresh⟩ := h
  have hlegal' : (⟨[] ++ r.evts, r.fresh⟩ : Registered κ).LegalCalls (callsOf
      (turns (fun fd => marked r.evts fd && ready fd) script ⟨r.evts, r.fresh⟩)) := hlegal
  obtain ⟨hok, hbad⟩ := hrep.handleFrom_eq hlegal' hfuel
  have hround : round ready script s = do
      let handled ← handleFdEvents (some fun fd => marked r.evts fd && ready fd) none none script s
      return ⟨some (marked r.evts), greatest (-1) r.evts, handled.turns, handled.state⟩ := by
    rw [round, h.prepareFdEvents_eq]
    rfl
  have hrd : doHandleFdEvents (some fun fd => marked r.evts fd && ready fd) .rd script s =
      handleFrom (some fun fd => marked r.evts fd && ready fd) .rd
        (s.fresh + script.flatten.length + 1) (position r.evts) script s := by
    rw [doHandleFdEvents, h.next_head]
  rw [hround, handleFdEvents, hrd]
  refine ⟨fun hself => ?_, fun hself => ?_⟩
  · obtain ⟨script', s', hrun, hrep'⟩ := hok hself
    refine ⟨s', ?_, hrep'⟩
    rw [hrun]
    simp [bind, Except.bind, handle_empty hrep'.wr, handle_empty hrep'.exc, pure,
      Except.pure, roundTurns]
  · rw [hbad hself]
    rfl

theorem Represents.roundOk (h : Represents s r) {s' : FdEventLists κ}
    (h' : Represents s' (r.after (callsOf (roundTurns ready script r)))) :
    RoundOk r ready
      ⟨some (marked r.evts), greatest (-1) r.evts, roundTurns ready script r, s'⟩ := by
  obtain ⟨horder, hserved⟩ := turns_serve (fun fd => marked r.evts fd && ready fd) r.fresh script r
    r.evts [] (List.append_nil _).symm h.bounded (by simp) le_rfl
  have hlive := turns_live (fun fd => marked r.evts fd && ready fd) script r
  obtain ⟨hle, hall, hex⟩ := greatest_spec r.evts (-1)
  have hready : ∀ x ∈ r.evts, (marked r.evts x.2.fd && ready x.2.fd) = ready x.2.fd := by
    intro x hx
    rw [marked_iff.mpr ⟨x, hx, rfl⟩, Bool.true_and]
  have hknown : ∀ x ∈ (roundTurns ready script r).map Turn.evt,
      decide (x.1 ∈ r.evts.map Prod.fst) = decide (x.1 < r.fresh) := by
    intro x hx
    obtain ⟨turn, hturn, rfl⟩ := List.mem_map.mp hx
    obtain ⟨A, B, hsplit⟩ := List.append_of_mem hturn
    rcases Registered.mem_after (hlive A turn B hsplit) with hmem | hge
    · rw [decide_eq_true (List.mem_map_of_mem hmem), decide_eq_true (h.bounded _ hmem)]
    · rw [decide_eq_false (not_lt.mpr hge), decide_eq_false]
      intro hmem
      obtain ⟨y, hy, hyx⟩ := List.mem_map.mp hmem
      exact absurd (h.bounded y hy) (not_lt.mpr (hyx ▸ hge))
  refine ⟨⟨_, rfl, fun fd => marked_iff⟩, ⟨fun hnil => ?_, hall, fun hne => ?_⟩, hlive, ?_,
    fun x hx hset => ?_, h'⟩
  · simp [hnil, greatest]
  · obtain ⟨x, hx⟩ := List.exists_mem_of_ne_nil _ hne
    rcases hex with hex | hex
    · have hxle := hall x hx
      rw [hex] at hxle
      omega
    · exact hex
  · rw [List.filter_congr hknown, ← List.filter_congr hready]
    exact horder
  · exact hserved x hx ((hready x hx).trans hset)

inductive Step (κ : Type)
  | call (c : Call κ)
  | round (ready : Nat → Bool) (script : List (List (Call κ)))

def LegalSteps : List (Step κ) → Registered κ → Prop
  | [], _ => True
  | .call c :: steps, r => r.LegalCalls [c] ∧ LegalSteps steps (r.call c)
  | .round ready script :: steps, r => r.LegalCalls (callsOf (roundTurns ready script r)) ∧
      LegalSteps steps (r.after (callsOf (roundTurns ready script r)))

def RoundsOk : List (Step κ) → Registered κ → FdEventLists κ → Prop
  | [], _, _ => True
  | .call c :: steps, r, s => ∃ s', c.run s = .ok s' ∧ RoundsOk steps (r.call c) s'
  | .round ready script :: steps, r, s => ∃ res, FdEvents.round ready script s = .ok res ∧
      RoundOk r ready res ∧ RoundsOk steps (r.after (callsOf res.turns)) res.state

def NoSelfCancels : List (Step κ) → Registered κ → Prop
  | [], _ => True
  | .call c :: steps, r => NoSelfCancels steps (r.call c)
  | .round ready script :: steps, r => NoSelfCancel (roundTurns ready script r) ∧
      NoSelfCancels steps (r.after (callsOf (roundTurns ready script r)))

theorem Represents.roundsOk_iff (h : Represents s r) {steps : List (Step κ)}
    (hlegal : LegalSteps steps r) : RoundsOk steps r s ↔ NoSelfCancels steps r := by
  induction steps generalizing s r with
  | nil => exact Iff.rfl
  | cons step steps ih =>
    cases step with
    | call c =>
      obtain ⟨s', hs', hrep⟩ := h.run hlegal.1.1
      rw [RoundsOk, NoSelfCancels, ← ih hrep hlegal.2]
      constructor
      · intro hh
        obtain ⟨t, ht, hsteps⟩ := hh
        obtain rfl := Except.ok.inj (ht.symm.trans hs')
        exact hsteps
      · exact fun hh => ⟨s', hs', hh⟩
    | round ready script =>
      obtain ⟨hok, hbad⟩ := h.round_eq hlegal.1
      rw [RoundsOk, NoSelfCancels]
      by_cases hself : NoSelfCancel (roundTurns ready script r)
      · obtain ⟨s', hs', hrep⟩ := hok hself
        rw [← ih hrep hlegal.2]
        constructor
        · intro hh
          obtain ⟨res, hres, -, hsteps⟩ := hh
          obtain rfl := Except.ok.inj (hres.symm.trans hs')
          exact ⟨hself, hsteps⟩
        · exact fun hh => ⟨_, hs', h.roundOk hrep, hh.2⟩
      · refine iff_of_false (fun hh => ?_) fun hh => hself hh.1
        obtain ⟨res, hres, -⟩ := hh
        rw [hbad hself] at hres
        cases hres

/-- For every sequence of calls and rounds, each round does what it is for exactly when no callback
cancels the event it has been called for. -/
theorem fd_event_rounds_ok_iff {steps : List (Step κ)} (hlegal : LegalSteps steps ⟨[], 0⟩) :
    RoundsOk steps ⟨[], 0⟩ (fdEventsInit : FdEventLists κ) ↔ NoSelfCancels steps ⟨[], 0⟩ :=
  represents_init.roundsOk_iff hlegal

end Rounds

/-- Of two events that are ready the first one's callback cancels the second, and adds another. -/
def neighbourCancelled : List (Step Unit) :=
  [.call (.add 3 () true), .call (.add 4 () true), .round (fun _ => true) [[.cancel 1, .add 5 () true]]]

theorem neighbourCancelled_ok_iff : RoundsOk neighbourCancelled ⟨[], 0⟩ fdEventsInit ↔
    NoSelfCancels neighbourCancelled ⟨[], 0⟩ :=
  fd_event_rounds_ok_iff (by
    simp [neighbourCancelled, LegalSteps, Registered.LegalCalls, Registered.call, roundTurns, turns,
      marked, callsOf])

def selfCancelled : List (Step Unit) :=
  [.call (.add 3 () true), .round (fun _ => true) [[.cancel 0]]]

/-- The traversal reads the event after it has been freed. -/
theorem selfCancelled_not_ok : LegalSteps selfCancelled ⟨[], 0⟩ ∧
    ¬ RoundsOk selfCancelled ⟨[], 0⟩ fdEventsInit := by
  have hlegal : LegalSteps selfCancelled ⟨[], 0⟩ := by
    simp [selfCancelled, LegalSteps, Registered.LegalCalls, Registered.call, roundTurns, turns,
      marked, callsOf]
  refine ⟨hlegal, fun hh => ?_⟩
  have hself := ((represents_init.roundsOk_iff hlegal).mp hh).1
  simp [Registered.call, roundTurns, turns, marked, NoSelfCancel] at hself

end Lininoio.FdEvents
