import Lininoio.BackendBinding

/-! Connecting and disconnecting channels. The loop of `kill_node` runs over the channel
table of the node, which nothing fills, so that no channel is ever disconnected. -/

namespace Lininoio

open StateFault CircularLinks

/-- What the effects so far say about the channels: those that are connected to a node
and have to be disconnected when it dies, and those whose node has died. -/
structure Pairing where
  handed : Slot
  connected : Slot → List ChanPtr
  due : List ChanPtr

section Pairing

variable {σ : Type} (env : Env σ)

/-- Channels are connected to the node that has been handed out last. -/
def Pairing.step (p : Pairing) : Effect → Pairing
  | .getNode n => { p with handed := n, connected := Function.update p.connected n [] }
  | .connect c ops ret =>
    if ret = 0 ∧ (env.ops ops).disconnect.isSome then
      { p with connected := Function.update p.connected p.handed (p.connected p.handed ++ [c]) }
    else p
  | .killNode n =>
    { p with connected := Function.update p.connected n [], due := p.due ++ p.connected n }
  | _ => p

def pairing (T : List Effect) : Pairing := T.foldl (Pairing.step env) ⟨0, fun _ => [], []⟩

theorem due_kill (T : List Effect) (n : Slot) :
    (pairing env (T ++ [.killNode n])).due = (pairing env T).due ++ (pairing env T).connected n := by
  simp [pairing, Pairing.step]

theorem due_of_ne {e : Effect} (he : ∀ n, e ≠ .killNode n) (T : List Effect) :
    (pairing env (T ++ [e])).due = (pairing env T).due := by
  have hstep : pairing env (T ++ [e]) = (pairing env T).step env e := by simp [pairing]
  rw [hstep]
  cases e with
  | killNode n => exact absurd rfl (he n)
  | connect c ops ret =>
    by_cases hret : ret = 0 ∧ (env.ops ops).disconnect.isSome
    · simp [Pairing.step, hret]
    · simp [Pairing.step, hret]
  | _ => rfl

def NoneConnectedKilled (T : List Effect) : Prop :=
  ∀ pre n post, T = pre ++ .killNode n :: post → (pairing env pre).connected n = []

theorem NoneConnectedKilled.due {T : List Effect} (h : NoneConnectedKilled env T) :
    (pairing env T).due = [] := by
  induction T using List.reverseRecOn with
  | nil => rfl
  | append_singleton T e ih =>
    have hT : (pairing env T).due = [] := by
      apply ih
      intro pre n post hsplit
      exact h pre n (post ++ [e]) (by rw [hsplit]; simp)
    by_cases hkill : ∃ n, e = .killNode n
    · obtain ⟨n, rfl⟩ := hkill
      rw [due_kill, hT, h T n [] rfl, List.append_nil]
    · rw [due_of_ne env (not_exists.mp hkill), hT]

end Pairing

theorem exists_quiet_prefix (T : List Effect) : ∃ E rest, T = E ++ rest ∧ (∀ e ∈ E, e.Quiet) ∧
    ∀ e, rest.head? = some e → ¬ e.Quiet := by
  induction T with
  | nil => exact ⟨[], [], rfl, by simp, by simp⟩
  | cons e T ih =>
    by_cases he : e.Quiet
    · obtain ⟨E, rest, hT, hE, hrest⟩ := ih
      refine ⟨e :: E, rest, by rw [hT]; rfl, ?_, hrest⟩
      intro x hx
      rcases List.mem_cons.mp hx with rfl | hx
      · exact he
      · exact hE x hx
    · exact ⟨[], e :: T, rfl, by simp, fun x hx => Option.some.inj hx ▸ he⟩

section Runs

variable {L σ : Type} [NodeLists L] [LawfulNodeLists L] (env : Env σ)

/-- Each time `kill_node` has returned, the disconnect methods called since the start are
those that were due, each of them once; and a fault never keeps it from returning. -/
structure DisconnectsPaired (env : Env σ) (s : Etherd L σ) : Prop where
  paired : ∀ pre n E rest, s.daemon.trace = pre ++ .killNode n :: (E ++ rest) → (∀ e ∈ E, e.Quiet) →
    (∀ e, rest.head? = some e → ¬ e.Quiet) → ∀ c, (pre ++ .killNode n :: E).count (.disconnect c) =
      (pairing env (pre ++ [.killNode n])).due.count c
  expiring : ∀ f t, eventIteration env .timeout s ≠ .error f t
  refusing : ∀ sender p len f t, etherRxCb env sender p len s.daemon = .error f t →
    ∀ n, .killNode n ∉ s.daemon.effectsSince t

def NeverDisconnected (s : Daemon L σ) : Prop := ∀ c, .disconnect c ∉ s.trace

omit [NodeLists L] [LawfulNodeLists L] in
theorem NeverDisconnected.append {s t : Daemon L σ} {E : List Effect} (h : NeverDisconnected s)
    (htrace : t.trace = s.trace ++ E) (hE : ∀ c, .disconnect c ∉ E) : NeverDisconnected t := by
  intro c hc
  rw [htrace, List.mem_append] at hc
  rcases hc with hc | hc
  · exact h c hc
  · exact hE c hc

omit [LawfulNodeLists L] in
theorem Expired.neverDisconnected {s t : Daemon L σ} (hexp : Expired s t) (h : NeverDisconnected s) :
    NeverDisconnected t := by
  induction hexp with
  | done => exact h
  | @round s t e rest _ _ _ ih =>
    apply ih
    by_cases he : e.armed = true
    · exact h.append (E := [.killNode e.priv]) (by simp [expire, he]) (by simp)
    · exact h.append (E := []) (by simp [expire, he]) (by simp)

theorem keptByAll_neverDisconnected : KeptByAll env (NeverDisconnected : Daemon L σ → Prop) where
  wait _ _ h := h
  expired _ _ _ h hexp := hexp.neverDisconnected h
  callback _ _ _ _ _ h hstep := by
    obtain ⟨E, htrace, -, hE⟩ := hstep.effects
    exact h.append htrace fun c hc => hE _ hc
  service _ _ _ _ h hrun := h.append hrun.trace fun c hc => hrun.effects _ hc

theorem AliveOk.refusing {s : Daemon L σ} (h : AliveOk s) {sender : SockaddrLl} {p : Memory} {len : Nat}
    {f : Fault} {t : Daemon L σ} (hrun : etherRxCb env sender p len s = .error f t) (n : Slot) :
    .killNode n ∉ s.effectsSince t := by
  have hstop := wp_etherRxCb env h.table sender p len
  unfold wp at hstop
  rw [hrun] at hstop
  rcases hstop with ⟨-, rfl⟩ | ⟨-, -, E, htrace, hE⟩
  · rw [effectsSince_eq (E := []) (by simp)]
    exact List.not_mem_nil
  · rw [effectsSince_eq htrace]
    exact hE n

theorem AliveOk.expiring {s : Etherd L σ} (h : AliveOk s.daemon) (f : Fault) (t : Etherd L σ) :
    eventIteration env .timeout s ≠ .error f t := by
  intro hrun
  have hstop := wp_iteration_timeout env h
  unfold wp at hstop
  rw [show iteration env .timeout s = .error f t from hrun] at hstop
  exact hstop

theorem NeverDisconnected.paired_iff {s : Etherd L σ} (h : NeverDisconnected s.daemon)
    (hok : AliveOk s.daemon) :
    DisconnectsPaired env s ↔ NoneConnectedKilled env s.daemon.trace := by
  have hcounts : ∀ pre n E rest, s.daemon.trace = pre ++ .killNode n :: (E ++ rest) →
      ∀ c, (pre ++ .killNode n :: E).count (.disconnect c) = 0 := by
    intro pre n E rest hsplit c
    apply List.count_eq_zero.mpr
    intro hm
    apply h c
    rw [hsplit, ← List.cons_append, ← List.append_assoc]
    exact List.mem_append_left _ hm
  constructor
  · intro hpaired pre n post hsplit
    obtain ⟨E, rest, rfl, hE, hrest⟩ := exists_quiet_prefix post
    have hdue : (pairing env (pre ++ [.killNode n])).due = [] := by
      apply List.eq_nil_iff_forall_not_mem.mpr
      intro c hc
      have hcount := hpaired.paired pre n E rest hsplit hE hrest c
      have hpos := List.count_pos_iff.mpr hc
      have hzero := hcounts pre n E rest hsplit c
      omega
    rw [due_kill] at hdue
    exact (List.append_eq_nil_iff.mp hdue).2
  · intro hnone
    refine ⟨?_, hok.expiring env, fun _ _ _ _ _ hrun => hok.refusing env hrun⟩
    intro pre n E rest hsplit _ _ c
    have hdue : (pairing env (pre ++ [.killNode n])).due = [] := by
      apply NoneConnectedKilled.due
      intro pre' m post hpre
      exact hnone pre' m (post ++ (E ++ rest)) (by
        rw [hsplit, List.append_cons pre, hpre]
        simp)
    rw [hcounts pre n E rest hsplit c, hdue, List.count_nil]

/-- Connecting and disconnecting are paired in a run exactly as long as no node is killed
that has a channel to disconnect. -/
theorem disconnects_paired_iff (w : σ) (udevFd netifFd : Int) (es : List Wakeup) :
    EachIteration env (fun _ _ t => DisconnectsPaired env t) es
      (etherdInit w udevFd netifFd : Etherd L σ) ↔
      EachIteration env (fun _ _ t => NoneConnectedKilled env t.daemon.trace) es
        (etherdInit w udevFd netifFd : Etherd L σ) := by
  apply eachIteration_iff (I := fun s => AliveOk s.daemon ∧ NeverDisconnected s.daemon)
  · intro e s hs
    refine wp_mono (wp_eventIteration env hs.1 e) (fun _ t hstep => ?_) fun _ _ _ => trivial
    have hok := hs.1.eventStep env hstep
    have hnever := (keptByAll_neverDisconnected env).eventStep hs.1 hs.2 hstep
    exact ⟨hnever.paired_iff env hok, fun _ => ⟨hok, hnever⟩⟩
  · exact ⟨aliveOk_init w udevFd netifFd, fun c => List.not_mem_nil⟩

omit [LawfulNodeLists L] in
theorem not_disconnectsPaired {t : Etherd L σ} {n : Slot} {c : ChanPtr}
    (hlast : t.daemon.trace.getLast? = some (.killNode n)) (hnever : .disconnect c ∉ t.daemon.trace)
    (hdue : c ∈ (pairing env t.daemon.trace).due) : ¬ DisconnectsPaired env t := by
  intro hpaired
  obtain ⟨pre, hpre⟩ := List.getLast?_eq_some_iff.mp hlast
  have hcount := hpaired.paired pre n [] [] (by simpa using hpre) (by simp) (by simp) c
  have hzero : (pre ++ [Effect.killNode n]).count (Effect.disconnect c) = 0 := by
    apply List.count_eq_zero.mpr
    rwa [← hpre]
  have hpos := List.count_pos_iff.mpr hdue
  rw [hpre] at hpos
  omega

def closingHost : Env Unit :=
  { driverHost with
    loadProtoHandler := fun _ w => (some (some 0), w)
    ops := fun _ => ⟨some fun ch _ w => ((0, ch.data), w), none, some fun _ _ w => w⟩ }

theorem dead_board_stays_connected :
    ¬ EachIteration closingHost (fun _ _ t => DisconnectsPaired closingHost t)
    boardDies (etherdInit () 3 4 : Etherd (Links Cell) Unit) := by
  have hreturns : returnsIn (eventLoop closingHost boardDies) (fun t : Etherd (Links Cell) Unit =>
      t.daemon.trace.getLast? = some (.killNode 0) && !t.daemon.trace.contains (.disconnect 0) &&
        (pairing closingHost t.daemon.trace).due.contains 0) (etherdInit () 3 4) = true := by
    decide +kernel
  apply not_eachIteration_of_returnsIn hreturns (List.cons_ne_nil _ _)
  intro t ht
  simp only [Bool.and_eq_true, Bool.not_eq_true', decide_eq_true_eq, List.contains_iff_mem] at ht
  refine not_disconnectsPaired closingHost ht.1.1 (fun hm => ?_) ht.2
  rw [List.contains_iff_mem.mpr hm] at ht
  exact absurd ht.1.2 (by decide)

end Runs

end Lininoio
