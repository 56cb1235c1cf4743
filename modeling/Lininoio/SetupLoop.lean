import Lininoio.SetupTrace

/-! What setting up the remote processors of a node does: in which order it goes through the
cores, and when it adds a processor. -/

namespace Lininoio

open StateFault

section Processor

variable {L σ : Type} {env : Env σ} {s : Daemon L σ} {path : List UInt8} {c : CorePtr}
  {E : List Effect}

theorem FwTrace.prepares {r : Option (List UInt8)} (h : FwTrace env s c r E) :
    (∀ e ∈ E, e.Preparation (firmwarePath env (s.core c).rprocName) c) ∧
      ((s.core c).rprocName ≠ [] → (r.isSome ↔ StepsSucceed E)) := by
  cases h with
  | unnamed hname => exact ⟨by simp, absurd hname⟩
  | noFile hfd => simp [Effect.Preparation, SysCall.setupStep, hfd]
  | noPage hfd hm => simp [Effect.Preparation, SysCall.setupStep, hm]
  | @written fd m U blocks w x hfd hm hread =>
    have hprep : ∀ e ∈ U, e.Preparation (firmwarePath env (s.core c).rprocName) c := by
      intro e he
      obtain ⟨y, rfl⟩ := hread.readUnset env e he
      trivial
    have hsteps : StepsSucceed U := by
      intro call r hcall
      obtain ⟨y, hy⟩ := hread.readUnset env _ hcall
      cases hy
    refine ⟨fun e he => ?_, fun _ => by simp [SysCall.setupStep, hfd, hm, hsteps]⟩
    simp only [List.mem_append] at he
    rcases he with (he | he) | he
    · revert e
      simp [Effect.Preparation]
    · exact hprep e he
    · revert e
      simp [Effect.Preparation]

theorem AssignTrace.prepares {cb : FdCallback} (h : AssignTrace cb E)
    (hcb : cb = .start c ∨ cb = .stop c) : (∀ e ∈ E, e.Preparation path c) ∧ StepsSucceed E := by
  cases h with
  | noEventfd hr => simp [Effect.Preparation, SysCall.setupStep]
  | noMemory hr hm => simp [Effect.Preparation, SysCall.setupStep]
  | assigned hr hm => simp [Effect.Preparation, SysCall.setupStep, hcb]

theorem FwTrace.prepares_events {fd m : Int} {name : List UInt8} {F A B : List Effect}
    (hF : FwTrace env s c (some name) F) (hA : AssignTrace (.start c) A)
    (hB : AssignTrace (.stop c) B) (hname : (s.core c).rprocName ≠ []) (hfd : 0 ≤ fd) (hm : 0 ≤ m) :
    (∀ e ∈ [.sys .openMiscDev fd, .sys (.malloc .firmwareName) m] ++ F ++ A ++ B,
      e.Preparation (firmwarePath env (s.core c).rprocName) c) ∧
    StepsSucceed ([.sys .openMiscDev fd, .sys (.malloc .firmwareName) m] ++ F ++ A ++ B) := by
  obtain ⟨hprep, hsteps⟩ := hF.prepares
  have hstart : (∀ e ∈ A, e.Preparation (firmwarePath env (s.core c).rprocName) c) ∧ StepsSucceed A :=
    hA.prepares (.inl rfl)
  have hstop : (∀ e ∈ B, e.Preparation (firmwarePath env (s.core c).rprocName) c) ∧ StepsSucceed B :=
    hB.prepares (.inr rfl)
  constructor
  · simp only [List.forall_mem_append]
    exact ⟨⟨⟨by simp [Effect.Preparation], hprep⟩, hstart.1⟩, hstop.1⟩
  · simp only [stepsSucceed_append]
    exact ⟨⟨⟨by simp [SysCall.setupStep, hfd, hm], (hsteps hname).mp rfl⟩, hstart.2⟩, hstop.2⟩

theorem SetupTrace.adds_iff (h : SetupTrace env s c E) (hname : (s.core c).rprocName ≠ []) :
    (∀ e ∈ E, e.SetupOf (firmwarePath env (s.core c).rprocName) c) ∧
      (ProcessorAdded c E ↔ StepsSucceed E) := by
  cases h with
  | noDevice hfd => simp [Effect.SetupOf, Effect.Preparation, SysCall.setupStep, hfd]
  | noName hfd hm => simp [Effect.SetupOf, Effect.Preparation, SysCall.setupStep, hm]
  | @noFirmware fd m x y F hfd hm hF =>
    obtain ⟨hprep, hsteps⟩ := hF.prepares
    have hfails : ¬ StepsSucceed F := by simpa using hsteps hname
    simp only [List.forall_mem_append]
    refine ⟨⟨⟨?_, fun e he => SetupOf.of_preparation (hprep e he)⟩, ?_⟩, ?_⟩
    · simp [Effect.SetupOf, Effect.Preparation]
    · simp [Effect.SetupOf, Effect.Preparation]
    · simp [not_processorAdded hprep, hfails]
  | @noUdevEvent fd m u x y z name F A B hfd hm hF hA hB hu =>
    obtain ⟨hprep, hsteps⟩ := hF.prepares_events hA hB hname hfd hm
    rw [List.forall_mem_append]
    refine ⟨⟨fun e he => SetupOf.of_preparation (hprep e he), ?_⟩, ?_⟩
    · simp [Effect.SetupOf, Effect.Preparation]
    · rw [processorAdded_append, stepsSucceed_append, or_iff_right (not_processorAdded hprep),
        and_iff_right hsteps]
      simp [SysCall.setupStep, hu]
  | @notAdded fd m u r x y z name pd F A B hfd hm hF hA hB hu hr =>
    obtain ⟨hprep, hsteps⟩ := hF.prepares_events hA hB hname hfd hm
    rw [List.forall_mem_append]
    refine ⟨⟨fun e he => SetupOf.of_preparation (hprep e he), ?_⟩, ?_⟩
    · simp [Effect.SetupOf, Effect.Preparation]
    · rw [processorAdded_append, stepsSucceed_append, or_iff_right (not_processorAdded hprep),
        and_iff_right hsteps]
      simp [SysCall.setupStep, hr]
  | @added fd m u r name pd F A B hfd hm hF hA hB hu hr =>
    obtain ⟨hprep, hsteps⟩ := hF.prepares_events hA hB hname hfd hm
    rw [List.forall_mem_append]
    refine ⟨⟨fun e he => SetupOf.of_preparation (hprep e he), ?_⟩, ?_⟩
    · simp [Effect.SetupOf, Effect.Preparation]
    · rw [processorAdded_append, stepsSucceed_append, or_iff_right (not_processorAdded hprep),
        and_iff_right hsteps]
      simp [SysCall.setupStep, hu, hr]

/-- A run of `setup_remoteproc` adds the processor exactly when none of its steps fails. -/
theorem wp_setupRemoteproc (env : Env σ) (s : Daemon L σ) (hname : (s.core c).rprocName ≠ [])
    (h : ∀ x ∈ (s.core c).channels, (s.chan x).isSome) :
    wp (setupRemoteproc env c)
      (fun _ t => ∃ E, SetupRun (Effect.SetupOf (firmwarePath env (s.core c).rprocName) c)
      { s with trace := s.trace ++ [.setupRemoteproc c] } t E ∧ (ProcessorAdded c E ↔ StepsSucceed E))
      (fun _ _ => False) s := by
  refine wp_mono (wp_setupRemoteproc_trace env s c) ?_ fun _ _ hf => ?_
  · intro _ t ht
    obtain ⟨E, hrun, htrace⟩ := ht
    obtain ⟨hsetup, hiff⟩ := htrace.adds_iff hname
    exact ⟨E, hrun.mono fun e he _ => hsetup e he, hiff⟩
  · obtain ⟨x, hx, hnone⟩ := hf
    simpa [hnone] using h x hx

end Processor

/-- The cores the loop comes to before it meets an unused core id. -/
def reachedCores {m : Nat} (cores : Fin m → Option CorePtr) : List (Fin m) → List CorePtr
  | [] => []
  | i :: rest =>
    match cores i with
    | none => []
    | some c => c :: reachedCores cores rest

def setups : List Effect → List CorePtr := List.filterMap fun
  | .setupRemoteproc c => some c
  | _ => none

@[simp] theorem setups_nil : setups [] = [] := rfl

@[simp] theorem setups_getNode (n : Slot) (E : List Effect) : setups (.getNode n :: E) = setups E := rfl

@[simp] theorem setups_killNode (n : Slot) (E : List Effect) :
    setups (.killNode n :: E) = setups E := rfl

@[simp] theorem setups_sys (call : SysCall) (r : Int) (E : List Effect) :
    setups (.sys call r :: E) = setups E := rfl

@[simp] theorem setups_append (E F : List Effect) : setups (E ++ F) = setups E ++ setups F :=
  List.filterMap_append

def Effect.SetupAll (path : CorePtr → List UInt8) (cs : List CorePtr) : Effect → Prop
  | .setupRemoteproc c => c ∈ cs
  | e => ∃ c ∈ cs, e.SetupOf (path c) c

theorem Effect.SetupAll.quiet {path : CorePtr → List UInt8} {cs : List CorePtr} {e : Effect}
    (h : e.SetupAll path cs) : e.Quiet := by
  cases e with
  | getNode n => obtain ⟨c, -, hc⟩ := h; exact hc
  | killNode n => obtain ⟨c, -, hc⟩ := h; exact hc
  | _ => trivial

def CoresDistinct {m : Nat} (cores : Fin m → Option CorePtr) : Prop :=
  ∀ i j c, cores i = some c → cores j = some c → i = j

theorem mem_reachedCores {m : Nat} {cores : Fin m → Option CorePtr} {l : List (Fin m)} {c : CorePtr}
    (h : c ∈ reachedCores cores l) : ∃ i ∈ l, cores i = some c := by
  induction l with
  | nil => simp [reachedCores] at h
  | cons i rest ih =>
    cases hi : cores i with
    | none => simp [reachedCores, hi] at h
    | some d =>
      simp only [reachedCores, hi, List.mem_cons] at h
      rcases h with rfl | h
      · exact ⟨i, by simp, hi⟩
      · obtain ⟨j, hj, hc⟩ := ih h
        exact ⟨j, List.mem_cons_of_mem _ hj, hc⟩

theorem nodup_reachedCores {m : Nat} {cores : Fin m → Option CorePtr} (hd : CoresDistinct cores)
    {l : List (Fin m)} (hl : l.Nodup) : (reachedCores cores l).Nodup := by
  induction l with
  | nil => simp [reachedCores]
  | cons i rest ih =>
    have hrest := List.nodup_cons.mp hl
    cases hi : cores i with
    | none => simp [reachedCores, hi]
    | some c =>
      simp only [reachedCores, hi, List.nodup_cons]
      refine ⟨fun hc => ?_, ih hrest.2⟩
      obtain ⟨j, hj, hjc⟩ := mem_reachedCores hc
      exact hrest.1 (hd i j c hi hjc ▸ hj)

theorem mem_reachedCores_iff {m : Nat} {cores : Fin m → Option CorePtr} (hd : CoresDistinct cores)
    {l : List (Fin m)} (hl : l.Pairwise (· < ·)) {j : Fin m} {c : CorePtr} (hj : cores j = some c) :
    c ∈ reachedCores cores l ↔ j ∈ l ∧ ∀ i ∈ l, i ≤ j → (cores i).isSome := by
  induction l with
  | nil => simp [reachedCores]
  | cons k rest ih =>
    have hk := List.pairwise_cons.mp hl
    cases hc : cores k with
    | none =>
      refine ⟨by simp [reachedCores, hc], fun h => ?_⟩
      have hkj : k ≤ j := by
        rcases List.mem_cons.mp h.1 with rfl | hjr
        · exact le_rfl
        · exact (hk.1 j hjr).le
      simpa [hc] using h.2 k (by simp) hkj
    | some d =>
      simp only [reachedCores, hc, List.mem_cons, ih hk.2]
      constructor
      · rintro (rfl | ⟨hjr, hall⟩)
        · obtain rfl := hd k j c hc hj
          refine ⟨.inl rfl, ?_⟩
          rintro i (rfl | hir) hij
          · simp [hc]
          · exact absurd (hk.1 i hir) hij.not_gt
        · refine ⟨.inr hjr, ?_⟩
          rintro i (rfl | hir) hij
          · simp [hc]
          · exact hall i hir hij
      · intro hh
        obtain ⟨rfl | hjr, hall⟩ := hh
        · exact .inl (Option.some.inj (hj.symm.trans hc))
        · exact .inr ⟨hjr, fun i hir => hall i (.inr hir)⟩

theorem reachedCores_complete_iff {m : Nat} {cores : Fin m → Option CorePtr}
    (hd : CoresDistinct cores) : (∀ i c, cores i = some c → c ∈ reachedCores cores (List.finRange m)) ↔
      ∀ i j, i ≤ j → (cores j).isSome → (cores i).isSome := by
  have hmem : ∀ {j c}, cores j = some c →
      (c ∈ reachedCores cores (List.finRange m) ↔ ∀ i, i ≤ j → (cores i).isSome) := by
    intro j c hj
    simp [mem_reachedCores_iff hd (List.pairwise_lt_finRange m) hj]
  constructor
  · intro h i j hij hj
    obtain ⟨c, hc⟩ := Option.isSome_iff_exists.mp hj
    exact (hmem hc).mp (h j c hc) i hij
  · intro h i c hc
    exact (hmem hc).mpr fun k hki => h k i hki (by simp [hc])

section

variable {L σ : Type} (env : Env σ) {path : CorePtr → List UInt8}

def setupPath (s : Daemon L σ) (c : CorePtr) : List UInt8 := firmwarePath env (s.core c).rprocName

theorem Effect.SetupOf.setupAll {c : CorePtr} {cs : List CorePtr} {e : Effect}
    (h : e.SetupOf (path c) c)
    (hc : c ∈ cs) : e.SetupAll path cs := by
  cases e with
  | setupRemoteproc => simp [Effect.SetupOf, Effect.Preparation] at h
  | _ => exact ⟨c, hc, h⟩

theorem Effect.SetupAll.cons {c : CorePtr} {cs : List CorePtr} {e : Effect} (h : e.SetupAll path cs) :
    e.SetupAll path (c :: cs) := by
  cases e with
  | setupRemoteproc => exact List.mem_cons_of_mem _ h
  | _ =>
    obtain ⟨d, hd, he⟩ := h
    exact ⟨d, List.mem_cons_of_mem _ hd, he⟩

theorem setups_setupOf {path : List UInt8} {c : CorePtr} {E : List Effect} (h : ∀ e ∈ E,
    e.SetupOf path c) : setups E = [] := by
  apply List.filterMap_eq_nil_iff.mpr
  intro e he
  have hh := h e he
  cases e <;> simp_all [Effect.SetupOf, Effect.Preparation]

theorem ProcessorAdded.mem_of_setupAll {c : CorePtr} {cs : List CorePtr} {E : List Effect}
    (h : ProcessorAdded c E) (hE : ∀ e ∈ E, e.SetupAll path cs) : c ∈ cs := by
  obtain ⟨pd, r, hm, -⟩ := h
  obtain ⟨d, hd, he⟩ := hE _ hm
  exact (show c = d from he) ▸ hd

theorem ProcessorAdded.eq_of_setupOf {path : List UInt8} {c d : CorePtr} {E : List Effect}
    (h : ProcessorAdded c E) (hE : ∀ e ∈ E, e.SetupOf path d) : c = d := by
  obtain ⟨pd, r, hm, -⟩ := h
  exact hE _ hm

/-- The loop sets up the cores it comes to, once each, and adds all their
processors exactly when no step of any setup fails. -/
theorem wp_setupCores (s : Daemon L σ) {cores : Fin lininoioMaxNcores → Option CorePtr}
    {l : List (Fin lininoioMaxNcores)} (hnodup : (reachedCores cores l).Nodup)
    (hname : ∀ c ∈ reachedCores cores l, (s.core c).rprocName ≠ [])
    (hchan : ∀ c ∈ reachedCores cores l, ∀ x ∈ (s.core c).channels, (s.chan x).isSome) :
    wp (setupCores env cores l)
      (fun _ t => ∃ E, SetupRun (Effect.SetupAll (setupPath env s) (reachedCores cores l)) s t E ∧
      setups E = reachedCores cores l ∧
      ((∀ c ∈ reachedCores cores l, ProcessorAdded c E) ↔ StepsSucceed E)) (fun _ _ => False) s := by
  induction l generalizing s with
  | nil => exact ⟨[], .refl s, rfl, by simp [reachedCores]⟩
  | cons i rest ih =>
    cases hi : cores i with
    | none =>
      simp only [setupCores, hi, reachedCores, wp_pure]
      exact ⟨[], .refl s, rfl, by simp⟩
    | some c =>
      simp only [reachedCores, hi, List.mem_cons, forall_eq_or_imp, List.nodup_cons]
        at hname hchan hnodup ⊢
      simp only [setupCores, hi, wp_bind]
      refine wp_mono (wp_setupRemoteproc env s hname.1 hchan.1) ?_ (fun _ _ hf => hf)
      intro _ t ht
      obtain ⟨E, hrun, hadded⟩ := ht
      refine wp_mono (ih t hnodup.2 ?_ ?_) ?_ (fun _ _ hf => hf)
      · intro d hd
        rw [hrun.rprocName]
        exact hname.2 d hd
      · intro d hd
        rw [hrun.channels, hrun.chan]
        exact hchan.2 d hd
      intro _ u hu
      obtain ⟨F, hrest, hsetups, hall⟩ := hu
      have hbegin : SetupRun (Effect.SetupAll (setupPath env s) (c :: reachedCores cores rest)) s
          { s with trace := s.trace ++ [.setupRemoteproc c] } [.setupRemoteproc c] :=
        .emit List.mem_cons_self fun _ => rfl
      have hpath : setupPath env t = setupPath env s := by
        funext d
        rw [setupPath, hrun.rprocName, setupPath]
      rw [hpath] at hrest
      refine ⟨_, (hbegin.trans (hrun.mono fun e _ he => he.setupAll (by simp))).trans
        (hrest.mono fun e _ he => he.cons), ?_, ?_⟩
      · rw [setups_append, setups_append, setups_setupOf hrun.effects, hsetups]
        simp [setups]
      · have hF : ¬ ProcessorAdded c F := fun h => hnodup.1 (h.mem_of_setupAll hrest.effects)
        have hE : ∀ d ∈ reachedCores cores rest, ¬ ProcessorAdded d E :=
          fun d hd h => hnodup.1 (h.eq_of_setupOf hrun.effects ▸ hd)
        simp only [List.singleton_append, processorAdded_append, processorAdded_setupRemoteproc,
          stepsSucceed_append, stepsSucceed_setupRemoteproc, hF, or_false, hadded, ← hall]
        exact and_congr_right' ⟨fun h d hd => (h d hd).resolve_left (hE d hd), fun h d hd =>
          .inr (h d hd)⟩

end

end Lininoio
