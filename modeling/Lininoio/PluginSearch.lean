import Lininoio.Plugins

/-! What `_find_plugin` finds, and what it leaves behind. -/

namespace Lininoio.Plugins

section

variable {δ π : Type} (host : Host δ π) (dir cls : List UInt8) (matchKey : PluginCopy π → Bool)
  (doLoad : Bool)

def pluginOf (d : δ) (de : Dirent) : Option (PluginData π) :=
  if de.regular then
    match host.dlopen d (pluginPath dir de.name) with
    | some (some pd) => if pd.cls = cls then some pd else none
    | _ => none
  else none

def LacksData (d : δ) (de : Dirent) : Prop :=
  de.regular = true ∧ host.dlopen d (pluginPath dir de.name) = some none

def entryMatches (d : δ) (de : Dirent) : Bool :=
  match pluginOf host dir cls d de with
  | some pd => matchKey (copyData doLoad de pd)
  | none => false

/-- Handling the entry leaves nothing behind: the library has the data, malloc succeeds for a
plugin of the class, and when it is not to be loaded it matches. -/
structure Kept (d : δ) (de : Dirent) : Prop where
  data : ¬ LacksData host dir d de
  malloc : (pluginOf host dir cls d de).isSome = true → de.malloc = true
  matched : (pluginOf host dir cls d de).isSome = true → doLoad = false →
    entryMatches host dir cls matchKey doLoad d de = true

def NothingLost (d : δ) : List Dirent → Prop
  | [] => True
  | de :: rest => Kept host dir cls matchKey doLoad d de ∧
      (entryMatches host dir cls matchKey doLoad d de = false → NothingLost d rest)

instance [DecidableEq π] (d : δ) (de : Dirent) : Decidable (LacksData host dir d de) :=
  inferInstanceAs (Decidable (_ ∧ _))

instance [DecidableEq π] (d : δ) (de : Dirent) :
    Decidable (Kept host dir cls matchKey doLoad d de) :=
  decidable_of_iff (¬ LacksData host dir d de ∧
      ((pluginOf host dir cls d de).isSome = true → de.malloc = true) ∧
      ((pluginOf host dir cls d de).isSome = true → doLoad = false →
        entryMatches host dir cls matchKey doLoad d de = true))
    ⟨fun ⟨h, h', h''⟩ => ⟨h, h', h''⟩, fun h => ⟨h.data, h.malloc, h.matched⟩⟩

instance decidableNothingLost [DecidableEq π] (d : δ) :
    (entries : List Dirent) → Decidable (NothingLost host dir cls matchKey doLoad d entries)
  | [] => isTrue trivial
  | _ :: rest =>
    have := decidableNothingLost d rest
    inferInstanceAs (Decidable (_ ∧ (_ → _)))

/-- The search from `cwd` reads these entries in the directory `d`. -/
def Listed (cwd d : δ) (entries : List Dirent) : Prop :=
  host.chdir cwd dir = some d ∧ host.opendir d = some entries

/-- No step of the search loses anything: where the directory is entered and read, the way back
leads to the working directory, and nothing is left behind by the entries. -/
def LosesNothing (cwd : δ) : Prop :=
  match host.chdir cwd dir with
  | none => True
  | some d =>
    match host.opendir d with
    | none => d = cwd
    | some entries => (host.chdir d ((host.getcwd cwd).getD host.unset)).getD d = cwd ∧
        NothingLost host dir cls matchKey doLoad d entries

variable (hasOut : Bool)

/-- What the search is for: it finds the first plugin of the class that matches, and keeps nothing
but what belongs to `*out`. -/
structure SearchSound (cwd : δ) (r : Int) (out : Option (Plugin π)) (t : Search δ) : Prop where
  found : r = 0 ↔ ∃ d entries, Listed host dir cwd d entries ∧
    ∃ de ∈ entries, entryMatches host dir cls matchKey doLoad d de = true
  first : hasOut = true → ∀ d entries de, Listed host dir cwd d entries →
    entries.find? (entryMatches host dir cls matchKey doLoad d) = some de →
      ∃ p pd, out = some p ∧ pluginOf host dir cls d de = some pd ∧ p.data = copyData doLoad de pd ∧
        (doLoad = true → ∃ h, p.handler = some h ∧ (h, pluginPath dir de.name) ∈ t.handles)
  handles : t.handles.map Prod.fst = (out.bind Plugin.handler).toList
  plugins : t.plugins = (out.map Plugin.addr).toList
  cwd : t.cwd = cwd

end

section Entries

variable {δ π : Type} {host : Host δ π} {dir cls : List UInt8} {matchKey : PluginCopy π → Bool}
  {doLoad hasOut : Bool} {de : Dirent} {rest : List Dirent}

structure Fresh (s : Search δ) : Prop where
  handles : ∀ x ∈ s.handles, x.1 < s.nextHandle
  plugins : ∀ a ∈ s.plugins, a < s.nextPlugin

theorem dlclose_dlopened {s : Search δ} (h : Fresh s) (path : List UInt8) :
    dlclose (some (dlopened path s).1) (dlopened path s).2 =
      { s with nextHandle := s.nextHandle + 1 } := by
  have hkept : s.handles.filter (fun x => some x.1 ≠ some s.nextHandle) = s.handles :=
    List.filter_eq_self.mpr fun x hx => by simpa using (h.handles x hx).ne
  change dlclose (some s.nextHandle) (dlopened path s).2 = _
  simp only [dlclose, dlopened, List.filter_append, hkept]
  simp

theorem Fresh.opened {s : Search δ} (h : Fresh s) (path : List UInt8) :
    Fresh (dlopened path s).2 where
  handles x hx := by
    rcases List.mem_append.mp hx with hx | hx
    · exact (h.handles x hx).trans (Nat.lt_succ_self _)
    · rw [List.mem_singleton.mp hx]
      exact Nat.lt_succ_self _
  plugins := h.plugins

theorem pluginFree_malloced {s : Search δ} (h : Fresh s) {p : Plugin π} (hp : p.addr = s.nextPlugin) :
    pluginFree p (malloced s).2 = { s with nextPlugin := s.nextPlugin + 1 } := by
  have hkept : s.plugins.filter (fun a => a ≠ s.nextPlugin) = s.plugins :=
    List.filter_eq_self.mpr fun a ha => by simpa using (h.plugins a ha).ne
  simp only [pluginFree, malloced, hp, List.filter_append, hkept]
  simp

theorem dlclose_malloced (x : Option Nat) (s : Search δ) :
    dlclose x (malloced s).2 = (malloced (dlclose x s)).2 := rfl

theorem Fresh.closed {s : Search δ} (h : Fresh s) : Fresh { s with nextHandle := s.nextHandle + 1 } :=
  ⟨fun x hx => (h.handles x hx).trans (Nat.lt_succ_self _), h.plugins⟩

theorem Fresh.allocated {s : Search δ} (h : Fresh s) : Fresh (malloced s).2 where
  handles := h.handles
  plugins a ha := by
    rcases List.mem_append.mp ha with ha | ha
    · exact (h.plugins a ha).trans (Nat.lt_succ_self _)
    · rw [List.mem_singleton.mp ha]
      exact Nat.lt_succ_self _

theorem Fresh.freed {s : Search δ} (h : Fresh s) : Fresh { s with nextPlugin := s.nextPlugin + 1 } :=
  ⟨h.handles, fun a ha => (h.plugins a ha).trans (Nat.lt_succ_self _)⟩

theorem pluginFree_pluginUnload {s : Search δ} (h : Fresh s) {path : List UInt8} {p : Plugin π}
    (hp : p.addr = s.nextPlugin) (hhandler : p.handler = some (dlopened path s).1) :
    pluginFree p (pluginUnload p (malloced (dlopened path s).2).2) =
      { s with nextHandle := s.nextHandle + 1, nextPlugin := s.nextPlugin + 1 } := by
  rw [pluginUnload, hhandler, dlclose_malloced, dlclose_dlopened h, pluginFree_malloced h.closed hp]

variable (host dir cls matchKey doLoad hasOut) in
/-- What the loop over some entries has done when it ends: the handles `H` and the plugins `P` are
lost, those behind them belong to `*out`. -/
structure LoopOutcome (d : δ) (entries : List Dirent) (s : Search δ) (fpd : FindPluginData π)
    (t : Search δ) : Prop where
  cwd : t.cwd = s.cwd
  left : ∃ H O P, t.handles = s.handles ++ (H ++ O) ∧
    O.map Prod.fst = (fpd.out.bind Plugin.handler).toList ∧
    t.plugins = s.plugins ++ (P ++ (fpd.out.map Plugin.addr).toList) ∧
    (NothingLost host dir cls matchKey doLoad d entries ↔ H = [] ∧ P = [])
  found : NothingLost host dir cls matchKey doLoad d entries →
    fpd.found = (entries.find? (entryMatches host dir cls matchKey doLoad d)).isSome
  first : NothingLost host dir cls matchKey doLoad d entries → hasOut = true →
    ∀ de, entries.find? (entryMatches host dir cls matchKey doLoad d) = some de →
      ∃ p pd, fpd.out = some p ∧ pluginOf host dir cls d de = some pd ∧
        p.data = copyData doLoad de pd ∧
        (doLoad = true → ∃ h, p.handler = some h ∧ (h, pluginPath dir de.name) ∈ t.handles)

variable {d : δ} {s s' t : Search δ} {fpd : FindPluginData π}

theorem LoopOutcome.skip (h : LoopOutcome host dir cls matchKey doLoad hasOut d rest s' fpd t)
    (hs : s'.cwd = s.cwd ∧ s'.handles = s.handles ∧ s'.plugins = s.plugins)
    (hkept : Kept host dir cls matchKey doLoad d de)
    (hmatch : entryMatches host dir cls matchKey doLoad d de = false) :
    LoopOutcome host dir cls matchKey doLoad hasOut d (de :: rest) s fpd t := by
  obtain ⟨hcwd, hhandles, hplugins⟩ := hs
  have hlost : NothingLost host dir cls matchKey doLoad d (de :: rest) ↔
      NothingLost host dir cls matchKey doLoad d rest := by
    simp [NothingLost, hkept, hmatch]
  have hfind : (de :: rest).find? (entryMatches host dir cls matchKey doLoad d) =
      rest.find? (entryMatches host dir cls matchKey doLoad d) := by
    rw [List.find?_cons, hmatch]
  refine ⟨h.cwd.trans hcwd, ?_, ?_, ?_⟩
  · rw [hlost, ← hhandles, ← hplugins]
    exact h.left
  · rw [hlost, hfind]
    exact h.found
  · rw [hlost, hfind]
    exact h.first

theorem LoopOutcome.lose {entries : List Dirent}
    (h : LoopOutcome host dir cls matchKey doLoad hasOut d entries s' fpd t)
    {H : List (Nat × List UInt8)} {P : List Nat} (hcwd : s'.cwd = s.cwd)
    (hhandles : s'.handles = s.handles ++ H) (hplugins : s'.plugins = s.plugins ++ P)
    (hne : ¬ (H = [] ∧ P = [])) (hkept : ¬ Kept host dir cls matchKey doLoad d de) :
    LoopOutcome host dir cls matchKey doLoad hasOut d (de :: rest) s fpd t := by
  have hlost : ¬ NothingLost host dir cls matchKey doLoad d (de :: rest) := fun hh => hkept hh.1
  refine ⟨h.cwd.trans hcwd, ?_, fun hh => absurd hh hlost, fun hh => absurd hh hlost⟩
  obtain ⟨H', O, P', hH, hO, hP, -⟩ := h.left
  refine ⟨H ++ H', O, P ++ P', ?_, hO, ?_, iff_of_false hlost fun hh => hne ?_⟩
  · rw [hH, hhandles]
    simp only [List.append_assoc]
  · rw [hP, hplugins]
    simp only [List.append_assoc]
  · exact ⟨(List.append_eq_nil_iff.mp hh.1).1, (List.append_eq_nil_iff.mp hh.2).1⟩

theorem loopOutcome_nil (s : Search δ) :
    LoopOutcome host dir cls matchKey doLoad hasOut d [] s ⟨none, false⟩ s where
  cwd := rfl
  left := ⟨[], [], [], by simp, rfl, by simp, by simp [NothingLost]⟩
  found _ := rfl
  first _ _ := by simp

theorem loopOutcome_match (hkept : Kept host dir cls matchKey doLoad d de)
    (hmatch : entryMatches host dir cls matchKey doLoad d de = true) (hcwd : t.cwd = s.cwd)
    {O : List (Nat × List UInt8)} (hH : t.handles = s.handles ++ O)
    (hO : O.map Prod.fst = (fpd.out.bind Plugin.handler).toList)
    (hP : t.plugins = s.plugins ++ (fpd.out.map Plugin.addr).toList) (hfound : fpd.found = true)
    (hfirst : hasOut = true → ∃ p pd, fpd.out = some p ∧ pluginOf host dir cls d de = some pd ∧
      p.data = copyData doLoad de pd ∧
      (doLoad = true → ∃ h, p.handler = some h ∧ (h, pluginPath dir de.name) ∈ t.handles)) :
    LoopOutcome host dir cls matchKey doLoad hasOut d (de :: rest) s fpd t := by
  have hlost : NothingLost host dir cls matchKey doLoad d (de :: rest) :=
    ⟨hkept, fun hh => by rw [hmatch] at hh; cases hh⟩
  have hfind : (de :: rest).find? (entryMatches host dir cls matchKey doLoad d) = some de := by
    rw [List.find?_cons, hmatch]
  refine ⟨hcwd, ⟨[], O, [], hH, hO, hP, by simp [hlost]⟩, fun _ => ?_, fun _ hout x hx => ?_⟩
  · rw [hfind, hfound]
    rfl
  · obtain rfl := Option.some.inj (hfind.symm.trans hx)
    exact hfirst hout

theorem LoopOutcome.passed (h : LoopOutcome host dir cls matchKey doLoad hasOut d rest s' fpd t)
    (hs : s'.cwd = s.cwd ∧ s'.handles = s.handles ∧ s'.plugins = s.plugins)
    (hdata : ¬ LacksData host dir d de) (hnone : pluginOf host dir cls d de = none) :
    LoopOutcome host dir cls matchKey doLoad hasOut d (de :: rest) s fpd t := by
  refine h.skip hs ⟨hdata, fun hh => ?_, fun hh => ?_⟩ (by rw [entryMatches, hnone])
  all_goals
    rw [hnone] at hh
    cases hh

variable (host dir cls matchKey doLoad hasOut) in
def LoopSound (d : δ) (entries : List Dirent) : Prop := ∀ (found : Nat) (s : Search δ), s.cwd = d →
  Fresh s → LoopOutcome host dir cls matchKey doLoad hasOut d entries s
    (forEachEntry host dir cls doLoad (findPluginCb matchKey doLoad hasOut) entries found
      ⟨none, false⟩ s).2.1
    (forEachEntry host dir cls doLoad (findPluginCb matchKey doLoad hasOut) entries found
      ⟨none, false⟩ s).2.2

structure Candidate (host : Host δ π) (dir cls : List UInt8) (d : δ) (de : Dirent)
    (pd : PluginData π) : Prop where
  regular : de.regular = true
  library : host.dlopen d (pluginPath dir de.name) = some (some pd)
  cls_eq : pd.cls = cls
  malloc : de.malloc = true

variable {pd : PluginData π}

theorem pluginOf_eq_some (hreg : de.regular = true)
    (hlib : host.dlopen d (pluginPath dir de.name) = some (some pd)) (hcls : pd.cls = cls) :
    pluginOf host dir cls d de = some pd ∧ ¬ LacksData host dir d de := by
  refine ⟨by simp [pluginOf, hreg, hlib, hcls], fun hh => ?_⟩
  have hdata := hh.2
  rw [hlib] at hdata
  cases hdata

theorem Candidate.pluginOf_eq (h : Candidate host dir cls d de pd) :
    pluginOf host dir cls d de = some pd := (pluginOf_eq_some h.regular h.library h.cls_eq).1

theorem Candidate.entryMatches_eq (h : Candidate host dir cls d de pd) :
    entryMatches host dir cls matchKey doLoad d de = matchKey (copyData doLoad de pd) := by
  rw [entryMatches, h.pluginOf_eq]

theorem Candidate.kept (h : Candidate host dir cls d de pd)
    (hmatched : doLoad = false → matchKey (copyData doLoad de pd) = true) :
    Kept host dir cls matchKey doLoad d de where
  data := (pluginOf_eq_some h.regular h.library h.cls_eq).2
  malloc _ := h.malloc
  matched _ hload := h.entryMatches_eq.trans (hmatched hload)

theorem Candidate.loaded (h : Candidate host dir cls d de pd) (hout : hasOut = true)
    (hrest : LoopSound host dir cls matchKey true hasOut d rest) (found : Nat) (hcwd : s.cwd = d)
    (hfresh : Fresh s) : LoopOutcome host dir cls matchKey true hasOut d (de :: rest) s
      (forEachEntry host dir cls true (findPluginCb matchKey true hasOut) (de :: rest) found
        ⟨none, false⟩ s).2.1
      (forEachEntry host dir cls true (findPluginCb matchKey true hasOut) (de :: rest) found
        ⟨none, false⟩ s).2.2 := by
  have hkept : Kept host dir cls matchKey true d de := h.kept fun hload => by cases hload
  have hentry : entryMatches host dir cls matchKey true d de = matchKey (copyData true de pd) :=
    h.entryMatches_eq
  simp only [forEachEntry, h.regular, Bool.true_eq_false, if_false, hcwd, h.library, ne_eq, h.cls_eq,
    not_true_eq_false, h.malloc]
  cases hmatch : matchKey (copyData true de pd) with
  | true =>
    simp only [findPluginCb, hmatch, hout, Bool.not_true, Bool.false_and, Bool.false_eq_true, if_false,
      if_true]
    refine loopOutcome_match hkept (hentry.trans hmatch) rfl rfl rfl rfl rfl fun _ => ?_
    exact ⟨_, pd, rfl, h.pluginOf_eq, rfl, fun _ => ⟨_, rfl, by simp [malloced, dlopened]⟩⟩
  | false =>
    simp only [findPluginCb, hmatch, Bool.not_false, Bool.true_and, if_true, Bool.false_eq_true,
      if_false]
    have hstep := hrest (found + 1)
      { s with nextHandle := s.nextHandle + 1, nextPlugin := s.nextPlugin + 1 } hcwd hfresh.closed.freed
    rw [pluginFree_pluginUnload hfresh rfl rfl]
    exact hstep.skip ⟨rfl, rfl, rfl⟩ hkept (hentry.trans hmatch)

/-- The library of a candidate that is not to be loaded is closed at once. When the candidate does
not match, nothing frees it. -/
theorem Candidate.notLoaded (h : Candidate host dir cls d de pd)
    (hrest : LoopSound host dir cls matchKey false hasOut d rest) (found : Nat) (hcwd : s.cwd = d)
    (hfresh : Fresh s) : LoopOutcome host dir cls matchKey false hasOut d (de :: rest) s
      (forEachEntry host dir cls false (findPluginCb matchKey false hasOut) (de :: rest) found
        ⟨none, false⟩ s).2.1
      (forEachEntry host dir cls false (findPluginCb matchKey false hasOut) (de :: rest) found
        ⟨none, false⟩ s).2.2 := by
  have hentry : entryMatches host dir cls matchKey false d de = matchKey (copyData false de pd) :=
    h.entryMatches_eq
  simp only [forEachEntry, h.regular, Bool.true_eq_false, if_false, hcwd, h.library, ne_eq, h.cls_eq,
    not_true_eq_false, h.malloc]
  cases hmatch : matchKey (copyData false de pd) with
  | true =>
    have hkept : Kept host dir cls matchKey false d de := h.kept fun _ => hmatch
    simp only [findPluginCb, hmatch, Bool.not_true, Bool.false_and, Bool.false_eq_true, if_false,
      if_true]
    rw [dlclose_malloced, dlclose_dlopened hfresh]
    cases hasOut with
    | true =>
      refine loopOutcome_match hkept (hentry.trans hmatch) rfl (List.append_nil _).symm rfl rfl rfl ?_
      intro _
      exact ⟨_, pd, rfl, h.pluginOf_eq, rfl, fun hload => by cases hload⟩
    | false =>
      rw [pluginFree_malloced hfresh.closed rfl]
      refine loopOutcome_match hkept (hentry.trans hmatch) rfl (List.append_nil _).symm rfl
        (List.append_nil _).symm rfl ?_
      intro hout
      cases hout
  | false =>
    simp only [findPluginCb, hmatch, Bool.not_false, Bool.and_false, Bool.false_eq_true, if_false]
    have hstep := hrest (found + 1) (malloced { s with nextHandle := s.nextHandle + 1 }).2 hcwd
      hfresh.closed.allocated
    rw [dlclose_malloced, dlclose_dlopened hfresh]
    refine hstep.lose rfl (List.append_nil _).symm rfl (by simp) fun hh => ?_
    have hm := hh.matched (by rw [h.pluginOf_eq]; rfl) rfl
    rw [hentry, hmatch] at hm
    cases hm

theorem forEachEntry_outcome (hadm : doLoad = true → hasOut = true) (entries : List Dirent) :
    LoopSound host dir cls matchKey doLoad hasOut d entries := by
  induction entries with
  | nil => exact fun _ s _ _ => loopOutcome_nil s
  | cons de rest ih =>
    intro found s hcwd hfresh
    cases hreg : de.regular with
    | false =>
      simp only [forEachEntry, hreg, if_true]
      exact (ih found s hcwd hfresh).passed ⟨rfl, rfl, rfl⟩ (by simp [LacksData, hreg])
        (by simp [pluginOf, hreg])
    | true =>
      cases hlib : host.dlopen d (pluginPath dir de.name) with
      | none =>
        simp only [forEachEntry, hreg, Bool.true_eq_false, if_false, hcwd, hlib]
        exact (ih found s hcwd hfresh).passed ⟨rfl, rfl, rfl⟩ (by simp [LacksData, hlib])
          (by simp [pluginOf, hlib])
      | some sym =>
        cases sym with
        | none =>
          simp only [forEachEntry, hreg, Bool.true_eq_false, if_false, hcwd, hlib]
          have hstep := ih found (dlopened (pluginPath dir de.name) s).2 hcwd (hfresh.opened _)
          exact hstep.lose rfl rfl (List.append_nil _).symm (by simp) fun hh => hh.data ⟨hreg, hlib⟩
        | some pd =>
          by_cases hcls : pd.cls = cls
          · cases hmalloc : de.malloc with
            | false =>
              simp only [forEachEntry, hreg, Bool.true_eq_false, if_false, hcwd, hlib, ne_eq, hcls,
                not_true_eq_false, hmalloc, if_true]
              refine (loopOutcome_nil (dlopened (pluginPath dir de.name) s).2).lose rfl rfl
                (List.append_nil _).symm (by simp) fun hh => ?_
              have hm := hh.malloc (by rw [(pluginOf_eq_some hreg hlib hcls).1]; rfl)
              rw [hmalloc] at hm
              cases hm
            | true =>
              have hcandidate : Candidate host dir cls d de pd := ⟨hreg, hlib, hcls, hmalloc⟩
              cases doLoad with
              | true => exact hcandidate.loaded (hadm rfl) ih found hcwd hfresh
              | false => exact hcandidate.notLoaded ih found hcwd hfresh
          · simp only [forEachEntry, hreg, Bool.true_eq_false, if_false, hcwd, hlib, ne_eq, hcls,
              not_false_eq_true, if_true]
            rw [dlclose_dlopened hfresh]
            have hstep := ih found { s with nextHandle := s.nextHandle + 1 } hcwd hfresh.closed
            exact hstep.passed ⟨rfl, rfl, rfl⟩ (by simp [LacksData, hlib])
              (by simp [pluginOf, hlib, hcls])

end Entries

section Search

variable {δ π : Type} {host : Host δ π} {dir cls : List UInt8} {matchKey : PluginCopy π → Bool}
  {doLoad hasOut : Bool} {cwd d : δ} {entries : List Dirent} {fpd : FindPluginData π}
  {r : Int} {t : Search δ}

theorem searchSound_of_unlisted (h : ∀ d entries, ¬ Listed host dir cwd d entries) (hr : r ≠ 0)
    (ht : t.handles = [] ∧ t.plugins = []) :
    SearchSound host dir cls matchKey doLoad hasOut cwd r none t ↔ t.cwd = cwd := by
  refine ⟨fun hh => hh.cwd, fun hh => ⟨iff_of_false hr ?_, ?_, ?_, ?_, hh⟩⟩
  · rintro ⟨d, entries, hl, -⟩
    exact h d entries hl
  · intro _ d entries de hl
    exact absurd hl (h d entries)
  · rw [ht.1]
    rfl
  · rw [ht.2]
    rfl

theorem LoopOutcome.searchSound_iff {s : Search δ}
    (h : LoopOutcome host dir cls matchKey doLoad hasOut d entries s fpd t)
    (hl : Listed host dir cwd d entries) (hs : s.handles = [] ∧ s.plugins = [])
    (hr : r = 0 ↔ fpd.found = true) (c : δ) :
    SearchSound host dir cls matchKey doLoad hasOut cwd r fpd.out { t with cwd := c } ↔
      c = cwd ∧ NothingLost host dir cls matchKey doLoad d entries := by
  obtain ⟨H, O, P, hH, hO, hP, hlost⟩ := h.left
  rw [hs.1, List.nil_append] at hH
  rw [hs.2, List.nil_append] at hP
  have honly : ∀ {d' entries'}, Listed host dir cwd d' entries' → d' = d ∧ entries' = entries := by
    rintro d' entries' ⟨hd, he⟩
    obtain rfl := Option.some.inj (hd.symm.trans hl.1)
    exact ⟨rfl, Option.some.inj (he.symm.trans hl.2)⟩
  constructor
  · intro hh
    refine ⟨hh.cwd, hlost.mpr ⟨?_, ?_⟩⟩
    · have hlen := congrArg List.length hh.handles
      rw [hH, ← hO, List.map_append, List.length_append, List.length_map] at hlen
      exact List.length_eq_zero_iff.mp (by omega)
    · have hlen := congrArg List.length hh.plugins
      rw [hP, List.length_append] at hlen
      exact List.length_eq_zero_iff.mp (by omega)
  · rintro ⟨hcwd, hnone⟩
    obtain ⟨rfl, rfl⟩ := hlost.mp hnone
    refine ⟨?_, ?_, ?_, ?_, hcwd⟩
    · rw [hr, h.found hnone, List.find?_isSome]
      constructor
      · intro hh
        exact ⟨d, entries, hl, hh⟩
      · rintro ⟨d', entries', hl', hh⟩
        obtain ⟨rfl, rfl⟩ := honly hl'
        exact hh
    · intro hout d' entries' de hl' hfind
      obtain ⟨rfl, rfl⟩ := honly hl'
      exact h.first hnone hout de hfind
    · rw [hH, List.nil_append, hO]
    · rw [hP, List.nil_append]

/-- The search is sound exactly where no step of it loses anything. -/
theorem plugin_search_sound_iff (host : Host δ π) (dir cls : List UInt8)
    (matchKey : PluginCopy π → Bool) (hadm : doLoad = true → hasOut = true) (cwd : δ) :
    let res := findPlugin matchKey doLoad hasOut host dir cls (Search.start cwd)
    SearchSound host dir cls matchKey doLoad hasOut cwd res.1 res.2.1 res.2.2 ↔
      LosesNothing host dir cls matchKey doLoad cwd := by
  have hgo : (doLoad && !hasOut) = false := by
    cases doLoad with
    | false => rfl
    | true => rw [hadm rfl]; rfl
  simp only [findPlugin, hgo, Bool.false_eq_true, if_false]
  cases hcd : host.chdir cwd dir with
  | none =>
    have hnot : ∀ d entries, ¬ Listed host dir cwd d entries := fun d entries hh => by
      rw [Listed, hcd] at hh
      cases hh.1
    simp only [forEachPlugin, Search.start, hcd, LosesNothing, iff_true]
    exact (searchSound_of_unlisted hnot (by simp) ⟨rfl, rfl⟩).mpr rfl
  | some d =>
    cases hod : host.opendir d with
    | none =>
      have hnot : ∀ d entries, ¬ Listed host dir cwd d entries := fun d' entries hh => by
        obtain rfl := Option.some.inj (hcd.symm.trans hh.1)
        cases hod.symm.trans hh.2
      simp only [forEachPlugin, Search.start, hcd, hod, LosesNothing]
      exact searchSound_of_unlisted hnot (by simp) ⟨rfl, rfl⟩
    | some entries =>
      have hloop : LoopOutcome host dir cls matchKey doLoad hasOut d entries _ _ _ :=
        forEachEntry_outcome hadm entries 0 { Search.start cwd with cwd := d } rfl
          ⟨by simp [Search.start], by simp [Search.start]⟩
      have hcwd := hloop.cwd
      simp only [forEachPlugin, Search.start, hcd, hod, LosesNothing] at hloop hcwd ⊢
      generalize forEachEntry host dir cls doLoad (findPluginCb matchKey doLoad hasOut) entries 0
        ⟨none, false⟩ ⟨d, [], 0, [], 0⟩ = res at hloop hcwd ⊢
      obtain ⟨found, fpd, u⟩ := res
      have hcount : ¬ (found : Int) < 0 := by omega
      have hr : (if fpd.found = true then (0 : Int) else -1) = 0 ↔ fpd.found = true := by
        cases fpd.found <;> simp
      simp only [hcount, if_false] at hloop hcwd ⊢
      rw [hloop.searchSound_iff ⟨hcd, hod⟩ ⟨rfl, rfl⟩ hr, hcwd]

def pluginsHost (entries : List Dirent) (lib : List UInt8 → Library Nat) : Host (List UInt8) Nat where
  getcwd := some
  unset := []
  chdir _ path := some path
  opendir _ := some entries
  dlopen _ path := lib path

def entryNamed (c : UInt8) : Dirent := ⟨[c], true, true, true, true, true⟩

/-- In `/`: `.`, a file `a` that is no library, and the plugins `b`, `c` and `d`. -/
def threePlugins : Host (List UInt8) Nat :=
  pluginsHost [⟨[46], false, true, true, true, true⟩, entryNamed 97, entryNamed 98, entryNamed 99,
    entryNamed 100] fun path =>
      if path = [47, 98] then some (some ⟨[98], [115, 112, 105], [], 0⟩)
      else if path = [47, 99] then some (some ⟨[99], [114], [], 1⟩)
      else if path = [47, 100] then some (some ⟨[100], [114], [], 2⟩)
      else none

theorem threePlugins_search_sound :
    let res := findPlugin (fun p => p.name = some [100]) true true threePlugins [47] [114]
      (Search.start [47, 120])
    SearchSound threePlugins [47] [114] (fun p => p.name = some [100]) true true [47, 120] res.1
      res.2.1 res.2.2 :=
  (plugin_search_sound_iff threePlugins [47] [114] _ (fun _ => rfl) [47, 120]).mpr
    ⟨rfl, by decide⟩

/-- The library `a` has no `mcuio_plugin_data`, and its handle stays open. -/
theorem dataless_search_not_sound :
    let host := pluginsHost [entryNamed 97] fun _ => some none
    let res := findPlugin (fun _ => true) true true host [47] [114] (Search.start [47])
    ¬ SearchSound host [47] [114] (fun _ => true) true true [47] res.1 res.2.1 res.2.2 := by
  intro host res hh
  have hopen : [0] = [] := hh.handles
  cases hopen

end Search

end Lininoio.Plugins
