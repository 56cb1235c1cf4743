import Lininoio.ProtoHandlers

/-! The list that `find_plugins` makes of the plugins of a class, what it counts, and what is left
open when the list is given back. -/

namespace Lininoio.Plugins

section Definitions

variable {δ π : Type}

/-- `find_plugins_cb`: `list_add_tail`, and the search goes on. -/
def findPluginsCb (p : Plugin π) (l : List (Plugin π)) (s : Search δ) :
    Bool × List (Plugin π) × Search δ :=
  (false, l ++ [p], s)

def findPlugins (host : Host δ π) (dir cls : List UInt8) (doLoad : Bool) (s : Search δ) :
    Int × List (Plugin π) × Search δ :=
  forEachPlugin host dir cls doLoad findPluginsCb [] s

def freePlugins (l : List (Plugin π)) (s : Search δ) : Search δ :=
  l.foldl (fun s p => pluginFree p (pluginUnload p s)) s

variable (host : Host δ π) (dir cls : List UInt8) (doLoad : Bool) (d : δ)

/-- The entries that are looked at: the search ends at a plugin for which malloc fails. -/
def lookedAt : List Dirent → List Dirent
  | [] => []
  | de :: rest =>
    if (pluginOf host dir cls d de).isSome && !de.malloc then [de] else de :: lookedAt rest

def madeFor (de : Dirent) : Option (PluginCopy π) :=
  if de.malloc then (pluginOf host dir cls d de).map (copyData doLoad de) else none

/-- The library of the entry stays open: it has no data, or it is a plugin of the class that is to be
loaded or for which malloc fails. -/
def leftOpen (de : Dirent) : Option (List UInt8) :=
  if de.regular then
    match host.dlopen d (pluginPath dir de.name) with
    | none => none
    | some none => some (pluginPath dir de.name)
    | some (some pd) =>
      if pd.cls = cls ∧ (doLoad || !de.malloc) = true then some (pluginPath dir de.name) else none
  else none

/-- A library that the search leaves open; it belongs to a plugin in the list, or to nothing. -/
structure OpenLibrary where
  handle : Nat
  path : List UInt8
  owned : Bool

/-- What the loop over some entries adds to the count, to the list and to the search. What is left
open but belongs to nothing does not depend on whether the plugins are to be loaded. -/
structure ListOutcome (entries : List Dirent) (found : Nat) (l : List (Plugin π)) (s : Search δ)
    (res : Nat × List (Plugin π) × Search δ) : Prop where
  cwd : res.2.2.cwd = s.cwd
  numbered : Numbered res.2.2
  count : res.1 = found + (lookedAt host dir cls d entries).countP
    fun de => (pluginOf host dir cls d de).isSome
  added : ∃ (new : List (Plugin π)) (H : List OpenLibrary), res.2.1 = l ++ new ∧
    res.2.2.handles = s.handles ++ H.map (fun x => (x.handle, x.path)) ∧
    new.map Plugin.data = (lookedAt host dir cls d entries).filterMap
      (madeFor host dir cls doLoad d) ∧
    res.2.2.plugins = s.plugins ++ new.map Plugin.addr ∧
    H.map OpenLibrary.path = (lookedAt host dir cls d entries).filterMap
      (leftOpen host dir cls doLoad d) ∧
    new.filterMap Plugin.handler = (H.filter OpenLibrary.owned).map OpenLibrary.handle ∧
    (H.filter fun x => !x.owned).map OpenLibrary.path = (lookedAt host dir cls d entries).filterMap
      (leftOpen host dir cls false d)

end Definitions

section Loop

variable {δ π : Type} {host : Host δ π} {dir cls : List UInt8} {doLoad : Bool} {d : δ}
  {de : Dirent} {rest : List Dirent} {found found' : Nat} {l l' : List (Plugin π)} {s s' : Search δ}
  {res : Nat × List (Plugin π) × Search δ}

theorem ListOutcome.cons (h : ListOutcome host dir cls doLoad d rest found' l' s' res)
    (hgoes : ((pluginOf host dir cls d de).isSome && !de.malloc) = false) (hcwd : s'.cwd = s.cwd)
    (hcount : found' = found + if (pluginOf host dir cls d de).isSome then 1 else 0)
    {new : List (Plugin π)} {H : List OpenLibrary} (hnew : l' = l ++ new)
    (hH : s'.handles = s.handles ++ H.map (fun x => (x.handle, x.path)))
    (hdata : new.map Plugin.data = (madeFor host dir cls doLoad d de).toList)
    (hplugins : s'.plugins = s.plugins ++ new.map Plugin.addr)
    (hopen : H.map OpenLibrary.path = (leftOpen host dir cls doLoad d de).toList)
    (howned : new.filterMap Plugin.handler = (H.filter OpenLibrary.owned).map OpenLibrary.handle)
    (hlost : (H.filter fun x => !x.owned).map OpenLibrary.path =
      (leftOpen host dir cls false d de).toList) :
    ListOutcome host dir cls doLoad d (de :: rest) found l s res := by
  have hlooked : lookedAt host dir cls d (de :: rest) = de :: lookedAt host dir cls d rest := by
    rw [lookedAt, hgoes]
    rfl
  have hsplit : ∀ {β : Type} (f : Dirent → Option β),
      (lookedAt host dir cls d (de :: rest)).filterMap f =
        (f de).toList ++ (lookedAt host dir cls d rest).filterMap f := by
    intro β f
    rw [hlooked, List.filterMap_cons]
    cases f de <;> rfl
  obtain ⟨new', H', hnew', hH', hdata', hplugins', hopen', howned', hlost'⟩ := h.added
  refine ⟨h.cwd.trans hcwd, h.numbered, ?_, new ++ new', H ++ H', ?_, ?_, ?_, ?_, ?_, ?_, ?_⟩
  · rw [h.count, hcount, hlooked, List.countP_cons]
    omega
  · rw [hnew', hnew, List.append_assoc]
  · rw [hH', hH, List.map_append, List.append_assoc]
  · rw [hsplit, List.map_append, hdata, hdata']
  · rw [hplugins', hplugins, List.map_append, List.append_assoc]
  · rw [hsplit, List.map_append, hopen, hopen']
  · rw [List.filterMap_append, howned, howned', List.filter_append, List.map_append]
  · rw [hsplit, List.filter_append, List.map_append, hlost, hlost']

theorem ListOutcome.passed (h : ListOutcome host dir cls doLoad d rest found l s' res)
    (hnone : pluginOf host dir cls d de = none) (hcwd : s'.cwd = s.cwd)
    (hhandles : s'.handles = s.handles) (hplugins : s'.plugins = s.plugins)
    (hclosed : ∀ load, leftOpen host dir cls load d de = none) :
    ListOutcome host dir cls doLoad d (de :: rest) found l s res := by
  have hmade : madeFor host dir cls doLoad d de = none := by simp [madeFor, hnone]
  refine h.cons (by rw [hnone]; rfl) hcwd (by rw [hnone]; rfl) (List.append_nil l).symm (H := [])
    (hhandles.trans (List.append_nil _).symm) ?_ (hplugins.trans (List.append_nil _).symm) ?_ rfl ?_
  · rw [hmade]
    rfl
  · rw [hclosed]
    rfl
  · rw [hclosed]
    rfl

theorem forEachEntry_listOutcome (entries : List Dirent) (found : Nat) (l : List (Plugin π))
    (s : Search δ) (hs : Numbered s) (hcwd : s.cwd = d) :
    ListOutcome host dir cls doLoad d entries found l s
      (forEachEntry host dir cls doLoad findPluginsCb entries found l s) := by
  induction entries generalizing found l s with
  | nil => exact ⟨rfl, hs, rfl, [], [], by simp [forEachEntry], by simp [forEachEntry], rfl,
      by simp [forEachEntry], rfl, rfl, rfl⟩
  | cons de rest ih =>
    cases hreg : de.regular with
    | false =>
      have hnone : pluginOf host dir cls d de = none := by simp [pluginOf, hreg]
      simp only [forEachEntry, hreg, if_true]
      refine (ih found l s hs hcwd).passed hnone rfl rfl rfl (fun load => ?_)
      simp [leftOpen, hreg]
    | true =>
      cases hlib : host.dlopen d (pluginPath dir de.name) with
      | none =>
        have hnone : pluginOf host dir cls d de = none := by simp [pluginOf, hreg, hlib]
        simp only [forEachEntry, hreg, Bool.true_eq_false, if_false, hcwd, hlib]
        refine (ih found l s hs hcwd).passed hnone rfl rfl rfl (fun load => ?_)
        simp [leftOpen, hreg, hlib]
      | some sym =>
        have hopened := hs.dlopened (pluginPath dir de.name)
        cases sym with
        | none =>
          have hnone : pluginOf host dir cls d de = none := by simp [pluginOf, hreg, hlib]
          simp only [forEachEntry, hreg, Bool.true_eq_false, if_false, hcwd, hlib]
          refine (ih found l _ hopened hcwd).cons (by rw [hnone]; rfl) rfl (by rw [hnone]; rfl)
            (List.append_nil l).symm (H := [⟨s.nextHandle, pluginPath dir de.name, false⟩]) rfl ?_
            (List.append_nil _).symm ?_ rfl ?_
          · simp [madeFor, hnone]
          · simp [leftOpen, hreg, hlib]
          · simp [leftOpen, hreg, hlib]
        | some pd =>
          by_cases hcls : pd.cls = cls
          · have hsome : pluginOf host dir cls d de = some pd := by simp [pluginOf, hreg, hlib, hcls]
            cases hmalloc : de.malloc with
            | false =>
              have hlooked : lookedAt host dir cls d (de :: rest) = [de] := by
                simp [lookedAt, hsome, hmalloc]
              simp only [forEachEntry, hreg, Bool.true_eq_false, if_false, hcwd, hlib, ne_eq, hcls,
                not_true_eq_false, hmalloc, if_true]
              refine ⟨rfl, hopened, by simp [hlooked, hsome], [],
                [⟨s.nextHandle, pluginPath dir de.name, false⟩], (List.append_nil l).symm, rfl, ?_,
                (List.append_nil _).symm, ?_, rfl, ?_⟩
              · simp [hlooked, madeFor, hmalloc]
              · simp [hlooked, leftOpen, hreg, hlib, hcls, hmalloc]
              · simp [hlooked, leftOpen, hreg, hlib, hcls, hmalloc]
            | true =>
              have hgoes : ((pluginOf host dir cls d de).isSome && !de.malloc) = false := by
                simp [hmalloc]
              simp only [forEachEntry, hreg, Bool.true_eq_false, if_false, hcwd, hlib, ne_eq, hcls,
                not_true_eq_false, hmalloc, findPluginsCb]
              cases doLoad with
              | true =>
                refine (ih (found + 1) _ _ hopened.malloced hcwd).cons hgoes rfl
                  (by rw [hsome]; rfl) rfl (H := [⟨s.nextHandle, pluginPath dir de.name, true⟩])
                  rfl ?_ rfl ?_ rfl ?_
                · simp [madeFor, hsome, hmalloc]
                · simp [leftOpen, hreg, hlib, hcls]
                · simp [leftOpen, hreg, hlib, hmalloc]
              | false =>
                have hclosed := dlclose_dlopened hs.fresh (pluginPath dir de.name)
                refine (ih (found + 1) _ _ (hopened.malloced.dlclose _) hcwd).cons hgoes rfl
                  (by rw [hsome]; rfl) rfl (H := []) ?_ ?_ rfl ?_ rfl ?_
                · exact (congrArg Search.handles hclosed).trans (List.append_nil _).symm
                · simp [madeFor, hsome, hmalloc]
                · simp [leftOpen, hreg, hlib, hmalloc]
                · simp [leftOpen, hreg, hlib, hmalloc]
          · have hnone : pluginOf host dir cls d de = none := by simp [pluginOf, hreg, hlib, hcls]
            have hclosed := dlclose_dlopened hs.fresh (pluginPath dir de.name)
            simp only [forEachEntry, hreg, Bool.true_eq_false, if_false, hcwd, hlib, ne_eq, hcls,
              not_false_eq_true, if_true]
            refine (ih found l _ (hopened.dlclose _) hcwd).passed hnone rfl (by rw [hclosed]) rfl
              (fun load => ?_)
            simp [leftOpen, hreg, hlib, hcls]

end Loop

section Lists

variable {δ π : Type} {host : Host δ π} {dir cls : List UInt8} {doLoad : Bool} {d : δ}
  {entries : List Dirent} {l : List (Plugin π)} {s : Search δ}

variable (host dir cls doLoad) in
/-- What `find_plugins` makes of a directory: the plugins of the class in the order of the entries, up
to the first for which malloc fails, which is counted but not in the list. -/
structure PluginsListed (d : δ) (entries : List Dirent) (s : Search δ)
    (res : Int × List (Plugin π) × Search δ) : Prop where
  count : res.1 = (lookedAt host dir cls d entries).countP
    fun de => (pluginOf host dir cls d de).isSome
  data : res.2.1.map Plugin.data = (lookedAt host dir cls d entries).filterMap
    (madeFor host dir cls doLoad d)
  plugins : res.2.2.plugins = s.plugins ++ res.2.1.map Plugin.addr
  handles : res.2.2.handles.map Prod.snd = s.handles.map Prod.snd ++
    (lookedAt host dir cls d entries).filterMap (leftOpen host dir cls doLoad d)

variable (cls doLoad) in
theorem findPlugins_loop (hs : Numbered s) (hl : Listed host dir s.cwd d entries) : ∃ r back,
    ListOutcome host dir cls doLoad d entries 0 [] { s with cwd := d } r ∧
      findPlugins host dir cls doLoad s = ((r.1 : Int), r.2.1, { r.2.2 with cwd := back }) :=
  ⟨_, _, forEachEntry_listOutcome entries 0 [] { s with cwd := d } (hs.moved d) rfl, by
    simp only [findPlugins, forEachPlugin, hl.1, hl.2]
    rfl⟩

theorem find_plugins_lists (host : Host δ π) (dir cls : List UInt8) (doLoad : Bool) (d : δ)
    (entries : List Dirent) (s : Search δ) (hs : Numbered s) (hl : Listed host dir s.cwd d entries) :
    PluginsListed host dir cls doLoad d entries s (findPlugins host dir cls doLoad s) := by
  obtain ⟨r, back, hloop, hfind⟩ := findPlugins_loop cls doLoad hs hl
  obtain ⟨new, H, hnew, hH, hdata, hplugins, hopen, -⟩ := hloop.added
  rw [hfind]
  refine ⟨?_, ?_, ?_, ?_⟩
  · rw [hloop.count, Nat.zero_add]
  · rw [hnew]
    exact hdata
  · rw [hnew]
    exact hplugins
  · change List.map Prod.snd (Search.handles r.2.2) = _
    rw [hH, List.map_append, List.map_map, ← hopen]
    rfl

def sixEntries : List Dirent :=
  [⟨[46], false, true, true, true, true⟩, entryNamed 97, entryNamed 98, entryNamed 99,
    ⟨[100], true, false, true, true, true⟩, entryNamed 101]

/-- In `/`: `.`, a library `a` without data, and the plugins `b`, `c`, `d` and `e`, of which `c` is of
another class and `d` gets no memory. -/
def sixEntriesHost : Host (List UInt8) Nat :=
  pluginsHost sixEntries fun path =>
    if path = [47, 97] then some none
    else if path = [47, 99] then some (some ⟨[99], [115], [], 1⟩)
    else some (some ⟨[112], [114], [], 0⟩)

theorem sixEntries_listed : PluginsListed sixEntriesHost [47] [114] true [47] sixEntries
    (Search.start [47, 120])
    (findPlugins sixEntriesHost [47] [114] true (Search.start [47, 120])) :=
  find_plugins_lists sixEntriesHost [47] [114] true [47] sixEntries (Search.start [47, 120])
    (numbered_start _) ⟨rfl, rfl⟩

@[simp] theorem freePlugins_handles (l : List (Plugin π)) (s : Search δ) :
    (freePlugins l s).handles = s.handles.filter fun x => some x.1 ∉ l.map Plugin.handler := by
  induction l generalizing s with
  | nil => simp [freePlugins]
  | cons p rest ih =>
    change (freePlugins rest (pluginFree p (pluginUnload p s))).handles = _
    rw [ih]
    change (s.handles.filter fun x => some x.1 ≠ p.handler).filter _ = _
    rw [List.filter_filter]
    refine List.filter_congr fun x _ => ?_
    rw [Bool.eq_iff_iff, List.map_cons]
    simp only [Bool.and_eq_true, decide_eq_true_eq, List.mem_cons, not_or, ne_eq]
    exact and_comm

@[simp] theorem freePlugins_plugins (l : List (Plugin π)) (s : Search δ) :
    (freePlugins l s).plugins = s.plugins.filter fun a => a ∉ l.map Plugin.addr := by
  induction l generalizing s with
  | nil => simp [freePlugins]
  | cons p rest ih =>
    change (freePlugins rest (pluginFree p (pluginUnload p s))).plugins = _
    rw [ih]
    change (s.plugins.filter fun a => a ≠ p.addr).filter _ = _
    rw [List.filter_filter]
    refine List.filter_congr fun a _ => ?_
    rw [Bool.eq_iff_iff, List.map_cons]
    simp only [Bool.and_eq_true, decide_eq_true_eq, List.mem_cons, not_or, ne_eq]
    exact and_comm

theorem filter_not_mem_append {α : Type} [DecidableEq α] {l l' : List α} (h : (l ++ l').Nodup) :
    (l ++ l').filter (fun a => a ∉ l') = l := by
  have hkept : l.filter (fun a => a ∉ l') = l := by
    refine List.filter_eq_self.mpr fun a ha => ?_
    exact decide_eq_true fun hmem => (List.nodup_append.mp h).2.2 a ha a hmem rfl
  have hgone : l'.filter (fun a => a ∉ l') = [] := by simp
  rw [List.filter_append, hkept, hgone, List.append_nil]

theorem handler_mem_iff {new : List (Plugin π)} {H : List OpenLibrary}
    (howned : new.filterMap Plugin.handler = (H.filter OpenLibrary.owned).map OpenLibrary.handle)
    (hH : (H.map OpenLibrary.handle).Nodup) {x : OpenLibrary} (hx : x ∈ H) :
    some x.handle ∈ new.map Plugin.handler ↔ x.owned = true := by
  have hmem : some x.handle ∈ new.map Plugin.handler ↔ x.handle ∈ new.filterMap Plugin.handler := by
    simp
  rw [hmem, howned]
  constructor
  · intro h
    obtain ⟨y, hy, heq⟩ := List.mem_map.mp h
    obtain ⟨hyH, hyowned⟩ := List.mem_filter.mp hy
    rwa [← List.inj_on_of_nodup_map hH hyH hx heq]
  · intro h
    exact List.mem_map_of_mem (List.mem_filter.mpr ⟨hx, h⟩)

/-- Every plugin of the list is unloaded and freed, and what is then left open is what a search that
loads nothing leaves open: the libraries without data, and one for which malloc has failed. -/
theorem find_plugins_given_back (host : Host δ π) (dir cls : List UInt8) (doLoad : Bool) (d : δ)
    (entries : List Dirent) (s : Search δ) (hs : Numbered s) (hl : Listed host dir s.cwd d entries) :
    let res := findPlugins host dir cls doLoad s
    let t := freePlugins res.2.1 res.2.2
    t.plugins = s.plugins ∧ t.handles.map Prod.snd = s.handles.map Prod.snd ++
      (lookedAt host dir cls d entries).filterMap (leftOpen host dir cls false d) := by
  obtain ⟨r, back, hloop, hfind⟩ := findPlugins_loop cls doLoad hs hl
  obtain ⟨new, H, hnew, hH, -, hplugins, -, howned, hlost⟩ := hloop.added
  have hnumbered := hloop.numbered
  rw [List.nil_append] at hnew
  dsimp only
  rw [hfind]
  constructor
  · rw [freePlugins_plugins]
    change r.2.2.plugins.filter _ = _
    have hnodup := hnumbered.plugins
    rw [hplugins] at hnodup ⊢
    rw [hnew]
    exact filter_not_mem_append hnodup
  · rw [freePlugins_handles]
    change List.map Prod.snd (r.2.2.handles.filter fun x => some x.1 ∉ r.2.1.map Plugin.handler) = _
    have hnodup := hnumbered.handles
    rw [hH, List.map_append, List.map_map] at hnodup
    obtain ⟨-, hnodupH, hdisjoint⟩ := List.nodup_append.mp hnodup
    have hkept : s.handles.filter (fun x => some x.1 ∉ new.map Plugin.handler) = s.handles := by
      refine List.filter_eq_self.mpr fun x hx => decide_eq_true fun hmem => ?_
      have hmem' : x.1 ∈ new.filterMap Plugin.handler := by simpa using hmem
      rw [howned] at hmem'
      obtain ⟨y, hy, heq⟩ := List.mem_map.mp hmem'
      exact hdisjoint x.1 (List.mem_map_of_mem hx) y.handle
        (List.mem_map_of_mem (List.mem_of_mem_filter hy)) heq.symm
    have hclosed : (H.map fun x => (x.handle, x.path)).filter
        (fun x => some x.1 ∉ new.map Plugin.handler) =
        (H.filter fun x => !x.owned).map fun x => (x.handle, x.path) := by
      rw [List.filter_map]
      refine congrArg _ (List.filter_congr fun x hx => ?_)
      have hiff := handler_mem_iff howned hnodupH hx
      cases howner : x.owned with
      | true => simpa [howner] using hiff
      | false => simpa [howner] using hiff
    rw [hH, hnew, List.filter_append, List.map_append, hclosed, List.map_map, ← hlost]
    change List.map Prod.snd (s.handles.filter _) ++ _ = _
    rw [hkept]
    rfl

theorem sixEntries_given_back :
    let res := findPlugins sixEntriesHost [47] [114] true (Search.start [47, 120])
    let t := freePlugins res.2.1 res.2.2
    t.plugins = [] ∧ t.handles.map Prod.snd = [[47, 97], [47, 100]] :=
  find_plugins_given_back sixEntriesHost [47] [114] true [47] sixEntries (Search.start [47, 120])
    (numbered_start _) ⟨rfl, rfl⟩

end Lists

end Lininoio.Plugins
