import Lininoio.Ether
import Lininoio.Effects
import Lininoio.PluginSearch

/-! The handlers of the protocols: the plugins that lininoio-proto-handler.c loads, and the table of
util/lininoio.c in which their methods are kept. -/

namespace Lininoio.Plugins

section Preserved

variable {δ π τ : Type} {host : Host δ π} {dir cls : List UInt8} {doLoad : Bool}
  {cb : Plugin π → τ → Search δ → Bool × τ × Search δ}

/-- `I` holds as long as the loop goes on, `K` where the callback ends it. -/
theorem forEachEntry_rule {I K : τ → Search δ → Prop} (hK : ∀ data s, I data s → K data s)
    (hopen : ∀ path data s, I data s → I data (dlopened path s).2)
    (hclose : ∀ h data s, I data s → I data (dlclose h s))
    (hmalloc : ∀ data s, I data s → I data (malloced s).2)
    (hstop : ∀ p data s, I data s → (cb p data s).1 = true → K (cb p data s).2.1 (cb p data s).2.2)
    (hgo : ∀ p data s, I data s → (cb p data s).1 = false → I (cb p data s).2.1 (cb p data s).2.2)
    (entries : List Dirent) (found : Nat) (data : τ) (s : Search δ) (hs : I data s) :
    K (forEachEntry host dir cls doLoad cb entries found data s).2.1
      (forEachEntry host dir cls doLoad cb entries found data s).2.2 := by
  induction entries generalizing found data s with
  | nil => exact hK data s hs
  | cons de rest ih =>
    have hopened := hopen (pluginPath dir de.name) data s hs
    rw [forEachEntry]
    split
    · exact ih _ _ _ hs
    dsimp only
    split
    · exact ih _ _ _ hs
    split
    · exact ih _ _ _ hopened
    split
    · exact ih _ _ _ (hclose _ _ _ hopened)
    split
    · exact hK _ _ hopened
    cases doLoad with
    | true =>
      have hready := hmalloc _ _ hopened
      simp only [if_true]
      split
      · exact hstop _ _ _ hready ‹_›
      · exact ih _ _ _ (hgo _ _ _ hready (Bool.eq_false_iff.mpr ‹_›))
    | false =>
      have hready := hclose (some (dlopened (pluginPath dir de.name) s).1) _ _ (hmalloc _ _ hopened)
      simp only [Bool.false_eq_true, if_false]
      split
      · exact hstop _ _ _ hready ‹_›
      · exact ih _ _ _ (hgo _ _ _ hready (Bool.eq_false_iff.mpr ‹_›))

/-- No handle and no address is given out twice. -/
structure Numbered (s : Search δ) : Prop where
  handles : (s.handles.map Prod.fst).Nodup
  plugins : s.plugins.Nodup
  fresh : Fresh s

theorem numbered_start (cwd : δ) : Numbered (Search.start cwd) :=
  ⟨List.nodup_nil, List.nodup_nil, by simp [Search.start], by simp [Search.start]⟩

theorem Numbered.moved {s : Search δ} (h : Numbered s) (d : δ) : Numbered { s with cwd := d } :=
  ⟨h.handles, h.plugins, h.fresh.handles, h.fresh.plugins⟩

theorem Numbered.dlopened {s : Search δ} (h : Numbered s) (path : List UInt8) :
    Numbered (dlopened path s).2 := by
  refine ⟨?_, h.plugins, h.fresh.opened path⟩
  have hnew : s.nextHandle ∉ s.handles.map Prod.fst := by
    intro hmem
    obtain ⟨x, hx, heq⟩ := List.mem_map.mp hmem
    exact (h.fresh.handles x hx).ne heq
  simp only [Plugins.dlopened, List.map_append, List.map_cons, List.map_nil]
  exact List.nodup_append.mpr ⟨h.handles, List.nodup_singleton _, fun a ha b hb => by
    rw [List.mem_singleton.mp hb]
    exact ne_of_mem_of_not_mem ha hnew⟩

theorem Numbered.malloced {s : Search δ} (h : Numbered s) : Numbered (malloced s).2 := by
  refine ⟨h.handles, ?_, h.fresh.allocated⟩
  have hnew : s.nextPlugin ∉ s.plugins := fun hmem => (h.fresh.plugins _ hmem).ne rfl
  exact List.nodup_append.mpr ⟨h.plugins, List.nodup_singleton _, fun a ha b hb => by
    rw [List.mem_singleton.mp hb]
    exact ne_of_mem_of_not_mem ha hnew⟩

theorem Numbered.dlclose {s : Search δ} (h : Numbered s) (x : Option Nat) : Numbered (dlclose x s) :=
  ⟨h.handles.sublist (List.filter_sublist.map _), h.plugins,
    fun y hy => h.fresh.handles y (List.mem_of_mem_filter hy), h.fresh.plugins⟩

theorem Numbered.pluginFree {s : Search δ} (h : Numbered s) (p : Plugin π) :
    Numbered (pluginFree p s) :=
  ⟨h.handles, h.plugins.sublist List.filter_sublist, h.fresh.handles,
    fun a ha => h.fresh.plugins a (List.mem_of_mem_filter ha)⟩

theorem Numbered.findPluginCb {s : Search δ} (h : Numbered s) (matchKey : PluginCopy π → Bool)
    (hasOut : Bool) (p : Plugin π) (fpd : FindPluginData π) :
    Numbered (findPluginCb matchKey doLoad hasOut p fpd s).2.2 := by
  have hunloaded : Numbered (if (!matchKey p.data && doLoad) = true then
      Plugins.pluginFree p (pluginUnload p s) else s) := by
    split
    · exact (h.dlclose p.handler).pluginFree p
    · exact h
  simp only [Plugins.findPluginCb]
  split
  · split
    · exact hunloaded
    · exact hunloaded.pluginFree p
  · exact hunloaded

structure Going (fpd : FindPluginData π) (s : Search δ) : Prop where
  data : fpd = ⟨none, false⟩
  numbered : Numbered s

structure Ended (fpd : FindPluginData π) (s : Search δ) : Prop where
  numbered : Numbered s
  out : fpd.found = false → fpd.out = none

variable (host dir cls doLoad) in
theorem ended_forEachEntry (matchKey : PluginCopy π → Bool) (hasOut : Bool)
    (entries : List Dirent) (found : Nat) {s : Search δ} (h : Numbered s) :
    Ended (forEachEntry host dir cls doLoad (findPluginCb matchKey doLoad hasOut) entries found
      ⟨none, false⟩ s).2.1 (forEachEntry host dir cls doLoad (findPluginCb matchKey doLoad hasOut)
        entries found ⟨none, false⟩ s).2.2 := by
  refine forEachEntry_rule (I := Going) (K := Ended) (fun fpd t ht => ?_)
    (fun path _ _ ht => ⟨ht.data, ht.numbered.dlopened path⟩)
    (fun x _ _ ht => ⟨ht.data, ht.numbered.dlclose x⟩) (fun _ _ ht => ⟨ht.data, ht.numbered.malloced⟩)
    (fun p fpd t ht hstop => ?_) (fun p fpd t ht hgo => ?_) entries found _ s ⟨rfl, h⟩
  · exact ⟨ht.numbered, fun _ => by rw [ht.data]⟩
  · refine ⟨ht.numbered.findPluginCb matchKey hasOut p fpd, fun hfound => ?_⟩
    exact absurd (hstop.symm.trans hfound) (by decide)
  · refine ⟨?_, ht.numbered.findPluginCb matchKey hasOut p fpd⟩
    have hmatch : matchKey p.data = false := hgo
    rw [ht.data]
    simp [Plugins.findPluginCb, hmatch]

end Preserved

section Loaded

variable {δ π : Type} {host : Host δ π} {dir cls : List UInt8} {matchKey : PluginCopy π → Bool}
  {s t : Search δ}

structure LoadedPlugin (host : Host δ π) (dir cls : List UInt8) (matchKey : PluginCopy π → Bool)
    (s t : Search δ) (p : Plugin π) (pd : PluginData π) : Prop where
  listed : ∃ d entries de, Listed host dir s.cwd d entries ∧
    entries.find? (entryMatches host dir cls matchKey true d) = some de ∧
    pluginOf host dir cls d de = some pd
  matched : matchKey p.data = true
  data : p.data.privateData = some pd.privateData
  handle : ∃ h path, p.handler = some h ∧ t.handles = s.handles ++ [(h, path)]
  plugin : t.plugins = s.plugins ++ [p.addr]

structure NothingLoaded (host : Host δ π) (dir cls : List UInt8) (matchKey : PluginCopy π → Bool)
    (s t : Search δ) : Prop where
  unmatched : ∀ d entries, Listed host dir s.cwd d entries →
    entries.find? (entryMatches host dir cls matchKey true d) = none
  handles : t.handles = s.handles
  plugins : t.plugins = s.plugins

variable (host dir cls matchKey) in
/-- What a search that is to load a plugin does to what has been found before. -/
def Loads (s : Search δ) (r : Int) (out : Option (Plugin π)) (t : Search δ) : Prop :=
  Numbered t ∧ t.cwd = s.cwd ∧ (r < 0 ∧ NothingLoaded host dir cls matchKey s t ∨
    0 ≤ r ∧ ∃ p pd, out = some p ∧ LoadedPlugin host dir cls matchKey s t p pd)

theorem Listed.unique {cwd d d' : δ} {entries entries' : List Dirent}
    (h : Listed host dir cwd d entries) (h' : Listed host dir cwd d' entries') :
    d = d' ∧ entries = entries' := by
  obtain rfl : d = d' := Option.some.inj (h.1.symm.trans h'.1)
  exact ⟨rfl, Option.some.inj (h.2.symm.trans h'.2)⟩

theorem LoopOutcome.loads {d : δ} {entries : List Dirent} {fpd : FindPluginData π}
    (h : LoopOutcome host dir cls matchKey true true d entries { s with cwd := d } fpd t)
    (hended : Ended fpd t) (hl : Listed host dir s.cwd d entries)
    (hlost : NothingLost host dir cls matchKey true d entries) :
    Loads host dir cls matchKey s (if fpd.found then 0 else -1) fpd.out { t with cwd := s.cwd } := by
  obtain ⟨H, O, P, hH, hO, hP, hnone⟩ := h.left
  obtain ⟨rfl, rfl⟩ := hnone.mp hlost
  refine ⟨⟨hended.numbered.handles, hended.numbered.plugins, hended.numbered.fresh.handles,
    hended.numbered.fresh.plugins⟩, rfl, ?_⟩
  cases hfound : fpd.found with
  | false =>
    have hout := hended.out hfound
    rw [hout] at hO hP
    have hO : O = [] := List.map_eq_nil_iff.mp hO
    have hnone : entries.find? (entryMatches host dir cls matchKey true d) = none :=
      Option.not_isSome_iff_eq_none.mp (Bool.eq_false_iff.mp ((h.found hlost).symm.trans hfound))
    left
    refine ⟨by decide, fun d' entries' hl' => ?_, ?_, ?_⟩
    · obtain ⟨rfl, rfl⟩ := hl.unique hl'
      exact hnone
    · simpa [hO] using hH
    · simpa using hP
  | true =>
    have hsome := h.found hlost
    rw [hfound] at hsome
    obtain ⟨de, hde⟩ := Option.isSome_iff_exists.mp hsome.symm
    obtain ⟨p, pd, hout, hpd, hdata, hhandle⟩ := h.first hlost rfl de hde
    obtain ⟨x, hx, -⟩ := hhandle rfl
    have hmatch : matchKey (copyData true de pd) = true := by
      have hh := List.find?_some hde
      rwa [entryMatches, hpd] at hh
    right
    refine ⟨le_rfl, p, pd, hout, ⟨d, entries, de, hl, hde, hpd⟩, hdata ▸ hmatch, ?_, ?_, ?_⟩
    · rw [hdata]
      rfl
    · rw [hout, Option.bind_some, hx] at hO
      obtain ⟨⟨y, path⟩, rfl⟩ : ∃ z, O = [z] :=
        List.length_eq_one_iff.mp (by simpa using congrArg List.length hO)
      obtain rfl : y = x := by simpa using hO
      exact ⟨y, path, hx, by simpa using hH⟩
    · simpa [hout] using hP

theorem findPlugin_loads (hlost : LosesNothing host dir cls matchKey true s.cwd) (h : Numbered s) :
    let res := findPlugin matchKey true true host dir cls s
    Loads host dir cls matchKey s res.1 res.2.1 res.2.2 := by
  have hneg : (-1 : Int) < 0 := by decide
  simp only [findPlugin, Bool.not_true, Bool.and_false, Bool.false_eq_true, if_false]
  cases hcd : host.chdir s.cwd dir with
  | none =>
    simp only [forEachPlugin, hcd, hneg, if_true]
    exact ⟨h, rfl, .inl ⟨hneg, fun d entries hl => absurd (hcd.symm.trans hl.1) (by simp), rfl, rfl⟩⟩
  | some d =>
    rw [LosesNothing, hcd] at hlost
    cases hod : host.opendir d with
    | none =>
      simp only [hod] at hlost
      subst hlost
      simp only [forEachPlugin, hcd, hod, hneg, if_true]
      refine ⟨h, rfl, .inl ⟨hneg, fun d' entries hl => ?_, rfl, rfl⟩⟩
      have heq : s.cwd = d' := Option.some.inj (hcd.symm.trans hl.1)
      rw [← heq] at hl
      exact absurd (hod.symm.trans hl.2) (by simp)
    | some entries =>
      simp only [hod] at hlost
      have hnumbered := h.moved d
      have hloop : LoopOutcome host dir cls matchKey true true d entries _ _ _ :=
        forEachEntry_outcome (fun _ => rfl) entries 0 { s with cwd := d } rfl hnumbered.fresh
      have hended := ended_forEachEntry host dir cls true matchKey true entries 0 hnumbered
      simp only [forEachPlugin, hcd, hod] at hloop hended ⊢
      generalize forEachEntry host dir cls true (findPluginCb matchKey true true) entries 0
        ⟨none, false⟩ { s with cwd := d } = res at hloop hended ⊢
      obtain ⟨found, fpd, u⟩ := res
      have hcount : ¬ (found : Int) < 0 := by omega
      have hcwd : u.cwd = d := hloop.cwd
      simp only [hcount, if_false, hcwd, hlost.1]
      exact hloop.loads hended ⟨hcd, hod⟩ hlost.2

theorem LoadedPlugin.unload {p : Plugin π} {pd : PluginData π} (ht : Numbered t)
    (h : LoadedPlugin host dir cls matchKey s t p pd) :
    (pluginFree p (pluginUnload p t)).handles = s.handles ∧
    (pluginFree p (pluginUnload p t)).plugins = s.plugins := by
  obtain ⟨x, path, hx, hhandles⟩ := h.handle
  have hnodup := ht.handles
  have hnodup' := ht.plugins
  rw [hhandles, List.map_append] at hnodup
  rw [h.plugin] at hnodup'
  constructor
  · have hkept : s.handles.filter (fun y => some y.1 ≠ some x) = s.handles := by
      refine List.filter_eq_self.mpr fun y hy => ?_
      have hne := (List.nodup_append.mp hnodup).2.2 y.1 (List.mem_map_of_mem hy) x (by simp)
      simpa using hne
    change t.handles.filter (fun y => some y.1 ≠ p.handler) = s.handles
    rw [hhandles, hx, List.filter_append, hkept]
    simp
  · have hkept : s.plugins.filter (fun a => a ≠ p.addr) = s.plugins := by
      refine List.filter_eq_self.mpr fun a ha => ?_
      simpa using (List.nodup_append.mp hnodup').2.2 a ha p.addr (by simp)
    change t.plugins.filter (fun a => a ≠ p.addr) = s.plugins
    rw [h.plugin, List.filter_append, hkept]
    simp

end Loaded

end Lininoio.Plugins

namespace Lininoio

open StateFault Plugins

/-- `struct lininoio_proto_handler_plugin_data`. -/
structure ProtoHandlerData where
  ops : Option OpsPtr
  protoId : UInt16
deriving DecidableEq

def mcuiodPluginClassLininoioProtoHandler : List UInt8 := asciiBytes "lininoio-proto-handler"

def lininoioProtoMatch (id : UInt16) (candidate : PluginCopy ProtoHandlerData) : Bool :=
  candidate.privateData.elim false fun data => id == data.protoId

/-- The file system at the time of a call, and whether malloc succeeds in
`load_lininoio_proto_handler`. -/
structure Disk (δ : Type) where
  host : Host δ ProtoHandlerData
  malloc : Bool

variable {δ : Type}

/-- The `data` of the handler. -/
def loadLininoioProtoHandler (disk : Disk δ) (path : List UInt8) (protoId : UInt16) (s : Search δ) :
    Option ProtoHandlerData × Search δ :=
  let (stat, p, s) := findPlugin (lininoioProtoMatch protoId) true true disk.host path
    mcuiodPluginClassLininoioProtoHandler s
  if stat < 0 then (none, s)
  else
    match p with
    | none => (none, s)
    | some p =>
      if disk.malloc then (p.data.privateData, s) else (none, pluginFree p (pluginUnload p s))

/-- `lininoio_ops`, and what the searches for handlers have in their hands. -/
structure Handlers (δ : Type) where
  ops : Option (UInt16 → Option OpsPtr)
  search : Search δ

def lininoioInit (malloc : Bool) (s : Handlers δ) : Int × Handlers δ :=
  if malloc then (0, { s with ops := some fun _ => none }) else (-1, { s with ops := none })

/-- `lininoio_find_proto_ops`. -/
def Handlers.find (disk : Disk δ) (path : List UInt8) (protoId : UInt16) (s : Handlers δ) :
    Option OpsPtr × Handlers δ :=
  match s.ops with
  | none => (none, s)
  | some table =>
    if lininoioNProtos ≤ protoId.toNat then (none, s)
    else
      match table protoId with
      | some ops => (some ops, s)
      | none =>
        let (handler, search) := loadLininoioProtoHandler disk path protoId s.search
        match handler with
        | none => (none, { s with search := search })
        | some data => (data.ops, ⟨some (Function.update table protoId data.ops), search⟩)

def lininoioRegisterProtoHandler (protoId : UInt16) (ops : Option OpsPtr) (s : Handlers δ) :
    Int × Handlers δ :=
  match s.ops with
  | none => (-1, s)
  | some table =>
    if lininoioNProtos ≤ protoId.toNat then (-1, s)
    else (0, { s with ops := some (Function.update table protoId ops) })

/-- The daemon looks for methods as the table of handlers does, when its handlers are the plugins. -/
theorem wp_lininoioFindProtoOps_find {L : Type} [NodeLists L] {env : Env (Search δ)} {disk : Disk δ}
    {path : List UInt8} (hload : ∀ id w, env.loadProtoHandler id w =
      ((loadLininoioProtoHandler disk path id w).1.map ProtoHandlerData.ops,
        (loadLininoioProtoHandler disk path id w).2)) (protoId : UInt16) (s : Daemon L (Search δ)) :
    wp (lininoioFindProtoOps env protoId) (fun ops t =>
      let r := Handlers.find disk path protoId ⟨s.lininoioOps, s.world⟩
      ops = r.1 ∧ t = { s with lininoioOps := r.2.ops, world := r.2.search })
      (fun _ _ => False) s := by
  cases hops : s.lininoioOps with
  | none =>
    simp only [lininoioFindProtoOps, Handlers.find, wp_bind, wp_get, hops, wp_pure]
    simp [← hops]
  | some table =>
    simp only [lininoioFindProtoOps, Handlers.find, wp_bind, wp_get, hops]
    by_cases hp : lininoioNProtos ≤ protoId.toNat
    · simp [hp, ← hops]
    simp only [hp, if_false]
    cases htable : table protoId with
    | some ops => simp [← hops]
    | none =>
      simp only [wp_bind, wp_get, wp_set, hload]
      cases (loadLininoioProtoHandler disk path protoId s.world).1 with
      | none => simp [← hops]
      | some data => simp

section Steps

variable {path : List UInt8} {protoId : UInt16} {disk : Disk δ} {s t : Search δ}

theorem loadLininoioProtoHandler_cases (h : Numbered s) (hlost : LosesNothing disk.host path
      mcuiodPluginClassLininoioProtoHandler (lininoioProtoMatch protoId) true s.cwd) :
    let r := loadLininoioProtoHandler disk path protoId s
    Numbered r.2 ∧ r.2.cwd = s.cwd ∧
      (r.1 = none ∧ r.2.handles = s.handles ∧ r.2.plugins = s.plugins ∧
        (disk.malloc = true → NothingLoaded disk.host path mcuiodPluginClassLininoioProtoHandler
          (lininoioProtoMatch protoId) s r.2) ∨
        ∃ p pd, r.1 = some pd.privateData ∧ disk.malloc = true ∧
          LoadedPlugin disk.host path mcuiodPluginClassLininoioProtoHandler
            (lininoioProtoMatch protoId) s r.2 p pd) := by
  obtain ⟨hnumbered, hcwd, hresult⟩ := findPlugin_loads hlost h
  simp only [loadLininoioProtoHandler]
  rcases hresult with ⟨hneg, hnothing⟩ | ⟨hpos, p, pd, hout, hloaded⟩
  · rw [if_pos hneg]
    exact ⟨hnumbered, hcwd, .inl ⟨rfl, hnothing.handles, hnothing.plugins, fun _ => hnothing⟩⟩
  rw [if_neg (Int.not_lt.mpr hpos), hout]
  dsimp only
  cases hmalloc : disk.malloc with
  | false =>
    obtain ⟨hhandles, hplugins⟩ := hloaded.unload hnumbered
    exact ⟨(hnumbered.dlclose p.handler).pluginFree p, hcwd, .inl ⟨rfl, hhandles, hplugins, by simp⟩⟩
  | true => exact ⟨hnumbered, hcwd, .inr ⟨p, pd, hloaded.data, rfl, hloaded⟩⟩

end Steps

inductive HandlerCall (δ : Type)
  | find (disk : Disk δ) (protoId : UInt16)
  | register (protoId : UInt16) (ops : Option OpsPtr)

def HandlerCall.run (path : List UInt8) (s : Handlers δ) : HandlerCall δ → Handlers δ
  | find disk protoId => (s.find disk path protoId).2
  | register protoId ops => (lininoioRegisterProtoHandler protoId ops s).2

def runHandlerCalls (path : List UInt8) (calls : List (HandlerCall δ)) (s : Handlers δ) : Handlers δ :=
  calls.foldl (HandlerCall.run path) s

def HasOps (host : Host δ ProtoHandlerData) (path : List UInt8) (protoId : UInt16) (cwd : δ) : Prop :=
  ∀ d entries, Listed host path cwd d entries → ∀ de pd,
    entries.find? (entryMatches host path mcuiodPluginClassLininoioProtoHandler
      (lininoioProtoMatch protoId) true d) = some de →
    pluginOf host path mcuiodPluginClassLininoioProtoHandler d de = some pd →
      pd.privateData.ops.isSome = true

/-- The search of the call loses nothing, and no methods are missing. -/
def HandlerCall.Usual (path : List UInt8) (cwd : δ) : HandlerCall δ → Prop
  | find disk protoId => LosesNothing disk.host path mcuiodPluginClassLininoioProtoHandler
      (lininoioProtoMatch protoId) true cwd ∧ HasOps disk.host path protoId cwd
  | register _ ops => ops.isSome = true

/-- A handler that has been loaded: its library, and its `struct plugin`. -/
structure KeptHandler where
  protoId : UInt16
  handle : Nat × List UInt8
  addr : Nat

/-- The process holds these handlers and nothing else, no two of them of one protocol. -/
structure HandlersKept (cwd : δ) (owned : List KeptHandler) (s : Handlers δ) : Prop where
  cwd : s.search.cwd = cwd
  numbered : Numbered s.search
  handles : s.search.handles = owned.map KeptHandler.handle
  plugins : s.search.plugins = owned.map KeptHandler.addr
  once : (owned.map KeptHandler.protoId).Nodup
  known : ∀ x ∈ owned, ∃ table, s.ops = some table ∧ (table x.protoId).isSome = true

section Kept

variable {path : List UInt8} {cwd : δ} {owned : List KeptHandler} {s : Handlers δ} {disk : Disk δ}
  {protoId : UInt16} {ops : Option OpsPtr} {c : HandlerCall δ} {calls : List (HandlerCall δ)}

theorem HandlersKept.same_table (h : HandlersKept cwd owned s) {t : Search δ} (ht : Numbered t)
    (hcwd : t.cwd = s.search.cwd) (hhandles : t.handles = s.search.handles)
    (hplugins : t.plugins = s.search.plugins) : HandlersKept cwd owned { s with search := t } :=
  ⟨hcwd.trans h.cwd, ht, hhandles.trans h.handles, hplugins.trans h.plugins, h.once, h.known⟩

theorem HandlersKept.stored (h : HandlersKept cwd owned s) {table : UInt16 → Option OpsPtr}
    (hops : s.ops = some table) (hsome : ops.isSome = true) :
    HandlersKept cwd owned { s with ops := some (Function.update table protoId ops) } := by
  refine ⟨h.cwd, h.numbered, h.handles, h.plugins, h.once, fun x hx => ⟨_, rfl, ?_⟩⟩
  obtain ⟨table', hops', hx⟩ := h.known x hx
  obtain rfl : table' = table := Option.some.inj (hops'.symm.trans hops)
  by_cases heq : x.protoId = protoId
  · rw [heq, Function.update_self]
    exact hsome
  · rwa [Function.update_of_ne heq]

theorem HandlersKept.not_owned (h : HandlersKept cwd owned s) {table : UInt16 → Option OpsPtr}
    (hops : s.ops = some table) (hnone : table protoId = none) :
    protoId ∉ owned.map KeptHandler.protoId := by
  intro hmem
  obtain ⟨x, hx, rfl⟩ := List.mem_map.mp hmem
  obtain ⟨table', hops', hx⟩ := h.known x hx
  obtain rfl : table' = table := Option.some.inj (hops'.symm.trans hops)
  rw [hnone] at hx
  cases hx

theorem HandlersKept.loaded (h : HandlersKept cwd owned s) {table : UInt16 → Option OpsPtr}
    (hops : s.ops = some table) (hnone : table protoId = none) {t : Search δ} (ht : Numbered t)
    (hcwd : t.cwd = s.search.cwd) {p : Plugin ProtoHandlerData} {pd : PluginData ProtoHandlerData}
    (hloaded : LoadedPlugin disk.host path mcuiodPluginClassLininoioProtoHandler
      (lininoioProtoMatch protoId) s.search t p pd) (hsome : pd.privateData.ops.isSome = true) :
    ∃ x : KeptHandler, x.protoId = protoId ∧ HandlersKept cwd (owned ++ [x])
      ⟨some (Function.update table protoId pd.privateData.ops), t⟩ := by
  obtain ⟨n, lib, hhandler, hhandles⟩ := hloaded.handle
  refine ⟨⟨protoId, (n, lib), p.addr⟩, rfl, hcwd.trans h.cwd, ht, ?_, ?_, ?_, ?_⟩
  · rw [hhandles, h.handles, List.map_append]
    rfl
  · rw [hloaded.plugin, h.plugins, List.map_append]
    rfl
  · rw [List.map_append]
    exact List.nodup_append.mpr ⟨h.once, List.nodup_singleton _, fun a ha b hb => by
      rw [List.mem_singleton.mp hb]
      exact ne_of_mem_of_not_mem ha (h.not_owned hops hnone)⟩
  · intro x hx
    rcases List.mem_append.mp hx with hx | hx
    · exact (h.stored hops hsome).known x hx
    · rw [List.mem_singleton.mp hx]
      exact ⟨_, rfl, by simpa using hsome⟩

theorem HandlersKept.find (h : HandlersKept cwd owned s)
    (husual : (HandlerCall.find disk protoId).Usual path cwd) : ∃ added,
    HandlersKept cwd (owned ++ added) (s.find disk path protoId).2 ∧
      ∀ x ∈ added, x.protoId = protoId := by
  have hsame : ∃ added, HandlersKept cwd (owned ++ added) s ∧ ∀ x ∈ added, x.protoId = protoId :=
    ⟨[], by rwa [List.append_nil], by simp⟩
  rw [Handlers.find]
  split
  · exact hsame
  rename_i table hops
  split
  · exact hsame
  split
  · exact hsame
  rename_i hnone
  have hlost := husual.1
  rw [← h.cwd] at hlost
  obtain ⟨hnumbered, hcwd, hresult⟩ := loadLininoioProtoHandler_cases h.numbered hlost
  generalize loadLininoioProtoHandler disk path protoId s.search = r at *
  obtain ⟨handler, t⟩ := r
  rcases hresult with ⟨rfl, hhandles, hplugins, -⟩ | ⟨p, pd, rfl, -, hloaded⟩
  · exact ⟨[], by
      rw [List.append_nil]
      exact h.same_table hnumbered hcwd hhandles hplugins, by simp⟩
  obtain ⟨d, entries, de, hlisted, hfirst, hpd⟩ := hloaded.listed
  have hsome := husual.2 d entries (h.cwd ▸ hlisted) de pd hfirst hpd
  obtain ⟨x, hx, hkept⟩ := h.loaded hops hnone hnumbered hcwd hloaded hsome
  exact ⟨[x], hkept, fun y hy => by rw [List.mem_singleton.mp hy, hx]⟩

theorem HandlersKept.register (h : HandlersKept cwd owned s) (hsome : ops.isSome = true) :
    HandlersKept cwd owned (lininoioRegisterProtoHandler protoId ops s).2 := by
  rw [lininoioRegisterProtoHandler]
  split
  · exact h
  rename_i table hops
  split
  · exact h
  · exact h.stored hops hsome

theorem HandlersKept.run (h : HandlersKept cwd owned s) (husual : c.Usual path cwd) : ∃ added,
    HandlersKept cwd (owned ++ added) (c.run path s) ∧
      ∀ x ∈ added, ∃ disk, c = .find disk x.protoId := by
  cases c with
  | find disk protoId =>
    obtain ⟨added, hkept, hadded⟩ := h.find husual
    exact ⟨added, hkept, fun x hx => ⟨disk, by rw [hadded x hx]⟩⟩
  | register protoId ops => exact ⟨[], by rw [List.append_nil]; exact h.register husual, by simp⟩

theorem HandlersKept.run_calls (h : HandlersKept cwd owned s)
    (husual : ∀ c ∈ calls, c.Usual path cwd) : ∃ added,
    HandlersKept cwd (owned ++ added) (runHandlerCalls path calls s) ∧
      ∀ x ∈ added, ∃ disk, .find disk x.protoId ∈ calls := by
  induction calls generalizing owned s with
  | nil => exact ⟨[], by rwa [List.append_nil], by simp⟩
  | cons c rest ih =>
    obtain ⟨first, hfirst, hasked⟩ := h.run (husual c List.mem_cons_self)
    obtain ⟨later, hlater, hasked'⟩ := ih hfirst fun c' hc' => husual c' (List.mem_cons_of_mem _ hc')
    refine ⟨first ++ later, by rwa [← List.append_assoc], fun x hx => ?_⟩
    rcases List.mem_append.mp hx with hx | hx
    · obtain ⟨disk, rfl⟩ := hasked x hx
      exact ⟨disk, List.mem_cons_self⟩
    · obtain ⟨disk, hmem⟩ := hasked' x hx
      exact ⟨disk, List.mem_cons_of_mem _ hmem⟩

theorem handlersKept_init (malloc : Bool) (cwd : δ) :
    HandlersKept cwd [] (lininoioInit malloc ⟨none, Search.start cwd⟩).2 := by
  cases malloc
  all_goals exact ⟨rfl, numbered_start cwd, rfl, rfl, List.nodup_nil, by simp⟩

end Kept

/-- Over any calls the process keeps one library and one `struct plugin` for each handler that has
been asked for and loaded, however often it is asked for and whatever becomes of the directory. -/
theorem proto_handlers_loaded_once (path : List UInt8) (cwd : δ) (malloc : Bool)
    (calls : List (HandlerCall δ)) (husual : ∀ c ∈ calls, c.Usual path cwd) :
    ∃ owned, HandlersKept cwd owned
        (runHandlerCalls path calls (lininoioInit malloc ⟨none, Search.start cwd⟩).2) ∧
      ∀ x ∈ owned, ∃ disk, .find disk x.protoId ∈ calls :=
  (handlersKept_init malloc cwd).run_calls husual

def anyEntry (c : UInt8) : Dirent := ⟨[c], true, true, true, true, true⟩

/-- The handlers of the console and of mcuio in `/`, as the libraries `c` and `m`. -/
def twoHandlers : Disk (List UInt8) where
  host :=
    { getcwd := some
      unset := []
      chdir := fun _ path => some path
      opendir := fun _ => some [anyEntry 99, anyEntry 109]
      dlopen := fun _ path =>
        if path = [47, 99] then
          some (some ⟨[99], mcuiodPluginClassLininoioProtoHandler, [], some 7, 2⟩)
        else if path = [47, 109] then
          some (some ⟨[109], mcuiodPluginClassLininoioProtoHandler, [], some 8, 1⟩)
        else none }
  malloc := true

theorem twoHandlers_hasOps (protoId : UInt16) : HasOps twoHandlers.host [47] protoId [47] := by
  rintro d entries ⟨hd, hentries⟩ de pd hfirst hpd
  obtain rfl : [47] = d := Option.some.inj hd
  obtain rfl : [anyEntry 99, anyEntry 109] = entries := Option.some.inj hentries
  have hde := List.mem_of_find?_eq_some hfirst
  rw [List.mem_cons, List.mem_singleton] at hde
  rcases hde with rfl | rfl
  · obtain rfl := Option.some.inj hpd
    rfl
  · obtain rfl := Option.some.inj hpd
    rfl

theorem twoHandlers_usual {protoId : UInt16} (h : protoId = 1 ∨ protoId = 2) :
    (HandlerCall.find twoHandlers protoId).Usual [47] [47] := by
  refine ⟨⟨rfl, ?_⟩, twoHandlers_hasOps protoId⟩
  rcases h with rfl | rfl
  · decide
  · decide

theorem twoHandlers_loaded_once : ∃ owned, HandlersKept [47] owned
    (runHandlerCalls [47] [.find twoHandlers 1, .find twoHandlers 2, .find twoHandlers 1]
      (lininoioInit true ⟨none, Search.start [47]⟩).2) ∧
    ∀ x ∈ owned, ∃ disk, HandlerCall.find disk x.protoId ∈
      [.find twoHandlers 1, .find twoHandlers 2, .find twoHandlers 1] :=
  proto_handlers_loaded_once [47] [47] true _ (by
    simp only [List.forall_mem_cons]
    exact ⟨twoHandlers_usual (.inl rfl), twoHandlers_usual (.inr rfl), twoHandlers_usual (.inl rfl),
      by simp⟩)

section Cached

variable {path : List UInt8} {s : Handlers δ} {disk : Disk δ} {protoId : UInt16} {o : OpsPtr}
  {c : HandlerCall δ} {calls : List (HandlerCall δ)}

structure Cached (protoId : UInt16) (o : OpsPtr) (s : Handlers δ) : Prop where
  inTable : protoId.toNat < lininoioNProtos
  entry : ∃ table, s.ops = some table ∧ table protoId = some o

theorem cached_of_find (h : (s.find disk path protoId).1 = some o) :
    Cached protoId o (s.find disk path protoId).2 := by
  rw [Handlers.find] at h ⊢
  split at h
  · cases h
  rename_i table hops
  split at h
  · cases h
  rename_i hrange
  have hin : protoId.toNat < lininoioNProtos := Nat.lt_of_not_le hrange
  split at h
  · rename_i ops hentry
    obtain rfl := Option.some.inj h
    simp only [hrange, if_false]
    exact ⟨hin, table, hops, hentry⟩
  · rename_i hentry
    simp only [hrange, if_false]
    generalize loadLininoioProtoHandler disk path protoId s.search = r at *
    obtain ⟨handler, t⟩ := r
    cases handler with
    | none => cases h
    | some data => exact ⟨hin, _, rfl, by rw [Function.update_self]; exact h⟩

theorem Cached.find (h : Cached protoId o s) : s.find disk path protoId = (some o, s) := by
  obtain ⟨table, hops, hentry⟩ := h.entry
  simp only [Handlers.find, hops, Nat.not_le.mpr h.inTable, if_false, hentry]

theorem Cached.stored (h : Cached protoId o s) {table : UInt16 → Option OpsPtr}
    (hops : s.ops = some table) {id : UInt16} (hid : id ≠ protoId) (ops : Option OpsPtr)
    (search : Search δ) : Cached protoId o ⟨some (Function.update table id ops), search⟩ := by
  obtain ⟨table', hops', hentry⟩ := h.entry
  obtain rfl : table' = table := Option.some.inj (hops'.symm.trans hops)
  exact ⟨h.inTable, _, rfl, by rwa [Function.update_of_ne hid.symm]⟩

theorem Cached.run (h : Cached protoId o s) (hc : ∀ ops, c ≠ .register protoId ops) :
    Cached protoId o (c.run path s) := by
  cases c with
  | find disk id =>
    by_cases hid : id = protoId
    · subst hid
      rwa [HandlerCall.run, h.find]
    rw [HandlerCall.run, Handlers.find]
    split
    · exact h
    rename_i table hops
    split
    · exact h
    split
    · exact h
    generalize loadLininoioProtoHandler disk path id s.search = r
    obtain ⟨handler, t⟩ := r
    cases handler with
    | none => exact ⟨h.inTable, h.entry⟩
    | some data => exact h.stored hops hid data.ops t
  | register id ops =>
    have hid : id ≠ protoId := fun heq => hc ops (by rw [heq])
    rw [HandlerCall.run, lininoioRegisterProtoHandler]
    split
    · exact h
    rename_i table hops
    split
    · exact h
    · exact h.stored hops hid ops s.search

theorem Cached.run_calls (h : Cached protoId o s)
    (hcalls : ∀ c ∈ calls, ∀ ops, c ≠ .register protoId ops) :
    Cached protoId o (runHandlerCalls path calls s) := by
  induction calls generalizing s with
  | nil => exact h
  | cons c rest ih =>
    exact ih (h.run (hcalls c List.mem_cons_self)) fun c' hc' => hcalls c' (List.mem_cons_of_mem _ hc')

/-- Methods that have been found once are found ever after, and without another look at the disk. -/
theorem proto_ops_cached (path : List UInt8) (disk disk' : Disk δ) (protoId : UInt16) (o : OpsPtr)
    (s : Handlers δ) (calls : List (HandlerCall δ)) (hfound : (s.find disk path protoId).1 = some o)
    (hcalls : ∀ c ∈ calls, ∀ ops, c ≠ .register protoId ops) :
    let t := runHandlerCalls path calls (s.find disk path protoId).2
    t.find disk' path protoId = (some o, t) :=
  ((cached_of_find hfound).run_calls hcalls).find

theorem twoHandlers_cached :
    let s : Handlers (List UInt8) := ⟨some fun _ => none, Search.start [47]⟩
    let t := runHandlerCalls [47] [.find twoHandlers 1, .register 1 (some 9)]
      (s.find twoHandlers [47] 2).2
    t.find { twoHandlers with malloc := false } [47] 2 = (some 7, t) :=
  proto_ops_cached [47] twoHandlers { twoHandlers with malloc := false } 2 7 _ _ rfl (by simp)

end Cached

section Methodless

variable {path : List UInt8} {cwd : δ} {s : Handlers δ} {disk : Disk δ} {protoId : UInt16}
  {calls : List (HandlerCall δ)}

/-- The first handler of the protocol in the directory has no methods. -/
structure Methodless (disk : Disk δ) (path : List UInt8) (protoId : UInt16) (cwd : δ) : Prop where
  lossless : LosesNothing disk.host path mcuiodPluginClassLininoioProtoHandler
    (lininoioProtoMatch protoId) true cwd
  malloc : disk.malloc = true
  first : ∃ d entries de pd, Listed disk.host path cwd d entries ∧
    entries.find? (entryMatches disk.host path mcuiodPluginClassLininoioProtoHandler
      (lininoioProtoMatch protoId) true d) = some de ∧
    pluginOf disk.host path mcuiodPluginClassLininoioProtoHandler d de = some pd ∧
    pd.privateData.ops = none

structure Unserved (protoId : UInt16) (s : Handlers δ) : Prop where
  numbered : Numbered s.search
  inTable : protoId.toNat < lininoioNProtos
  entry : ∃ table, s.ops = some table ∧ table protoId = none

structure Leaked (protoId : UInt16) (k : Nat) (s t : Handlers δ) : Prop where
  unserved : Unserved protoId t
  ops : t.ops = s.ops
  cwd : t.search.cwd = s.search.cwd
  handles : t.search.handles.length = s.search.handles.length + k
  plugins : t.search.plugins.length = s.search.plugins.length + k

theorem Unserved.find (h : Unserved protoId s) (hdisk : Methodless disk path protoId s.search.cwd) :
    (s.find disk path protoId).1 = none ∧ Leaked protoId 1 s (s.find disk path protoId).2 := by
  obtain ⟨table, hops, hentry⟩ := h.entry
  have hrange : ¬ lininoioNProtos ≤ protoId.toNat := Nat.not_le.mpr h.inTable
  obtain ⟨d, entries, de, pd, hlisted, hfirst, hpd, hnone⟩ := hdisk.first
  obtain ⟨hnumbered, hcwd, hresult⟩ := loadLininoioProtoHandler_cases h.numbered hdisk.lossless
  simp only [Handlers.find, hops, hrange, if_false, hentry]
  generalize loadLininoioProtoHandler disk path protoId s.search = r at *
  obtain ⟨handler, t⟩ := r
  rcases hresult with ⟨-, -, -, hnothing⟩ | ⟨p, pd', rfl, -, hloaded⟩
  · have habsent := (hnothing hdisk.malloc).unmatched d entries hlisted
    exact absurd (habsent.symm.trans hfirst) (by simp)
  obtain ⟨d', entries', de', hlisted', hfirst', hpd'⟩ := hloaded.listed
  obtain ⟨rfl, rfl⟩ := hlisted.unique hlisted'
  obtain rfl : de = de' := Option.some.inj (hfirst.symm.trans hfirst')
  obtain rfl : pd = pd' := Option.some.inj (hpd.symm.trans hpd')
  obtain ⟨x, lib, -, hhandles⟩ := hloaded.handle
  have hsame : Function.update table protoId pd.privateData.ops = table := by
    rw [hnone, ← hentry, Function.update_eq_self]
  dsimp only at hcwd hhandles ⊢
  refine ⟨hnone, ⟨hnumbered, h.inTable, table, by rw [hsame], hentry⟩, ?_, hcwd, ?_, ?_⟩
  · rw [hsame, hops]
  · rw [hhandles, List.length_append, List.length_singleton]
  · rw [hloaded.plugin, List.length_append, List.length_singleton]

theorem Leaked.trans {t u : Handlers δ} {k l : Nat} (h : Leaked protoId k s t)
    (h' : Leaked protoId l t u) : Leaked protoId (k + l) s u where
  unserved := h'.unserved
  ops := h'.ops.trans h.ops
  cwd := h'.cwd.trans h.cwd
  handles := by rw [h'.handles, h.handles, Nat.add_assoc]
  plugins := by rw [h'.plugins, h.plugins, Nat.add_assoc]

/-- A handler without methods is loaded anew by every request for it, and none of the libraries is
given back. -/
theorem methodless_handler_leaks (path : List UInt8) (protoId : UInt16) (s : Handlers δ)
    (disks : List (Disk δ)) (h : Unserved protoId s)
    (hdisks : ∀ disk ∈ disks, Methodless disk path protoId s.search.cwd) :
    Leaked protoId disks.length s
      (runHandlerCalls path (disks.map fun disk => .find disk protoId) s) := by
  induction disks generalizing s with
  | nil => exact ⟨h, rfl, rfl, rfl, rfl⟩
  | cons disk rest ih =>
    have hstep := (h.find (hdisks disk List.mem_cons_self)).2
    have hrest := ih (s.find disk path protoId).2 hstep.unserved fun disk' hdisk' => by
      rw [hstep.cwd]
      exact hdisks disk' (List.mem_cons_of_mem _ hdisk')
    rw [List.length_cons, Nat.add_comm]
    exact hstep.trans hrest

def methodlessHandler : Disk (List UInt8) where
  host :=
    { getcwd := some
      unset := []
      chdir := fun _ path => some path
      opendir := fun _ => some [anyEntry 99]
      dlopen := fun _ _ => some (some ⟨[99], mcuiodPluginClassLininoioProtoHandler, [], none, 2⟩) }
  malloc := true

theorem methodlessHandler_leaks :
    let s : Handlers (List UInt8) := ⟨some fun _ => none, Search.start [47]⟩
    Leaked 2 3 s (runHandlerCalls [47] ((List.replicate 3 methodlessHandler).map fun disk =>
      .find disk 2) s) :=
  methodless_handler_leaks [47] 2 _ (List.replicate 3 methodlessHandler)
    ⟨numbered_start [47], by decide, _, rfl, rfl⟩ fun disk hdisk => by
      obtain rfl := List.eq_of_mem_replicate hdisk
      exact ⟨⟨rfl, by decide⟩, rfl, [47], [anyEntry 99], anyEntry 99, _, ⟨rfl, rfl⟩, rfl, rfl, rfl⟩

end Methodless

end Lininoio
