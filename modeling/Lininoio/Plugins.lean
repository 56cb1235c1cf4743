import Lininoio.Remoteproc

/-! The search for a plugin in util/plugin.c: `for_each_plugin`, `_find_plugin_cb` and
`_find_plugin`, with the library handles, the `struct plugin` and the working directory that they
take up and give back. -/

namespace Lininoio.Plugins

def maxPluginNameLength : Nat := 80

def maxPluginClassNameLength : Nat := 80

def maxPluginDescriptionLength : Nat := 160

/-- `struct plugin_data` as a library declares it. -/
structure PluginData (π : Type) where
  name : List UInt8
  cls : List UInt8
  description : List UInt8
  privateData : π
deriving DecidableEq

/-- The `data` of a `struct plugin`: a string is `none` for NULL, `private_data` when nothing has
set it. -/
structure PluginCopy (π : Type) where
  name : Option (List UInt8)
  cls : Option (List UInt8)
  description : Option (List UInt8)
  privateData : Option π
deriving DecidableEq

/-- `struct plugin`, at its address. -/
structure Plugin (π : Type) where
  addr : Nat
  data : PluginCopy π
  freeStrings : Bool
  handler : Option Nat
deriving DecidableEq

/-- `struct dirent`, with the answers of the allocator while the entry is handled: that of malloc
and those of the three calls of strndup. -/
structure Dirent where
  name : List UInt8
  /-- `d_type` is `DT_REG` or `DT_LNK`. -/
  regular : Bool
  malloc : Bool
  strndup : Bool × Bool × Bool

/-- What is found under a path: `none` when dlopen rejects it, and then what dlsym answers for
`mcuio_plugin_data`. -/
abbrev Library (π : Type) := Option (Option (PluginData π))

/-- The file system, whose directories are those of `δ`. -/
structure Host (δ π : Type) where
  getcwd : δ → Option (List UInt8)
  /-- What the buffer for the working directory holds at first. -/
  unset : List UInt8
  chdir : δ → List UInt8 → Option δ
  opendir : δ → Option (List Dirent)
  dlopen : δ → List UInt8 → Library π

/-- What the search has in its hands: the open handles, one for each dlopen, with the paths of their
libraries, and the `struct plugin` that have not been freed. -/
structure Search (δ : Type) where
  cwd : δ
  handles : List (Nat × List UInt8)
  nextHandle : Nat
  plugins : List Nat
  nextPlugin : Nat

section

variable {δ π : Type}

def Search.start (cwd : δ) : Search δ := ⟨cwd, [], 0, [], 0⟩

def dlopened (path : List UInt8) (s : Search δ) : Nat × Search δ :=
  (s.nextHandle, { s with
    handles := s.handles ++ [(s.nextHandle, path)]
    nextHandle := s.nextHandle + 1 })

def malloced (s : Search δ) : Nat × Search δ :=
  (s.nextPlugin, { s with
    plugins := s.plugins ++ [s.nextPlugin]
    nextPlugin := s.nextPlugin + 1 })

def dlclose (h : Option Nat) (s : Search δ) : Search δ :=
  { s with handles := s.handles.filter fun x => some x.1 ≠ h }

def pluginUnload (p : Plugin π) (s : Search δ) : Search δ := dlclose p.handler s

/-- The strings go with the plugin. -/
def pluginFree (p : Plugin π) (s : Search δ) : Search δ :=
  { s with plugins := s.plugins.filter fun a => a ≠ p.addr }

def pluginPath (dir name : List UInt8) : List UInt8 :=
  dir.take (pathMax + 1) ++ name.take (pathMax + 1 - dir.length - 1)

def strndup (ok : Bool) (s : List UInt8) (n : Nat) : Option (List UInt8) :=
  if ok then some (s.take n) else none

/-- The data of the `struct plugin` that is made for a library. -/
def copyData (doLoad : Bool) (de : Dirent) (pd : PluginData π) : PluginCopy π :=
  if doLoad then ⟨some pd.name, some pd.cls, some pd.description, some pd.privateData⟩
  else ⟨strndup de.strndup.1 pd.name maxPluginNameLength,
    strndup de.strndup.2.1 pd.cls maxPluginClassNameLength,
    strndup de.strndup.2.2 pd.description maxPluginDescriptionLength, none⟩

section ForEach

variable {τ : Type} (host : Host δ π) (dir cls : List UInt8) (doLoad : Bool)
  (cb : Plugin π → τ → Search δ → Bool × τ × Search δ)

/-- The loop of `for_each_plugin`, with the count of what has been found and the callback's data. -/
def forEachEntry : List Dirent → Nat → τ → Search δ → Nat × τ × Search δ
  | [], found, data, s => (found, data, s)
  | de :: rest, found, data, s =>
    if de.regular = false then forEachEntry rest found data s
    else
      let path := pluginPath dir de.name
      match host.dlopen s.cwd path with
      | none => forEachEntry rest found data s
      | some sym =>
        let (h, s) := dlopened path s
        match sym with
        | none => forEachEntry rest found data s
        | some pd =>
          if pd.cls ≠ cls then forEachEntry rest found data (dlclose (some h) s)
          else if de.malloc = false then (found + 1, data, s)
          else
            let (addr, s) := malloced s
            let p : Plugin π :=
              ⟨addr, copyData doLoad de pd, !doLoad, if doLoad then some h else none⟩
            let s := if doLoad then s else dlclose (some h) s
            let (stop, data, s) := cb p data s
            if stop then (found + 1, data, s)
            else forEachEntry rest (found + 1) data s

def forEachPlugin (data : τ) (s : Search δ) : Int × τ × Search δ :=
  -- a NULL pointer is not less than 0, so that a failing getcwd is not noticed
  let cwd := (host.getcwd s.cwd).getD host.unset
  match host.chdir s.cwd dir with
  | none => (-1, data, s)
  | some d =>
    let s := { s with cwd := d }
    match host.opendir s.cwd with
    | none => (-1, data, s)
    | some entries =>
      let (found, data, s) := forEachEntry host dir cls doLoad cb entries 0 data s
      ((found : Int), data, { s with cwd := (host.chdir s.cwd cwd).getD s.cwd })

end ForEach

/-- The fields of `struct find_plugin_data` that change: `*out`, and `found`. -/
structure FindPluginData (π : Type) where
  out : Option (Plugin π)
  found : Bool

variable (matchKey : PluginCopy π → Bool) (doLoad hasOut : Bool)

/-- `_find_plugin_cb`, where `hasOut` tells whether `out` is not NULL. -/
def findPluginCb (p : Plugin π) (fpd : FindPluginData π) (s : Search δ) :
    Bool × FindPluginData π × Search δ :=
  let ret := matchKey p.data
  let s := if !ret && doLoad then pluginFree p (pluginUnload p s) else s
  let (out, s) :=
    if ret then
      if hasOut then (some p, s) else (fpd.out, pluginFree p s)
    else (fpd.out, s)
  (ret, ⟨out, ret⟩, s)

/-- `_find_plugin`: its value, what it has written to `*out`, and the state. -/
def findPlugin (host : Host δ π) (dir cls : List UInt8) (s : Search δ) :
    Int × Option (Plugin π) × Search δ :=
  if doLoad && !hasOut then (-1, none, s)
  else
    let (ret, fpd, s) :=
      forEachPlugin host dir cls doLoad (findPluginCb matchKey doLoad hasOut) ⟨none, false⟩ s
    if ret < 0 then (ret, fpd.out, s)
    else (if fpd.found then 0 else -1, fpd.out, s)

end

end Lininoio.Plugins
