import Lininoio.Effects
import Lininoio.Ether

/-! The channel loop of `ether_rx_arequest`: what it keeps, how it shares the new
channels out among the cores of the node, and how its status comes about. -/

namespace Lininoio

open StateFault

def coreIdAt (bigEndian : Bool) (packet : Memory) (i : Nat) : Fin lininoioMaxNcores :=
  ⟨_, cdescrToCoreId_lt (le16toh bigEndian (ArequestPacket.chanDescr bigEndian packet i))⟩

def protocolAt (bigEndian : Bool) (packet : Memory) (i : Nat) : UInt16 :=
  lininoioCdescrToProtoId (le16toh bigEndian (ArequestPacket.chanDescr bigEndian packet i))

def Effect.Connecting : Effect → Prop
  | .sys (.malloc .core) _ => True
  | .sys (.malloc .channel) _ => True
  | .connect _ _ _ => True
  | _ => False

theorem Effect.Connecting.quiet {e : Effect} (h : e.Connecting) : e.Quiet := by
  cases e <;> trivial

/-- What `get_core` writes into `rproc_name`, from the name of the node on. -/
def rprocNameFrom (name : List UInt8) (coreId : Nat) : List UInt8 :=
  snprintf 32 (cString name ++ asciiBytes "-" ++ decimal coreId)

/-- The node as it was when its core `c` was not made yet. -/
def Node.before (node : Node) (c : CorePtr) : Node :=
  { node with cores := fun j => (node.cores j).filter (fun d => decide (d < c)) }

theorem Node.before_eq_self {node : Node} {c : CorePtr} (h : ∀ j d, node.cores j = some d → d < c) :
    node.before c = node := by
  have hcores : (fun j => (node.cores j).filter (fun d => decide (d < c))) = node.cores := by
    funext j
    cases hj : node.cores j with
    | none => rfl
    | some d => simp [h j d hj]
  rw [Node.before, hcores]

theorem Node.before_addCore {node : Node} {j : Fin lininoioMaxNcores} {c fresh : CorePtr}
    (hj : node.cores j = none) (hc : c ≤ fresh) :
    { node with cores := Function.update node.cores j (some fresh) }.before c = node.before c := by
  simp only [Node.before, Node.mk.injEq, true_and, and_true]
  funext k
  by_cases hk : k = j
  · subst hk
    simp [hj, hc]
  · rw [Function.update_of_ne hk]

/-- What `get_core` does to a core table, with the next core and the one after it. -/
def takeCore (t : (Fin lininoioMaxNcores → Option CorePtr) × CorePtr) (j : Fin lininoioMaxNcores) :
    (Fin lininoioMaxNcores → Option CorePtr) × CorePtr :=
  match t.1 j with
  | some _ => t
  | none => (Function.update t.1 j (some t.2), t.2 + 1)

/-- The core table when the loop has met the first `k` descriptors. -/
def coresTaken (bigEndian : Bool) (packet : Memory) (fresh : CorePtr) (k : Nat) :
    (Fin lininoioMaxNcores → Option CorePtr) × CorePtr :=
  ((List.range k).map (coreIdAt bigEndian packet)).foldl takeCore (fun _ => none, fresh)

def Daemon.coreTable {L σ : Type} (n : Slot) (s : Daemon L σ) :
    (Fin lininoioMaxNcores → Option CorePtr) × CorePtr :=
  ((s.node n).cores, s.freshCore)

def CoresNamed {L σ : Type} (env : Env σ) (n : Slot) (s : Daemon L σ) : Prop :=
  ∀ j c, (s.node n).cores j = some c → (s.core c).rprocName =
    rprocNameFrom ((s.node n).name ++ env.pastName ((s.node n).before c)) j

def connects : List Effect → List Int := List.filterMap fun
  | .connect _ _ r => some r
  | _ => none

@[simp] theorem connects_nil : connects [] = [] := rfl

@[simp] theorem connects_sys (call : SysCall) (r : Int) (E : List Effect) :
    connects (.sys call r :: E) = connects E := rfl

@[simp] theorem connects_getNode (n : Slot) (E : List Effect) :
    connects (.getNode n :: E) = connects E := rfl

@[simp] theorem connects_killNode (n : Slot) (E : List Effect) :
    connects (.killNode n :: E) = connects E := rfl

@[simp] theorem connects_connect (c : ChanPtr) (ops : OpsPtr) (r : Int) (E : List Effect) :
    connects (.connect c ops r :: E) = r :: connects E := rfl

@[simp] theorem connects_append (E F : List Effect) : connects (E ++ F) = connects E ++ connects F :=
  List.filterMap_append

structure LoopFrame {L σ : Type} (n : Slot) (s t : Daemon L σ) : Prop where
  freshCore : s.freshCore ≤ t.freshCore
  freshChan : s.freshChan ≤ t.freshChan
  newCores : ∀ j c, (t.node n).cores j = some c → (s.node n).cores j = some c ∨ s.freshCore ≤ c
  core : ∀ c < s.freshCore, (∀ j, (s.node n).cores j ≠ some c) → t.core c = s.core c
  chan : ∀ x < s.freshChan, t.chan x = s.chan x

structure LoopRun {L σ : Type} (env : Env σ) (n : Slot) (s t : Daemon L σ) (E : List Effect) : Prop
    extends LoopFrame n s t where
  lists : t.lists = s.lists
  timeouts : t.timeouts = s.timeouts
  registries : t.registries = s.registries
  named : CoresNamed env n s → CoresNamed env n t
  node : t.node = Function.update s.node n { s.node n with cores := (t.node n).cores }
  trace : t.trace = s.trace ++ E
  effects : ∀ e ∈ E, e.Connecting

namespace LoopFrame

variable {L σ : Type} {n : Slot} {s t u : Daemon L σ}

theorem refl (n : Slot) (s : Daemon L σ) : LoopFrame n s s :=
  ⟨le_rfl, le_rfl, fun _ _ => .inl, fun _ _ _ => rfl, fun _ _ => rfl⟩

theorem trans (h : LoopFrame n s t) (h' : LoopFrame n t u) : LoopFrame n s u where
  freshCore := h.freshCore.trans h'.freshCore
  freshChan := h.freshChan.trans h'.freshChan
  newCores j c hc := by
    rcases h'.newCores j c hc with hc | hle
    · exact h.newCores j c hc
    · exact .inr (h.freshCore.trans hle)
  core c hlt hc := by
    refine (h'.core c (hlt.trans_le h.freshCore) fun j hj => ?_).trans (h.core c hlt hc)
    rcases h.newCores j c hj with hj | hle
    · exact hc j hj
    · exact absurd hlt (not_lt.mpr hle)
  chan x hx := (h'.chan x (hx.trans_le h.freshChan)).trans (h.chan x hx)

end LoopFrame

namespace LoopRun

variable {L σ : Type} {env : Env σ} {n : Slot} {s t u : Daemon L σ} {E F : List Effect}

theorem refl (env : Env σ) (n : Slot) (s : Daemon L σ) : LoopRun env n s s [] :=
  ⟨.refl n s, rfl, rfl, rfl, id, by simp, by simp, by simp⟩

theorem trans (h : LoopRun env n s t E) (h' : LoopRun env n t u F) : LoopRun env n s u (E ++ F) where
  toLoopFrame := h.toLoopFrame.trans h'.toLoopFrame
  lists := h'.lists.trans h.lists
  timeouts := h'.timeouts.trans h.timeouts
  registries := h'.registries.trans h.registries
  named hn := h'.named (h.named hn)
  node := by
    have hn := h'.node
    rw [h.node] at hn
    simpa using hn
  trace := by rw [h'.trace, h.trace, List.append_assoc]
  effects e he := (List.mem_append.mp he).elim (h.effects e) (h'.effects e)

theorem malloc (env : Env σ) (n : Slot) (s : Daemon L σ) (w : σ) {a : Alloc} {r : Int}
    (h : (Effect.sys (.malloc a) r).Connecting) :
    LoopRun env n s { s with world := w, trace := s.trace ++ [.sys (.malloc a) r] }
      [.sys (.malloc a) r] :=
  ⟨⟨le_rfl, le_rfl, fun _ _ => .inl, fun _ _ _ => rfl, fun _ _ => rfl⟩, rfl, rfl, rfl, id, by simp, rfl,
    by simpa using h⟩

theorem emit {e : Effect} (h : e.Connecting) : LoopRun env n s { s with trace := s.trace ++ [e] } [e] :=
  ⟨⟨le_rfl, le_rfl, fun _ _ => .inl, fun _ _ _ => rfl, fun _ _ => rfl⟩, rfl, rfl, rfl, id, by simp, rfl,
    by simpa using h⟩

theorem writeChannel (h : LoopRun env n s t E) (w : σ) (ops : Option (UInt16 → Option OpsPtr))
    {x : ChanPtr}
    (hx : s.freshChan ≤ x) (ch : Channel) : LoopRun env n s { t with
      world := w
      lininoioOps := ops
      chan := Function.update t.chan x (some ch) } E :=
  ⟨⟨h.freshCore, h.freshChan, h.newCores, h.core, fun y hy =>
    (Function.update_of_ne (hy.trans_le hx).ne _ _).trans (h.chan y hy)⟩, h.lists, h.timeouts,
      h.registries,
    h.named, h.node, h.trace, h.effects⟩

end LoopRun

/-- The cores of a node are those used, and hold exactly the given channels. -/
structure CoresHold {L σ : Type} (n : Slot) (s : Daemon L σ) (used : Fin lininoioMaxNcores → Prop)
    (members : Fin lininoioMaxNcores → List ChanPtr) : Prop where
  used_iff : ∀ j, ((s.node n).cores j).isSome ↔ used j
  unused : ∀ j, ¬ used j → members j = []
  distinct : ∀ i j c, (s.node n).cores i = some c → (s.node n).cores j = some c → i = j
  fresh : ∀ j c, (s.node n).cores j = some c → c < s.freshCore
  name : ∀ j c, (s.node n).cores j = some c → (s.core c).rprocName ≠ []
  channels : ∀ j c, (s.node n).cores j = some c → (s.core c).channels = members j
  nchannels : ∀ j c, (s.node n).cores j = some c → (s.core c).nchannels = (members j).length
  node : ∀ j c, (s.node n).cores j = some c → (s.core c).node = n

section Frames

variable {L σ : Type} {n : Slot} {s t : Daemon L σ} {used : Fin lininoioMaxNcores → Prop}
  {members : Fin lininoioMaxNcores → List ChanPtr}

theorem CoresHold.frame (h : CoresHold n s used members) (hnode : (t.node n).cores = (s.node n).cores)
    (hcore : ∀ j c, (s.node n).cores j = some c → ∃ pd, t.core c = { s.core c with pd := pd })
    (hfresh : s.freshCore ≤ t.freshCore) : CoresHold n t used members := by
  have hh : ∀ j c, (s.node n).cores j = some c → (t.core c).rprocName = (s.core c).rprocName ∧
      (t.core c).channels = (s.core c).channels ∧ (t.core c).nchannels = (s.core c).nchannels ∧
      (t.core c).node = (s.core c).node := by
    intro j c hc
    obtain ⟨pd, hpd⟩ := hcore j c hc
    simp [hpd]
  refine ⟨?_, h.unused, ?_, ?_, ?_, ?_, ?_, ?_⟩
  all_goals rw [hnode]
  · exact h.used_iff
  · exact h.distinct
  · exact fun j c hc => (h.fresh j c hc).trans_le hfresh
  · exact fun j c hc => (hh j c hc).1 ▸ h.name j c hc
  · exact fun j c hc => (hh j c hc).2.1.trans (h.channels j c hc)
  · exact fun j c hc => (hh j c hc).2.2.1.trans (h.nchannels j c hc)
  · exact fun j c hc => (hh j c hc).2.2.2.trans (h.node j c hc)

theorem CoresHold.congr (h : CoresHold n s used members) (hnode : t.node n = s.node n)
    (hcore : t.core = s.core) (hfresh : t.freshCore = s.freshCore) : CoresHold n t used members :=
  h.frame (by rw [hnode]) (fun _ c _ => ⟨(s.core c).pd, by rw [hcore]⟩) hfresh.ge

end Frames

/-- The allocator refuses some request. -/
def MallocFails {σ : Type} (env : Env σ) : Prop := ∃ what w, (env.sys (.malloc what) w).1 < 0

theorem not_mallocFails {σ : Type} {env : Env σ} (h : ∀ call w, 0 ≤ (env.sys (.malloc call) w).1) :
    ¬ MallocFails env := by
  intro hh
  obtain ⟨call, w, hneg⟩ := hh
  exact absurd (h call w) (not_le.mpr hneg)

section Cores

variable {L σ : Type} (env : Env σ) {n : Slot} {s : Daemon L σ} {used : Fin lininoioMaxNcores → Prop}
  {members : Fin lininoioMaxNcores → List ChanPtr}

theorem rprocName_ne_nil (name : List UInt8) (j : Nat) :
    snprintf 32 (name ++ asciiBytes "-" ++ decimal j) ≠ [] := by
  intro he
  simp [snprintf, asciiBytes] at he

theorem CoresHold.addCore (h : CoresHold n s used members) {j : Fin lininoioMaxNcores} {co : Core}
    (hj : (s.node n).cores j = none) (hname : co.rprocName ≠ []) (hch : co.channels = [])
    (hnch : co.nchannels = 0) (hnode : co.node = n) :
    CoresHold n { s with
      core := Function.update s.core s.freshCore co
      freshCore := s.freshCore + 1
      node := Function.update s.node n { s.node n with
        cores := Function.update (s.node n).cores j (some s.freshCore) } }
      (fun k => used k ∨ k = j) members := by
  have hunused : ¬ used j := fun hu => by simpa [hj] using (h.used_iff j).mpr hu
  have hold : ∀ {k c}, (s.node n).cores k = some c → k ≠ j ∧ c ≠ s.freshCore := fun {k c} hc =>
    ⟨fun hk => by simp [hk, hj] at hc, fun he => absurd (h.fresh k c hc) (by simp [he])⟩
  have hcase : ∀ {k c}, Function.update (s.node n).cores j (some s.freshCore) k = some c →
      (k = j ∧ c = s.freshCore) ∨ (s.node n).cores k = some c := by
    intro k c hc
    by_cases hk : k = j
    · subst hk
      exact .inl ⟨rfl, by simpa using hc.symm⟩
    · exact .inr (by simpa [hk] using hc)
  refine ⟨?_, fun k hk => h.unused k fun hu => hk (.inl hu), ?_, ?_, ?_, ?_, ?_, ?_⟩
  all_goals simp only [Function.update_self]
  · intro k
    by_cases hk : k = j
    · simp [hk]
    · simpa [hk] using h.used_iff k
  · intro i k c hi hk
    rcases hcase hi with ⟨hij, hc⟩ | hi' <;> rcases hcase hk with ⟨hkj, hc'⟩ | hk'
    · exact hij.trans hkj.symm
    · exact absurd hc (hold hk').2
    · exact absurd hc' (hold hi').2
    · exact h.distinct i k c hi' hk'
  · intro k c hc
    rcases hcase hc with ⟨rfl, rfl⟩ | hc
    · exact Nat.lt_succ_self _
    · exact (h.fresh k c hc).trans (Nat.lt_succ_self _)
  all_goals
    intro k c hc
    rcases hcase hc with ⟨rfl, rfl⟩ | hc
  · simpa using hname
  · simpa [(hold hc).2] using h.name k c hc
  · simpa [h.unused k hunused] using hch
  · simpa [(hold hc).2] using h.channels k c hc
  · simpa [h.unused k hunused] using hnch
  · simpa [(hold hc).2] using h.nchannels k c hc
  · simpa using hnode
  · simpa [(hold hc).2] using h.node k c hc

theorem CoresHold.addMember (h : CoresHold n s used members) {j : Fin lininoioMaxNcores} {c : CorePtr}
    (hj : (s.node n).cores j = some c) (x : ChanPtr) :
    CoresHold n { s with
      core := Function.update s.core c { s.core c with
        channels := (s.core c).channels ++ [x]
        nchannels := (s.core c).nchannels + 1 } }
      used (Function.update members j (members j ++ [x])) := by
  have hcase : ∀ {k d}, (s.node n).cores k = some d → (k = j ∧ d = c) ∨ (k ≠ j ∧ d ≠ c) := by
    intro k d hd
    by_cases hk : k = j
    · subst hk
      exact .inl ⟨rfl, Option.some.inj (hd.symm.trans hj)⟩
    · exact .inr ⟨hk, fun he => hk (h.distinct k j c (he ▸ hd) hj)⟩
  refine ⟨h.used_iff, fun k hk => ?_, h.distinct, h.fresh, ?_, ?_, ?_, ?_⟩
  · have hkj : k ≠ j := fun he => hk (he ▸ (h.used_iff j).mp (by simp [hj]))
    simpa [hkj] using h.unused k hk
  all_goals
    intro k d hd
    rcases hcase hd with ⟨rfl, rfl⟩ | ⟨hk, hdc⟩
  · simpa using h.name k d hd
  · simpa [hdc] using h.name k d hd
  · simp [h.channels k d hd]
  · simpa [hk, hdc] using h.channels k d hd
  · simp [h.nchannels k d hd]
  · simpa [hk, hdc] using h.nchannels k d hd
  · simpa using h.node k d hd
  · simpa [hdc] using h.node k d hd

theorem wp_getCore (h : CoresHold n s used members) (j : Fin lininoioMaxNcores) :
    wp (getCore env n j) (fun r t => ∃ E, LoopRun env n s t E ∧ connects E = [] ∧ t.chan = s.chan ∧
      t.freshChan = s.freshChan ∧ (r = none → MallocFails env) ∧ ∀ c, r = some c →
        CoresHold n t (fun k => used k ∨ k = j) members ∧ (t.node n).cores j = some c)
      (fun _ _ => False) s := by
  cases hj : (s.node n).cores j with
  | some c =>
    simp only [getCore, wp_bind, wp_readNode, hj, wp_pure]
    refine ⟨[], .refl env n s, rfl, trivial, trivial, by simp, ?_⟩
    rintro _ ⟨⟩
    have hu : used j := (h.used_iff j).mp (by simp [hj])
    have he : (fun k => used k ∨ k = j) = used := by
      funext k
      exact propext ⟨fun hk => hk.elim id (fun hkj => hkj ▸ hu), .inl⟩
    exact ⟨by rwa [he], rfl⟩
  | none =>
    simp only [getCore, wp_bind, wp_readNode, hj, wp_sys]
    generalize hr : env.sys (.malloc .core) s.world = r
    by_cases hmem : r.1 < 0
    · simp only [hmem, if_true, wp_pure]
      exact ⟨_, .malloc env n s r.2 trivial, rfl, trivial, trivial, fun _ => ⟨_, _, hr ▸ hmem⟩, by simp⟩
    · simp only [hmem, if_false, wp_bind, wp_get, wp_modify, wp_modifyNode, wp_pure]
      refine ⟨[.sys (.malloc .core) r.1], ⟨⟨Nat.le_succ _, le_rfl, ?_, ?_, fun _ _ => rfl⟩, rfl,
        rfl, rfl, ?_,
        by simp, rfl, by simp [Effect.Connecting]⟩, rfl, trivial, trivial, by simp, ?_⟩
      · intro k c hc
        by_cases hk : k = j
        · subst hk
          simp only [Function.update_self, Option.some.injEq] at hc
          exact .inr hc.le
        · simp only [Function.update_self, Function.update_of_ne hk] at hc
          exact .inl hc
      · exact fun c hc _ => Function.update_of_ne hc.ne _ _
      · intro hnamed k c hc
        by_cases hk : k = j
        · subst hk
          simp only [Function.update_self, Option.some.injEq] at hc
          subst hc
          simp only [Function.update_self]
          rw [Node.before_addCore hj le_rfl, Node.before_eq_self h.fresh]
          rfl
        · simp only [Function.update_self, Function.update_of_ne hk] at hc
          have hlt : c < s.freshCore := h.fresh k c hc
          simp only [Function.update_self]
          rw [Node.before_addCore hj hlt.le, Function.update_of_ne hlt.ne]
          exact hnamed k c hc
      rintro _ ⟨⟩
      refine ⟨?_, by simp⟩
      exact (h.addCore hj (rprocName_ne_nil _ _) rfl rfl rfl).congr rfl rfl rfl

theorem wp_newChannel (h : CoresHold n s used members) (i : Nat) (cdescr : UInt16) :
    wp (newChannel env n i cdescr) (fun r t => ∃ E, LoopRun env n s t E ∧ connects E = [] ∧
      (r = none → MallocFails env) ∧ ∀ x, r = some x → x = s.freshChan ∧
        t.freshChan = s.freshChan + 1 ∧ (∀ y, y ≠ x → t.chan y = s.chan y) ∧
        CoresHold n t (fun k => used k ∨ k = ⟨_, cdescrToCoreId_lt cdescr⟩)
          (Function.update members ⟨_, cdescrToCoreId_lt cdescr⟩
            (members ⟨_, cdescrToCoreId_lt cdescr⟩ ++ [x]))) (fun _ _ => False) s := by
  simp only [newChannel, wp_bind]
  refine wp_mono (wp_getCore env h _) ?_ (fun _ _ hf => hf)
  intro core t ht
  obtain ⟨E, hrun, hconn, hchan, hfresh, hnone, hsome⟩ := ht
  cases core with
  | none => exact ⟨E, hrun, hconn, fun _ => hnone rfl, by simp⟩
  | some c =>
    obtain ⟨hcores, hj⟩ := hsome c rfl
    simp only [wp_bind, wp_sys]
    generalize hr : env.sys (.malloc .channel) t.world = r
    have hmalloc := LoopRun.malloc env n t r.2 (a := .channel) (r := r.1) trivial
    by_cases hmem : r.1 < 0
    · simp only [hmem, if_true, wp_pure]
      exact ⟨_, hrun.trans hmalloc, by simp [hconn], fun _ => ⟨_, _, hr ▸ hmem⟩,
        by simp⟩
    · simp only [hmem, if_false, wp_bind, wp_get, wp_modify, wp_modifyCore, wp_pure]
      refine ⟨_, hrun.trans ⟨⟨le_rfl, Nat.le_succ _, fun _ _ => .inl, ?_, ?_⟩, rfl, rfl, rfl,
        ?_, by simp, rfl,
        by simp [Effect.Connecting]⟩, by simp [hconn], by simp, ?_⟩
      · exact fun d _ hd => Function.update_of_ne (fun he => hd _ (he ▸ hj)) _ _
      · exact fun x hx => Function.update_of_ne hx.ne _ _
      · intro hnamed k d hd
        by_cases hdc : d = c
        · subst hdc
          simpa using hnamed k d hd
        · simpa [hdc] using hnamed k d hd
      rintro _ ⟨⟩
      refine ⟨hfresh, by simp [hfresh], fun y hy => by simp [hy, hchan], ?_⟩
      exact (hcores.addMember hj t.freshChan).congr rfl rfl rfl

theorem wp_getCore_table (n : Slot) (j : Fin lininoioMaxNcores) :
    wp (getCore env n j) (fun r t => r ≠ none → t.coreTable n = takeCore (s.coreTable n) j)
      (fun _ _ => True) s := by
  cases hj : (s.node n).cores j with
  | some c =>
    simp only [getCore, wp_bind, wp_readNode, hj, wp_pure]
    intro _
    simp only [takeCore, Daemon.coreTable, hj]
  | none =>
    simp only [getCore, wp_bind, wp_readNode, hj, wp_sys]
    by_cases hmem : (env.sys (.malloc .core) s.world).1 < 0
    · simp [hmem]
    · simp only [hmem, if_false, wp_bind, wp_get, wp_modify, wp_modifyNode, wp_pure]
      intro _
      simp only [takeCore, Daemon.coreTable, hj, Function.update_self]

theorem wp_newChannel_table (n : Slot) (i : Nat) (cdescr : UInt16) :
    wp (newChannel env n i cdescr) (fun r t => r ≠ none →
      t.coreTable n = takeCore (s.coreTable n) ⟨_, cdescrToCoreId_lt cdescr⟩) (fun _ _ => True) s := by
  simp only [newChannel, wp_bind]
  refine wp_mono (wp_getCore_table env n _) ?_ (fun _ _ _ => trivial)
  intro core t ht
  cases core with
  | none => simp
  | some c =>
    simp only [wp_bind, wp_sys]
    by_cases hmem : (env.sys (.malloc .channel) t.world).1 < 0
    · simp [hmem]
    · simp only [hmem, if_false, wp_bind, wp_get, wp_modify, wp_modifyCore, wp_pure]
      exact fun _ => ht (Option.some_ne_none c)

end Cores

def ConnectReturns {σ : Type} (env : Env σ) (r : Int) : Prop :=
  ∃ o connect ch node w, (env.ops o).connect = some connect ∧ (connect ch node w).1.1 = r

theorem not_connectReturns {σ : Type} {env : Env σ} (h : ∀ o, (env.ops o).connect = none) (r : Int) :
    ¬ ConnectReturns env r := by
  intro hh
  obtain ⟨o, connect, ch, node, w, ho, -⟩ := hh
  rw [h o] at ho
  cases ho

def membersUpTo (bigEndian : Bool) (packet : Memory) (base i : Nat) (j : Fin lininoioMaxNcores) :
    List ChanPtr :=
  ((List.range i).filter (fun k => coreIdAt bigEndian packet k = j)).map (base + ·)

/-- The node after `i` rounds of the loop, whose first channel gets the address `base`. -/
structure Grouped {L σ : Type} (bigEndian : Bool) (packet : Memory) (n : Slot) (base : ChanPtr)
    (s : Daemon L σ) (i : Nat) : Prop where
  holds : CoresHold n s (fun j => ∃ k < i, coreIdAt bigEndian packet k = j)
    (membersUpTo bigEndian packet base i)
  freshChan : s.freshChan = base + i
  chan : ∀ k < i, ∃ ch, s.chan (base + k) = some ch ∧ ch.id = UInt8.ofNat k ∧
    ch.protocol = protocolAt bigEndian packet k ∧ ch.coreId.toNat = coreIdAt bigEndian packet k

theorem membersUpTo_succ (bigEndian : Bool) (packet : Memory) (base i : Nat) :
    membersUpTo bigEndian packet base (i + 1) =
      Function.update (membersUpTo bigEndian packet base i) (coreIdAt bigEndian packet i)
        (membersUpTo bigEndian packet base i (coreIdAt bigEndian packet i) ++ [base + i]) := by
  funext j
  by_cases hj : coreIdAt bigEndian packet i = j
  · subst hj
    simp [membersUpTo, List.range_succ, List.filter_append]
  · simp [membersUpTo, List.range_succ, List.filter_append, hj, Ne.symm hj]

section Rounds

variable {L σ : Type} (env : Env σ) {n : Slot} {packet : Memory} {base : ChanPtr}
  {s t : Daemon L σ} {i : Nat}

theorem grouped_zero (h : ∀ j, (s.node n).cores j = none) :
    Grouped env.bigEndian packet n s.freshChan s 0 := by
  refine ⟨⟨?_, ?_, ?_, ?_, ?_, ?_, ?_, ?_⟩, rfl, ?_⟩ <;> simp [h, membersUpTo]

theorem wp_lininoioFindProtoOps (protoId : UInt16) : wp (lininoioFindProtoOps env protoId)
    (fun _ t => ∃ w ops, t = { s with world := w, lininoioOps := ops }) (fun _ _ => False) s := by
  cases hops : s.lininoioOps with
  | none =>
    simp only [lininoioFindProtoOps, wp_bind, wp_get, hops, wp_pure]
    exact ⟨s.world, s.lininoioOps, rfl⟩
  | some table =>
    simp only [lininoioFindProtoOps, wp_bind, wp_get, hops]
    by_cases hp : lininoioNProtos ≤ protoId.toNat
    · simp only [hp, if_true, wp_pure]
      exact ⟨s.world, s.lininoioOps, rfl⟩
    rw [if_neg hp]
    cases table protoId with
    | some ops => exact ⟨s.world, s.lininoioOps, rfl⟩
    | none =>
      simp only [wp_bind, wp_get, wp_set]
      cases (env.loadProtoHandler protoId s.world).1 with
      | none => exact ⟨_, s.lininoioOps, rfl⟩
      | some ops => exact ⟨_, _, rfl⟩

def newChannelOf (bigEndian : Bool) (packet : Memory) (i : Nat) (ops : Option OpsPtr) : Channel :=
  ⟨protocolAt bigEndian packet i,
    lininoioCdescrToCoreId (le16toh bigEndian (ArequestPacket.chanDescr bigEndian packet i)),
      UInt8.ofNat i, ops,
    ⟨none, ⟨lininoioEncodeCdlen 0 (UInt8.ofNat i), []⟩, none⟩⟩

theorem Grouped.succ {u : Daemon L σ} {ch : Channel} (h : Grouped env.bigEndian packet n base t i)
    (hcores : CoresHold n u
      (fun k => (∃ l < i, coreIdAt env.bigEndian packet l = k) ∨ k = coreIdAt env.bigEndian packet i)
      (Function.update (membersUpTo env.bigEndian packet base i) (coreIdAt env.bigEndian packet i)
        (membersUpTo env.bigEndian packet base i (coreIdAt env.bigEndian packet i) ++ [t.freshChan])))
    (hfresh : u.freshChan = t.freshChan + 1) (hold : ∀ y, y ≠ t.freshChan → u.chan y = t.chan y)
    (hnew : u.chan t.freshChan = some ch) (hid : ch.id = UInt8.ofNat i)
    (hproto : ch.protocol = protocolAt env.bigEndian packet i)
    (hcore : ch.coreId.toNat = coreIdAt env.bigEndian packet i) :
    Grouped env.bigEndian packet n base u (i + 1) := by
  have hused : (fun k => (∃ l < i, coreIdAt env.bigEndian packet l = k) ∨
      k = coreIdAt env.bigEndian packet i) =
      fun k => ∃ l < i + 1, coreIdAt env.bigEndian packet l = k := by
    funext k
    simp only [Nat.lt_succ_iff_lt_or_eq, or_and_right, exists_or, exists_eq_left]
    rw [eq_comm (a := k)]
  refine ⟨?_, by rw [hfresh, h.freshChan]; rfl, fun k hk => ?_⟩
  · rw [membersUpTo_succ, ← h.freshChan, ← hused]
    exact hcores
  · rcases Nat.lt_succ_iff_lt_or_eq.mp hk with hk | rfl
    · have hne : base + k ≠ t.freshChan := by
        rw [h.freshChan]
        exact (Nat.add_lt_add_left hk _).ne
      rw [hold _ hne]
      exact h.chan k hk
    · exact ⟨ch, by rw [← h.freshChan, hnew], hid, hproto, hcore⟩

theorem Grouped.addChannel (h : Grouped env.bigEndian packet n base t i) :
    wp (addChannel env n packet i) (fun stat u => ∃ E, LoopRun env n t u E ∧
      Grouped env.bigEndian packet n base u (i + 1) ∧
        (∀ r ∈ connects E, r = stat ∧ ConnectReturns env r) ∧
      (stat ≠ 0 → stat ∈ connects E))
      (fun f u => f = .nullDeref ∧ MallocFails env ∧ ∃ E, LoopRun env n t u E) t := by
  simp only [Lininoio.addChannel, wp_bind]
  refine wp_mono (wp_newChannel env h.holds i _) ?_ (fun _ _ hf => hf.elim)
  intro x u hu
  obtain ⟨E, hrun, hconn, hnone, hsome⟩ := hu
  cases x with
  | none => exact ⟨rfl, hnone rfl, E, hrun⟩
  | some x =>
    obtain ⟨rfl, hfresh, hold, hcores⟩ := hsome x rfl
    simp only [wp_bind]
    refine wp_mono (wp_lininoioFindProtoOps env _) ?_ (fun _ _ hf => hf.elim)
    intro ops _ hh
    obtain ⟨w, table, rfl⟩ := hh
    have hnochan : wp (pure 0 : EtherM L σ Int) (fun stat v => ∃ E, LoopRun env n t v E ∧
        Grouped env.bigEndian packet n base v (i + 1) ∧
          (∀ r ∈ connects E, r = stat ∧ ConnectReturns env r) ∧
        (stat ≠ 0 → stat ∈ connects E)) (fun _ _ => False) { u with
          world := w
          lininoioOps := table
          chan := Function.update u.chan t.freshChan
            (some (newChannelOf env.bigEndian packet i ops)) } :=
      ⟨E, hrun.writeChannel w table le_rfl _, h.succ env (hcores.congr rfl rfl rfl) hfresh
        (fun y hy => by simp [hy, hold]) (by simp; rfl) rfl rfl rfl, by simp [hconn], by simp⟩
    simp only [wp_writeChannel]
    cases ops with
    | none => exact hnochan
    | some o =>
      cases ho : (env.ops o).connect with
      | none =>
        simp only [ho]
        exact hnochan
      | some connect =>
        simp only [ho, wp_bind, wp_get, wp_set, wp_writeChannel, wp_emit, wp_pure]
        generalize hr : connect _ _ _ = r
        refine ⟨E ++ [.connect t.freshChan o r.1.1], ?_, ?_, ?_, by simp⟩
        · exact ((hrun.writeChannel r.2 table le_rfl _).writeChannel r.2 table le_rfl _).trans
            (.emit trivial)
        · exact h.succ env (hcores.congr rfl rfl rfl) hfresh (fun y hy => by simp [hy, hold])
            (by simp; rfl)
            rfl rfl rfl
        · simpa [hconn] using ⟨o, connect, _, _, _, ho, congrArg (·.1.1) hr⟩

theorem Grouped.addChannels {m : Nat} (h : Grouped env.bigEndian packet n base t i) :
    wp (addChannels env n packet (List.range' i m)) (fun stat u => ∃ E, LoopRun env n t u E ∧
      (∃ k ≤ i + m, Grouped env.bigEndian packet n base u k ∧ (stat = 0 → k = i + m)) ∧
      (∀ r ∈ connects E, (r = 0 ∨ r = stat) ∧ ConnectReturns env r) ∧ (stat ≠ 0 → stat ∈ connects E) ∧
      (m = 0 → E = []))
      (fun f u => f = .nullDeref ∧ MallocFails env ∧ ∃ E, LoopRun env n t u E) t := by
  induction m generalizing i t with
  | zero => exact ⟨[], .refl env n t, ⟨i, le_rfl, h, by simp⟩, by simp, by simp, by simp⟩
  | succ m ih =>
    simp only [List.range'_succ, Lininoio.addChannels, wp_bind]
    refine wp_mono (h.addChannel env) ?_ (fun _ _ hf => hf)
    intro stat u hu
    obtain ⟨E, hrun, hgroup, hall, hmem⟩ := hu
    by_cases hstat : stat = 0
    · rw [if_neg (not_not.mpr hstat)]
      refine wp_mono (ih hgroup) ?_ ?_
      · intro stat' v hv
        obtain ⟨F, hrest, ⟨k, hk, hk', hdone⟩, hall', hmem', -⟩ := hv
        refine ⟨_, hrun.trans hrest, ⟨k, by omega, hk', fun h0 => by rw [hdone h0]; omega⟩, ?_, ?_,
          by simp⟩
        · intro r hr
          rw [connects_append, List.mem_append] at hr
          exact hr.elim (fun hr => ⟨.inl ((hall r hr).1.trans hstat), (hall r hr).2⟩) (hall' r)
        · intro hne
          simp [hmem' hne]
      · intro f v hv
        obtain ⟨hf, hmalloc, F, hrest⟩ := hv
        exact ⟨hf, hmalloc, _, hrun.trans hrest⟩
    · rw [if_pos hstat]
      exact ⟨E, hrun, ⟨i + 1, by omega, hgroup, fun h0 => absurd h0 hstat⟩,
        fun r hr => ⟨.inr (hall r hr).1, (hall r hr).2⟩, hmem, by simp⟩

theorem wp_addChannel_table (n : Slot) (packet : Memory) (i : Nat) :
    wp (addChannel env n packet i)
      (fun _ t => t.coreTable n = takeCore (s.coreTable n) (coreIdAt env.bigEndian packet i))
      (fun _ _ => True) s := by
  simp only [Lininoio.addChannel, wp_bind]
  refine wp_mono (wp_newChannel_table env n i _) ?_ (fun _ _ _ => trivial)
  intro x t ht
  cases x with
  | none => trivial
  | some x =>
    have htable := ht (Option.some_ne_none x)
    simp only [wp_bind]
    refine wp_mono (wp_lininoioFindProtoOps env _) ?_ (fun _ _ hf => hf.elim)
    intro ops _ hh
    obtain ⟨w, table, rfl⟩ := hh
    simp only [wp_writeChannel]
    cases ops with
    | none => exact htable
    | some o =>
      cases ho : (env.ops o).connect with
      | none =>
        simp only [ho]
        exact htable
      | some connect =>
        simp only [ho, wp_bind, wp_get, wp_set, wp_writeChannel, wp_emit, wp_pure]
        exact htable

theorem wp_addChannels_table (n : Slot) (packet : Memory) (is : List Nat) :
    wp (addChannels env n packet is) (fun stat t => stat = 0 →
      t.coreTable n = (is.map (coreIdAt env.bigEndian packet)).foldl takeCore (s.coreTable n))
      (fun _ _ => True) s := by
  induction is generalizing s with
  | nil => exact fun _ => rfl
  | cons i is ih =>
    simp only [Lininoio.addChannels, wp_bind]
    refine wp_mono (wp_addChannel_table env n packet i) ?_ (fun _ _ _ => trivial)
    intro stat t ht
    by_cases hstat : stat = 0
    · rw [if_neg (not_not.mpr hstat), List.map_cons, List.foldl_cons, ← ht]
      exact ih
    · rw [if_pos hstat]
      exact fun h0 => absurd h0 hstat

end Rounds

end Lininoio
