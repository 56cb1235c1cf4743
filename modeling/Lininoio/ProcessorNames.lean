import Lininoio.FirmwarePaths
import Lininoio.ReceivedFrames

/-! The names of the remote processors of all associated nodes. A name ends in the core
id, for which a slave name without a zero and the pointers behind it may leave no room. -/

namespace Lininoio

open StateFault CircularLinks

section Strings

variable {w m : Nat} {x y : List UInt8}

/-- The second string is the first one, or goes on where the first one ends at a pointer,
or both have the same first `m` bytes. -/
def GoesOn (w m : Nat) (x y : List UInt8) : Prop :=
  x = y ∨ (w ∣ x.length ∧ x <+: y) ∨ (m ≤ x.length ∧ m ≤ y.length ∧ x.take m = y.take m)

theorem GoesOn.append (h : GoesOn w m x y) {a : List UInt8} (ha : w ∣ a.length) :
    GoesOn w (a.length + m) (a ++ x) (a ++ y) := by
  rcases h with rfl | ⟨hdvd, hpre⟩ | ⟨hx, hy, htake⟩
  · exact .inl rfl
  · refine .inr (.inl ⟨?_, (List.prefix_append_right_inj a).mpr hpre⟩)
    rw [List.length_append]
    exact Nat.dvd_add ha hdvd
  · refine .inr (.inr ⟨?_, ?_, ?_⟩)
    · simpa using hx
    · simpa using hy
    · rw [List.take_length_add_append, List.take_length_add_append, htake]

theorem GoesOn.cString_append {a ra rb : List UInt8} (h : GoesOn w m (cString ra) (cString rb))
    (ha : w ∣ a.length) : GoesOn w (a.length + m) (cString (a ++ ra)) (cString (a ++ rb)) := by
  by_cases h0 : 0 ∈ a
  · rw [cString_append_of_mem h0, cString_append_of_mem h0]
    exact .inl rfl
  · rw [cString_append_of_not_mem h0, cString_append_of_not_mem h0]
    exact h.append ha

theorem GoesOn.mono {v k : Nat} (h : GoesOn w m x y) (hv : v ∣ w) (hk : k ≤ m) : GoesOn v k x y := by
  rcases h with rfl | ⟨hdvd, hpre⟩ | ⟨hx, hy, htake⟩
  · exact .inl rfl
  · exact .inr (.inl ⟨hv.trans hdvd, hpre⟩)
  · refine .inr (.inr ⟨hk.trans hx, hk.trans hy, ?_⟩)
    have hcut := congrArg (List.take k) htake
    rwa [List.take_take, List.take_take, min_eq_left hk] at hcut

theorem goesOn_cells (hw : 0 < w) (cells : List (List UInt8 × List UInt8))
    (h : ∀ c ∈ cells, c.1.length = w ∧ (c.1 = c.2 ∨ c.1 = List.replicate w 0)) (ra rb : List UInt8) :
    GoesOn w (cells.length * w) (cString ((cells.map Prod.fst).flatten ++ ra))
      (cString ((cells.map Prod.snd).flatten ++ rb)) := by
  induction cells with
  | nil => exact .inr (.inr (by simp))
  | cons c cells ih =>
    obtain ⟨hlen, hsame | hnull⟩ := h c List.mem_cons_self
    · have hrest := ih fun c hc => h c (List.mem_cons_of_mem _ hc)
      have hlength : (c :: cells).length * w = c.1.length + cells.length * w := by
        rw [List.length_cons, hlen, Nat.succ_mul, Nat.add_comm]
      rw [hlength, List.map_cons, List.map_cons, List.flatten_cons, List.flatten_cons, ← hsame,
        List.append_assoc, List.append_assoc]
      exact hrest.cString_append (by rw [hlen])
    · obtain ⟨v, rfl⟩ := Nat.exists_eq_add_of_lt hw
      rw [List.map_cons, List.flatten_cons, hnull, List.replicate_succ]
      exact .inr (.inl ⟨Nat.dvd_zero _, List.nil_prefix⟩)

theorem take_coreSuffix_eq_iff (h : GoesOn 4 31 x y) {j k : Fin lininoioMaxNcores} (hjk : j ≠ k) :
    (x ++ coreSuffix j).take 31 = (y ++ coreSuffix k).take 31 ↔ 29 < x.length ∧ 29 < y.length := by
  have hsuffix : ∀ i, (coreSuffix i).length = 2 := fun _ => rfl
  have hshort : x = y → x.length ≤ 29 → (x ++ coreSuffix j).take 31 ≠ (y ++ coreSuffix k).take 31 := by
    rintro rfl hx heq
    rw [List.take_of_length_le (by simp [hsuffix, hx]), List.take_of_length_le (by simp [hsuffix, hx])]
      at heq
    have hid := List.append_cancel_left heq
    exact hjk (digit_injective (by simpa [coreSuffix] using hid))
  have hlong : ∀ z : List UInt8, 30 ≤ z.length → ∀ i, (z ++ coreSuffix i).take 31 =
      (z ++ [45]).take 31 := by
    intro z hz i
    have hsplit : z ++ coreSuffix i = z ++ [45] ++ [digit i] := by simp [coreSuffix]
    rw [hsplit, List.take_append_of_le_length (by simpa using hz)]
  constructor
  · intro heq
    have hlen := congrArg List.length heq
    simp only [List.length_take, List.length_append, hsuffix] at hlen
    rcases h with rfl | ⟨hdvd, hpre⟩ | ⟨hx, hy, -⟩
    · have hx : 29 < x.length := not_le.mp fun hx => hshort rfl hx heq
      exact ⟨hx, hx⟩
    · have hle := hpre.length_le
      have hx : 29 < x.length := by
        by_contra hx
        have hxy : x = y := hpre.eq_of_length (by omega)
        exact hshort hxy (not_lt.mp hx) heq
      exact ⟨hx, hx.trans_le hle⟩
    · omega
  · intro hcut
    obtain ⟨hx, hy⟩ := hcut
    rw [hlong x hx, hlong y hy]
    rcases h with rfl | ⟨hdvd, z, rfl⟩ | ⟨hx', hy', htake⟩
    · rfl
    · have h31 : 31 ≤ x.length := by omega
      rw [List.append_assoc, List.take_append_of_le_length h31, List.take_append_of_le_length h31]
    · rw [List.take_append_of_le_length hx', List.take_append_of_le_length hy', htake]

end Strings

section Memory

/-- A pointer in memory, NULL being all zeros. -/
def pointerBytes (width : Nat) (addr : Nat → List UInt8) : Option Nat → List UInt8
  | none => List.replicate width 0
  | some a => addr a

/-- `alive_to` and the core table of a node, which follow its name. -/
def Node.pointers (width : Nat) (timeoutAddr coreAddr : Nat → List UInt8) (node : Node) : List UInt8 :=
  (pointerBytes width timeoutAddr node.aliveTo :: (List.finRange lininoioMaxNcores).map
    fun j => pointerBytes width coreAddr (node.cores j)).flatten

/-- The memory behind a name is laid out as `struct lininoio_node` says. -/
structure NodeLayout {σ : Type} (env : Env σ) (timeoutAddr coreAddr : Nat → List UInt8)
    (rest : Node → List UInt8) : Prop where
  length_timeoutAddr : ∀ a, (timeoutAddr a).length = env.ulong.bits / 8
  length_coreAddr : ∀ c, (coreAddr c).length = env.ulong.bits / 8
  pastName : ∀ node, env.pastName node =
    node.pointers (env.ulong.bits / 8) timeoutAddr coreAddr ++ rest node

variable {σ : Type} {env : Env σ} {timeoutAddr coreAddr : Nat → List UInt8} {rest : Node → List UInt8}

/-- What `get_core` reads from the name on when it makes the core `c`. -/
def nameMemory (env : Env σ) (node : Node) (c : CorePtr) : List UInt8 :=
  node.name ++ env.pastName (node.before c)

theorem Node.before_some (node : Node) {j : Fin lininoioMaxNcores} {c e : CorePtr}
    (hj : node.cores j = some e) (h : e < c) : (node.before c).cores j = some e := by
  simp [Node.before, hj, Option.filter, h]

theorem Node.before_none (node : Node) {j : Fin lininoioMaxNcores} {c e : CorePtr}
    (hj : node.cores j = some e) (h : c ≤ e) : (node.before c).cores j = none := by
  simp [Node.before, hj, Option.filter, not_lt.mpr h]

theorem Node.goesOn_pointers {width : Nat} (hw : 0 < width)
    (htimeout : ∀ a, (timeoutAddr a).length = width) (hcore : ∀ c, (coreAddr c).length = width)
    (node : Node) {c d : CorePtr} (hcd : c ≤ d) (ra rb : List UInt8) :
    GoesOn width (9 * width)
      (cString ((node.before c).pointers width timeoutAddr coreAddr ++ ra))
      (cString ((node.before d).pointers width timeoutAddr coreAddr ++ rb)) := by
  have hlen : ∀ {addr : Nat → List UInt8} (p : Option Nat), (∀ a, (addr a).length = width) →
      (pointerBytes width addr p).length = width := by
    intro addr p haddr
    cases p with
    | none => exact List.length_replicate
    | some a => exact haddr a
  have hcells := goesOn_cells hw ((pointerBytes width timeoutAddr node.aliveTo,
      pointerBytes width timeoutAddr node.aliveTo) :: (List.finRange lininoioMaxNcores).map fun j =>
    (pointerBytes width coreAddr ((node.before c).cores j),
      pointerBytes width coreAddr ((node.before d).cores j))) ?_ ra rb
  · simpa [Node.pointers, Node.before, Function.comp_def, lininoioMaxNcores] using hcells
  · intro cell hcell
    rcases List.mem_cons.mp hcell with rfl | hcell
    · exact ⟨hlen _ htimeout, .inl rfl⟩
    · obtain ⟨j, -, rfl⟩ := List.mem_map.mp hcell
      refine ⟨hlen _ hcore, ?_⟩
      -- a core that is made between `c` and `d` was NULL before
      cases hj : node.cores j with
      | none => exact .inl (by simp [Node.before, hj])
      | some e =>
        by_cases hec : e < c
        · exact .inl (by rw [node.before_some hj hec, node.before_some hj (hec.trans_le hcd)])
        · exact .inr (by rw [node.before_none hj (not_lt.mp hec)]; rfl)

theorem NodeLayout.goesOn (hl : NodeLayout env timeoutAddr coreAddr rest) {node : Node}
    (hname : node.name.length = 16) {c d : CorePtr} (hcd : c ≤ d) :
    GoesOn 4 31 (cString (nameMemory env node c)) (cString (nameMemory env node d)) := by
  have hwidth : env.ulong.bits / 8 = 4 ∨ env.ulong.bits / 8 = 8 := by
    cases env.ulong
    · exact .inl rfl
    · exact .inr rfl
  have hpointers := node.goesOn_pointers (by omega) hl.length_timeoutAddr hl.length_coreAddr hcd
    (rest (node.before c)) (rest (node.before d))
  rw [nameMemory, nameMemory, hl.pastName, hl.pastName]
  refine (hpointers.cString_append (a := node.name) ?_).mono ?_ ?_
  · rw [hname]
    rcases hwidth with h | h <;> simp [h]
  · rcases hwidth with h | h <;> simp [h]
  · omega

end Memory

def requestedNode {L σ : Type} (env : Env σ) (sender : SockaddrLl) (packet : Memory)
    (s : Daemon L σ) : Node where
  name := strncpy 16 (ArequestPacket.slaveName packet)
  aliveTo := nextAliveTo env s
  cores := (coresTaken env.bigEndian packet s.freshCore (ArequestPacket.nchannels packet).toNat).1
  nchannels := (ArequestPacket.nchannels packet).toNat
  channels := fun _ => none
  addr := sender

/-- Of any two cores of a node, one was named with room for its whole id. -/
def RoomForIds {σ : Type} (env : Env σ) (node : Node) : Prop :=
  ∀ j k c d, node.cores j = some c → node.cores k = some d → j ≠ k →
    (cString (nameMemory env node c)).length ≤ 29 ∨ (cString (nameMemory env node d)).length ≤ 29

/-- A frame that is an association request, and accepted, leaves room for the core ids. -/
def NamesFit {L σ : Type} [NodeLists L] (env : Env σ) (sender : SockaddrLl) (packet : Memory)
    (s : Daemon L σ) : Prop :=
  packet 0 = 1 → (∃ n, Accepted sender packet n s) → RoomForIds env (requestedNode env sender packet s)

def ProcessorsDistinct {L σ : Type} (env : Env σ) (s : Daemon L σ) : Prop :=
  ∀ n m j k c d, s.Associated n → s.Associated m → (s.node n).cores j = some c →
    (s.node m).cores k = some d → (n, j) ≠ (m, k) →
      (s.core c).rprocName ≠ (s.core d).rprocName ∧
      (s.core c).rprocName.take (env.pdNameSize - 1) ≠
        (s.core d).rprocName.take (env.pdNameSize - 1) ∧
      firmwarePath env (s.core c).rprocName ≠ firmwarePath env (s.core d).rprocName

section Named

variable {L σ : Type} {env : Env σ} {n : Slot} {s t : Daemon L σ}

structure NodeNamed (env : Env σ) (n : Slot) (s : Daemon L σ) : Prop where
  named : CoresNamed env n s
  length_name : (s.node n).name.length = 16

theorem NodeNamed.frame (h : NodeNamed env n s) (hnode : t.node n = s.node n)
    (hcore : ∀ j c, (s.node n).cores j = some c → (t.core c).rprocName = (s.core c).rprocName) :
    NodeNamed env n t := by
  refine ⟨fun j c hc => ?_, by rw [hnode, h.length_name]⟩
  rw [hnode] at hc ⊢
  rw [hcore j c hc]
  exact h.named j c hc

theorem NodeNamed.rprocName_eq_iff {timeoutAddr coreAddr : Nat → List UInt8} {rest : Node → List UInt8}
    (h : NodeNamed env n s) (hl : NodeLayout env timeoutAddr coreAddr rest)
    {j k : Fin lininoioMaxNcores} {c d : CorePtr} (hc : (s.node n).cores j = some c)
    (hd : (s.node n).cores k = some d) (hjk : j ≠ k) :
    (s.core c).rprocName = (s.core d).rprocName ↔
      29 < (cString (nameMemory env (s.node n) c)).length ∧
        29 < (cString (nameMemory env (s.node n) d)).length := by
  rw [h.named j c hc, h.named k d hd, rprocNameFrom_eq, rprocNameFrom_eq]
  rcases le_total c d with hcd | hdc
  · exact take_coreSuffix_eq_iff (hl.goesOn h.length_name hcd) hjk
  · rw [eq_comm, and_comm]
    exact take_coreSuffix_eq_iff (hl.goesOn h.length_name hdc) hjk.symm

theorem NodeNamed.room_iff {timeoutAddr coreAddr : Nat → List UInt8} {rest : Node → List UInt8}
    (h : NodeNamed env n s) (hl : NodeLayout env timeoutAddr coreAddr rest) :
    (∀ j k c d, (s.node n).cores j = some c → (s.node n).cores k = some d → j ≠ k →
      (s.core c).rprocName ≠ (s.core d).rprocName) ↔ RoomForIds env (s.node n) := by
  refine forall₄_congr fun j k c d => forall₃_congr fun hc hd hjk => ?_
  rw [Ne, h.rprocName_eq_iff hl hc hd hjk, not_and_or, not_lt, not_lt]

def AllRoomy (env : Env σ) (s : Daemon L σ) : Prop :=
  ∀ n, s.Associated n → NodeNamed env n s ∧ RoomForIds env (s.node n)

theorem AllRoomy.setup (h : AllRoomy env s) (hf : SetupFrame s t)
    (hassoc : t.associated = s.associated) : AllRoomy env t := by
  intro n hn
  rw [Daemon.Associated, hassoc] at hn
  obtain ⟨hnamed, hroom⟩ := h n hn
  exact ⟨hnamed.frame (by rw [hf.node]) fun _ c _ => hf.rprocName c, by rwa [hf.node]⟩

variable [NodeLists L] {sender : SockaddrLl} {packet : Memory} {s₁ s₂ u : Daemon L σ} {mem stat : Int}
  {C S R : List Effect} {q : Timeouts ToHandler Slot}

theorem AssociationRun.rprocName_eq (h : AssociationRun env n packet (handOut n sender s) s₁ s₂ u
    mem stat C S R)
    (c : CorePtr) : ((closeArequest n stat q u).core c).rprocName = (s₂.core c).rprocName := by
  have hclose : (closeArequest n stat q u).core = u.core := by
    by_cases hstat : stat = 0 <;> simp [closeArequest, hstat]
  rw [hclose, h.conclusion.run.rprocName]

theorem AssociationRun.node_requested (h : AssociationRun env n packet (handOut n sender s) s₁ s₂ u
    mem stat C S R) (hstat : stat = 0) :
    (closeArequest n stat q u).node n = requestedNode env sender packet s := by
  have hcores : (s₂.node n).cores = (requestedNode env sender packet s).cores :=
    congrArg Prod.fst (h.tabled hstat)
  have halive : (s₂.node n).aliveTo = nextAliveTo env s := h.aliveTo_next env
  have hnode := congrFun (h.node_eq env) n
  simp only [Function.update_self, handOut, Node.recycled, Node.begun] at hnode
  rw [hnode] at halive
  rw [h.node env, hnode, hcores]
  exact congrArg (fun a => { requestedNode env sender packet s with aliveTo := a }) halive

theorem AssociationRun.nodeNamed (h : AssociationRun env n packet (handOut n sender s) s₁ s₂ u mem
    stat C S R) : NodeNamed env n (closeArequest n stat q u) := by
  have hname : (s₂.node n).name = strncpy 16 (ArequestPacket.slaveName packet) := by
    rw [h.node_eq env]
    simp [Node.begun]
  have hlen : (ArequestPacket.slaveName packet).length = 16 := by simp [ArequestPacket.slaveName]
  have hcopy := (cString_strncpy (x := ArequestPacket.slaveName packet)).2.2
  rw [hlen, ← hname] at hcopy
  have hnamed : NodeNamed env n s₂ := ⟨h.named, hcopy⟩
  exact hnamed.frame (by rw [h.node env]) fun _ c _ => h.rprocName_eq c

theorem AssociationRun.nodeNamed_other {m : Slot} (hm : m ≠ n) (h : NodeNamed env m s)
    (hfresh : ∀ j c, (s.node m).cores j = some c → c < s.freshCore)
    (hrun : AssociationRun env n packet (handOut n sender s) s₁ s₂ u mem stat C S R) :
    NodeNamed env m (closeArequest n stat q u) ∧
      (closeArequest n stat q u).node m = s.node m := by
  have hnode : (closeArequest n stat q u).node m = s.node m := by
    rw [hrun.node env, hrun.node_eq env, Function.update_of_ne hm]
    simp [handOut, hm]
  refine ⟨h.frame hnode fun j c hc => ?_, hnode⟩
  have hlt : c < s₁.freshCore := by
    rw [hrun.begun.freshCore]
    exact hfresh j c hc
  rw [hrun.rprocName_eq c, hrun.loop.core c hlt fun k => ?_, hrun.begun.core]
  · rfl
  · simp [hrun.begun.node, Node.begun, handOut, Node.recycled]

theorem AllRoomy.receive [LawfulNodeLists L] (h : AllRoomy env s) (hheld : AllHeld env.bigEndian s)
    (hfit : NamesFit env sender packet s) (hstep : PacketStep env sender packet s t) :
    AllRoomy env t := by
  cases hstep with
  | quiet hrun => exact h.setup hrun.toSetupFrame hrun.associated
  | @request m s₁ s₂ u mem stat C S R q htype hacc hrun hcancel ht =>
    subst ht
    intro n hn
    rw [Daemon.Associated, hrun.associated env] at hn
    by_cases hnm : n = m
    · subst hnm
      have hstat : stat = 0 := by simpa using hn
      rw [hrun.node_requested hstat]
      exact ⟨hrun.nodeNamed, hfit htype ⟨_, hacc⟩⟩
    · have hn' : s.Associated n := by simpa [hnm] using hn
      obtain ⟨packet', base, hch⟩ := hheld n hn'
      obtain ⟨hnamed, hnode⟩ := hrun.nodeNamed_other (q := q) hnm (h n hn').1 hch.holds.fresh
      exact ⟨hnamed, by rw [hnode]; exact (h n hn').2⟩

theorem keptIf_allRoomy [LawfulNodeLists L] (env : Env σ) : KeptIf env (NamesFit env)
    (fun s : Daemon L σ => AllHeld env.bigEndian s ∧ AllRoomy env s) where
  wait s us h := ⟨(kept_allHeld env).wait s us h.1, fun n hn =>
    ⟨(h.2 n hn).1.frame rfl fun _ _ _ => rfl, (h.2 n hn).2⟩⟩
  expired s t hok h hexp := by
    refine ⟨(kept_allHeld env).expired s t hok h.1 hexp, fun n hn => ?_⟩
    obtain ⟨hnamed, hroom⟩ := h.2 n (hexp.associated hn)
    have hnode := hexp.frame.node
    exact ⟨hnamed.frame (by rw [hnode]) fun _ c _ => by rw [hexp.frame.core], by rwa [hnode]⟩
  frame sender packet s t hok h hfit hstep :=
    ⟨(kept_allHeld env).callback sender (Set.mem_univ _) s t hok h.1 hstep.callback,
      h.2.receive h.1 hfit hstep⟩
  service cs s t E h hrun := ⟨(keptByAll_allHeld env).service cs s t E h.1 hrun,
    h.2.setup hrun.toSetupFrame (hrun.mono fun _ _ he => he.quiet).associated⟩

end Named

section Runs

variable {σ : Type} {env : Env σ} {timeoutAddr coreAddr : Nat → List UInt8} {rest : Node → List UInt8}

/-- In a state that is reached the remote processors are distinct exactly when the names of
the node that is associated leave room for the core ids. -/
theorem processorsDistinct_iff {s : Daemon (Links Cell) σ} (hok : AliveOk s)
    (hnamed : ∀ n, s.Associated n → NodeNamed env n s)
    (hl : NodeLayout env timeoutAddr coreAddr rest)
    (hpre : env.firmwarePrefix.length + 64 ≤ pathMax) (hpd : 32 ≤ env.pdNameSize) :
    ProcessorsDistinct env s ↔ ∀ n, s.Associated n → RoomForIds env (s.node n) := by
  have hshort : ∀ {n : Slot}, NodeNamed env n s → ∀ j c, (s.node n).cores j = some c →
      (s.core c).rprocName.length ≤ 31 := by
    intro n h j c hc
    rw [h.named j c hc, rprocNameFrom_eq]
    exact List.length_take_le _ _
  constructor
  · intro h n hn
    rw [← (hnamed n hn).room_iff hl]
    exact fun j k c d hc hd hjk => (h n n j k c d hn hn hc hd (by simpa using hjk)).1
  · intro h n m j k c d hn hm hc hd hne
    obtain rfl : n = m := LinksReached.at_most_one hok.lists hn hm
    have hjk : j ≠ k := by simpa using hne
    have hdistinct := ((hnamed n hn).room_iff hl).mpr (h n hn) j k c d hc hd hjk
    have hlc := hshort (hnamed n hn) j c hc
    have hld := hshort (hnamed n hn) k d hd
    refine ⟨hdistinct, fun htake => hdistinct ?_, fun hpath => hdistinct ?_⟩
    · rwa [List.take_of_length_le (by omega), List.take_of_length_le (by omega)] at htake
    · exact firmwarePath_inj env hpre hlc hld hpath

/-- In a run in which every accepted request leaves room for its core ids, the remote
processors are distinct in every state that is reached. -/
theorem processors_distinct (hl : NodeLayout env timeoutAddr coreAddr rest)
    (hpre : env.firmwarePrefix.length + 64 ≤ pathMax) (hpd : 32 ≤ env.pdNameSize)
    (w : σ) (udevFd netifFd : Int) (es : List Wakeup)
    (hfit : EachIteration env (fun e s _ => e.Meets env (NamesFit env) s) es
      (etherdInit w udevFd netifFd : Etherd (Links Cell) σ)) :
    EachIteration env (fun _ _ t => ProcessorsDistinct env t.daemon) es
      (etherdInit w udevFd netifFd : Etherd (Links Cell) σ) := by
  have hinit : ∀ n, ¬ (daemonInit w udevFd netifFd : Daemon (Links Cell) σ).Associated n :=
    fun _ => Bool.false_ne_true
  refine ((keptIf_allRoomy env).eachIteration (s := etherdInit w udevFd netifFd)
    (aliveOk_init w udevFd netifFd) ⟨fun n hn => absurd hn (hinit n), fun n hn =>
      absurd hn (hinit n)⟩ hfit).mono ?_
  intro _ _ t hh
  obtain ⟨hok, -, hroomy⟩ := hh
  rw [processorsDistinct_iff hok (fun n hn => (hroomy n hn).1) hl hpre hpd]
  exact fun n hn => (hroomy n hn).2

end Runs

def heapAddr (base step i : Nat) : List UInt8 := u32Bytes false (base + step * i)

theorem length_heapAddr (base step i : Nat) : (heapAddr base step i).length = 4 := by
  simp [heapAddr, u32Bytes]

def timeoutHeap : Nat → List UInt8 := heapAddr 0x0912a1c8 0x18

def coreHeap : Nat → List UInt8 := heapAddr 0x0912b1a8 0x110

def smallHost : Env Unit := { driverHost with
  ulong := .bits32
  aliveToHead := fun a => (pointerBytes 4 timeoutHeap a).headD 0
  pastAliveTo := fun node =>
    (node.pointers 4 timeoutHeap coreHeap).tail ++ u32Bytes false node.nchannels }

theorem smallHost_layout : NodeLayout smallHost timeoutHeap coreHeap
    (fun node => u32Bytes false node.nchannels) where
  length_timeoutAddr := length_heapAddr _ _
  length_coreAddr := length_heapAddr _ _
  pastName node := by
    cases ha : node.aliveTo <;> simp [Env.pastName, smallHost, Node.pointers, ha, pointerBytes,
      LongWidth.bits, timeoutHeap, heapAddr, u32Bytes, List.replicate_succ]

def fiveCores : List UInt8 := [1, 0, 1, 0x20, 1, 0x40, 1, 0x60, 1, 0x80]

def namedFrame (name : List UInt8) : List UInt8 :=
  1 :: name ++ List.replicate (16 - name.length) 0 ++ 5 :: fiveCores

def boardComes (name : List UInt8) : List Wakeup :=
  [.ready 0 [4] ⟨some (boardAddr, namedFrame name), none⟩]

/-- Sixteen letters fill the name, and the pointers behind it have no zero byte. -/
theorem cut_names_equal : ¬ EachIteration smallHost
    (fun _ _ t => ProcessorsDistinct smallHost t.daemon) (boardComes (List.replicate 16 97))
    (etherdInit () 3 4 : Etherd (Links Cell) Unit) := by
  have hreturns : returnsIn (eventLoop smallHost (boardComes (List.replicate 16 97)))
      (fun t : Etherd (Links Cell) Unit => t.daemon.associated 0 &&
        (t.daemon.node 0).cores 3 = some 3 && (t.daemon.node 0).cores 4 = some 4 &&
        (t.daemon.core 3).rprocName = (t.daemon.core 4).rprocName) (etherdInit () 3 4) = true := by
    decide +kernel
  apply not_eachIteration_of_returnsIn hreturns (List.cons_ne_nil _ _)
  intro t ht hall
  simp only [Bool.and_eq_true, decide_eq_true_eq] at ht
  obtain ⟨⟨⟨hassoc, h3⟩, h4⟩, hname⟩ := ht
  exact (hall 0 0 3 4 3 4 hassoc hassoc h3 h4 (by decide)).1 hname

theorem namesFit_of_mem {L σ : Type} [NodeLists L] (env : Env σ) (sender : SockaddrLl) {packet : Memory}
    (h0 : 0 ∈ ArequestPacket.slaveName packet) (s : Daemon L σ) : NamesFit env sender packet s := by
  intro _ _ j k c d _ _ _
  have hlen : (ArequestPacket.slaveName packet).length = 16 := by simp [ArequestPacket.slaveName]
  have hlt := length_cString_lt h0
  have hcopy := cString_strncpy (x := ArequestPacket.slaveName packet)
  rw [hlen] at hcopy
  rw [nameMemory, requestedNode, cString_append_of_mem (hcopy.2.1.mpr h0), hcopy.1]
  omega

theorem processors_distinct_yun : ∃ t : Etherd (Links Cell) Unit,
    (t.daemon.core 3).rprocName ≠ (t.daemon.core 4).rprocName := by
  obtain ⟨es, hes⟩ : ∃ es, es = boardComes [121, 117, 110] := ⟨_, rfl⟩
  have hfit : EachIteration smallHost (fun e s _ => e.Meets smallHost (NamesFit smallHost) s) es
      (etherdInit () 3 4 : Etherd (Links Cell) Unit) := by
    refine eachIteration_meets fun us fds arrivals he sender payload hframe buf d => ?_
    rw [hes] at he
    obtain ⟨⟨⟩⟩ := List.mem_singleton.mp he
    cases hframe
    exact namesFit_of_mem smallHost boardAddr (List.mem_map.mpr ⟨15, by decide, rfl⟩) d
  have hreturns : returnsIn (eventLoop smallHost es) (fun t : Etherd (Links Cell) Unit =>
      t.daemon.associated 0 && (t.daemon.node 0).cores 3 = some 3 &&
        (t.daemon.node 0).cores 4 = some 4) (etherdInit () 3 4) = true := by
    rw [hes]
    decide +kernel
  obtain ⟨_, t, hrun, ht⟩ := exists_of_returnsIn hreturns
  simp only [Bool.and_eq_true, decide_eq_true_eq] at ht
  obtain ⟨⟨hassoc, h3⟩, h4⟩ := ht
  have hdistinct := processors_distinct smallHost_layout (by decide) (by decide) () 3 4 es hfit
  have hne : es ≠ [] := by simp [hes, boardComes]
  exact ⟨t, (hdistinct.last_of_run hne hrun 0 0 3 4 3 4 hassoc hassoc h3 h4 (by decide)).1⟩

end Lininoio
