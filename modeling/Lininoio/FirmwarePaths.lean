import Lininoio.CoreReferences

/-! The names of the remote processors and the paths of their firmware files, which are
made from the slave name of a request and the core id. -/

namespace Lininoio

open StateFault CircularLinks

theorem cString_cons {x : UInt8} (hx : x ≠ 0) (a : List UInt8) : cString (x :: a) = x :: cString a :=
  List.takeWhile_cons_of_pos (decide_eq_true hx)

theorem cString_zero_cons (a : List UInt8) : cString (0 :: a) = [] := rfl

theorem cString_append_of_mem {a : List UInt8} (h : 0 ∈ a) (b : List UInt8) :
    cString (a ++ b) = cString a := by
  induction a with
  | nil => exact absurd h List.not_mem_nil
  | cons x a ih =>
    by_cases hx : x = 0
    · subst hx
      rfl
    · have ha : 0 ∈ a := (List.mem_cons.mp h).resolve_left fun he => hx he.symm
      rw [List.cons_append, cString_cons hx, cString_cons hx, ih ha]

theorem cString_append_of_not_mem {a : List UInt8} (h : 0 ∉ a) (b : List UInt8) :
    cString (a ++ b) = a ++ cString b :=
  List.takeWhile_append_of_pos fun _ hx => decide_eq_true fun he => h (he ▸ hx)

theorem zero_not_mem_cString (a : List UInt8) : 0 ∉ cString a := by
  intro h
  exact absurd (List.mem_takeWhile_imp h) (by simp)

theorem length_cString_le (a : List UInt8) : (cString a).length ≤ a.length :=
  (List.takeWhile_prefix _).length_le

theorem length_cString_lt {a : List UInt8} (h : 0 ∈ a) : (cString a).length < a.length := by
  apply lt_of_le_of_ne (length_cString_le a)
  intro hlen
  have heq : cString a = a := (List.takeWhile_prefix _).eq_of_length hlen
  exact zero_not_mem_cString a (by rwa [heq])

theorem cString_of_not_mem {a : List UInt8} (h : 0 ∉ a) : cString a = a := by
  have hh := cString_append_of_not_mem h []
  simpa [cString] using hh

theorem cString_strncpy {x : List UInt8} : cString (strncpy x.length x) = cString x ∧
    (0 ∈ strncpy x.length x ↔ 0 ∈ x) ∧ (strncpy x.length x).length = x.length := by
  have hle := length_cString_le x
  have htake : (cString x).take x.length = cString x := List.take_of_length_le hle
  by_cases h : 0 ∈ x
  · have hlt := length_cString_lt h
    obtain ⟨m, hm⟩ : ∃ m, x.length - (cString x).length = m + 1 :=
      ⟨x.length - (cString x).length - 1, by omega⟩
    have hcopy : strncpy x.length x = cString x ++ 0 :: List.replicate m 0 := by
      rw [strncpy, htake, hm, List.replicate_succ]
    refine ⟨?_, ?_, ?_⟩
    · rw [hcopy, cString_append_of_not_mem (zero_not_mem_cString x)]
      simp [cString]
    · simp [hcopy, h]
    · rw [hcopy]
      simp only [List.length_append, List.length_cons, List.length_replicate]
      omega
  · have hx := cString_of_not_mem h
    have hcopy : strncpy x.length x = x := by
      simp [strncpy, hx]
    rw [hcopy]
    exact ⟨rfl, Iff.rfl, rfl⟩

def digit (j : Fin lininoioMaxNcores) : UInt8 := UInt8.ofNat (48 + j)

theorem decimal_coreId (j : Fin lininoioMaxNcores) : decimal j = [digit j] := by
  revert j
  decide +kernel

theorem digit_injective : Function.Injective digit := by
  intro i j h
  revert i j
  decide +kernel

def coreSuffix (j : Fin lininoioMaxNcores) : List UInt8 := [45, digit j]

theorem rprocNameFrom_eq (name : List UInt8) (j : Fin lininoioMaxNcores) :
    rprocNameFrom name j = (cString name ++ coreSuffix j).take 31 := by
  rw [rprocNameFrom, decimal_coreId, List.append_assoc]
  rfl

def firmwareFile (firmwarePrefix name : List UInt8) (j : Fin lininoioMaxNcores) : List UInt8 :=
  asciiBytes "/lib/firmware/" ++ (firmwarePrefix ++ (name ++ coreSuffix j) ++ asciiBytes "-fw")

section Paths

variable {σ : Type} (env : Env σ)

theorem length_firmwareDir : (asciiBytes "/lib/firmware/").length = 14 := by decide

theorem firmwarePath_eq {name : List UInt8} (hpre : env.firmwarePrefix.length + 64 ≤ pathMax)
    (hname : name.length ≤ 31) : firmwarePath env name =
      asciiBytes "/lib/firmware/" ++ (env.firmwarePrefix ++ name ++ asciiBytes "-fw") := by
  have hfw : (asciiBytes "-fw").length = 3 := by decide
  have hmax : pathMax = 4096 := rfl
  have hinner : (env.firmwarePrefix ++ name ++ asciiBytes "-fw").length ≤ pathMax - 1 - 1 := by
    simp only [List.length_append, hfw]
    omega
  have houter : (asciiBytes "/lib/firmware/" ++
      (env.firmwarePrefix ++ name ++ asciiBytes "-fw")).length ≤ pathMax - 1 - 1 := by
    simp only [List.length_append, hfw, length_firmwareDir]
    omega
  rw [firmwarePath, snprintf, snprintf, List.take_of_length_le hinner, List.take_of_length_le houter]

theorem firmwarePath_inj {a b : List UInt8} (hpre : env.firmwarePrefix.length + 64 ≤ pathMax)
    (ha : a.length ≤ 31) (hb : b.length ≤ 31) (h : firmwarePath env a = firmwarePath env b) :
      a = b := by
  rw [firmwarePath_eq env hpre ha, firmwarePath_eq env hpre hb] at h
  have hfile := List.append_cancel_right (List.append_cancel_left h)
  exact List.append_cancel_left hfile

theorem slash_not_mem_coreSuffix (j : Fin lininoioMaxNcores) : 47 ∉ coreSuffix j := by
  revert j
  decide +kernel

theorem cString_nameField {x : List UInt8} (hx : x.length = 16) {head : UInt8} {past : List UInt8} :
    (0 ∈ x ∨ head = 0 → cString (strncpy 16 x ++ head :: past) = cString x) ∧
      (0 ∉ x → head ≠ 0 → cString (strncpy 16 x ++ head :: past) = x ++ head :: cString past) := by
  have hcopy := cString_strncpy (x := x)
  rw [hx] at hcopy
  obtain ⟨hstring, hzero, -⟩ := hcopy
  constructor
  · intro h
    by_cases h0 : 0 ∈ x
    · rw [cString_append_of_mem (hzero.mpr h0), hstring]
    · have hhead := h.resolve_left h0
      subst hhead
      have hnot : 0 ∉ strncpy 16 x := fun hm => h0 (hzero.mp hm)
      rw [cString_append_of_not_mem hnot, cString_zero_cons, List.append_nil, ← hstring,
        cString_of_not_mem hnot]
  · intro h0 hhead
    have hnot : 0 ∉ strncpy 16 x := fun hm => h0 (hzero.mp hm)
    have hsame : strncpy 16 x = x := by rw [← cString_of_not_mem hnot, hstring, cString_of_not_mem h0]
    rw [cString_append_of_not_mem hnot, cString_cons hhead, hsame]

theorem documented_iff {x : List UInt8} (hx : x.length = 16) {head : UInt8} {past : List UInt8}
    (hpre : env.firmwarePrefix.length + 64 ≤ pathMax) {used : Fin lininoioMaxNcores → Prop}
    {j : Fin lininoioMaxNcores} (hj : used j) {path : List UInt8}
    (hpath : path = firmwarePath env (rprocNameFrom (strncpy 16 x ++ head :: past) j)) :
    (∃ i, used i ∧ path = firmwareFile env.firmwarePrefix (cString x) i ∧ 47 ∉ path.drop 14) ↔
      (0 ∈ x ∨ head = 0) ∧ 47 ∉ cString x ∧ 47 ∉ env.firmwarePrefix := by
  have hlen : (rprocNameFrom (strncpy 16 x ++ head :: past) j).length ≤ 31 := by
    rw [rprocNameFrom_eq]
    exact List.length_take_le _ _
  have hfile : ∀ name i, (firmwareFile env.firmwarePrefix name i).drop 14 =
      env.firmwarePrefix ++ (name ++ coreSuffix i) ++ asciiBytes "-fw" :=
    fun name i => List.drop_left' length_firmwareDir
  have hx31 : (cString x ++ coreSuffix j).length ≤ 31 := by
    have hle := length_cString_le x
    simp only [List.length_append, coreSuffix, List.length_cons, List.length_nil]
    omega
  rw [firmwarePath_eq env hpre hlen] at hpath
  constructor
  · intro hh
    obtain ⟨i, -, hi, hslash⟩ := hh
    have hname : rprocNameFrom (strncpy 16 x ++ head :: past) j = cString x ++ coreSuffix i := by
      rw [hpath] at hi
      have hcancel := List.append_cancel_right (List.append_cancel_left hi)
      exact List.append_cancel_left hcancel
    rw [hi, hfile] at hslash
    simp only [List.mem_append, not_or] at hslash
    refine ⟨?_, hslash.1.2.1, hslash.1.1⟩
    by_contra hne
    obtain ⟨h0, hhead⟩ := not_or.mp hne
    have hlong : cString (strncpy 16 x ++ head :: past) = x ++ head :: cString past :=
      (cString_nameField hx).2 h0 hhead
    rw [rprocNameFrom_eq, hlong] at hname
    have hcount := congrArg List.length hname
    have hle := length_cString_le x
    simp only [List.length_take, List.length_append, List.length_cons, coreSuffix,
      List.length_nil] at hcount
    omega
  · intro hh
    obtain ⟨hended, hslash, hslash'⟩ := hh
    have hname : rprocNameFrom (strncpy 16 x ++ head :: past) j = cString x ++ coreSuffix j := by
      rw [rprocNameFrom_eq, (cString_nameField hx).1 hended, List.take_of_length_le hx31]
    have hi : path = firmwareFile env.firmwarePrefix (cString x) j := by rw [hpath, hname, firmwareFile]
    refine ⟨j, hj, hi, ?_⟩
    rw [hi, hfile]
    simp only [List.mem_append, not_or]
    exact ⟨⟨hslash', hslash, slash_not_mem_coreSuffix j⟩, by decide⟩

end Paths

section Requests

variable {L σ : Type} [NodeLists L] [LawfulNodeLists L] (env : Env σ)

/-- The path is the one the documentation gives to a core of the request, right in the
firmware directory. -/
def DocumentedPath (env : Env σ) (packet : Memory) (path : List UInt8) : Prop :=
  ∃ j, (∃ i < (ArequestPacket.nchannels packet).toNat, coreIdAt env.bigEndian packet i = j) ∧
    path = firmwareFile env.firmwarePrefix (cString (ArequestPacket.slaveName packet)) j ∧
      47 ∉ path.drop 14

/-- The slave name ends before the pointer to the alive timeout that follows it does. -/
structure NameSafe (env : Env σ) (packet : Memory) (aliveTo : Option Nat) : Prop where
  ended : 0 ∈ ArequestPacket.slaveName packet ∨ env.aliveToHead aliveTo = 0
  noSlash : 47 ∉ cString (ArequestPacket.slaveName packet)
  noSlashPrefix : 47 ∉ env.firmwarePrefix

omit [LawfulNodeLists L] in
theorem AssociationRun.opens {sender : SockaddrLl} {packet : Memory} {n : Slot} {s s₁ s₂ u : Daemon L σ}
    {mem stat : Int} {C S R : List Effect} {q : Timeouts ToHandler Slot}
    (h : AssociationRun env n packet (handOut n sender s) s₁ s₂ u mem stat C S R)
    {path : List UInt8} {r : Int}
    (hopen : .sys (.openFirmware path) r ∈ s.effectsSince (closeArequest n stat q u)) :
    stat = 0 ∧ ∃ j c, (s₂.node n).cores j = some c ∧ path = firmwarePath env (s₂.core c).rprocName := by
  rw [effectsSince_eq (h.trace env)] at hopen
  have hS : .sys (.openFirmware path) r ∈ S := by
    simp only [List.mem_append, List.mem_cons, List.not_mem_nil, or_false, reduceCtorEq,
      Effect.sys.injEq,
      false_and, false_or] at hopen
    rcases hopen with (hC | hS | hR) | hkill
    · exact absurd (h.loop.effects _ hC) id
    · exact hS
    · exact absurd (h.conclusion.replying _ hR) id
    · by_cases hstat : stat = 0 <;> simp [hstat] at hkill
  obtain ⟨c, hc, hpath⟩ := h.conclusion.setup _ hS
  obtain ⟨j, -, hj⟩ := mem_reachedCores hc
  refine ⟨?_, j, c, hj, hpath⟩
  by_contra hne
  rw [h.conclusion.skipped hne] at hS
  exact absurd hS List.not_mem_nil

theorem request_of_effect {s t : Daemon L σ} (hok : AliveOk s)
    {sender : SockaddrLl} {packet : Memory} {len : Nat}
    (hrun : etherRxCb env sender packet len s = .ok () t) {e : Effect} (he : e ∈ s.effectsSince t)
    (hreply : ¬ e.Replying) :
    ∃ n s₁ s₂ u mem stat C S R q,
      AssociationRun env n packet (handOut n sender s) s₁ s₂ u mem stat C S R ∧
        t = closeArequest n stat q u := by
  cases wp_ok (wp_etherRxCb_packet env hok.table sender packet len) hrun with
  | @quiet E hquiet hreplies =>
    rw [effectsSince_eq hquiet.trace] at he
    exact absurd (hreplies e he) hreply
  | request _ _ hassoc _ ht => exact ⟨_, _, _, _, _, _, _, _, _, _, hassoc, ht⟩

def nextAliveTo {L σ : Type} (env : Env σ) (s : Daemon L σ) : Option Nat :=
  if 0 ≤ (env.sys (.malloc .timeout) s.world).1 then some s.timeouts.fresh else none

omit [LawfulNodeLists L] in
theorem AssociationRun.aliveTo_next {sender : SockaddrLl} {packet : Memory} {n : Slot}
    {s s₁ s₂ u : Daemon L σ}
    {mem stat : Int} {C S R : List Effect}
    (h : AssociationRun env n packet (handOut n sender s) s₁ s₂ u mem stat C S R) :
    (s₂.node n).aliveTo = nextAliveTo env s := by
  have hanswer : mem = (env.sys (.malloc .timeout) s.world).1 := h.begun.answer
  have hnode : (s₂.node n).aliveTo = (scheduleAlive env n mem s.timeouts).1 := by
    rw [h.node_eq env, Function.update_self]
    rfl
  rw [hnode, nextAliveTo, ← hanswer]
  by_cases hmem : 0 ≤ mem
  · rw [scheduleAlive_eq env hmem, if_pos hmem]
  · rw [scheduleAlive_of_neg env (not_le.mp hmem), if_neg hmem]

/-- Whatever request is received in whatever state, each file it opens is the documented
one exactly when the slave name is safe. -/
theorem firmware_path_documented_iff {w : σ} {udevFd netifFd : Int} {es : List Wakeup} {s : Etherd L σ}
    (hreach : eventLoop env es (etherdInit w udevFd netifFd) = .ok () s)
    (hpre : env.firmwarePrefix.length + 64 ≤ pathMax)
    {sender : SockaddrLl} {packet : Memory} {len : Nat}
    {t : Daemon L σ} (hrun : etherRxCb env sender packet len s.daemon = .ok () t)
    {path : List UInt8} {r : Int}
    (hopen : .sys (.openFirmware path) r ∈ s.daemon.effectsSince t) :
    DocumentedPath env packet path ↔ NameSafe env packet (nextAliveTo env s.daemon) := by
  have hok := eventLoop_aliveOk env hreach
  obtain ⟨n, s₁, s₂, u, mem, stat, C, S, R, q, hassoc, rfl⟩ :=
    request_of_effect env hok hrun hopen id
  obtain ⟨hstat, j, c, hc, hpath⟩ := hassoc.opens env hopen
  have hname := hassoc.named j c hc
  have hnode : (s₂.node n).name = strncpy 16 (ArequestPacket.slaveName packet) := by
    rw [hassoc.node_eq env]
    simp [Node.begun]
  have hused := ((hassoc.grouped hstat).holds.used_iff j).mp (by simp [hc])
  rw [hname, hnode] at hpath
  rw [← hassoc.aliveTo_next env, DocumentedPath,
    documented_iff env (by simp [ArequestPacket.slaveName]) hpre hused hpath]
  exact ⟨fun hh => ⟨hh.1, hh.2.1, hh.2.2⟩, fun hh => ⟨hh.ended, hh.noSlash, hh.noSlashPrefix⟩⟩

omit [LawfulNodeLists L] in
theorem exists_open_of_returnsIn {packet : Memory} {len : Nat} {path : List UInt8}
    {sender : SockaddrLl} {r : Int}
    {s : Daemon L σ} (h : returnsIn (etherRxCb env sender packet len)
      (fun t => (s.effectsSince t).contains (.sys (.openFirmware path) r)) s = true) :
    ∃ t, etherRxCb env sender packet len s = .ok () t ∧ .sys (.openFirmware path) r ∈
      s.effectsSince t := by
  obtain ⟨_, t, hrun, ht⟩ := exists_of_returnsIn h
  exact ⟨t, hrun, List.contains_iff_mem.mp ht⟩

omit [LawfulNodeLists L] in
theorem eventLoop_nil (s : Etherd L σ) : eventLoop env [] s = .ok () s := rfl

def yunFrame : List UInt8 := 1 :: asciiBytes "yun" ++ List.replicate 13 0 ++ [1, 1, 0]

theorem named_board_documented : ∃ t : Daemon (Links Cell) Unit,
    etherRxCb driverHost boardAddr (atPointer yunFrame) 20 boardDaemon = .ok () t ∧
    .sys (.openFirmware (asciiBytes "/lib/firmware/yun-0-fw")) 5 ∈ boardDaemon.effectsSince t ∧
    (DocumentedPath driverHost (atPointer yunFrame) (asciiBytes "/lib/firmware/yun-0-fw") ↔
      NameSafe driverHost (atPointer yunFrame)
        (nextAliveTo driverHost (boardDaemon : Daemon (Links Cell) Unit))) := by
  have hreturns : returnsIn (etherRxCb driverHost boardAddr (atPointer yunFrame) 20)
      (fun t : Daemon (Links Cell) Unit => (boardDaemon.effectsSince t).contains
        (.sys (.openFirmware (asciiBytes "/lib/firmware/yun-0-fw")) 5))
      boardDaemon = true := by decide +kernel
  obtain ⟨t, hrun, hopen⟩ := exists_open_of_returnsIn driverHost hreturns
  exact ⟨t, hrun, hopen,
    firmware_path_documented_iff driverHost (eventLoop_nil driverHost (etherdInit () 3 4))
    (by decide) hrun hopen⟩

def climbingFrame : List UInt8 := 1 :: asciiBytes "../x" ++ List.replicate 12 0 ++ [1, 1, 0]

theorem climbing_board_leaves_directory : ∃ t : Daemon (Links Cell) Unit, ∃ path,
    etherRxCb driverHost boardAddr (atPointer climbingFrame) 20 boardDaemon = .ok () t ∧
    .sys (.openFirmware path) 5 ∈ boardDaemon.effectsSince t ∧
    ¬ DocumentedPath driverHost (atPointer climbingFrame) path := by
  have hreturns : returnsIn (etherRxCb driverHost boardAddr (atPointer climbingFrame) 20)
      (fun t : Daemon (Links Cell) Unit => (boardDaemon.effectsSince t).contains
        (.sys (.openFirmware (asciiBytes "/lib/firmware/../x-0-fw")) 5))
      boardDaemon = true := by decide +kernel
  obtain ⟨t, hrun, hopen⟩ := exists_open_of_returnsIn driverHost hreturns
  refine ⟨t, _, hrun, hopen, ?_⟩
  intro hh
  obtain ⟨j, -, -, hslash⟩ := hh
  exact hslash (by decide)

end Requests

end Lininoio
