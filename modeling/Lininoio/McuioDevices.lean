import Mathlib.Data.Finset.Card
import Mathlib.Data.Finset.Range
import Lininoio.Mcuio

/-! Which device numbers the connect method of the mcuio handler reserves, and how many
channels it can serve. -/

namespace Lininoio

def McuioBus.Full (b : McuioBus) : Prop := ∀ dev < 8, ¬ b.IsFree dev

def McuioBus.freeCount (b : McuioBus) : Nat :=
  ((Finset.range 8).filter (fun i => b.freeDevs.toBitVec.getLsbD i = true)).card

def McuioState.FirstFull (m : McuioState) : Prop := ∃ b, m.busses.head? = some b ∧ (m.bus b).Full

/-- A device number that could be had before a call; all those of a bus that is added can. -/
def McuioState.WasFree (m : McuioState) (b : BusPtr) (dev : Nat) : Prop :=
  b ∈ m.busses → (m.bus b).IsFree dev

/-- One device number of one bus is taken, which was free, and no other. -/
structure Takes (b : BusPtr) (dev : Nat) (m m' : McuioState) : Prop where
  bus : b ∈ m'.busses
  lt : dev < 8
  free : m.WasFree b dev
  kept : m.busses ⊆ m'.busses
  added : ∀ b' ∈ m'.busses, b' = b ∨ b' ∈ m.busses
  taken : ∀ b' ∈ m'.busses, ∀ d < 8, (m'.bus b').IsFree d ↔ m.WasFree b' d ∧ ¬ (b' = b ∧ d = dev)

structure TakesNone (m m' : McuioState) : Prop where
  kept : m.busses ⊆ m'.busses
  same : ∀ b ∈ m'.busses, ∀ d < 8, (m'.bus b).IsFree d ↔ m.WasFree b d

theorem takesNone_refl (m : McuioState) : TakesNone m m :=
  ⟨fun _ hb => hb, fun _ hb _ _ => ⟨fun h _ => h, fun h => h hb⟩⟩

theorem Takes.not_takesNone {b : BusPtr} {dev : Nat} {m m' : McuioState} (h : Takes b dev m m') :
    ¬ TakesNone m m' := by
  intro hnone
  have hfree := (hnone.same b h.bus dev h.lt).mpr h.free
  exact ((h.taken b h.bus dev h.lt).mp hfree).2 ⟨rfl, rfl⟩

theorem Reserves.takes {b : BusPtr} {dev : Nat} {m m' : McuioState} (h : Reserves b dev m m')
    (hb : b ∈ m.busses) : Takes b dev m m' := by
  have hbusses := h.same.1
  refine ⟨hbusses ▸ hb, h.lt, fun _ => h.free, hbusses ▸ fun _ hx => hx,
    fun b' hb' => .inr (hbusses ▸ hb'), fun b' hb' d _ => ?_⟩
  rw [hbusses] at hb'
  by_cases hbb : b' = b
  · subst hbb
    rw [h.taken d]
    exact ⟨fun hh => ⟨fun _ => hh.1, fun he => hh.2 he.2⟩, fun hh =>
      ⟨hh.1 hb', fun he => hh.2 ⟨rfl, he⟩⟩⟩
  · rw [h.other b' hbb]
    exact ⟨fun hh => ⟨fun _ => hh, fun he => hbb he.1⟩, fun hh => hh.1 hb'⟩

theorem Reserves.takes_push {bus : McuioBus} {dev : Nat} {m m' : McuioState} (hok : McuioOk m)
    (hall : ∀ d < 8, bus.IsFree d) (h : Reserves m.freshBus dev (m.push bus) m') :
    Takes m.freshBus dev m m' := by
  have hnew : m.freshBus ∉ m.busses := fun hmem => lt_irrefl _ (hok.fresh _ hmem)
  have hbusses : m'.busses = m.freshBus :: m.busses := h.same.1
  refine ⟨by simp [hbusses], h.lt, fun hmem => absurd hmem hnew, by simp [hbusses], by simp [hbusses],
    fun b' hb' d hd => ?_⟩
  by_cases hbb : b' = m.freshBus
  · subst hbb
    have hbus : (m.push bus).bus m.freshBus = bus := Function.update_self _ _ _
    rw [h.taken d, hbus]
    exact ⟨fun hh => ⟨fun hmem => absurd hmem hnew, fun he => hh.2 he.2⟩,
      fun hh => ⟨hall d hd, fun he => hh.2 ⟨rfl, he⟩⟩⟩
  · have hold : b' ∈ m.busses := (List.mem_cons.mp (hbusses ▸ hb')).resolve_left hbb
    have hbus : (m.push bus).bus b' = m.bus b' := Function.update_of_ne hbb _ _
    rw [h.other b' hbb, hbus]
    exact ⟨fun hh => ⟨fun _ => hh, fun he => hbb he.1⟩, fun hh => hh.1 hold⟩

theorem Reserves.freeCount {b : BusPtr} {dev : Nat} {m m' : McuioState} (h : Reserves b dev m m') :
    (m'.bus b).freeCount + 1 = (m.bus b).freeCount := by
  have herase : (Finset.range 8).filter (fun i => (m'.bus b).freeDevs.toBitVec.getLsbD i = true) =
      ((Finset.range 8).filter (fun i => (m.bus b).freeDevs.toBitVec.getLsbD i = true)).erase dev := by
    ext i
    have hi : (m'.bus b).freeDevs.toBitVec.getLsbD i = true ↔
      (m.bus b).freeDevs.toBitVec.getLsbD i = true ∧ i ≠ dev := h.taken i
    simp only [Finset.mem_filter, Finset.mem_erase, hi]
    tauto
  rw [McuioBus.freeCount, McuioBus.freeCount, herase]
  exact Finset.card_erase_add_one (Finset.mem_filter.mpr ⟨Finset.mem_range.mpr h.lt, h.free⟩)

theorem freeCount_eq_zero_iff (b : McuioBus) : b.freeCount = 0 ↔ b.Full := by
  rw [McuioBus.freeCount, Finset.card_eq_zero, Finset.filter_eq_empty_iff]
  exact ⟨fun h dev hdev => h (Finset.mem_range.mpr hdev), fun h i hi => h i (Finset.mem_range.mp hi)⟩

theorem isFree_newBus (id fd : Int) : ∀ d < 8, (⟨id, fd, 0xff⟩ : McuioBus).IsFree d := by
  show ∀ d < 8, (0xff : UInt8).toBitVec.getLsbD d = true
  decide

/-- The free devices of the first bus, or of the one that will be added. -/
def McuioState.capacity (m : McuioState) : Nat :=
  match m.busses.head? with
  | none => 8
  | some b => (m.bus b).freeCount

theorem capacity_eq_zero_iff (m : McuioState) : m.capacity = 0 ↔ m.FirstFull := by
  unfold McuioState.capacity McuioState.FirstFull
  cases m.busses.head? with
  | none => simp
  | some b => simp [freeCount_eq_zero_iff]

theorem capacity_of_head {m : McuioState} {b : BusPtr} {rest : List BusPtr} (h : m.busses = b :: rest) :
    m.capacity = (m.bus b).freeCount := by
  rw [McuioState.capacity, h]
  rfl

theorem freeCount_newBus (id fd : Int) : (⟨id, fd, 0xff⟩ : McuioBus).freeCount = 8 := by
  have hall : ∀ i ∈ Finset.range 8, (0xff : UInt8).toBitVec.getLsbD i = true :=
    fun i hi => isFree_newBus id fd i (Finset.mem_range.mp hi)
  rw [McuioBus.freeCount, Finset.filter_true_of_mem hall, Finset.card_range]

section Connect

variable {σ : Type} (api : McuiodApi σ) {r : McuioRun σ}

def adataWorld (r : McuioRun σ) : σ :=
  let conn := if r.mcuio.connection.isNone then api.mcuiodConnect r.world
    else (r.mcuio.connection, r.world)
  if r.mcuio.busses = [] then (api.mcuiodNewBus conn.1 (api.malloc .bus conn.2).2).2 else conn.2

def AdataFails (r : McuioRun σ) : Prop := (api.malloc .adata (adataWorld api r)).1 = false

theorem addBus_world (conn : Option Nat) (w : σ) (m : McuioState) (h : ¬ NewBusFails api conn w)
    (hconn : m.connection = conn) :
    ∃ id fd, addBus api w m = (some m.freshBus, (api.mcuiodNewBus conn (api.malloc .bus w).2).2,
      m.push ⟨id, fd, 0xff⟩) := by
  subst hconn
  simp only [NewBusFails, not_or, Bool.not_eq_false] at h
  obtain ⟨bus, hbus⟩ := Option.ne_none_iff_exists'.mp h.2
  exact ⟨bus.1, bus.2, by simp [addBus, h.1, hbus]⟩

theorem acquire_newBus (h : McuioOk r.mcuio) (hbusses : r.mcuio.busses = []) :
    (NoBus api r ∧ ∃ w' m', acquire api r.world r.mcuio = (none, w', m') ∧ m'.busses = []) ∨
      (¬ NoBus api r ∧ ∃ (b : BusPtr) (dev : Nat) (m' : McuioState), acquire api r.world r.mcuio =
        (some (b, (dev : Int)), adataWorld api r, m') ∧ Takes b dev r.mcuio m' ∧
          m'.capacity + 1 = r.mcuio.capacity) := by
  rw [acquire_eq api r.world hbusses]
  have hworld : adataWorld api r = _ := if_pos hbusses
  rw [hworld]
  unfold NoBus
  generalize (if r.mcuio.connection.isNone then api.mcuiodConnect r.world else (r.mcuio.connection,
    r.world)) = conn
  by_cases hconn : conn.1 = none
  · left
    exact ⟨.inl hconn, conn.2, { r.mcuio with connection := none }, by simp [hconn], hbusses⟩
  by_cases hfails : NewBusFails api conn.1 conn.2
  · left
    rcases findBus_new api conn.2 { r.mcuio with connection := conn.1 } with ⟨-, w', heq⟩ | ⟨hnew, -⟩
    · exact ⟨.inr ⟨.inr hbusses, hfails⟩, w',
        { r.mcuio with connection := conn.1 }, by simpa [hconn] using heq, hbusses⟩
    · exact absurd hfails hnew
  · right
    obtain ⟨id, fd, hadd⟩ :=
      addBus_world api conn.1 conn.2 { r.mcuio with connection := conn.1 } hfails rfl
    have hok : McuioOk { r.mcuio with connection := conn.1 } := ⟨fun h0 => absurd h0 hconn, h.fresh⟩
    have hpush : (McuioState.push { r.mcuio with connection := conn.1 } ⟨id, fd, 0xff⟩).bus
      r.mcuio.freshBus = ⟨id, fd, 0xff⟩ := Function.update_self _ _ _
    refine ⟨by simp [hconn, hfails], ?_⟩
    rcases getFreeDev_cases r.mcuio.freshBus
      (McuioState.push { r.mcuio with connection := conn.1 } ⟨id, fd, 0xff⟩) with
      ⟨-, hfull⟩ | ⟨dev, m', heq, hres⟩
    · rw [hpush] at hfull
      exact absurd (isFree_newBus _ _ 0 (by omega)) (hfull 0 (by omega))
    · have htakes := Reserves.takes_push hok (isFree_newBus _ _) hres
      refine ⟨_, dev, m', by simp [hconn, findBus, currOrAddBus, hadd, heq],
        ⟨htakes.bus, htakes.lt, htakes.free, htakes.kept, htakes.added, htakes.taken⟩, ?_⟩
      have hcount := hres.freeCount
      rw [hpush, freeCount_newBus] at hcount
      rw [capacity_of_head hres.same.1, McuioState.capacity, hbusses]
      exact hcount

theorem acquire_cases (h : McuioOk r.mcuio) :
    (NoBus api r ∧ ∃ w' m', acquire api r.world r.mcuio = (none, w', m') ∧ TakesNone r.mcuio m') ∨
      (¬ NoBus api r ∧ r.mcuio.FirstFull ∧
        ∃ b ∈ r.mcuio.busses, acquire api r.world r.mcuio =
          (some (b, -1), adataWorld api r, r.mcuio)) ∨
      (¬ NoBus api r ∧ ¬ r.mcuio.FirstFull ∧ ∃ (b : BusPtr) (dev : Nat) (m' : McuioState),
        acquire api r.world r.mcuio =
        (some (b, (dev : Int)), adataWorld api r, m') ∧ Takes b dev r.mcuio m' ∧
          m'.capacity + 1 = r.mcuio.capacity) := by
  cases hbusses : r.mcuio.busses with
  | nil =>
    have hfirst : ¬ r.mcuio.FirstFull := by
      rintro ⟨b, hb, -⟩
      rw [hbusses] at hb
      cases hb
    rcases acquire_newBus api h hbusses with ⟨hno, w', m', heq, hnil⟩ | ⟨hbus, hfound⟩
    · exact .inl ⟨hno, w', m', heq, by simp [hbusses], by simp [hnil]⟩
    · exact .inr (.inr ⟨hbus, hfirst, hfound⟩)
  | cons b rest =>
    have hconn : r.mcuio.connection ≠ none := fun h0 => by
      have hnil := h.unconnected h0
      rw [hbusses] at hnil
      cases hnil
    have hsome : r.mcuio.connection.isNone = false := by
      cases hc : r.mcuio.connection with
      | none => exact absurd hc hconn
      | some conn => rfl
    have hbus : ¬ NoBus api r := by
      simp [NoBus, hsome, hconn, hbusses]
    have hacq : acquire api r.world r.mcuio =
        findBus api 2 (some b) (-1) (adataWorld api r) r.mcuio := by
      simp [acquire, adataWorld, hsome, hbusses]
    right
    rcases getFreeDev_cases b r.mcuio with ⟨heq, hfull⟩ | ⟨dev, m', heq, hres⟩
    · left
      refine ⟨hbus, ⟨b, by rw [hbusses]; rfl, hfull⟩, b, by simp, ?_⟩
      rw [hacq]
      simp [findBus, currOrAddBus, heq]
    · right
      refine ⟨hbus, ?_, b, dev, m', ?_, hres.takes (by simp [hbusses]), ?_⟩
      · rintro ⟨b', hb', hfull⟩
        rw [hbusses] at hb'
        obtain rfl := Option.some.inj hb'
        exact hfull dev hres.lt hres.free
      · rw [hacq]
        simp [findBus, currOrAddBus, heq]
      · rw [capacity_of_head hbusses, capacity_of_head (hres.same.1.trans hbusses)]
        exact hres.freeCount

def connectStatus (r : McuioRun σ) (c : ChanPtr) : Int :=
  (lininoioMcuioConnect api (r.chan c) r.world r.mcuio).1.1

/-- A call of connect returns 0 with one device number taken, on the bus that it records in
the channel. -/
def Obtains (r : McuioRun σ) (c : ChanPtr) : Prop :=
  connectStatus api r c = 0 ∧ ∃ b dev, ((r.call api (.connect c)).chan c).data.priv = some b ∧
    Takes b dev r.mcuio (r.call api (.connect c)).mcuio

def ConnectSound (r : McuioRun σ) (c : ChanPtr) : Prop :=
  Obtains api r c ∨ connectStatus api r c ≠ 0 ∧ TakesNone r.mcuio (r.call api (.connect c)).mcuio

theorem connect_noBus {w' : σ} {m' : McuioState} (c : ChanPtr)
    (h : acquire api r.world r.mcuio = (none, w', m')) :
    connectStatus api r c = -1 ∧ (r.call api (.connect c)).mcuio = m' := by
  simp [connectStatus, McuioRun.call, lininoioMcuioConnect, h]

theorem connect_bus {b : BusPtr} {d : Int} {w' : σ} {m' : McuioState} (c : ChanPtr)
    (h : acquire api r.world r.mcuio = (some (b, d), w', m')) :
    (connectStatus api r c = if (api.malloc .adata w').1 then 0 else -1) ∧
      (r.call api (.connect c)).mcuio = m' ∧
      ((r.call api (.connect c)).chan c).data.priv = some b := by
  cases hmem : (api.malloc .adata w').1 <;>
    simp [connectStatus, McuioRun.call, lininoioMcuioConnect, h, hmem, putDev_invalid]

theorem connectSound_iff (h : McuioOk r.mcuio) (c : ChanPtr) : ConnectSound api r c ↔
    (¬ NoBus api r → (r.mcuio.FirstFull ↔ AdataFails api r)) := by
  rcases acquire_cases api h with ⟨hno, w', m', heq, hnone⟩ | ⟨hbus, hfull, b, -, heq⟩ |
    ⟨hbus, hfull, b, dev, m', heq, htakes, -⟩
  · obtain ⟨hstat, hmcuio⟩ := connect_noBus api c heq
    exact iff_of_true (.inr ⟨by omega, by rwa [hmcuio]⟩) fun hh => absurd hno hh
  · obtain ⟨hstat, hmcuio, -⟩ := connect_bus api c heq
    have hnot : ¬ Obtains api r c := by
      rintro ⟨-, b', dev, -, htakes⟩
      rw [hmcuio] at htakes
      exact htakes.not_takesNone (takesNone_refl _)
    simp only [hbus, hfull, not_false_eq_true, true_implies, true_iff, ConnectSound, hnot, false_or,
      hmcuio, takesNone_refl, and_true, hstat, AdataFails]
    cases (api.malloc .adata (adataWorld api r)).1 <;> simp
  · obtain ⟨hstat, hmcuio, hpriv⟩ := connect_bus api c heq
    simp only [hbus, hfull, not_false_eq_true, true_implies, false_iff, AdataFails, Bool.not_eq_false]
    constructor
    · intro hh
      by_contra hmem
      rcases hh with ⟨h0, -⟩ | ⟨-, hnone⟩
      · rw [hstat, if_neg hmem] at h0
        omega
      · exact htakes.not_takesNone (hmcuio ▸ hnone)
    · intro hmem
      exact .inl ⟨by rw [hstat, if_pos hmem], b, dev, hpriv, hmcuio ▸ htakes⟩

structure McuiodWorks : Prop where
  malloc : ∀ what w, (api.malloc what w).1 = true
  mcuiodConnect : ∀ w, (api.mcuiodConnect w).1 ≠ none
  mcuiodNewBus : ∀ conn w, (api.mcuiodNewBus conn w).1 ≠ none

def AllObtain : List ChanPtr → McuioRun σ → Prop
  | [], _ => True
  | c :: cs, r => Obtains api r c ∧ AllObtain cs (r.call api (.connect c))

theorem McuioOk.putDev {m : McuioState} (h : McuioOk m) (b : BusPtr) (dev : UInt8) :
    McuioOk (putDev b dev m) := by
  unfold Lininoio.putDev
  by_cases hdev : 7 < dev
  · simpa [hdev] using h
  · simp only [hdev, if_false]
    split
    · refine ⟨fun h0 => ?_, fun b' hb' => h.fresh b' (List.mem_of_mem_erase hb')⟩
      simp [freeBus, h.unconnected h0]
    · exact ⟨h.unconnected, h.fresh⟩

theorem McuioOk.call (h : McuioOk r.mcuio) (call : McuioCall) : McuioOk (r.call api call).mcuio := by
  cases call with
  | connect c => exact (keeps_connect api r.world (r.chan c) h).ok
  | disconnect c =>
    simp only [McuioRun.call, lininoioMcuioDisconnect]
    cases (r.chan c).data.priv with
    | none => exact h
    | some b =>
      simp only
      split
      · exact h
      · exact h.putDev b _

theorem mcuioOk_calls (w : σ) (chan : ChanPtr → Channel) (calls : List McuioCall) :
    McuioOk (calls.foldl (McuioRun.call api) (.start w chan)).mcuio := by
  have hall : ∀ {r : McuioRun σ}, McuioOk r.mcuio →
    McuioOk (calls.foldl (McuioRun.call api) r).mcuio := by
    induction calls with
    | nil => exact fun h => h
    | cons call calls ih => exact fun h => ih (h.call api call)
  exact hall mcuioOk_start

theorem McuiodWorks.not_noBus (hworks : McuiodWorks api) : ¬ NoBus api r := by
  have hnew : ∀ conn w, ¬ NewBusFails api conn w := fun conn w => by
    simp [NewBusFails, hworks.malloc, hworks.mcuiodNewBus]
  cases hconn : r.mcuio.connection with
  | none => simp [NoBus, hconn, hworks.mcuiodConnect, hnew]
  | some conn => simp [NoBus, hconn, hnew]

theorem obtains_iff (hworks : McuiodWorks api) (h : McuioOk r.mcuio) (c : ChanPtr) :
    (Obtains api r c ↔ r.mcuio.capacity ≠ 0) ∧
      (Obtains api r c → (r.call api (.connect c)).mcuio.capacity + 1 = r.mcuio.capacity) := by
  rw [ne_eq, capacity_eq_zero_iff]
  rcases acquire_cases api h with ⟨hno, -⟩ | ⟨-, hfull, b, -, heq⟩ |
    ⟨-, hfull, b, dev, m', heq, htakes, hcap⟩
  · exact absurd hno (hworks.not_noBus api)
  · obtain ⟨-, hmcuio, -⟩ := connect_bus api c heq
    have hnot : ¬ Obtains api r c := by
      rintro ⟨-, b', dev, -, htakes⟩
      rw [hmcuio] at htakes
      exact htakes.not_takesNone (takesNone_refl _)
    exact ⟨iff_of_false hnot fun hh => hh hfull, fun hh => absurd hh hnot⟩
  · obtain ⟨hstat, hmcuio, hpriv⟩ := connect_bus api c heq
    rw [hworks.malloc, if_pos rfl] at hstat
    exact ⟨iff_of_true ⟨hstat, b, dev, hpriv, hmcuio ▸ htakes⟩ hfull, fun _ => hmcuio ▸ hcap⟩

theorem allObtain_iff (hworks : McuiodWorks api) (h : McuioOk r.mcuio) (cs : List ChanPtr) :
    AllObtain api cs r ↔ cs.length ≤ r.mcuio.capacity := by
  induction cs generalizing r with
  | nil => exact iff_of_true trivial (Nat.zero_le _)
  | cons c cs ih =>
    obtain ⟨hiff, hcap⟩ := obtains_iff api hworks h c
    rw [AllObtain, ih (h.call api (.connect c)), List.length_cons]
    constructor
    · rintro ⟨hobt, hlen⟩
      have hcap' := hcap hobt
      omega
    · intro hlen
      have hobt := hiff.mpr (by omega)
      have hcap' := hcap hobt
      exact ⟨hobt, by omega⟩

/-- In the states `McuioOk`, which are all that calls lead to (`mcuioOk_calls`),
a call of connect takes exactly one device or returns an error and takes none, exactly
when no bus can be had, or a device is free on the first bus and the association data can be
allocated, or neither. As many calls in a row obtain a device as the first bus has left. -/
theorem mcuio_connect_sound_iff (h : McuioOk r.mcuio) :
    (∀ c, ConnectSound api r c ↔ (¬ NoBus api r → (r.mcuio.FirstFull ↔ AdataFails api r))) ∧
      (McuiodWorks api → ∀ cs, AllObtain api cs r ↔ cs.length ≤ r.mcuio.capacity) :=
  ⟨connectSound_iff api h, fun hworks cs => allObtain_iff api hworks h cs⟩

theorem mcuiodHost_works : McuiodWorks mcuiodHost := ⟨fun _ _ => rfl, fun _ => by simp [mcuiodHost],
  fun _ _ => by simp [mcuiodHost]⟩

def mcuioStartRun : McuioRun Unit := .start () fun _ => ⟨1, 0, 0, some 0, ⟨none, ⟨0, []⟩, none⟩⟩

theorem start_connects_sound :
    (∀ c, ConnectSound mcuiodHost mcuioStartRun c ↔ (¬ NoBus mcuiodHost mcuioStartRun →
      (mcuioStartRun.mcuio.FirstFull ↔ AdataFails mcuiodHost mcuioStartRun))) ∧
    (∀ cs, AllObtain mcuiodHost cs mcuioStartRun ↔ cs.length ≤ mcuioStartRun.mcuio.capacity) := by
  have hh := mcuio_connect_sound_iff mcuiodHost (r := mcuioStartRun) mcuioOk_start
  exact ⟨hh.1, hh.2 mcuiodHost_works⟩

/-- The ninth call returns 0 without a device. -/
theorem ninth_connect_obtains_none : ¬ AllObtain mcuiodHost (List.range 9) mcuioStartRun := by
  rw [allObtain_iff mcuiodHost mcuiodHost_works mcuioOk_start]
  decide

end Connect

end Lininoio
