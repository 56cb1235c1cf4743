import Lininoio.Ether

/-! The mcuio protocol handler of lininoio-protocol-handlers/mcuio.c: its busses, each with
the numbers of the devices it can take, and the channels that are connected to them. -/

namespace Lininoio

abbrev BusPtr := Nat

/-- `struct lininoio_mcuio_bus`: a set bit of `freeDevs` is a free device number. -/
structure McuioBus where
  id : Int
  fd : Int
  freeDevs : UInt8

def McuioBus.IsFree (b : McuioBus) (dev : Nat) : Prop := b.freeDevs.toBitVec.getLsbD dev = true

/-- The static data of the handler; `busses` holds the addresses on the list. -/
structure McuioState where
  connection : Option Nat
  busses : List BusPtr
  bus : BusPtr → McuioBus
  freshBus : BusPtr

/-- `list_add` of a bus that malloc has returned. -/
def McuioState.push (m : McuioState) (b : McuioBus) : McuioState :=
  { m with busses := m.freshBus :: m.busses
           bus := Function.update m.bus m.freshBus b
           freshBus := m.freshBus + 1 }

def mcuioStart : McuioState := ⟨none, [], fun _ => ⟨0, 0, 0⟩, 0⟩

inductive McuioAlloc
  | bus
  | adata

/-- The allocator, the client functions of mcuiod and its sockets, with states in `σ`. -/
structure McuiodApi (σ : Type) where
  malloc : McuioAlloc → σ → Bool × σ
  mcuiodConnect : σ → Option Nat × σ
  mcuiodNewBus : Option Nat → σ → Option (Int × Int) × σ
  write : Int → List UInt8 → σ → Int × σ

def ffs (v : UInt8) : Nat :=
  match (List.range 8).find? (fun i => v.toBitVec.getLsbD i) with
  | none => 0
  | some i => i + 1

section Handler

variable {σ : Type} (api : McuiodApi σ)

def lininoioMcuioInit (w : σ) (m : McuioState) : Int × σ × McuioState :=
  let r := api.mcuiodConnect w
  (if r.1.isSome then 0 else -1, r.2, { m with busses := [], connection := r.1 })

def addBus (w : σ) (m : McuioState) : Option BusPtr × σ × McuioState :=
  let mem := api.malloc .bus w
  if mem.1 then
    let r := api.mcuiodNewBus m.connection mem.2
    match r.1 with
    | none => (none, r.2, m)
    | some (id, fd) => (some m.freshBus, r.2, m.push ⟨id, fd, 0xff⟩)
  else (none, mem.2, m)

def freeBus (b : BusPtr) (m : McuioState) : McuioState := { m with busses := m.busses.erase b }

/-- `get_free_dev`, which returns the device number and stores nothing in `*dev`. -/
def getFreeDev (b : BusPtr) (m : McuioState) : Int × McuioState :=
  let bus := m.bus b
  let v := ffs bus.freeDevs
  if v = 0 then (-1, m)
  else (v - 1, { m with
    bus := Function.update m.bus b
      { bus with freeDevs := bus.freeDevs &&& ~~~(1 <<< UInt8.ofNat (v - 1)) } })

def putDev (b : BusPtr) (dev : UInt8) (m : McuioState) : McuioState :=
  if 7 < dev then m
  else
    let bus := m.bus b
    let bus := { bus with freeDevs := bus.freeDevs ||| 1 <<< dev }
    let m := { m with bus := Function.update m.bus b bus }
    if bus.freeDevs = 0 then freeBus b m else m

def currOrAddBus (curr : Option BusPtr) (w : σ) (m : McuioState) : Option BusPtr × σ × McuioState :=
  match curr with
  | some b => (some b, w, m)
  | none => addBus api w m

/-- The loop of `lininoio_mcuio_connect`: the bus it ends with, and what `get_free_dev`
returned last. Without a bus the function returns -1 from within. -/
def findBus : Nat → Option BusPtr → Int → σ → McuioState → Option (BusPtr × Int) × σ × McuioState
  | 0, curr, stat, w, m => (curr.map (fun b => (b, stat)), w, m)
  | rounds + 1, curr, _, w, m =>
    let r := currOrAddBus api curr w m
    match r.1 with
    | none => (none, r.2)
    | some b =>
      let d := getFreeDev b r.2.2
      if 0 ≤ d.1 then (some (b, d.1), r.2.1, d.2)
      else findBus rounds (some b) d.1 r.2.1 d.2

/-- `lininoio_mcuio_connect` up to the end of its loop. -/
def acquire (w : σ) (m : McuioState) : Option (BusPtr × Int) × σ × McuioState :=
  let init := if m.connection.isNone then lininoioMcuioInit api w m else (0, w, m)
  if init.1 < 0 then (none, init.2)
  else findBus api 2 init.2.2.busses.head? (-1) init.2.1 init.2.2

def lininoioMcuioConnect (c : Channel) (w : σ) (m : McuioState) :
    (Int × ChannelData) × σ × McuioState :=
  let dev : UInt8 := 0xff
  let r := acquire api w m
  match r.1 with
  | none => ((-1, c.data), r.2)
  | some (bus, _) =>
    let data := { c.data with priv := some bus }
    let mem := api.malloc .adata r.2.1
    if mem.1 then ((0, { data with adata := ⟨lininoioEncodeCdlen 1 c.id, [dev]⟩ }), mem.2, r.2.2)
    else ((-1, data), mem.2, putDev bus dev r.2.2)

/-- The length is taken from the packet in the byte order of the host. -/
def lininoioMcuioInboundPacket (bigEndian : Bool) (c : Channel) (p : Memory) (w : σ) (m : McuioState) :
    σ × McuioState :=
  match c.data.priv with
  | none => (w, m)
  | some bus =>
    let len := (lininoioDecodeCdlen (DataPacket.cdlen bigEndian p)).1.toNat
    ((api.write (m.bus bus).fd ((List.range len).map (DataPacket.data p)) w).2, m)

def lininoioMcuioDisconnect (c : Channel) (m : McuioState) : McuioState :=
  match c.data.priv with
  | none => m
  | some bus =>
    let dev := c.data.adata.chanData.headD 0
    if dev < 1 ∨ 7 < dev then m else putDev bus dev m

def mcuioOps (bigEndian : Bool) : LininoioProtoOps (σ × McuioState) where
  connect := some fun c _ s => lininoioMcuioConnect api c s.1 s.2
  inboundPacket := some fun c p s => lininoioMcuioInboundPacket api bigEndian c p s.1 s.2
  disconnect := some fun c _ s => (s.1, lininoioMcuioDisconnect c s.2)

end Handler

theorem ffs_eq_zero {v : UInt8} (h : ffs v = 0) {i : Nat} (hi : i < 8) :
    v.toBitVec.getLsbD i = false := by
  unfold ffs at h
  split at h
  case h_1 hfind =>
    have hh := List.find?_eq_none.mp hfind i (List.mem_range.mpr hi)
    simpa using hh
  case h_2 => omega

theorem ffs_succ {v : UInt8} {i : Nat} (h : ffs v = i + 1) : i < 8 ∧ v.toBitVec.getLsbD i = true := by
  unfold ffs at h
  split at h
  case h_1 => omega
  case h_2 j hfind =>
    have hij : j = i := by omega
    subst hij
    exact ⟨List.mem_range.mp (List.mem_of_find?_eq_some hfind), List.find?_some hfind⟩

theorem getLsbD_clear (v : UInt8) {i : Nat} (hi : i < 8) (j : Nat) :
    (v &&& ~~~(1 <<< UInt8.ofNat i)).toBitVec.getLsbD j =
    (v.toBitVec.getLsbD j && !decide (j = i)) := by
  have hmod : i % 8 = i := Nat.mod_eq_of_lt hi
  by_cases hj : j < 8
  · by_cases hji : j = i
    · simp [hji, hi, hmod]
    · simp only [UInt8.toBitVec_and, UInt8.toBitVec_not, UInt8.toBitVec_shiftLeft, BitVec.getLsbD_and,
        BitVec.getLsbD_not, hj, hji]
      simp [hj, hmod]
      omega
  · have h0 : v.toBitVec.getLsbD j = false := BitVec.getLsbD_of_ge _ _ (by omega)
    simp [h0]

/-- The device handed out is a free one, and the only one that is not free any more. -/
structure Reserves (b : BusPtr) (dev : Nat) (m m' : McuioState) : Prop where
  lt : dev < 8
  free : (m.bus b).IsFree dev
  taken : ∀ j, (m'.bus b).IsFree j ↔ (m.bus b).IsFree j ∧ j ≠ dev
  other : ∀ b', b' ≠ b → m'.bus b' = m.bus b'
  same : m'.busses = m.busses ∧ m'.connection = m.connection ∧ m'.freshBus = m.freshBus

theorem getFreeDev_cases (b : BusPtr) (m : McuioState) :
    (getFreeDev b m = (-1, m) ∧ ∀ dev < 8, ¬ (m.bus b).IsFree dev) ∨
      ∃ (dev : Nat) (m' : McuioState), getFreeDev b m = ((dev : Int), m') ∧ Reserves b dev m m' := by
  cases hffs : ffs (m.bus b).freeDevs with
  | zero =>
    left
    refine ⟨by simp [getFreeDev, hffs], ?_⟩
    intro dev hdev hfree
    rw [McuioBus.IsFree, ffs_eq_zero hffs hdev] at hfree
    exact Bool.false_ne_true hfree
  | succ dev =>
    obtain ⟨hlt, hfree⟩ := ffs_succ hffs
    right
    refine ⟨dev, (getFreeDev b m).2, by simp [getFreeDev, hffs], hlt, hfree, ?_, ?_, ?_⟩
    all_goals simp only [getFreeDev, hffs, Nat.add_eq_zero_iff, one_ne_zero, and_false, if_false,
      Nat.add_sub_cancel]
    · intro j
      simp only [Function.update_self, McuioBus.IsFree, getLsbD_clear _ hlt]
      simp
    · intro b' hb'
      exact Function.update_of_ne hb' _ _
    · exact ⟨trivial, trivial, trivial⟩

theorem putDev_invalid (b : BusPtr) (m : McuioState) : putDev b 0xff m = m := rfl

/-- The busses of a connection are allocated, and without a connection there are none. -/
structure McuioOk (m : McuioState) : Prop where
  unconnected : m.connection = none → m.busses = []
  fresh : ∀ b ∈ m.busses, b < m.freshBus

theorem mcuioOk_start : McuioOk mcuioStart := ⟨fun _ => rfl, fun _ hb => absurd hb List.not_mem_nil⟩

/-- No bus is lost, and no device that is reserved becomes free. -/
structure McuioState.Keeps (m m' : McuioState) : Prop where
  ok : McuioOk m'
  busses : m.busses ⊆ m'.busses
  taken : ∀ b ∈ m.busses, ∀ dev, ¬ (m.bus b).IsFree dev → ¬ (m'.bus b).IsFree dev

namespace McuioState.Keeps

variable {m m' m'' : McuioState}

theorem refl (h : McuioOk m) : m.Keeps m := ⟨h, fun _ hb => hb, fun _ _ _ hdev => hdev⟩

theorem trans (h : m.Keeps m') (h' : m'.Keeps m'') : m.Keeps m'' where
  ok := h'.ok
  busses _ hb := h'.busses (h.busses hb)
  taken b hb dev hdev := h'.taken b (h.busses hb) dev (h.taken b hb dev hdev)

theorem reserves {b : BusPtr} {dev : Nat} (h : McuioOk m) (hres : Reserves b dev m m') :
    m.Keeps m' where
  ok := by
    obtain ⟨hbusses, hconn, hfresh⟩ := hres.same
    refine ⟨fun h0 => ?_, fun b' hb' => ?_⟩
    · rw [hbusses]
      exact h.unconnected (hconn ▸ h0)
    · rw [hfresh]
      exact h.fresh b' (hbusses ▸ hb')
  busses := by
    rw [hres.same.1]
    exact fun _ hb => hb
  taken b' _ j hj := by
    by_cases hb : b' = b
    · subst hb
      intro hfree
      exact hj ((hres.taken j).mp hfree).1
    · rwa [hres.other b' hb]

end McuioState.Keeps

section Calls

variable {σ : Type} (api : McuiodApi σ) (w : σ) {m : McuioState}

def NewBusFails (conn : Option Nat) (w : σ) : Prop :=
  (api.malloc .bus w).1 = false ∨ (api.mcuiodNewBus conn (api.malloc .bus w).2).1 = none

theorem addBus_cases (w : σ) (m : McuioState) :
    (NewBusFails api m.connection w ∧ ∃ w', addBus api w m = (none, w', m)) ∨
      (¬ NewBusFails api m.connection w ∧
        ∃ w' id fd, addBus api w m = (some m.freshBus, w', m.push ⟨id, fd, 0xff⟩)) := by
  cases hmem : (api.malloc .bus w).1 with
  | false => exact .inl ⟨.inl hmem, _, by simp [addBus, hmem]; rfl⟩
  | true =>
    cases hnew : (api.mcuiodNewBus m.connection (api.malloc .bus w).2).1 with
    | none => exact .inl ⟨.inr hnew, _, by simp [addBus, hmem, hnew]; rfl⟩
    | some bus =>
      exact .inr ⟨by simp [NewBusFails, hmem, hnew], _, bus.1, bus.2, by simp [addBus, hmem, hnew]; rfl⟩

theorem McuioState.Keeps.push (h : McuioOk m) (hconn : m.connection ≠ none) (bus : McuioBus) :
    m.Keeps (m.push bus) := by
  refine ⟨⟨fun h0 => absurd h0 hconn, ?_⟩, List.subset_cons_self _ _, ?_⟩
  · intro b hb
    rcases List.mem_cons.mp hb with rfl | hb
    · exact Nat.lt_succ_self _
    · exact (h.fresh b hb).trans (Nat.lt_succ_self _)
  · intro b hb dev hdev
    have hne : b ≠ m.freshBus := (h.fresh b hb).ne
    have hbus : (m.push bus).bus b = m.bus b := Function.update_of_ne hne _ _
    rwa [hbus]

theorem keeps_addBus (h : McuioOk m) (hconn : m.connection ≠ none) : m.Keeps (addBus api w m).2.2 ∧
    (addBus api w m).2.2.connection ≠ none := by
  rcases addBus_cases api w m with ⟨-, w', heq⟩ | ⟨-, w', id, fd, heq⟩
  · rw [heq]
    exact ⟨.refl h, hconn⟩
  · rw [heq]
    exact ⟨.push h hconn _, hconn⟩

theorem keeps_findBus (rounds : Nat) (curr : Option BusPtr) (stat : Int) (h : McuioOk m)
    (hconn : m.connection ≠ none) : m.Keeps (findBus api rounds curr stat w m).2.2 := by
  induction rounds generalizing w m curr stat with
  | zero => exact .refl h
  | succ rounds ih =>
    have hcurr : m.Keeps (currOrAddBus api curr w m).2.2 ∧
      (currOrAddBus api curr w m).2.2.connection ≠ none := by
      cases curr with
      | none => exact keeps_addBus api w h hconn
      | some b => exact ⟨.refl h, hconn⟩
    obtain ⟨hkeeps, hconn'⟩ := hcurr
    unfold findBus
    generalize currOrAddBus api curr w m = r at hkeeps hconn'
    obtain ⟨b, w', m'⟩ := r
    cases b with
    | none => exact hkeeps
    | some b =>
      rcases getFreeDev_cases b m' with ⟨heq, -⟩ | ⟨dev, m'', heq, hres⟩
      · simpa [heq] using hkeeps.trans (ih w' (some b) (-1) hkeeps.ok hconn')
      · simpa [heq] using hkeeps.trans (.reserves hkeeps.ok hres)

theorem keeps_acquire (h : McuioOk m) : m.Keeps (acquire api w m).2.2 := by
  unfold acquire
  cases hconn : m.connection with
  | some conn =>
    simp only [Option.isNone_some, Bool.false_eq_true, if_false]
    exact keeps_findBus api w 2 _ (-1) h (by simp [hconn])
  | none =>
    have hnil := h.unconnected hconn
    have hinit : m.Keeps (lininoioMcuioInit api w m).2.2 := by
      refine ⟨⟨fun _ => rfl, fun _ hb => absurd hb List.not_mem_nil⟩, ?_, ?_⟩
      · simp [hnil]
      · simp [hnil]
    simp only [Option.isNone_none, if_true]
    by_cases hfail : (lininoioMcuioInit api w m).1 < 0
    · simp only [hfail, if_true]
      exact hinit
    · simp only [hfail, if_false]
      refine hinit.trans (keeps_findBus api _ 2 _ (-1) hinit.ok ?_)
      cases hc : (api.mcuiodConnect w).1 with
      | none => simp [lininoioMcuioInit, hc] at hfail
      | some conn => simp [lininoioMcuioInit, hc]

theorem keeps_connect (c : Channel) (h : McuioOk m) : m.Keeps (lininoioMcuioConnect api c w m).2.2 := by
  have hacq := keeps_acquire api w h
  unfold lininoioMcuioConnect
  generalize acquire api w m = r at hacq
  obtain ⟨found, w', m'⟩ := r
  cases found with
  | none => exact hacq
  | some found =>
    obtain ⟨bus, dev⟩ := found
    cases hmem : (api.malloc .adata w').1 with
    | false => simpa [hmem, putDev_invalid] using hacq
    | true => simpa [hmem] using hacq

end Calls

/-- The handler and the channels it is called for. `held` is what `get_free_dev` returned
in the last connect call of a channel that is connected. -/
structure McuioRun (σ : Type) where
  world : σ
  mcuio : McuioState
  chan : ChanPtr → Channel
  live : ChanPtr → Bool
  held : ChanPtr → Int

inductive McuioCall
  | connect (c : ChanPtr)
  | disconnect (c : ChanPtr)

section Runs

variable {σ : Type} (api : McuiodApi σ)

def McuioRun.call (r : McuioRun σ) : McuioCall → McuioRun σ
  | .connect c =>
    let x := lininoioMcuioConnect api (r.chan c) r.world r.mcuio
    { world := x.2.1
      mcuio := x.2.2
      chan := Function.update r.chan c { r.chan c with data := x.1.2 }
      live := if x.1.1 = 0 then Function.update r.live c true else r.live
      held := if x.1.1 = 0 then
          Function.update r.held c (((acquire api r.world r.mcuio).1.map Prod.snd).getD (-1))
        else r.held }
  | .disconnect c =>
    { r with mcuio := lininoioMcuioDisconnect (r.chan c) r.mcuio
             live := Function.update r.live c false }

def McuioRun.Attached (r : McuioRun σ) (b : BusPtr) (c : ChanPtr) : Prop :=
  r.live c = true ∧ (r.chan c).data.priv = some b

/-- The bitmaps, the association data and the channels agree on who has which device. -/
structure McuioSound (r : McuioRun σ) : Prop where
  reserved : ∀ b ∈ r.mcuio.busses, ∀ dev < 8,
    ¬ (r.mcuio.bus b).IsFree dev ↔ ∃ c, r.Attached b c ∧ r.held c = dev
  advertised : ∀ c, r.live c = true → ∃ dev rest,
    (r.chan c).data.adata.chanData = dev :: rest ∧ (dev.toNat : Int) = r.held c
  distinct : ∀ b c c', r.Attached b c → r.Attached b c' → r.held c = r.held c' → c = c'

def EveryState (P : McuioRun σ → Prop) : List McuioCall → McuioRun σ → Prop
  | [], r => P r
  | call :: calls, r => P r ∧ EveryState P calls (r.call api call)

def EveryConnect (P : McuioRun σ → Prop) : List McuioCall → McuioRun σ → Prop
  | [], _ => True
  | .connect c :: calls, r => P r ∧ EveryConnect P calls (r.call api (.connect c))
  | .disconnect c :: calls, r => EveryConnect P calls (r.call api (.disconnect c))

def NoBus (r : McuioRun σ) : Prop :=
  let conn := if r.mcuio.connection.isNone then api.mcuiodConnect r.world
    else (r.mcuio.connection, r.world)
  conn.1 = none ∨ ((r.mcuio.connection = none ∨ r.mcuio.busses = []) ∧ NewBusFails api conn.1 conn.2)

structure Unused (r : McuioRun σ) : Prop where
  busses : r.mcuio.busses = []
  live : ∀ c, r.live c = false

theorem Unused.sound {r : McuioRun σ} (h : Unused r) : McuioSound r where
  reserved b hb := absurd hb (by simp [h.busses])
  advertised c hc := absurd hc (by simp [h.live])
  distinct b c c' hc _ _ := absurd hc.1 (by simp [h.live])

theorem busses_putDev {m : McuioState} (h : m.busses = []) (b : BusPtr) (dev : UInt8) :
    (putDev b dev m).busses = [] := by
  unfold putDev
  by_cases hdev : 7 < dev
  · simpa [hdev] using h
  · simp only [hdev, if_false]
    split
    · simp [freeBus, h]
    · exact h

theorem Unused.disconnect {r : McuioRun σ} (h : Unused r) (c : ChanPtr) :
    Unused (r.call api (.disconnect c)) where
  busses := by
    simp only [McuioRun.call, lininoioMcuioDisconnect]
    cases (r.chan c).data.priv with
    | none => exact h.busses
    | some b =>
      simp only
      split
      · exact h.busses
      · exact busses_putDev h.busses _ _
  live d := by
    by_cases hd : d = c
    · simp [McuioRun.call, hd]
    · simpa [McuioRun.call, hd] using h.live d

theorem findBus_new (w : σ) (m : McuioState) :
    (NewBusFails api m.connection w ∧ ∃ w', findBus api 2 none (-1) w m = (none, w', m)) ∨
      (¬ NewBusFails api m.connection w ∧ ∃ b w' m', findBus api 2 none (-1) w m =
        (some (b, 0), w', m') ∧
        b ∈ m'.busses ∧ ¬ (m'.bus b).IsFree 0) := by
  rcases addBus_cases api w m with ⟨hfails, w', heq⟩ | ⟨hnew, w', id, fd, heq⟩
  · left
    exact ⟨hfails, w', by simp [findBus, currOrAddBus, heq]⟩
  · right
    refine ⟨hnew, m.freshBus, w', ?_⟩
    have hbus : (m.push ⟨id, fd, 0xff⟩).bus m.freshBus = ⟨id, fd, 0xff⟩ := Function.update_self _ _ _
    have hffs : ffs (0xff : UInt8) = 1 := by decide
    refine ⟨(getFreeDev m.freshBus (m.push ⟨id, fd, 0xff⟩)).2, ?_, ?_, ?_⟩
    · simp [findBus, currOrAddBus, heq, getFreeDev, hbus, hffs]
    · simp only [getFreeDev, hbus, hffs, one_ne_zero, if_false]
      exact List.mem_cons_self
    · simp only [getFreeDev, hbus, hffs, one_ne_zero, if_false, Function.update_self, McuioBus.IsFree]
      decide

theorem acquire_eq (w : σ) {m : McuioState} (h : m.busses = []) : acquire api w m =
    let conn := if m.connection.isNone then api.mcuiodConnect w else (m.connection, w)
    if conn.1 = none then (none, conn.2, { m with connection := none })
    else findBus api 2 none (-1) conn.2 { m with connection := conn.1 } := by
  obtain ⟨connection, busses, bus, freshBus⟩ := m
  obtain rfl : busses = [] := h
  cases connection with
  | some conn => simp [acquire]
  | none => cases hconn : (api.mcuiodConnect w).1 <;> simp [acquire, lininoioMcuioInit, hconn]

theorem Unused.acquire {r : McuioRun σ} (h : Unused r) :
    (NoBus api r ∧ ∃ w' m', acquire api r.world r.mcuio = (none, w', m') ∧ m'.busses = []) ∨
      (¬ NoBus api r ∧ ∃ b w' m', Lininoio.acquire api r.world r.mcuio = (some (b, 0), w', m') ∧
        b ∈ m'.busses ∧ ¬ (m'.bus b).IsFree 0) := by
  have hempty : r.mcuio.connection = none ∨ r.mcuio.busses = [] := .inr h.busses
  rw [acquire_eq api r.world h.busses]
  unfold NoBus
  generalize (if r.mcuio.connection.isNone then api.mcuiodConnect r.world else (r.mcuio.connection,
    r.world)) = conn
  by_cases hconn : conn.1 = none
  · exact .inl ⟨.inl hconn, conn.2, { r.mcuio with connection := none }, by simp [hconn], h.busses⟩
  · rcases findBus_new api conn.2 { r.mcuio with connection := conn.1 } with ⟨hfails, w',
      heq⟩ | ⟨hnew, hfound⟩
    · exact .inl ⟨.inr ⟨hempty, hfails⟩, w',
        { r.mcuio with connection := conn.1 }, by simpa [hconn] using heq,
        h.busses⟩
    · refine .inr ⟨?_, by simpa [hconn] using hfound⟩
      rintro (h0 | ⟨-, hfails⟩)
      · exact hconn h0
      · exact hnew hfails

theorem Unused.connect {r : McuioRun σ} (h : Unused r) (c : ChanPtr) (hno : NoBus api r) :
    Unused (r.call api (.connect c)) := by
  rcases h.acquire api with ⟨-, w', m', heq, hbusses⟩ | ⟨hbus, -⟩
  · refine ⟨?_, ?_⟩
    · simpa [McuioRun.call, lininoioMcuioConnect, heq] using hbusses
    · simpa [McuioRun.call, lininoioMcuioConnect, heq] using h.live
  · exact absurd hno hbus

theorem Unused.not_sound {r : McuioRun σ} (h : Unused r) (c : ChanPtr) (hbus : ¬ NoBus api r) :
    ¬ McuioSound (r.call api (.connect c)) := by
  rcases h.acquire api with ⟨hno, -⟩ | ⟨-, b, w', m', heq, hmem, hfree⟩
  · exact absurd hno hbus
  · intro hsound
    cases hadata : (api.malloc .adata w').1 with
    | true =>
      obtain ⟨dev, rest, hdata, hdev⟩ := hsound.advertised c (by
        simp [McuioRun.call, lininoioMcuioConnect, heq, hadata])
      simp only [McuioRun.call, lininoioMcuioConnect, heq, hadata, if_true, Function.update_self,
        Option.map_some,
        Option.getD_some] at hdata hdev
      obtain ⟨rfl, -⟩ := List.cons.inj hdata
      exact absurd hdev (by decide)
    | false =>
      have hcall : (r.call api (.connect c)).mcuio = m' := by
        simp [McuioRun.call, lininoioMcuioConnect, heq, hadata, putDev_invalid]
      obtain ⟨d, hattached, -⟩ := (hsound.reserved b (hcall ▸ hmem) 0 (by omega)).mp (by rwa [hcall])
      have hlive := hattached.1
      simp [McuioRun.call, lininoioMcuioConnect, heq, hadata, h.live] at hlive

theorem Unused.mcuioSound_iff {r : McuioRun σ} (h : Unused r) (calls : List McuioCall) :
    EveryState api McuioSound calls r ↔ EveryConnect api (NoBus api) calls r := by
  induction calls generalizing r with
  | nil => exact ⟨fun _ => trivial, fun _ => h.sound⟩
  | cons call calls ih =>
    cases call with
    | disconnect c =>
      rw [EveryState, EveryConnect, ih (h.disconnect api c)]
      exact ⟨fun hh => hh.2, fun hh => ⟨h.sound, hh⟩⟩
    | connect c =>
      rw [EveryState, EveryConnect]
      by_cases hbus : NoBus api r
      · rw [ih (h.connect api c hbus)]
        exact ⟨fun hh => ⟨hbus, hh.2⟩, fun hh => ⟨h.sound, hh.2⟩⟩
      · refine ⟨fun hh => ?_, fun hh => absurd hh.1 hbus⟩
        have hnot := h.not_sound api c hbus
        cases calls with
        | nil => exact absurd hh.2 hnot
        | cons call calls => exact absurd hh.2.1 hnot

def McuioRun.start (w : σ) (chan : ChanPtr → Channel) : McuioRun σ :=
  ⟨w, mcuioStart, chan, fun _ => false, fun _ => -1⟩

/-- The busses and the channels agree in all states exactly as long as no connect call
gets a bus. -/
theorem mcuio_sound_iff (w : σ) (chan : ChanPtr → Channel) (calls : List McuioCall) :
    EveryState api McuioSound calls (.start w chan) ↔
      EveryConnect api (NoBus api) calls (.start w chan) :=
  Unused.mcuioSound_iff api ⟨rfl, fun _ => rfl⟩ calls

def mcuiodHost : McuiodApi Unit where
  malloc _ w := (true, w)
  mcuiodConnect w := (some 0, w)
  mcuiodNewBus _ w := (some (0, 5), w)
  write _ _ w := (0, w)

theorem first_device_not_advertised : ¬ EveryState mcuiodHost McuioSound [.connect 0]
    (.start () fun _ => ⟨1, 0, 0, some 0, ⟨none, ⟨0, []⟩, none⟩⟩) := by
  intro hh
  obtain ⟨-, hsound⟩ := hh
  obtain ⟨dev, rest, hdata, hdev⟩ := hsound.advertised 0 rfl
  obtain ⟨rfl, -⟩ := List.cons.inj (show [(0xff : UInt8)] = dev :: rest from hdata)
  exact absurd (show (255 : Int) = 0 from hdev) (by decide)

end Runs

end Lininoio
