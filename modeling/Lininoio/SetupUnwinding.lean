import Lininoio.CoreReferences
import Lininoio.FirmwareImage

/-! What stays behind when `setup_remoteproc` or `virtio_backend_add` fails at one of their steps:
registrations, open descriptors and firmware files. -/

namespace Lininoio

open StateFault

def SysCall.opens : SysCall → Bool
  | .openMiscDev => true
  | .openFirmware _ => true
  | .eventfd => true
  | .openBackend _ => true
  | _ => false

def opened : List Effect → List Int := List.filterMap fun
  | .sys call r => if call.opens ∧ 0 ≤ r then some r else none
  | _ => none

def SysCall.closes : SysCall → List Int
  | .close fd => [fd]
  | _ => []

def closed : List Effect → List Int := List.flatMap fun
  | .sys call _ => call.closes
  | _ => []

section

variable {φ : Type} (names : List UInt8 → φ) (path : List UInt8)

/-- The file that the path names is unlinked, where `names` tells what a path leads to from the
working directory of the daemon. -/
def Removed (E : List Effect) : Prop :=
  ∃ name x, .sys (.unlink name) x ∈ E ∧ 0 ≤ x ∧ names name = names path

/-- Some firmware file is created, and not unlinked afterwards. -/
def FirmwareLeft : List Effect → Prop
  | [] => False
  | .sys (.openFirmware path) r :: E => 0 ≤ r ∧ ¬ Removed names path E ∨ FirmwareLeft E
  | _ :: E => FirmwareLeft E

/-- The call has left the registries as they were, and neither an open descriptor nor a
firmware file. -/
structure LeavesNothing {L σ : Type} (s t : Daemon L σ) : Prop where
  registries : t.registries = s.registries
  descriptors : (opened (s.effectsSince t)).Perm (closed (s.effectsSince t))
  files : ¬ FirmwareLeft names (s.effectsSince t)

end

section Effects

variable {φ : Type} {names : List UInt8 → φ} {path : List UInt8} {E F : List Effect}

@[simp] theorem opened_nil : opened [] = [] := rfl

@[simp] theorem closed_nil : closed [] = [] := rfl

@[simp] theorem opened_append : opened (E ++ F) = opened E ++ opened F := List.filterMap_append

@[simp] theorem closed_append : closed (E ++ F) = closed E ++ closed F := List.flatMap_append

@[simp] theorem opened_sys (call : SysCall) (r : Int) :
    opened (.sys call r :: E) = (if call.opens ∧ 0 ≤ r then [r] else []) ++ opened E := by
  by_cases h : call.opens ∧ 0 ≤ r
  · simp [opened, h]
  · simp [opened, h]

@[simp] theorem closed_sys (call : SysCall) (r : Int) :
    closed (.sys call r :: E) = call.closes ++ closed E := rfl

@[simp] theorem newFdEvents_sys (call : SysCall) (r : Int) :
    newFdEvents (.sys call r :: E) = newFdEvents E := rfl

@[simp] theorem newUdevEvents_sys (call : SysCall) (r : Int) :
    newUdevEvents (.sys call r :: E) = newUdevEvents E := rfl

@[simp] theorem newBackends_sys (call : SysCall) (r : Int) :
    newBackends (.sys call r :: E) = newBackends E := rfl

@[simp] theorem removed_append : Removed names path (E ++ F) ↔
    Removed names path E ∨ Removed names path F := by
  simp only [Removed, List.mem_append, or_and_right, exists_or]

@[simp] theorem not_removed_nil : ¬ Removed names path [] := by simp [Removed]

@[simp] theorem removed_unlink (name : List UInt8) (x : Int) :
    Removed names path (.sys (.unlink name) x :: E) ↔
      (0 ≤ x ∧ names name = names path) ∨ Removed names path E := by
  simp only [Removed, List.mem_cons, or_and_right, exists_or, Effect.sys.injEq, SysCall.unlink.injEq]
  refine or_congr_left ⟨?_, fun hh => ⟨name, x, ⟨rfl, rfl⟩, hh⟩⟩
  rintro ⟨_, _, ⟨rfl, rfl⟩, hh⟩
  exact hh

theorem removed_cons {e : Effect} (h : ∀ name x, e ≠ .sys (.unlink name) x) :
    Removed names path (e :: E) ↔ Removed names path E := by
  simp only [Removed, List.mem_cons, or_and_right, exists_or, or_iff_right_iff_imp]
  intro hh
  obtain ⟨name, x, he, -⟩ := hh
  exact absurd he.symm (h name x)

theorem firmwareLeft_append (h : ∀ p r, .sys (.openFirmware p) r ∉ E) :
    FirmwareLeft names (E ++ F) ↔ FirmwareLeft names F := by
  induction E with
  | nil => rfl
  | cons e E ih =>
    have hrest := ih fun p r hm => h p r (List.mem_cons_of_mem _ hm)
    cases e with
    | sys call r =>
      cases call with
      | openFirmware p => exact absurd List.mem_cons_self (h p r)
      | _ => exact hrest
    | _ => exact hrest

attribute [simp] SysCall.opens SysCall.closes FirmwareLeft

end Effects

/-- Every step that has been taken is undone: the firmware page has been allocated, and where the
setup has come to the udev event it is its allocation that fails, both eventfd calls have failed
and the file has been unlinked. -/
structure Unwound {φ : Type} (names : List UInt8 → φ) (path : List UInt8) (E : List Effect) :
    Prop where
  page : ∀ r, .sys (.malloc .firmwarePage) r ∈ E → 0 ≤ r
  udev : ∀ r, .sys (.malloc .udevEvent) r ∈ E →
    r < 0 ∧ (∀ x, .sys .eventfd x ∈ E → x < 0) ∧ Removed names path E

structure FirmwareWritten {φ : Type} (names : List UInt8 → φ) (path : List UInt8)
    (F : List Effect) : Prop where
  descriptor : ∃ fd, opened F = [fd] ∧ closed F = [fd]
  registers : newFdEvents F = [] ∧ newUdevEvents F = [] ∧ newBackends F = []
  page : ∀ r, .sys (.malloc .firmwarePage) r ∈ F → 0 ≤ r
  udev : ∀ r, .sys (.malloc .udevEvent) r ∉ F
  eventfd : ∀ r, .sys .eventfd r ∉ F
  removed : ¬ Removed names path F
  left : ∀ G, (∀ p r, .sys (.openFirmware p) r ∉ G) →
    (FirmwareLeft names (F ++ G) ↔ ¬ Removed names path G)

structure EventfdTried {φ : Type} (names : List UInt8 → φ) (path : List UInt8) (A : List Effect) :
    Prop where
  closed : closed A = []
  registers : newUdevEvents A = [] ∧ newBackends A = []
  failed : opened A = [] ↔ ∀ x, .sys .eventfd x ∈ A → x < 0
  unregistered : opened A = [] → newFdEvents A = []
  page : ∀ r, .sys (.malloc .firmwarePage) r ∉ A
  udev : ∀ r, .sys (.malloc .udevEvent) r ∉ A
  removed : ¬ Removed names path A
  firmware : ∀ p r, .sys (.openFirmware p) r ∉ A

section Traces

variable {L σ φ : Type} {env : Env σ} {names : List UInt8 → φ} {path : List UInt8} {s : Daemon L σ}
  {c : CorePtr}

theorem AssignTrace.tried {cb : FdCallback} {A : List Effect} (h : AssignTrace cb A) :
    EventfdTried names path A := by
  cases h with
  | noEventfd hr =>
    constructor <;> simp [removed_cons, hr]
  | noMemory hr hm =>
    constructor <;> simp [removed_cons, hr]
  | assigned hr hm =>
    constructor <;> simp [removed_cons, opened, closed, newUdevEvents, newBackends, hr]

theorem FwTrace.firmwareWritten {name : List UInt8} {F : List Effect}
    (h : FwTrace env s c (some name) F) :
    FirmwareWritten names (firmwarePath env (s.core c).rprocName) F := by
  cases h with
  | @written fd m U blocks w x hfd hm hread =>
    have hU := hread.readUnset
    have hsys : ∀ call r, .sys call r ∉ U := by
      intro call r hmem
      obtain ⟨_, hx⟩ := hU _ hmem
      cases hx
    have hopened : opened U = [] ∧ newFdEvents U = [] ∧ newUdevEvents U = [] ∧
        newBackends U = [] := by
      refine ⟨?_, ?_, ?_, ?_⟩
      all_goals
        refine List.filterMap_eq_nil_iff.mpr fun e he => ?_
        obtain ⟨_, rfl⟩ := hU e he
        rfl
    have hclosed : closed U = [] := by
      refine List.flatMap_eq_nil_iff.mpr fun e he => ?_
      obtain ⟨_, rfl⟩ := hU e he
      rfl
    have hremoved : ∀ p, ¬ Removed names p U := by
      intro p hh
      obtain ⟨_, _, hmem, -⟩ := hh
      exact hsys _ _ hmem
    constructor
    · exact ⟨fd, by simp [hfd, hopened], by simp [hclosed]⟩
    · simp [hopened]
    · simp [hsys, hm]
    · simp [hsys]
    · simp [hsys]
    · simp [removed_cons, hremoved]
    · intro G hG
      have hnone : ¬ FirmwareLeft names G := by
        have hh : FirmwareLeft names (G ++ []) ↔ FirmwareLeft names [] := firmwareLeft_append hG
        rw [List.append_nil] at hh
        exact hh.mp
      have hrest : ¬ FirmwareLeft names (U ++ (.sys (.write fd (firmwareImage env.bigEndian
          env.simpleFirmwareMagic (s.core c).nchannels blocks)) w :: .sys (.close fd) x :: G)) := by
        rwa [firmwareLeft_append fun p r => hsys _ r]
      simp only [List.append_assoc, List.cons_append, List.nil_append, FirmwareLeft, hrest, or_false,
        hfd, true_and]
      simp [removed_cons, hremoved]

/-- What the effects alone say of `LeavesNothing`. -/
structure Clean (names : List UInt8 → φ) (E : List Effect) : Prop where
  fdEvents : newFdEvents E = []
  udevEvents : newUdevEvents E = []
  backends : newBackends E = []
  descriptors : (opened E).Perm (closed E)
  files : ¬ FirmwareLeft names E

/-- When there is no memory for the udev event: the descriptors of both eventfd calls stay open, and
the file that is unlinked has another name than the one created. -/
theorem FirmwareWritten.clean_iff {fd m u x y z : Int} {name : List UInt8} {F A B : List Effect}
    (hwritten : FirmwareWritten names path F) (hstart : EventfdTried names path A)
    (hstop : EventfdTried names path B) (hfd : 0 ≤ fd) (hu : u < 0) :
    Clean names ([.sys .openMiscDev fd, .sys (.malloc .firmwareName) m] ++ F ++ A ++ B ++
      [.sys (.malloc .udevEvent) u, .sys (.unlink name) z, .sys (.free .firmwareName) y,
        .sys (.close fd) x]) ↔
    Unwound names path ([.sys .openMiscDev fd, .sys (.malloc .firmwareName) m] ++ F ++ A ++ B ++
      [.sys (.malloc .udevEvent) u, .sys (.unlink name) z, .sys (.free .firmwareName) y,
        .sys (.close fd) x]) := by
  obtain ⟨ffd, hopened, hclosed⟩ := hwritten.descriptor
  have hremoved : Removed names path (A ++ (B ++
      [.sys (.malloc .udevEvent) u, .sys (.unlink name) z, .sys (.free .firmwareName) y,
        .sys (.close fd) x])) ↔
      0 ≤ z ∧ names name = names path := by
    simp [hstart.removed, hstop.removed, removed_cons]
  have hleft := hwritten.left (A ++ (B ++ [.sys (.malloc .udevEvent) u, .sys (.unlink name) z,
    .sys (.free .firmwareName) y, .sys (.close fd) x])) (by simp [hstart.firmware, hstop.firmware])
  rw [hremoved] at hleft
  simp only [List.append_assoc, List.cons_append, List.nil_append]
  constructor
  · intro hh
    have hnone : opened A = [] ∧ opened B = [] := by
      simpa [hfd, hopened, hclosed, hstart.closed, hstop.closed] using hh.descriptors.length_eq
    have hfiles : ¬ FirmwareLeft names (F ++ _) := hh.files
    rw [hleft, not_not] at hfiles
    have hA := hstart.failed.mp hnone.1
    have hB := hstop.failed.mp hnone.2
    constructor
    · simpa [hstart.page, hstop.page] using hwritten.page
    · intro r hr
      obtain rfl : r = u := by simpa [hwritten.udev, hstart.udev, hstop.udev] using hr
      refine ⟨hu, fun x hx => ?_, ?_⟩
      · rcases (show _ ∨ _ by simpa [hwritten.eventfd] using hx) with hx | hx
        · exact hA x hx
        · exact hB x hx
      · simpa [removed_cons, hwritten.removed, hstart.removed, hstop.removed] using hfiles
  · intro hh
    obtain ⟨-, heventfd, hfile⟩ := hh.udev u (by simp)
    have hA := hstart.failed.mpr fun x hx => heventfd x (by simp [hx])
    have hB := hstop.failed.mpr fun x hx => heventfd x (by simp [hx])
    constructor
    · simp [hwritten.registers, hstart.unregistered hA, hstop.unregistered hB]
    · simp [hwritten.registers, hstart.registers, hstop.registers]
    · simp [hwritten.registers, hstart.registers, hstop.registers]
    · simpa [hfd, hopened, hclosed, hstart.closed, hstop.closed, hA, hB]
        using List.Perm.swap ffd fd []
    · change ¬ FirmwareLeft names (F ++ _)
      rw [hleft, not_not]
      simpa [removed_cons, hwritten.removed, hstart.removed, hstop.removed] using hfile

theorem SetupTrace.clean_iff {E : List Effect} (h : SetupTrace env s c E)
    (hfail : ¬ ProcessorAdded c E) :
    Clean names E ↔ Unwound names (firmwarePath env (s.core c).rprocName) E := by
  cases h with
  | noDevice hfd =>
    refine iff_of_true ?_ ?_
    · constructor <;> simp [hfd]
    · constructor <;> simp
  | noName hfd hm =>
    refine iff_of_true ?_ ?_
    · constructor <;> simp [hfd]
    · constructor <;> simp
  | noFirmware hfd hm hF =>
    cases hF with
    | unnamed =>
      refine iff_of_true ?_ ?_
      · constructor <;> simp [hfd]
      · constructor <;> simp
    | noFile hr =>
      refine iff_of_true ?_ ?_
      · constructor <;> simp [hfd, hr]
      · constructor <;> simp
    | noPage hf hr =>
      refine iff_of_false (fun hh => ?_) fun hh => ?_
      · exact hh.files (by simp [removed_cons, hf])
      · exact absurd (hh.page _ (by simp)) (not_le.mpr hr)
  | @noUdevEvent fd m u x y z name F A B hfd hm hF hA hB hu =>
    exact hF.firmwareWritten.clean_iff hA.tried hB.tried hfd hu
  | notAdded hfd hm hF hA hB hu hr =>
    refine iff_of_false (fun hh => ?_) fun hh => ?_
    · have hudev := hh.udevEvents
      simp [newUdevEvents] at hudev
    · exact absurd (hh.udev _ (by simp)).1 (not_lt.mpr hu)
  | @added fd m u r name pd F A B hfd hm hF hA hB hu hr =>
    exact absurd ⟨pd, r, List.mem_append_right _ (by simp), hr⟩ hfail

theorem leavesNothing_iff {t : Daemon L σ} {E : List Effect} (htrace : t.trace = s.trace ++ E)
    (hreg : t.registries = s.registries.after E) : LeavesNothing names s t ↔ Clean names E := by
  have hE := effectsSince_eq htrace
  constructor
  · intro hh
    have hsame := hh.registries
    rw [hreg, registries_after_eq_iff] at hsame
    exact ⟨hsame.1, hsame.2.1, hsame.2.2, hE ▸ hh.descriptors, hE ▸ hh.files⟩
  · intro hh
    refine ⟨?_, hE ▸ hh.descriptors, hE ▸ hh.files⟩
    rw [hreg, registries_after_eq_iff]
    exact ⟨hh.fdEvents, hh.udevEvents, hh.backends⟩

theorem clean_call {e : Effect} {E : List Effect}
    (h : e = .setupRemoteproc c ∨ ∃ path, e = .virtioBackendAdd c path) :
    Clean names (e :: E) ↔ Clean names E := by
  rcases h with rfl | ⟨path, rfl⟩
  · exact ⟨fun hh => ⟨hh.fdEvents, hh.udevEvents, hh.backends, hh.descriptors, hh.files⟩,
      fun hh => ⟨hh.fdEvents, hh.udevEvents, hh.backends, hh.descriptors, hh.files⟩⟩
  · exact ⟨fun hh => ⟨hh.fdEvents, hh.udevEvents, hh.backends, hh.descriptors, hh.files⟩,
      fun hh => ⟨hh.fdEvents, hh.udevEvents, hh.backends, hh.descriptors, hh.files⟩⟩

theorem unwound_setupRemoteproc {E : List Effect} :
    Unwound names path (.setupRemoteproc c :: E) ↔ Unwound names path E := by
  have hremoved : Removed names path (.setupRemoteproc c :: E) ↔ Removed names path E :=
    removed_cons (by simp)
  refine ⟨fun hh => ⟨?_, ?_⟩, fun hh => ⟨?_, ?_⟩⟩
  · simpa using hh.page
  · simpa [hremoved] using hh.udev
  · simpa using hh.page
  · simpa [hremoved] using hh.udev

end Traces

def BackendStepFails (dev : UdevDevice) (E : List Effect) : Prop :=
  dev.phyOffset = none ∨ ∃ r, r < 0 ∧ (.sys (.malloc .backend) r ∈ E ∨
    (∃ devname, .sys (.openBackend devname) r ∈ E) ∨ .sys (.malloc .fdEvent) r ∈ E ∨
    ∃ fd, .sys (.mmapBackend fd) r ∈ E)

def MmapFails (E : List Effect) : Prop := ∃ fd r, .sys (.mmapBackend fd) r ∈ E ∧ r < 0

section Calls

variable {L σ φ : Type} (env : Env σ) (names : List UInt8 → φ) (s : Daemon L σ) (c : CorePtr)

theorem wp_setupRemoteproc_leavesNothing : wp (setupRemoteproc env c)
    (fun _ t => ¬ ProcessorAdded c (s.effectsSince t) → (LeavesNothing names s t ↔
      Unwound names (firmwarePath env (s.core c).rprocName) (s.effectsSince t)))
    (fun _ _ => Dangling s (s.core c).channels) s := by
  refine wp_mono (wp_setupRemoteproc_trace env s c) ?_ (fun _ _ hf => hf)
  intro _ t ht hfail
  obtain ⟨E, hrun, htrace⟩ := ht
  have hE : t.trace = s.trace ++ (.setupRemoteproc c :: E) := by simpa using hrun.trace
  rw [effectsSince_eq hE, processorAdded_setupRemoteproc] at hfail
  rw [effectsSince_eq hE, leavesNothing_iff hE hrun.registries, clean_call (.inl rfl),
    unwound_setupRemoteproc]
  exact htrace.clean_iff hfail

theorem BackendRefused.leavesNothing {dev : UdevDevice} {E : List Effect}
    (h : BackendRefused dev E) : Clean names E ∧ ¬ MmapFails E := by
  cases h with
  | noMemory hr =>
    refine ⟨?_, by simp [MmapFails]⟩
    constructor <;> simp
  | noOffset hr hphy =>
    refine ⟨?_, by simp [MmapFails]⟩
    constructor <;> simp
  | noFile hr hfd =>
    refine ⟨?_, by simp [MmapFails]⟩
    constructor <;> simp [hfd]
  | noEvent hr hfd hm =>
    refine ⟨?_, by simp [MmapFails]⟩
    constructor <;> simp [hfd]

/-- When the backend has its event the only step that can have failed is the mmap, and then the
event stays. -/
theorem BackendMapped.leavesEvent {dev : UdevDevice} {vbe : Nat} {name : List UInt8} {fd : Int}
    {E F : List Effect} (h : BackendMapped dev vbe name fd E) (hF : ∀ call r, .sys call r ∉ F)
    (hfails : BackendStepFails dev (.virtioBackendAdd c dev.syspath :: (E ++ F))) :
    newFdEvents (E ++ F) ≠ [] ∧ MmapFails (.virtioBackendAdd c dev.syspath :: (E ++ F)) := by
  cases h with
  | @mapped r m q hr hphy hfd hm =>
    refine ⟨by simp [newFdEvents], ?_⟩
    obtain ⟨y, hy, hmem⟩ := hfails.resolve_left (Option.isSome_iff_ne_none.mp hphy)
    have hstep : y = r ∨ y = fd ∨ y = m ∨ y = q := by simpa [hF] using hmem
    exact ⟨fd, q, by simp, by omega⟩

theorem wp_virtioBackendAdd_leavesNothing (dev : UdevDevice) : wp (virtioBackendAdd env dev c)
    (fun _ t => BackendStepFails dev (s.effectsSince t) →
      (LeavesNothing names s t ↔ ¬ MmapFails (s.effectsSince t)))
    (fun _ t => BackendStepFails dev (s.effectsSince t) →
      (LeavesNothing names s t ↔ ¬ MmapFails (s.effectsSince t))) s := by
  have hcleaned : ∀ {t : Daemon L σ} {E : List Effect}, Clean names E → ¬ MmapFails E →
      SetupRun (Effect.Servicing [c]) s t ([.virtioBackendAdd c dev.syspath] ++ E) →
      (LeavesNothing names s t ↔ ¬ MmapFails (s.effectsSince t)) := by
    intro t E hclean hmap hrun
    rw [effectsSince_eq hrun.trace, leavesNothing_iff hrun.trace hrun.registries]
    exact iff_of_true ((clean_call (.inr ⟨_, rfl⟩)).mpr hclean) (by simpa [MmapFails] using hmap)
  have hmapped : ∀ {t : Daemon L σ} {E F : List Effect} {name : List UInt8} {fd : Int},
      BackendMapped dev s.backends.length name fd E → (∀ call r, .sys call r ∉ F) →
      SetupRun (Effect.Servicing [c]) s t ([.virtioBackendAdd c dev.syspath] ++ (E ++ F)) →
      BackendStepFails dev (s.effectsSince t) →
      (LeavesNothing names s t ↔ ¬ MmapFails (s.effectsSince t)) := by
    intro t E F name fd hE hF hrun hfails
    rw [effectsSince_eq hrun.trace] at hfails ⊢
    rw [leavesNothing_iff hrun.trace hrun.registries]
    obtain ⟨hevent, hmap⟩ := hE.leavesEvent c hF hfails
    exact iff_of_false (fun hh => hevent hh.fdEvents) (not_not.mpr hmap)
  refine wp_mono (wp_virtioBackendAdd_trace env s dev c) ?_ ?_
  · intro _ t ht hfails
    obtain ⟨E, ⟨hrefused, -, hrun⟩ | ⟨new, -, -, hE, -, hrun⟩⟩ := ht
    · exact hcleaned (hrefused.leavesNothing names).1 (hrefused.leavesNothing names).2 hrun
    · exact hmapped hE (by simp) hrun hfails
  · intro _ t ht hfails
    obtain ⟨E, hrun, rfl | ⟨name, fd, hE⟩⟩ := ht
    · exact hcleaned ⟨rfl, rfl, rfl, .refl _, id⟩ (by simp [MmapFails]) hrun
    · exact hmapped (F := []) hE (by simp) (by rwa [List.append_nil]) hfails

/-- A setup that adds no processor leaves nothing behind exactly when every step that it has
taken is undone, and a call of `virtio_backend_add` one of whose steps fails exactly when this
is not the mmap. -/
theorem failed_steps_leave_nothing_iff (dev : UdevDevice) :
    wp (setupRemoteproc env c) (fun _ t => ¬ ProcessorAdded c (s.effectsSince t) →
        (LeavesNothing names s t ↔
          Unwound names (firmwarePath env (s.core c).rprocName) (s.effectsSince t)))
      (fun _ _ => Dangling s (s.core c).channels) s ∧
    wp (virtioBackendAdd env dev c) (fun _ t => BackendStepFails dev (s.effectsSince t) →
        (LeavesNothing names s t ↔ ¬ MmapFails (s.effectsSince t)))
      (fun _ t => BackendStepFails dev (s.effectsSince t) →
        (LeavesNothing names s t ↔ ¬ MmapFails (s.effectsSince t))) s :=
  ⟨wp_setupRemoteproc_leavesNothing env names s c, wp_virtioBackendAdd_leavesNothing env names s c dev⟩

end Calls

def pagelessHost : Env Unit :=
  { driverHost with sys := fun call w => (if call = .malloc .firmwarePage then -1 else 5, w) }

/-- The firmware file stays, and is still open. -/
theorem pageless_setup_leaves_file : ∃ t : Daemon (CircularLinks.Links Cell) Unit,
    setupRemoteproc pagelessHost 0 twoChannels = .ok () t ∧
    ¬ ProcessorAdded 0 (twoChannels.effectsSince t) ∧ ¬ LeavesNothing id twoChannels t := by
  have hreturns : returnsIn (setupRemoteproc pagelessHost 0) (fun t =>
      ((twoChannels.effectsSince t).all fun e => !e.addsProc) &&
      (opened (twoChannels.effectsSince t)).length != (closed (twoChannels.effectsSince t)).length)
      twoChannels = true := by
    decide +kernel
  obtain ⟨_, t, hrun, ht⟩ := exists_of_returnsIn hreturns
  simp only [Bool.and_eq_true, List.all_eq_true, Bool.not_eq_true', bne_iff_ne] at ht
  exact ⟨t, hrun, not_processorAdded_of_addsProc ht.1, fun hh => ht.2 hh.descriptors.length_eq⟩

end Lininoio
