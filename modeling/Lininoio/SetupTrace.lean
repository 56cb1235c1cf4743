import Lininoio.RemoteprocEffects

/-! The effects of `setup_remoteproc`, in order, for each of its steps at which it may end. -/

namespace Lininoio

open StateFault

section

variable {L σ : Type} (env : Env σ)

def firmwareName (rprocName : List UInt8) : List UInt8 :=
  snprintf (pathMax - 1) (env.firmwarePrefix ++ rprocName ++ asciiBytes "-fw")

def Initialised (s : Daemon L σ) (x : ChanPtr) (block : List UInt8) : Prop :=
  ∃ ch, s.chan x = some ch ∧ ch.data.resources = some block

/-- The resources that are copied for some channels, and the reads of those that are not set. -/
inductive ResourcesRead (s : Daemon L σ) : List ChanPtr → List Effect → List (List UInt8) → Prop
  | nil : ResourcesRead s [] [] []
  | set {x cs U block blocks} : Initialised s x block → ResourcesRead s cs U blocks →
      ResourcesRead s (x :: cs) U (block :: blocks)
  | unset {x cs U blocks ch} : s.chan x = some ch → ch.data.resources = none →
      ResourcesRead s cs U blocks → ResourcesRead s (x :: cs) (.readUnset x :: U)
        (env.unset x :: blocks)

/-- What `setup_remoteproc_fw` returns, and its effects. -/
inductive FwTrace (s : Daemon L σ) (c : CorePtr) : Option (List UInt8) → List Effect → Prop
  | unnamed : (s.core c).rprocName = [] → FwTrace s c none []
  | noFile {r} : r < 0 →
      FwTrace s c none [.sys (.openFirmware (firmwarePath env (s.core c).rprocName)) r]
  | noPage {fd r} : 0 ≤ fd → r < 0 →
      FwTrace s c none [.sys (.openFirmware (firmwarePath env (s.core c).rprocName)) fd,
        .sys (.malloc .firmwarePage) r]
  | written {fd m U blocks w x} : 0 ≤ fd → 0 ≤ m →
      ResourcesRead env s (s.core c).channels U blocks →
      FwTrace s c (some (firmwareName env (s.core c).rprocName))
        ([.sys (.openFirmware (firmwarePath env (s.core c).rprocName)) fd,
          .sys (.malloc .firmwarePage) m] ++ U ++ [.sys (.write fd
            (firmwareImage env.bigEndian env.simpleFirmwareMagic (s.core c).nchannels blocks)) w,
          .sys (.close fd) x])

/-- The effects of `_assign_fd_evt(eventfd(0, 0), cb, c)`. -/
inductive AssignTrace (cb : FdCallback) : List Effect → Prop
  | noEventfd {r} : r < 0 → AssignTrace cb [.sys .eventfd r]
  | noMemory {r m} : 0 ≤ r → m < 0 → AssignTrace cb [.sys .eventfd r, .sys (.malloc .fdEvent) m]
  | assigned {r m} : 0 ≤ r → 0 ≤ m →
      AssignTrace cb [.sys .eventfd r, .sys (.malloc .fdEvent) m, .addFdEvent ⟨r, cb⟩]

inductive SetupTrace (s : Daemon L σ) (c : CorePtr) : List Effect → Prop
  | noDevice {r} : r < 0 → SetupTrace s c [.sys .openMiscDev r]
  | noName {fd m x} : 0 ≤ fd → m < 0 →
      SetupTrace s c [.sys .openMiscDev fd, .sys (.malloc .firmwareName) m, .sys (.close fd) x]
  | noFirmware {fd m x y F} : 0 ≤ fd → 0 ≤ m → FwTrace env s c none F →
      SetupTrace s c ([.sys .openMiscDev fd, .sys (.malloc .firmwareName) m] ++ F ++
        [.sys (.free .firmwareName) y, .sys (.close fd) x])
  | noUdevEvent {fd m u x y z name F A B} : 0 ≤ fd → 0 ≤ m → FwTrace env s c (some name) F →
      AssignTrace (.start c) A → AssignTrace (.stop c) B → u < 0 →
      SetupTrace s c ([.sys .openMiscDev fd, .sys (.malloc .firmwareName) m] ++ F ++ A ++ B ++
        [.sys (.malloc .udevEvent) u, .sys (.unlink name) z, .sys (.free .firmwareName) y,
          .sys (.close fd) x])
  | notAdded {fd m u r x y z name pd F A B} : 0 ≤ fd → 0 ≤ m → FwTrace env s c (some name) F →
      AssignTrace (.start c) A → AssignTrace (.stop c) B → 0 ≤ u → r < 0 →
      SetupTrace s c ([.sys .openMiscDev fd, .sys (.malloc .firmwareName) m] ++ F ++ A ++ B ++
        [.sys (.malloc .udevEvent) u, .scheduleUdevEvent ⟨.newVirtioBackend, c⟩,
          .sys (.addProc c pd) r, .sys (.unlink name) z, .sys (.free .firmwareName) y,
          .sys (.close fd) x])
  | added {fd m u r name pd F A B} : 0 ≤ fd → 0 ≤ m → FwTrace env s c (some name) F →
      AssignTrace (.start c) A → AssignTrace (.stop c) B → 0 ≤ u → 0 ≤ r →
      SetupTrace s c ([.sys .openMiscDev fd, .sys (.malloc .firmwareName) m] ++ F ++ A ++ B ++
        [.sys (.malloc .udevEvent) u, .scheduleUdevEvent ⟨.newVirtioBackend, c⟩,
          .sys (.addProc c pd) r])

theorem ResourcesRead.congr {s t : Daemon L σ} {cs : List ChanPtr} {U : List Effect}
    {blocks : List (List UInt8)} (hchan : t.chan = s.chan) (h : ResourcesRead env t cs U blocks) :
    ResourcesRead env s cs U blocks := by
  induction h with
  | nil => exact .nil
  | set hx _ ih =>
    rw [Initialised, hchan] at hx
    exact .set hx ih
  | unset hx hres _ ih => exact .unset (hchan ▸ hx) hres ih

theorem ResourcesRead.readUnset {cs : List ChanPtr} {U : List Effect} {blocks : List (List UInt8)}
    (h : ResourcesRead env s cs U blocks) : ∀ e ∈ U, ∃ x, e = .readUnset x := by
  induction h with
  | nil => simp
  | set _ _ ih => exact ih
  | unset _ _ _ ih =>
    intro e he
    rcases List.mem_cons.mp he with rfl | he
    · exact ⟨_, rfl⟩
    · exact ih e he

abbrev Leads (s t : Daemon L σ) (E : List Effect) : Prop := SetupRun (fun _ => True) s t E

variable (s : Daemon L σ) (c : CorePtr)

theorem wp_sys_leads {call : SysCall} {Q : Int → Daemon L σ → Prop} {E : Fault → Daemon L σ → Prop}
    (h : ∀ r t, Leads s t [.sys call r] → Q r t) : wp (sys env call) Q E s :=
  wp_sys_run env s _ (fun _ => trivial) h

def Dangling (cs : List ChanPtr) : Prop := ∃ x ∈ cs, s.chan x = none

theorem wp_channelResources_read (cs : List ChanPtr) :
    wp (channelResources env cs) (fun blocks t => ∃ U, Leads s t U ∧ ResourcesRead env s cs U blocks)
      (fun _ _ => Dangling s cs) s := by
  have hall : ∀ t : Daemon L σ, t.chan = s.chan → wp (channelResources env cs)
      (fun blocks u => ∃ U, Leads t u U ∧ ResourcesRead env s cs U blocks)
      (fun _ _ => Dangling s cs) t := by
    induction cs with
    | nil => exact fun t _ => ⟨[], .refl t, .nil⟩
    | cons x rest ih =>
      intro t ht
      have hlater : ∀ (f : Fault) (u : Daemon L σ), Dangling s rest → Dangling s (x :: rest) := by
        intro _ _ hh
        obtain ⟨y, hy, hnone⟩ := hh
        exact ⟨y, List.mem_cons_of_mem _ hy, hnone⟩
      cases hch : s.chan x with
      | none =>
        have hch' : t.chan x = none := by rw [ht, hch]
        simp only [channelResources, wp_bind, readChannel, wp_get, hch', wp_throw]
        exact ⟨x, List.mem_cons_self, hch⟩
      | some ch =>
        have hch' : t.chan x = some ch := by rw [ht, hch]
        cases hres : ch.data.resources with
        | some block =>
          simp only [channelResources, wp_bind, wp_readChannel _ _ hch', hres, wp_pure]
          refine wp_mono (ih t ht) ?_ hlater
          intro blocks u hu
          obtain ⟨U, hrun, hread⟩ := hu
          exact ⟨U, hrun, .set ⟨ch, hch, hres⟩ hread⟩
        | none =>
          simp only [channelResources, wp_bind, wp_readChannel _ _ hch', hres, wp_pure, wp_emit]
          refine wp_mono (ih _ ht) ?_ hlater
          intro blocks u hu
          obtain ⟨U, hrun, hread⟩ := hu
          exact ⟨_, (SetupRun.emit trivial fun _ => rfl).trans hrun, .unset hch hres hread⟩
  exact hall s rfl

theorem wp_setupRemoteprocFw_trace : wp (setupRemoteprocFw env c)
    (fun r t => ∃ F, Leads s t F ∧ FwTrace env s c r F ∧
      (r.isSome ↔ (s.core c).rprocName ≠ [] ∧ ReachesCopy env s c))
    (fun _ _ => Dangling s (s.core c).channels) s := by
  simp only [setupRemoteprocFw, wp_bind, wp_readCore]
  by_cases hname : (s.core c).rprocName = []
  · rw [List.isEmpty_iff.mpr hname, if_pos rfl, wp_pure]
    exact ⟨[], .refl s, .unnamed hname, iff_of_false (by simp) fun hh => hh.1 hname⟩
  have hne : (s.core c).rprocName.isEmpty = false := by simpa using hname
  rw [hne, if_neg Bool.false_ne_true, wp_bind]
  refine wp_sys_world env s (fun _ => True) (fun _ => trivial) fun t ht _ hopen => ?_
  rw [wp_ite]
  refine ⟨fun hfd => ⟨_, hopen, .noFile hfd, iff_of_false (by simp) fun hh => ?_⟩, fun hfd => ?_⟩
  · exact absurd hfd hh.2.1.not_gt
  rw [wp_bind]
  refine wp_sys_world env t (fun _ => True) (fun _ => trivial) fun u _ _ hpage => ?_
  have hrun := hopen.trans hpage
  rw [wp_ite]
  refine ⟨fun hmem => ⟨_, hrun, .noPage (not_lt.mp hfd) hmem,
    iff_of_false (by simp) fun hh => ?_⟩, fun hmem => ?_⟩
  · exact absurd hmem (ht ▸ hh.2.2).not_gt
  rw [wp_bind]
  refine wp_mono (wp_channelResources_read env u _) ?_ (fun _ _ hf => ?_)
  rotate_left
  · rwa [Dangling, hrun.chan] at hf
  intro blocks v hv
  obtain ⟨U, hres, hread⟩ := hv
  rw [wp_bind]
  refine wp_sys_leads env v fun w x hwrite => ?_
  rw [wp_bind]
  refine wp_sys_leads env x fun cl y hclose => ?_
  refine ⟨_, (hrun.trans hres).trans (hwrite.trans hclose), ?_, iff_of_true rfl ⟨hname, ?_, ?_⟩⟩
  · exact .written (not_lt.mp hfd) (not_lt.mp hmem) (hread.congr env hrun.chan)
  · exact not_lt.mp hfd
  · exact ht ▸ not_lt.mp hmem

theorem FwTrace.congr {s t : Daemon L σ} {c : CorePtr} {r : Option (List UInt8)} {F : List Effect}
    (hcore : ∃ pd, t.core c = { s.core c with pd := pd }) (hchan : t.chan = s.chan)
    (h : FwTrace env t c r F) : FwTrace env s c r F := by
  obtain ⟨pd, hc⟩ := hcore
  cases h with
  | unnamed hname => exact .unnamed (by rw [hc] at hname; exact hname)
  | noFile hfd =>
    rw [hc]
    exact .noFile hfd
  | noPage hfd hmem =>
    rw [hc]
    exact .noPage hfd hmem
  | written hfd hmem hread =>
    rw [hc] at hread ⊢
    exact .written hfd hmem (hread.congr env hchan)

theorem wp_assignEventfd {cb : FdCallback} {Q : Int → Daemon L σ → Prop}
    {E : Fault → Daemon L σ → Prop} (h : ∀ r t A, Leads s t A → AssignTrace cb A → Q r t) :
    wp (sys env .eventfd) (fun efd t => wp (assignFdEvt env efd cb) Q E t) E s := by
  refine wp_sys_leads env s fun efd t heventfd => ?_
  by_cases hfd : efd < 0
  · simp only [assignFdEvt, hfd, if_true, wp_pure]
    exact h _ _ _ heventfd (.noEventfd hfd)
  simp only [assignFdEvt, hfd, if_false, wp_bind]
  refine wp_mono (wp_addFdEvent_run env t (fun _ => True) efd (fun _ => trivial) trivial) ?_
    (fun _ _ hf => hf.elim)
  intro ok u hu
  obtain ⟨-, hok, hrun⟩ := hu
  have hall := heventfd.trans hrun
  cases ok with
  | true => exact h _ _ _ hall (.assigned (not_lt.mp hfd) (of_decide_eq_true hok.symm))
  | false => exact h _ _ _ hall (.noMemory (not_lt.mp hfd) (not_le.mp (of_decide_eq_false hok.symm)))

theorem wp_scheduleUdevEvent_trace {Q : Int → Daemon L σ → Prop} {E : Fault → Daemon L σ → Prop}
    (hmem : ∀ u t r, u < 0 → r < 0 → Leads s t [.sys (.malloc .udevEvent) u] → Q r t)
    (hadd : ∀ u t r, 0 ≤ u → 0 ≤ r → Leads s t
      [.sys (.malloc .udevEvent) u, .scheduleUdevEvent ⟨.newVirtioBackend, c⟩] → Q r t) :
    wp (scheduleUdevEvent env .newVirtioBackend c) Q E s := by
  simp only [scheduleUdevEvent, wp_bind]
  refine wp_sys_leads env s fun u t hmalloc => ?_
  by_cases hu : u < 0
  · simp only [hu, if_true, wp_pure]
    exact hmem u t _ hu (by decide) hmalloc
  simp only [hu, if_false, wp_bind, wp_emit, wp_modify, wp_pure]
  refine hadd u _ _ (not_lt.mp hu) (by decide) ⟨{ hmalloc with }, ?_, ?_, fun _ _ => trivial⟩
  · simp [hmalloc.trace]
  · have hreg := hmalloc.registries
    simp only [Daemon.registries, Registries.after, Registries.add, List.foldl] at hreg ⊢
    injection hreg with hfd hudev hbackends
    simp [hfd, hudev, hbackends]

theorem wp_setupRemoteprocErr0_trace (fd : Int) : wp (setupRemoteprocErr0 env fd)
    (fun _ t => ∃ x, Leads s t [.sys (.close fd) x]) (fun _ _ => False) s := by
  simp only [setupRemoteprocErr0, wp_bind]
  exact wp_sys_leads env s fun x t hclose => ⟨x, hclose⟩

theorem wp_setupRemoteprocErr1_trace (fd : Int) : wp (setupRemoteprocErr1 env fd)
    (fun _ t => ∃ y x, Leads s t [.sys (.free .firmwareName) y, .sys (.close fd) x])
    (fun _ _ => False) s := by
  simp only [setupRemoteprocErr1, wp_bind]
  refine wp_sys_leads env s fun y t hfree => ?_
  refine wp_mono (wp_setupRemoteprocErr0_trace env t fd) ?_ (fun _ _ hf => hf)
  intro _ u hu
  obtain ⟨x, hclose⟩ := hu
  exact ⟨y, x, hfree.trans hclose⟩

theorem wp_setupRemoteprocErr2_trace (name : List UInt8) (fd : Int) :
    wp (setupRemoteprocErr2 env name fd) (fun _ t => ∃ z y x, Leads s t
      [.sys (.unlink name) z, .sys (.free .firmwareName) y, .sys (.close fd) x])
    (fun _ _ => False) s := by
  simp only [setupRemoteprocErr2, wp_bind]
  refine wp_sys_leads env s fun z t hunlink => ?_
  refine wp_mono (wp_setupRemoteprocErr1_trace env t fd) ?_ (fun _ _ hf => hf)
  intro _ u hu
  obtain ⟨y, x, hrun⟩ := hu
  exact ⟨z, y, x, hunlink.trans hrun⟩

theorem wp_setupRemoteproc_trace : wp (setupRemoteproc env c) (fun _ t => ∃ E,
      Leads { s with trace := s.trace ++ [.setupRemoteproc c] } t E ∧ SetupTrace env s c E)
    (fun _ _ => Dangling s (s.core c).channels) s := by
  simp only [setupRemoteproc, wp_bind, wp_emit]
  obtain ⟨s₀, hs₀⟩ : ∃ s₀ : Daemon L σ, s₀ = { s with trace := s.trace ++ [.setupRemoteproc c] } :=
    ⟨_, rfl⟩
  have hcore : s₀.core = s.core ∧ s₀.chan = s.chan := by
    rw [hs₀]
    exact ⟨rfl, rfl⟩
  rw [← hs₀]
  refine wp_sys_leads env s₀ fun fd s₁ hopen => ?_
  by_cases hfd : fd < 0
  · simp only [hfd, if_true, wp_pure]
    exact ⟨_, hopen, .noDevice hfd⟩
  simp only [hfd, if_false, wp_bind]
  refine wp_sys_leads env s₁ fun m s₂ hmalloc => ?_
  have hbegun := hopen.trans hmalloc
  by_cases hm : m < 0
  · simp only [hm, if_true, wp_bind, wp_pure]
    refine wp_mono (wp_setupRemoteprocErr0_trace env s₂ fd) ?_ (fun _ _ hf => hf.elim)
    intro _ t ht
    obtain ⟨x, hclose⟩ := ht
    exact ⟨_, hbegun.trans hclose, .noName (not_lt.mp hfd) hm⟩
  simp only [hm, if_false, wp_bind]
  refine wp_mono (wp_setupRemoteprocFw_trace env s₂ c) ?_ (fun _ _ hf => ?_)
  rotate_left
  · rwa [Dangling, hbegun.channels, hbegun.chan, hcore.1, hcore.2] at hf
  intro firmware s₃ hs₃
  obtain ⟨F, hrun, hfwTrace, -⟩ := hs₃
  have hfw := hbegun.trans hrun
  have hF : FwTrace env s c firmware F :=
    hfwTrace.congr env (hcore.1 ▸ hbegun.core c) (hbegun.chan.trans hcore.2)
  cases firmware with
  | none =>
    refine wp_mono (wp_setupRemoteprocErr1_trace env s₃ fd) ?_ (fun _ _ hf => hf.elim)
    intro _ t ht
    obtain ⟨y, x, herr⟩ := ht
    exact ⟨_, hfw.trans herr, .noFirmware (not_lt.mp hfd) (not_lt.mp hm) hF⟩
  | some name =>
    simp only [wp_bind]
    apply wp_modifyCore_run _ (fun _ => True) (fun _ => ⟨_, rfl⟩)
    intro s₄ hpd
    refine wp_assignEventfd env s₄ fun startFd s₅ A hstart hA => ?_
    apply wp_modifyCore_run _ (fun _ => True) (fun _ => ⟨_, rfl⟩)
    intro s₆ hpd'
    refine wp_assignEventfd env s₆ fun stopFd s₇ B hstop hB => ?_
    apply wp_modifyCore_run _ (fun _ => True) (fun _ => ⟨_, rfl⟩)
    intro s₈ hpd''
    have hfds : Leads s₀ s₈
        ([.sys .openMiscDev fd, .sys (.malloc .firmwareName) m] ++ F ++ A ++ B) := by
      simpa using ((((hfw.trans hpd).trans hstart).trans hpd').trans hstop).trans hpd''
    refine wp_scheduleUdevEvent_trace env s₈ c (fun u s₉ ret hu hret hudev => ?_)
      (fun u s₉ ret hu hret hudev => ?_)
    · simp only [hret, if_true, wp_bind, wp_pure]
      refine wp_mono (wp_setupRemoteprocErr2_trace env s₉ name fd) ?_ (fun _ _ hf => hf.elim)
      intro _ t ht
      obtain ⟨z, y, x, herr⟩ := ht
      refine ⟨_, hfds.trans (hudev.trans herr), ?_⟩
      exact .noUdevEvent (not_lt.mp hfd) (not_lt.mp hm) hF hA hB hu
    simp only [hret.not_gt, if_false, wp_bind, wp_readCore]
    refine wp_sys_leads env s₉ fun added s₁₀ hadd => ?_
    have hall := hfds.trans (hudev.trans hadd)
    by_cases hadded : added < 0
    · simp only [hadded, if_true]
      refine wp_mono (wp_setupRemoteprocErr2_trace env s₁₀ name fd) ?_ (fun _ _ hf => hf.elim)
      intro _ t ht
      obtain ⟨z, y, x, herr⟩ := ht
      refine ⟨_, hfds.trans ((hudev.trans hadd).trans herr), ?_⟩
      exact .notAdded (not_lt.mp hfd) (not_lt.mp hm) hF hA hB hu hadded
    · simp only [hadded, if_false, wp_pure]
      exact ⟨_, hall, .added (not_lt.mp hfd) (not_lt.mp hm) hF hA hB hu (not_lt.mp hadded)⟩

end

end Lininoio
