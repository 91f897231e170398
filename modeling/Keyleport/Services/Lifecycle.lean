import Keyleport.Discovery.Identity
import Keyleport.Services.MainLoop
import Mathlib.Data.List.Count

/-!
# Lifecycle of the services

A service that the main loop initialises is meant to be cleaned up once before it is dropped, and
a discovery service says in its cleanup that the device has gone. HomeScene takes its discovery
service out of the repository when it is unmounted, and it is unmounted before the loop that
cleans up what the repository holds.

* `MainLoop.Complete`: what the calls of the services should be when `main` returns.
* `MainLoop.Invariant`: what holds between `init` and the cleanup, in any order of steps.
* `lifecycle_never_complete`: no run that returns is complete, and what each service misses.
* `closed_window_uncleaned`: a run in which the window is closed at once.
-/

namespace Keyleport

namespace MainLoop

variable {s s' : MainLoop}

/-! ## The calls of a service -/

/-- A service is updated only after it was initialised. -/
def UpdatedAfterInit (calls : List ServiceCall) : Prop :=
  ∀ before v after, calls = before ++ .update v :: after → .init v ∈ before

/-- The calls of the services in a run of `main`, when it returns. -/
structure Complete (calls : List ServiceCall) : Prop where
  updatedAfterInit : UpdatedAfterInit calls
  cleanedOnce : ∀ v, .init v ∈ calls → calls.count (.cleanup v) = 1
  cleanedBeforeDestroyed : ∀ before v after, calls = before ++ .destroy v :: after →
    .init v ∈ before → .cleanup v ∈ before

/-- More calls, among which the updates are of services that are already initialised. -/
theorem UpdatedAfterInit.append {calls new : List ServiceCall} (h : UpdatedAfterInit calls)
    (hnew : ∀ v, .update v ∈ new → .init v ∈ calls) : UpdatedAfterInit (calls ++ new) := by
  intro before v after heq
  -- the update is one of the new calls, or it was there before
  rcases List.append_eq_append_iff.1 heq with ⟨rest, rfl, hrest⟩ | ⟨rest, rfl, hrest⟩
  · exact List.mem_append_left _ (hnew v (hrest ▸ by simp))
  · cases rest with
    | nil =>
      have hmem := hnew v (by rw [List.nil_append] at hrest; exact hrest ▸ by simp)
      rwa [List.append_nil] at hmem
    | cons c rest =>
      obtain ⟨rfl, -⟩ := List.cons.inj hrest
      exact h before v rest rfl

/-! ## References and destruction -/

/-- The initialised services that are destroyed are those to which there is no reference. -/
def Accounted (s : MainLoop) : Prop :=
  ∀ v, .init v ∈ s.calls → (.destroy v ∈ s.calls ↔ v ∉ s.held)

@[simp]
theorem held_release (s : MainLoop) (vs : List Service) : (s.release vs).held = s.held := rfl

theorem mem_release_calls {vs : List Service} {c : ServiceCall} :
    c ∈ (s.release vs).calls ↔ c ∈ s.calls ∨ ∃ v ∈ vs, v ∉ s.held ∧ .destroy v = c := by
  simp [release, and_assoc]

/-- References go, and those services to which there is none left are destroyed. -/
theorem Accounted.release (h : Accounted s) {vs : List Service} (hcalls : s'.calls = s.calls)
    (hheld : ∀ v ∈ s'.held, v ∈ s.held) (hgone : ∀ v ∈ s.held, v ∈ s'.held ∨ v ∈ vs) :
    Accounted (s'.release vs) := by
  intro v hinit
  have hinit : .init v ∈ s.calls := by
    rw [mem_release_calls, hcalls] at hinit
    simpa using hinit
  rw [mem_release_calls, hcalls, h v hinit, held_release]
  constructor
  · rintro (hout | ⟨w, -, hout, heq⟩)
    · -- what was not held before is not held now
      exact fun hmem => hout (hheld v hmem)
    · obtain rfl := ServiceCall.destroy.inj heq
      exact hout
  · intro hout
    by_cases hmem : v ∈ s.held
    · exact Or.inr ⟨v, (hgone v hmem).resolve_left hout, hout, rfl⟩
    · exact Or.inl hmem

/-! ## The invariant -/

/-- Every service that was initialised is accounted for, and none is cleaned up. -/
structure Tracked (s : MainLoop) : Prop where
  updatedAfterInit : UpdatedAfterInit s.calls
  uncleaned : ∀ v, .cleanup v ∉ s.calls
  accounted : Accounted s
  initialised : ∀ v ∈ s.held, .init v ∈ s.calls
  nodup : s.repository.Nodup
  /-- Nothing takes a communication service out of the repository. -/
  communication : ∀ v, .init v ∈ s.calls → v.kind = .communication → v ∈ s.repository
  /-- A discovery service in the repository is that of HomeScene. -/
  discovery : ∀ v ∈ s.repository, v.kind = .discovery → s.discoveryService = some v
  discoveryKind : ∀ v, s.discoveryService = some v → v.kind = .discovery
  communicationKind : ∀ v, s.communicationService = some v → v.kind = .communication
  exists_discovery : ∃ v, v.kind = .discovery ∧ .init v ∈ s.calls

/-- References go, and nothing else is done to the services. -/
theorem Tracked.release (h : Tracked s) {vs : List Service} (hcalls : s'.calls = s.calls)
    (hheld : ∀ v ∈ s'.held, v ∈ s.held) (hgone : ∀ v ∈ s.held, v ∈ s'.held ∨ v ∈ vs)
    (hsub : s'.repository.Sublist s.repository)
    (hcomm : ∀ v ∈ s.repository, v.kind = .communication → v ∈ s'.repository)
    (hhome : ∀ v ∈ s'.repository, v.kind = .discovery → s'.discoveryService = some v)
    (hkind : ∀ v, s'.discoveryService = some v → v.kind = .discovery)
    (hsame : s'.communicationService = s.communicationService) : Tracked (s'.release vs) := by
  have hinit : ∀ v, .init v ∈ (s'.release vs).calls ↔ .init v ∈ s.calls := by
    intro v
    rw [mem_release_calls, hcalls]
    simp
  constructor
  · -- destructions are added, and no update
    refine UpdatedAfterInit.append (hcalls ▸ h.updatedAfterInit) fun v hv => ?_
    simp at hv
  · intro v hv
    rw [mem_release_calls, hcalls] at hv
    rcases hv with hv | ⟨w, -, -, heq⟩
    · exact h.uncleaned v hv
    · cases heq
  · exact h.accounted.release hcalls hheld hgone
  · exact fun v hv => (hinit v).2 (h.initialised v (hheld v hv))
  · exact h.nodup.sublist hsub
  · exact fun v hv hvk => hcomm v (h.communication v ((hinit v).1 hv) hvk) hvk
  · exact hhome
  · exact hkind
  · exact fun v hv => h.communicationKind v (hsame ▸ hv)
  · obtain ⟨v, hvk, hv⟩ := h.exists_discovery
    exact ⟨v, hvk, (hinit v).2 hv⟩

/-- What the services are and what they were called for. -/
structure SameServices (s s' : MainLoop) : Prop where
  calls : s'.calls = s.calls
  repository : s'.repository = s.repository
  discoveryService : s'.discoveryService = s.discoveryService
  communicationService : s'.communicationService = s.communicationService

/-- The services thread drops its snapshot, or takes one of the repository. -/
theorem Tracked.of_same (h : Tracked s) (hsame : SameServices s s') {vs : List Service}
    (hnew : ∀ v ∈ s'.snapshot, v ∈ s.held) (hold : ∀ v ∈ s.snapshot, v ∈ s'.held ∨ v ∈ vs) :
    Tracked (s'.release vs) := by
  obtain ⟨hcalls, hrepo, hdiscovery, hcomm⟩ := hsame
  have hrefs : ∀ v, v ∈ s'.held ↔ v ∈ s.repository ++ s.discoveryService.toList ++
      s.communicationService.toList ∨ v ∈ s'.snapshot := by
    intro v
    rw [held, List.mem_append, hrepo, hdiscovery, hcomm]
  refine h.release hcalls (fun v hv => ?_) (fun v hv => ?_) (hrepo ▸ List.Sublist.refl _)
    (fun v hv _ => hrepo ▸ hv) (hrepo ▸ hdiscovery ▸ h.discovery)
    (hdiscovery ▸ h.discoveryKind) hcomm
  · rcases (hrefs v).1 hv with hv | hv
    · exact List.mem_append_left _ hv
    · exact hnew v hv
  · rcases List.mem_append.1 hv with hv | hv
    · exact Or.inl ((hrefs v).2 (Or.inl hv))
    · exact hold v hv

theorem release_nil (s : MainLoop) : s.release [] = s := by
  simp [release]

/-- Neither the services nor the snapshot change. -/
theorem Tracked.congr (h : Tracked s) (hsame : SameServices s s')
    (hsnapshot : s'.snapshot = s.snapshot) : Tracked s' := by
  rw [← release_nil s']
  refine h.of_same hsame (fun v hv => ?_) (fun v hv => Or.inl ?_)
  · exact List.mem_append_right _ (hsnapshot ▸ hv)
  · exact List.mem_append_right _ (hsnapshot ▸ hv)

/-- A service to which there is a reference is updated. -/
theorem Tracked.update (h : Tracked s) {v : Service} (hv : v ∈ s.held) :
    Tracked { s with calls := s.calls ++ [.update v] } := by
  have hinit : ∀ w, .init w ∈ s.calls ++ [.update v] ↔ .init w ∈ s.calls := by simp
  have hcleanup : ∀ w, .cleanup w ∈ s.calls ++ [.update v] ↔ .cleanup w ∈ s.calls := by simp
  have hdestroy : ∀ w, .destroy w ∈ s.calls ++ [.update v] ↔ .destroy w ∈ s.calls := by simp
  refine ⟨h.updatedAfterInit.append fun w hw => ?_, fun w hw => h.uncleaned w ((hcleanup w).1 hw),
    fun w hw => (hdestroy w).trans (h.accounted w ((hinit w).1 hw)),
    fun w hw => (hinit w).2 (h.initialised w hw), h.nodup,
    fun w hw => h.communication w ((hinit w).1 hw), h.discovery, h.discoveryKind,
    h.communicationKind, ?_⟩
  · obtain rfl := ServiceCall.update.inj (List.mem_singleton.1 hw)
    exact h.initialised w hv
  · obtain ⟨d, hd, hmem⟩ := h.exists_discovery
    exact ⟨d, hd, (hinit d).2 hmem⟩

/-- HomeScene takes its discovery service out of the repository, with its own reference. -/
theorem Tracked.dropDiscoveryService (h : Tracked s) {d : Service}
    (hd : s.discoveryService = some d) : Tracked (s.dropDiscoveryService d) := by
  have hmem : ∀ v, v ∈ s.repository.filter (fun v => v ≠ d) ↔ v ∈ s.repository ∧ v ≠ d := by
    simp
  refine h.release rfl (fun v hv => ?_) (fun v hv => ?_) List.filter_sublist
    (fun v hv hvk => ?_) (fun v hv hvk => ?_) nofun rfl
  · simp only [held, List.mem_append, hmem] at hv ⊢
    simp only [Option.toList_none, List.not_mem_nil, or_false] at hv
    rcases hv with ((hv | hv) | hv)
    · exact Or.inl (Or.inl (Or.inl hv.1))
    · exact Or.inl (Or.inr hv)
    · exact Or.inr hv
  · by_cases hvd : v = d
    · exact Or.inr (List.mem_singleton.2 hvd)
    · refine Or.inl ?_
      simp only [held, List.mem_append, hmem, hd, Option.toList_some, List.mem_singleton] at hv ⊢
      tauto
  · refine (hmem v).2 ⟨hv, ?_⟩
    rintro rfl
    rw [h.discoveryKind v hd] at hvk
    cases hvk
  · -- the only discovery service of the repository was that of HomeScene
    obtain ⟨hv, hvd⟩ := (hmem v).1 hv
    exact absurd (Option.some.inj ((h.discovery v hv hvk).symm.trans hd)) hvd

theorem Tracked.homeWillUnmount (h : Tracked s) :
    Tracked s.homeWillUnmount ∧ s.homeWillUnmount.discoveryService = none := by
  rw [MainLoop.homeWillUnmount]
  cases hd : s.discoveryService with
  | none => exact ⟨h.congr ⟨rfl, rfl, rfl, rfl⟩ rfl, hd⟩
  | some d => exact ⟨(h.dropDiscoveryService hd).congr ⟨rfl, rfl, rfl, rfl⟩ rfl, rfl⟩

/-- What holds between `init` and the cleanup. -/
structure Invariant (s : MainLoop) : Prop extends Tracked s where
  scene : s.scene = some .home ∨ s.discoveryService = none
  servicesThread : s.servicesThread = none ∨ s.phase = .running ∨ s.phase = .ran ∨
    s.phase = .stopped
  deinitialised : s.phase = .deinitialised → s.scene = none
  begun : s.phase ≠ .start
  unreturned : s.phase ≠ .returned

/-- After `init` one service of each kind is initialised, and HomeScene is shown. -/
theorem Invariant.init : Invariant empty.init := by
  have hcalls : ∀ c, c ∈ empty.init.calls ↔
      c = .init ⟨.discovery, 0⟩ ∨ c = .init ⟨.communication, 1⟩ := by
    intro c
    rw [show empty.init.calls = [.init ⟨.discovery, 0⟩, .init ⟨.communication, 1⟩] from rfl]
    simp
  have hheld : ∀ v, v ∈ empty.init.held ↔ v = ⟨.discovery, 0⟩ ∨ v = ⟨.communication, 1⟩ := by
    intro v
    rw [show empty.init.held = [⟨.discovery, 0⟩, ⟨.communication, 1⟩, ⟨.discovery, 0⟩,
      ⟨.communication, 1⟩] from rfl]
    simp
    tauto
  refine ⟨⟨?_, fun v hv => ?_, fun v hv => ?_, fun v hv => ?_, by decide, fun v hv hvk => ?_,
    fun v hv hvk => ?_, ?_, ?_, ⟨⟨.discovery, 0⟩, rfl, (hcalls _).2 (Or.inl rfl)⟩⟩,
    Or.inl rfl, Or.inl rfl, nofun, by decide, by decide⟩
  · intro before v after heq
    have hmem := (hcalls (.update v)).1 (by rw [heq]; simp)
    simp at hmem
  · simp [hcalls] at hv
  · -- neither service is destroyed, and to both there is a reference
    refine iff_of_false (by simp [hcalls]) (not_not_intro ((hheld v).2 ?_))
    simpa [hcalls] using hv
  · rw [hcalls]
    exact ((hheld v).1 hv).imp (congrArg _) (congrArg _)
  · rw [hcalls] at hv
    rcases hv with hv | hv
    · obtain rfl := ServiceCall.init.inj hv
      cases hvk
    · obtain rfl := ServiceCall.init.inj hv
      decide
  · have hv : v = ⟨.discovery, 0⟩ ∨ v = ⟨.communication, 1⟩ := (hheld v).1 (by
      simp only [held, List.append_assoc]
      exact List.mem_append_left _ hv)
    rcases hv with rfl | rfl
    · rfl
    · cases hvk
  · rintro v hv
    obtain rfl := Option.some.inj hv
    rfl
  · rintro v hv
    obtain rfl := Option.some.inj hv
    rfl

/-! ## Steps -/

/-- The scene that is shown is unmounted, and the service of HomeScene has left the repository. -/
theorem Invariant.leaveScene (hI : Invariant s) :
    let t := s.scene.elim s s.willUnmount
    Tracked t ∧ t.discoveryService = none ∧ t.servicesThread = s.servicesThread ∧
      t.phase = s.phase := by
  have hnone : s.scene ≠ some .home → s.discoveryService = none := hI.scene.resolve_left
  cases hscene : s.scene with
  | none => exact ⟨hI.toTracked, hnone (by simp [hscene]), rfl, rfl⟩
  | some scene =>
    cases scene with
    | home =>
      have hcontrol : s.homeWillUnmount.servicesThread = s.servicesThread ∧
          s.homeWillUnmount.phase = s.phase := by
        rw [homeWillUnmount]
        cases s.discoveryService <;> exact ⟨rfl, rfl⟩
      exact ⟨hI.toTracked.homeWillUnmount.1, hI.toTracked.homeWillUnmount.2, hcontrol⟩
    | sender => exact ⟨hI.toTracked, hnone (by simp [hscene]), rfl, rfl⟩
    | receiver => exact ⟨hI.toTracked, hnone (by simp [hscene]), rfl, rfl⟩

theorem Invariant.setScene (hI : Invariant s) (hrunning : s.phase = .running) {scene : Scene}
    (hhome : scene ≠ .home) : Invariant (s.setScene scene) := by
  rw [MainLoop.setScene]
  split
  · exact hI
  · obtain ⟨hT, hnone, hthread, hphase⟩ := hI.leaveScene
    have hmount : ∀ t : MainLoop, t.didMount scene = t := by
      intro t
      cases scene with
      | home => exact absurd rfl hhome
      | sender => rfl
      | receiver => rfl
    rw [hmount]
    refine ⟨hT.congr ⟨rfl, rfl, rfl, rfl⟩ rfl, Or.inr hnone,
      Or.inr (Or.inl (hphase.trans hrunning)), fun hphase' => ?_,
      hphase ▸ hI.begun, hphase ▸ hI.unreturned⟩
    exact absurd (hrunning.symm.trans (hphase.symm.trans hphase')) nofun

/-- The services thread updates what it took from the repository, and drops it. -/
theorem Invariant.servicesThreadStep (hI : Invariant s) (h : s.servicesThreadStep = some s') :
    Invariant s' := by
  obtain ⟨thread, hthread, h⟩ := Option.bind_eq_some_iff.1 h
  have hphase : s.phase = .running ∨ s.phase = .ran ∨ s.phase = .stopped :=
    hI.servicesThread.resolve_left (by simp [hthread])
  -- nothing but the thread and the calls changes, so the rest of the invariant stays
  suffices Tracked s' ∧ s'.scene = s.scene ∧ s'.discoveryService = s.discoveryService ∧
      s'.phase = s.phase by
    obtain ⟨hT, hscene, hdiscovery, hsame⟩ := this
    exact ⟨hT, hscene ▸ hdiscovery ▸ hI.scene, hsame ▸ Or.inr hphase,
      hscene ▸ hsame ▸ hI.deinitialised, hsame ▸ hI.begun, hsame ▸ hI.unreturned⟩
  cases thread with
  | test =>
    have hsnapshot : s.snapshot = [] := by rw [snapshot, hthread]
    simp only at h
    split at h
    · -- a snapshot of the repository
      obtain rfl := Option.some.inj h
      have hsame : SameServices s { s with servicesThread := some (.iterate [] s.repository) } :=
        ⟨rfl, rfl, rfl, rfl⟩
      refine ⟨?_, rfl, rfl, rfl⟩
      rw [← release_nil { s with servicesThread := _ }]
      refine hI.toTracked.of_same hsame (fun v hv => ?_) (fun v hv => ?_)
      · simp only [held, List.append_assoc]
        exact List.mem_append_left _ hv
      · rw [hsnapshot] at hv
        cases hv
    · obtain rfl := Option.some.inj h
      exact ⟨hI.toTracked.congr ⟨rfl, rfl, rfl, rfl⟩ hsnapshot.symm, rfl, rfl, rfl⟩
  | iterate updated rest =>
    have hsnapshot : s.snapshot = updated ++ rest := by rw [snapshot, hthread]
    cases rest with
    | nil =>
      -- the snapshot is dropped
      obtain rfl := Option.some.inj h
      have hsame : SameServices s { s with servicesThread := some .test } := ⟨rfl, rfl, rfl, rfl⟩
      rw [List.append_nil] at hsnapshot
      exact ⟨hI.toTracked.of_same hsame nofun fun v hv => Or.inr (hsnapshot ▸ hv), rfl, rfl, rfl⟩
    | cons v rest =>
      obtain rfl := Option.some.inj h
      have hv : v ∈ s.held := List.mem_append_right _ (hsnapshot ▸ by simp)
      exact ⟨(hI.toTracked.update hv).congr ⟨rfl, rfl, rfl, rfl⟩ hsnapshot.symm, rfl, rfl, rfl⟩
  | updating subscribed updated v rest =>
    have hsnapshot : s.snapshot = updated ++ [v] ++ rest := by
      rw [snapshot, hthread]
      exact List.append_cons updated v rest
    obtain rfl := Option.some.inj h
    exact ⟨hI.toTracked.congr ⟨rfl, rfl, rfl, rfl⟩ hsnapshot.symm, rfl, rfl, rfl⟩
  | finished => cases h

/-- `deinit_window` leaves no scene. -/
theorem Invariant.deinitWindow (hI : Invariant s) (hjoined : s.phase = .joined) :
    Invariant { s.deinitWindow with phase := .deinitialised } := by
  obtain ⟨hT, hnone, hthread, -⟩ := hI.leaveScene
  have hended : s.servicesThread = none :=
    hI.servicesThread.resolve_right (by simp [hjoined])
  exact ⟨hT.congr ⟨rfl, rfl, rfl, rfl⟩ rfl, Or.inr hnone, Or.inl (hthread.trans hended),
    fun _ => rfl, nofun, nofun⟩

/-- Every step but the last keeps the invariant. -/
theorem Invariant.step {l : Step} (hI : Invariant s) (hl : l ≠ .cleanupServices)
    (h : step s l = some s') : Invariant s' := by
  -- before `run` and after `join` there is no thread
  have hended : ¬ (s.phase = .running ∨ s.phase = .ran ∨ s.phase = .stopped) →
      s.servicesThread = none := hI.servicesThread.resolve_right
  cases l with
  | init => exact absurd (Option.ite_none_right_eq_some.1 h).1 hI.begun
  | run =>
    obtain ⟨hphase, h⟩ := Option.ite_none_right_eq_some.1 h
    obtain rfl := Option.some.inj h
    have hnone : s.snapshot = [] := by rw [snapshot, hended (by simp [hphase])]
    exact ⟨hI.toTracked.congr ⟨rfl, rfl, rfl, rfl⟩ hnone.symm, hI.scene, Or.inr (Or.inl rfl),
      nofun, nofun, nofun⟩
  | connect =>
    obtain ⟨hphase, h⟩ := Option.ite_none_right_eq_some.1 h
    obtain rfl := Option.some.inj h
    exact ⟨hI.toTracked.congr ⟨rfl, rfl, rfl, rfl⟩ rfl, hI.scene, hI.servicesThread,
      hI.deinitialised, hI.begun, hI.unreturned⟩
  | uiTask =>
    simp only [MainLoop.step] at h
    split at h
    next task tasks hphase _ =>
      obtain rfl := Option.some.inj h
      have hI' : Invariant { s with uiTasks := tasks } :=
        ⟨hI.toTracked.congr ⟨rfl, rfl, rfl, rfl⟩ rfl, hI.scene, hI.servicesThread,
          hI.deinitialised, hI.begun, hI.unreturned⟩
      -- no task goes back to HomeScene
      exact hI'.setScene hphase (by cases task <;> decide)
    next => cases h
  | shutdown =>
    obtain ⟨hphase, h⟩ := Option.ite_none_right_eq_some.1 h
    obtain rfl := Option.some.inj h
    exact ⟨hI.toTracked.congr ⟨rfl, rfl, rfl, rfl⟩ rfl, hI.scene,
      Or.inr (Or.inr (Or.inl rfl)), nofun, nofun, nofun⟩
  | stopServices =>
    obtain ⟨hphase, h⟩ := Option.ite_none_right_eq_some.1 h
    obtain rfl := Option.some.inj h
    exact ⟨hI.toTracked.congr ⟨rfl, rfl, rfl, rfl⟩ rfl, hI.scene,
      Or.inr (Or.inr (Or.inr rfl)), nofun, nofun, nofun⟩
  | joinServices =>
    obtain ⟨hfinished, h⟩ := Option.ite_none_right_eq_some.1 h
    obtain rfl := Option.some.inj h
    have hnone : s.snapshot = [] := by rw [snapshot, hfinished.2]
    exact ⟨hI.toTracked.congr ⟨rfl, rfl, rfl, rfl⟩ hnone.symm, hI.scene, Or.inl rfl, nofun,
      nofun, nofun⟩
  | deinitWindow =>
    obtain ⟨hjoined, h⟩ := Option.ite_none_right_eq_some.1 h
    obtain rfl := Option.some.inj h
    exact hI.deinitWindow hjoined
  | cleanupServices => exact absurd rfl hl
  | servicesThread => exact hI.servicesThreadStep h
  | becomeReceiver =>
    simp only [MainLoop.step] at h
    split at h
    next =>
      obtain rfl := Option.some.inj h
      exact ⟨hI.toTracked.congr ⟨rfl, rfl, rfl, rfl⟩ rfl, hI.scene,
        hI.servicesThread, hI.deinitialised, hI.begun, hI.unreturned⟩
    next => cases h

/-! ## Runs -/

/-- After the last step nothing can happen. -/
theorem step_returned {l : Step} (hreturned : s.phase = .returned)
    (hended : s.servicesThread = none) : step s l = none := by
  cases l <;> simp [step, servicesThreadStep, hreturned, hended]

/-- `main` has not begun, is between `init` and the cleanup, or has returned. -/
theorem reachable_cases {ls : List Step} (h : machine.run empty ls = some s) :
    s = empty ∨ Invariant s ∨
      ∃ t, Invariant t ∧ t.phase = .deinitialised ∧ s = t.cleanupServices := by
  refine Machine.run_induction (motive := fun _ s => s = empty ∨ Invariant s ∨
    ∃ t, Invariant t ∧ t.phase = .deinitialised ∧ s = t.cleanupServices) (Or.inl rfl) ?_ h
  rintro ls s l s' - (rfl | hI | ⟨t, hI, hphase, rfl⟩) hstep
  · -- only `init` can come first
    have hl : l = .init := by
      cases l with
      | init => rfl
      | _ => simp [machine, step, servicesThreadStep, empty] at hstep
    subst hl
    obtain rfl := Option.some.inj hstep
    exact Or.inr (Or.inl .init)
  · by_cases hl : l = .cleanupServices
    · subst hl
      obtain ⟨hphase, hstep⟩ := Option.ite_none_right_eq_some.1 hstep
      exact Or.inr (Or.inr ⟨s, hI, hphase, (Option.some.inj hstep).symm⟩)
    · exact Or.inr (Or.inl (hI.step hl hstep))
  · have hended : t.servicesThread = none := hI.servicesThread.resolve_right (by simp [hphase])
    have hnone : step t.cleanupServices l = none := step_returned rfl hended
    cases hnone.symm.trans hstep

/-! ## What `main` leaves -/

/-- The loop of `cleanup` cleans up what is in the repository, once. -/
theorem Tracked.count_cleanup (h : Tracked s) (v : Service) :
    s.cleanupServices.calls.count (.cleanup v) = if v ∈ s.repository then 1 else 0 := by
  have hinj : Function.Injective ServiceCall.cleanup := fun _ _ => ServiceCall.cleanup.inj
  rw [cleanupServices, List.count_append, List.count_eq_zero.2 (h.uncleaned v), Nat.zero_add,
    List.count_map_of_injective _ _ hinj, h.nodup.count]

/-- Only cleanups are added. -/
theorem mem_cleanupServices_calls {c : ServiceCall} (hc : ∀ v, c ≠ .cleanup v) :
    c ∈ s.cleanupServices.calls ↔ c ∈ s.calls := by
  rw [cleanupServices, List.mem_append, or_iff_left]
  rintro hmem
  obtain ⟨v, -, rfl⟩ := List.mem_map.1 hmem
  exact hc v rfl

/-- Once the window is gone, no reference to a discovery service is left. -/
theorem Invariant.not_held_discovery (hI : Invariant s) (hphase : s.phase = .deinitialised)
    {v : Service} (hv : v.kind = .discovery) : v ∉ s.held := by
  have hended : s.servicesThread = none := hI.servicesThread.resolve_right (by simp [hphase])
  have hnone : s.discoveryService = none :=
    hI.scene.resolve_left (by simp [hI.deinitialised hphase])
  intro hmem
  simp only [held, snapshot, hended, hnone, Option.toList_none, List.append_nil, List.mem_append,
    Option.mem_toList] at hmem
  rcases hmem with hmem | hmem
  · cases hnone.symm.trans (hI.discovery v hmem hv)
  · cases hv.symm.trans (hI.communicationKind v hmem)

/-- The call of the main loop that a step of a discovery service carries out. -/
def call? (v : Service) : DiscoveryService.Step → Option ServiceCall
  | .message _ _ => none
  | .update _ _ => some (.update v)
  | .cleanup _ => some (.cleanup v)

/-- What a discovery service can have become, when it was initialised and then updated and cleaned
up as the calls say. -/
def Performs (lib : Nlohmann) (calls : List ServiceCall) (v : Service) (t : DiscoveryService) :
    Prop :=
  ∃ deviceId deviceName platform first second t₀ ls,
    DiscoveryService.init lib deviceId deviceName platform first second = .ok t₀ ∧
    (DiscoveryService.machine lib).run t₀ ls = some t ∧
    ls.filterMap (call? v) = calls.filter fun c => c = .update v ∨ c = .cleanup v

/-- A discovery service that is not cleaned up does not say that the device has gone. -/
theorem Performs.not_saysGone {lib : Nlohmann} (hlib : lib.Lawful) {calls : List ServiceCall}
    {v : Service} {t : DiscoveryService} (h : Performs lib calls v t)
    (huncleaned : .cleanup v ∉ calls) : ¬ t.SaysGone lib := by
  obtain ⟨deviceId, deviceName, platform, first, second, t₀, ls, hinit, hrun, hcalls⟩ := h
  rw [DiscoveryService.saysGone_iff hlib hinit hrun]
  rintro ⟨now, hnow⟩
  have hmem : .cleanup v ∈ ls.filterMap (call? v) := List.mem_filterMap.2 ⟨_, hnow, rfl⟩
  rw [hcalls] at hmem
  exact huncleaned (List.mem_of_mem_filter hmem)

end MainLoop

open MainLoop in
/-- The lifecycle of the services is never complete. In every run of `main` that returns, with any
frames, connects, scene switches and turns of the two threads, services are updated only after
they were initialised, and a communication service is cleaned up exactly once and not dropped
before. But a discovery service that was initialised is destroyed, is never cleaned up, and never
says that the device has gone. -/
theorem lifecycle_never_complete {ls : List Step} {s : MainLoop}
    (h : machine.run empty ls = some s) (hreturned : s.phase = .returned) :
    ¬ Complete s.calls ∧ UpdatedAfterInit s.calls ∧ ∀ v, .init v ∈ s.calls →
      match v.kind with
      | .communication => s.calls.count (.cleanup v) = 1 ∧ .destroy v ∉ s.calls
      | .discovery => .destroy v ∈ s.calls ∧ .cleanup v ∉ s.calls ∧
          ∀ lib : Nlohmann, lib.Lawful → ∀ t, Performs lib s.calls v t → ¬ t.SaysGone lib := by
  rcases reachable_cases h with rfl | hI | ⟨t, hI, hphase, rfl⟩
  · cases hreturned
  · exact absurd hreturned hI.unreturned
  have hinit : ∀ v, .init v ∈ t.cleanupServices.calls ↔ .init v ∈ t.calls :=
    fun v => mem_cleanupServices_calls nofun
  have hdestroy : ∀ v, .destroy v ∈ t.cleanupServices.calls ↔ .destroy v ∈ t.calls :=
    fun v => mem_cleanupServices_calls nofun
  -- HomeScene's service was dropped with the scene, and the loop does not find it
  have hdiscovery : ∀ v, .init v ∈ t.calls → v.kind = .discovery →
      .destroy v ∈ t.calls ∧ .cleanup v ∉ t.cleanupServices.calls := by
    intro v hv hvk
    have hout := hI.not_held_discovery hphase hvk
    refine ⟨(hI.accounted v hv).2 hout, List.count_eq_zero.1 ?_⟩
    rw [hI.count_cleanup, if_neg]
    intro hmem
    simp [held, hmem] at hout
  refine ⟨fun hcomplete => ?_, ?_, fun v hv => ?_⟩
  · obtain ⟨v, hvk, hv⟩ := hI.exists_discovery
    have hone := hcomplete.cleanedOnce v ((hinit v).2 hv)
    rw [List.count_eq_zero.2 (hdiscovery v hv hvk).2] at hone
    cases hone
  · refine hI.updatedAfterInit.append fun v hv => ?_
    simp at hv
  · rw [hinit] at hv
    split
    next hvk =>
      have hmem := hI.communication v hv hvk
      rw [hI.count_cleanup, if_pos hmem, hdestroy, hI.accounted v hv]
      exact ⟨rfl, not_not_intro (by simp [held, hmem])⟩
    next hvk =>
      obtain ⟨hdestroyed, huncleaned⟩ := hdiscovery v hv hvk
      exact ⟨(hdestroy v).2 hdestroyed, huncleaned,
        fun lib hlib t ht => ht.not_saysGone hlib huncleaned⟩

/-- A Connect button is clicked while the services are updated, and the window is closed in the
scene of the sender. -/
def MainLoop.connectedRun : List MainLoop.Step :=
  [.init, .run, .servicesThread, .servicesThread, .connect, .uiTask, .servicesThread,
    .servicesThread, .servicesThread, .servicesThread, .shutdown, .stopServices, .servicesThread,
    .joinServices, .deinitWindow, .cleanupServices]

open MainLoop in
/-- HomeScene is left for another scene, and its discovery service goes with the snapshot of the
services thread. -/
theorem lifecycle_never_complete_connected : ∃ s,
    machine.run empty connectedRun = some s ∧ s.phase = .returned ∧
    s.calls = [.init ⟨.discovery, 0⟩, .init ⟨.communication, 1⟩, .update ⟨.discovery, 0⟩,
      .update ⟨.communication, 1⟩, .destroy ⟨.discovery, 0⟩, .cleanup ⟨.communication, 1⟩] ∧
    ¬ Complete s.calls := by
  have hrun : ∃ s ∈ machine.run empty connectedRun, s.phase = .returned ∧
      s.calls = [.init ⟨.discovery, 0⟩, .init ⟨.communication, 1⟩, .update ⟨.discovery, 0⟩,
        .update ⟨.communication, 1⟩, .destroy ⟨.discovery, 0⟩,
        .cleanup ⟨.communication, 1⟩] := by
    decide
  obtain ⟨s, hs, hreturned, hcalls⟩ := hrun
  exact ⟨s, hs, hreturned, hcalls, (lifecycle_never_complete hs hreturned).1⟩

open MainLoop in
/-- The window is closed in the first frame, and HomeScene takes its discovery service away before
the loop of `cleanup` looks for it. -/
theorem closed_window_uncleaned : ¬ ∀ ls s, machine.run empty ls = some s →
    s.phase = .returned → Complete s.calls := by
  intro hcomplete
  have hrun : ∃ s ∈ machine.run empty [.init, .run, .shutdown, .stopServices, .servicesThread,
        .joinServices, .deinitWindow, .cleanupServices],
      s.phase = .returned ∧ .init ⟨.discovery, 0⟩ ∈ s.calls ∧
        s.calls.count (.cleanup ⟨.discovery, 0⟩) = 0 := by
    decide
  obtain ⟨s, hs, hreturned, hinit, hnone⟩ := hrun
  have hone := (hcomplete _ s hs hreturned).cleanedOnce _ hinit
  rw [hnone] at hone
  cases hone

end Keyleport
