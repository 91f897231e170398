import Keyleport.Session.Device

/-!
# The main loop

`main.cpp`, `services/main_loop/main_loop.cpp` and `services/services_repository.h`, with what
`gui/scenes/home/home_scene.cpp` and `gui/framework/window_sdl_imgui.cpp` do to the repository.

The main thread and the services thread take turns in any order. A frame of the window is not one
step: the click on a Connect button, each task of `process_ui_tasks` and the end of the loop are
steps of their own. The calls that services receive are logged, and so is their destruction, which
happens when the last `shared_ptr` to a service goes.
-/

namespace Keyleport

/-- The classes derived from `service_lifecycle_listener`. -/
inductive ServiceKind where
  | discovery
  | communication
deriving DecidableEq, Repr

/-- The object that a `shared_ptr` to a service points to. -/
structure Service where
  kind : ServiceKind
  /-- Which `make_shared` made it. -/
  id : ℕ
deriving DecidableEq, Repr

/-- A call of a member function of a service, or its destruction. -/
inductive ServiceCall where
  | init (service : Service)
  | update (service : Service)
  | cleanup (service : Service)
  | destroy (service : Service)
deriving DecidableEq, Repr

/-- Where the services thread is in its loop. -/
inductive ServicesThread where
  /-- At the test of `services_running_`. -/
  | test
  /-- In the loop over the snapshot: the services updated, and those still to update. -/
  | iterate (updated rest : List Service)
  /-- In the `update` of a service, and whether HomeScene was subscribed when it was called. -/
  | updating (subscribed : Bool) (updated : List Service) (service : Service)
      (rest : List Service)
  /-- The thread has ended. -/
  | finished
deriving DecidableEq, Repr

/-- How far `main` has come. -/
inductive MainPhase where
  | start
  /-- `init` has returned. -/
  | initialised
  /-- In the loop of `run`. -/
  | running
  /-- `run` has returned. -/
  | ran
  /-- `cleanup` has cleared `services_running_`. -/
  | stopped
  /-- The services thread is joined. -/
  | joined
  /-- `deinit_window` has returned. -/
  | deinitialised
  /-- The services are cleaned up and `main` returns. -/
  | returned
deriving DecidableEq, Repr

/-- The program: `main_loop`, the repository, the window and HomeScene. -/
structure MainLoop where
  phase : MainPhase
  servicesRunning : Bool
  servicesThread : Option ServicesThread
  /-- `services_` of the repository. -/
  repository : List Service
  /-- The number of services made so far. -/
  made : ℕ
  /-- `scene_` of the window. -/
  scene : Option Scene
  /-- `discovery_service_` of HomeScene. -/
  discoveryService : Option Service
  /-- `communication_service_` of HomeScene. -/
  communicationService : Option Service
  /-- Whether HomeScene is subscribed to `on_package`. -/
  subscribed : Bool
  /-- The UI task queue, front first. -/
  uiTasks : List UiTask
  /-- The calls so far, oldest first. -/
  calls : List ServiceCall
deriving DecidableEq, Repr

namespace MainLoop

/-- The program before `main`. -/
def empty : MainLoop where
  phase := .start
  servicesRunning := false
  servicesThread := none
  repository := []
  made := 0
  scene := none
  discoveryService := none
  communicationService := none
  subscribed := false
  uiTasks := []
  calls := []

/-! ## References -/

/-- The snapshot that the services thread holds. -/
def snapshot (s : MainLoop) : List Service :=
  match s.servicesThread with
  | some (.iterate updated rest) => updated ++ rest
  | some (.updating _ updated service rest) => updated ++ service :: rest
  | _ => []

/-- The services to which there is a reference. SenderFlow's is left out, since HomeScene keeps
its own until after `main`. -/
def held (s : MainLoop) : List Service :=
  s.repository ++ s.discoveryService.toList ++ s.communicationService.toList ++ s.snapshot

/-- References to `services` have gone: those without another one are destroyed. -/
def release (s : MainLoop) (services : List Service) : MainLoop :=
  { s with calls := s.calls ++ (services.filter fun v => v ∉ s.held).map .destroy }

/-! ## Scenes -/

/-- `HomeScene::didMount`. -/
def homeDidMount (s : MainLoop) : MainLoop :=
  let discoveryService : Service := ⟨.discovery, s.made⟩
  let communicationService : Service := ⟨.communication, s.made + 1⟩
  { s with
    made := s.made + 2
    discoveryService := some discoveryService
    communicationService := some communicationService
    repository := s.repository ++ [discoveryService] ++ [communicationService]
    subscribed := true }

/-- `remove_service` of the discovery service, and the reset of HomeScene's pointer to it. -/
def dropDiscoveryService (s : MainLoop) (discoveryService : Service) : MainLoop :=
  { s with
    repository := s.repository.filter fun v => v ≠ discoveryService
    discoveryService := none }.release [discoveryService]

/-- `HomeScene::willUnmount`. -/
def homeWillUnmount (s : MainLoop) : MainLoop :=
  { s.discoveryService.elim s s.dropDiscoveryService with subscribed := false }

/-- `willUnmount` of a scene. The other two do not touch the repository. -/
def willUnmount (s : MainLoop) : Scene → MainLoop
  | .home => s.homeWillUnmount
  | _ => s

/-- `didMount` of a scene. -/
def didMount (s : MainLoop) : Scene → MainLoop
  | .home => s.homeDidMount
  | _ => s

/-- `SdlImGuiWindow::setScene`. -/
def setScene (s : MainLoop) (scene : Scene) : MainLoop :=
  if s.scene = some scene then s
  else
    let s := s.scene.elim s s.willUnmount
    { s with scene := some scene }.didMount scene

/-- `SdlImGuiWindow::deinit`, as far as the scene. -/
def deinitWindow (s : MainLoop) : MainLoop :=
  { s.scene.elim s s.willUnmount with scene := none }

/-! ## The loops of `main_loop` -/

/-- `init`. -/
def init (s : MainLoop) : MainLoop :=
  let s := s.setScene .home
  { s with calls := s.calls ++ s.repository.map .init, phase := .initialised }

/-- The services thread goes on. -/
def servicesThreadStep (s : MainLoop) : Option MainLoop :=
  s.servicesThread.bind fun
  | .test =>
      if s.servicesRunning then
        some { s with servicesThread := some (.iterate [] s.repository) }
      else some { s with servicesThread := some .finished }
  | .iterate updated (v :: rest) =>
      some { s with
        servicesThread := some (.updating s.subscribed updated v rest)
        calls := s.calls ++ [.update v] }
  | .updating _ updated v rest =>
      some { s with servicesThread := some (.iterate (updated ++ [v]) rest) }
  | .iterate updated [] =>
      -- the thread has slept, and the scope of the snapshot ends
      some ({ s with servicesThread := some .test }.release updated)
  | .finished => none

/-- The loop of `cleanup` over the repository. -/
def cleanupServices (s : MainLoop) : MainLoop :=
  { s with calls := s.calls ++ s.repository.map .cleanup, phase := .returned }

/-! ## The machine -/

/-- The steps of the two threads. -/
inductive Step where
  /-- `init` of the main loop. -/
  | init
  /-- `run`, up to its loop. -/
  | run
  /-- A Connect button of HomeScene is clicked. -/
  | connect
  /-- `process_ui_tasks` takes a task. -/
  | uiTask
  /-- `window_frame` returns false: `shutdown`, and `run` returns. -/
  | shutdown
  /-- `cleanup` up to the `join`. -/
  | stopServices
  | joinServices
  | deinitWindow
  | cleanupServices
  | servicesThread
  /-- A become_receiver package of a listed device, while the services are updated. -/
  | becomeReceiver
deriving DecidableEq, Repr

/-- One step. -/
def step (s : MainLoop) : Step → Option MainLoop
  | .init => if s.phase = .start then some s.init else none
  | .run =>
      if s.phase = .initialised then
        some { s with
          phase := .running, servicesRunning := true, servicesThread := some .test }
      else none
  | .connect =>
      if s.phase = .running ∧ s.scene = some .home then
        some { s with uiTasks := s.uiTasks ++ [.setSenderScene] }
      else none
  | .uiTask =>
      match s.phase, s.uiTasks with
      | .running, task :: tasks => some ({ s with uiTasks := tasks }.setScene task.scene)
      | _, _ => none
  | .shutdown => if s.phase = .running then some { s with phase := .ran } else none
  | .stopServices =>
      if s.phase = .ran then some { s with phase := .stopped, servicesRunning := false } else none
  | .joinServices =>
      if s.phase = .stopped ∧ s.servicesThread = some .finished then
        some { s with phase := .joined, servicesThread := none }
      else none
  | .deinitWindow =>
      if s.phase = .joined then some { s.deinitWindow with phase := .deinitialised } else none
  | .cleanupServices => if s.phase = .deinitialised then some s.cleanupServices else none
  | .servicesThread => s.servicesThreadStep
  | .becomeReceiver =>
      match s.servicesThread with
      | some (.updating true _ ⟨.communication, _⟩ _) =>
          some { s with uiTasks := s.uiTasks ++ [.setReceiverScene] }
      | _ => none

/-- The program as a machine. -/
def machine : Machine MainLoop Step := ⟨step⟩

end MainLoop

end Keyleport
