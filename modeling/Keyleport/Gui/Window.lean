import Keyleport.Sender.Scene
import Keyleport.Session.Device

/-!
# The window

`gui/framework/ui_window.cpp` and `gui/framework/window_sdl_imgui.cpp`, with what `SenderScene`
does to the window. The main thread calls the functions of the framework; scenes call back into
it, and the tasks of `process_ui_tasks` change the scene in the middle of a frame.

* `Gui.machine`: the functions of the framework in any order, with the answers of SDL and the tasks
  of each frame as arguments. Calls of SDL, Dear ImGui and the scenes are logged.
* `GuiLibrary.machine`: the use of SDL and Dear ImGui that is allowed.
* `sceneMachine`: the calls that scenes expect.
* `routingMachine`: where the events that are polled go.
* `Confinement`: what SDL was asked to do with the mouse last.

An error of `SdlImGuiWindow::init` is caught nowhere, so it ends the program.
-/

namespace Keyleport

/-- An event that `SDL_PollEvent` gives. -/
inductive PolledEvent where
  /-- `SDL_EVENT_QUIT`. -/
  | quit
  /-- `SDL_EVENT_WINDOW_CLOSE_REQUESTED`, and whether it is for the window of the program. -/
  | windowCloseRequested (ours : Bool)
  | input (event : SdlEvent)
deriving DecidableEq, Repr

/-- The event as scenes see it. -/
def PolledEvent.raw : PolledEvent → SdlEvent
  | .quit => .other 0x100
  | .windowCloseRequested _ => .other 0x210
  | .input event => event

/-- A call of SDL, Dear ImGui, a scene or the flow. -/
inductive GuiCall where
  /-- `SDL_Init`. -/
  | sdlInit
  | createWindow (created : Bool)
  | createRenderer (created : Bool)
  /-- `ImGui::CreateContext`. -/
  | createContext
  | getWindowSize
  /-- `ImGui_ImplSDL3_InitForSDLRenderer`. -/
  | platformInit
  /-- `ImGui_ImplSDLRenderer3_Init`. -/
  | rendererInit
  | rendererShutdown
  | platformShutdown
  | destroyContext
  | destroyRenderer
  | destroyWindow
  | sdlQuit
  | pollEvent (event : PolledEvent)
  /-- `ImGui_ImplSDL3_ProcessEvent`. -/
  | processEvent (event : PolledEvent)
  /-- `NewFrame` of both backends and of Dear ImGui. -/
  | newFrame
  /-- `ImGui::Render`. -/
  | render
  /-- The drawing of the frame, up to `SDL_RenderPresent`. -/
  | present
  | setMouseGrab (grabbed : Bool)
  | setMouseRect (rect : Option (Int32 × Int32))
  | setRelativeMouseMode (enabled : Bool)
  | didMount (scene : Scene)
  | willUnmount (scene : Scene)
  | handleInput (scene : Scene) (event : PolledEvent)
  | renderScene (scene : Scene)
  /-- `SenderFlow::push_event`. -/
  | pushEvent (event : InputEvent)
deriving DecidableEq, Repr

/-! ## What SDL and Dear ImGui allow -/

/-- What is live of SDL and Dear ImGui. -/
structure GuiLibrary where
  sdl : Bool
  window : Bool
  renderer : Bool
  context : Bool
  platformBackend : Bool
  rendererBackend : Bool
  /-- Between `ImGui::NewFrame` and `ImGui::Render`. -/
  inFrame : Bool
deriving DecidableEq, Repr

namespace GuiLibrary

/-- Before `SDL_Init`. -/
def new : GuiLibrary := ⟨false, false, false, false, false, false, false⟩

/-- With everything a frame needs. -/
def live (inFrame : Bool) : GuiLibrary := ⟨true, true, true, true, true, true, inFrame⟩

/-- A call that is allowed: nothing is created twice, used before it is created or after it is
destroyed, or destroyed while something else needs it. -/
def step (e : GuiLibrary) : GuiCall → Option GuiLibrary
  | .sdlInit => if e.sdl then none else some { e with sdl := true }
  | .createWindow created =>
      if e.sdl ∧ !e.window then some { e with window := created } else none
  | .createRenderer created =>
      if e.window ∧ !e.renderer then some { e with renderer := created } else none
  | .createContext => if e.context then none else some { e with context := true }
  | .platformInit =>
      if e.window ∧ e.renderer ∧ e.context ∧ !e.platformBackend then
        some { e with platformBackend := true }
      else none
  | .rendererInit =>
      if e.renderer ∧ e.context ∧ !e.rendererBackend then some { e with rendererBackend := true }
      else none
  | .rendererShutdown =>
      if e.rendererBackend ∧ !e.inFrame then some { e with rendererBackend := false } else none
  | .platformShutdown =>
      if e.platformBackend ∧ !e.inFrame then some { e with platformBackend := false } else none
  | .destroyContext =>
      if e.context ∧ !e.platformBackend ∧ !e.rendererBackend then some { e with context := false }
      else none
  | .destroyRenderer =>
      if e.renderer ∧ !e.platformBackend ∧ !e.rendererBackend then
        some { e with renderer := false }
      else none
  | .destroyWindow => if e.window ∧ !e.renderer then some { e with window := false } else none
  | .sdlQuit => if e.sdl ∧ !e.window then some { e with sdl := false } else none
  | .pollEvent _ => if e.sdl then some e else none
  | .processEvent _ => if e.platformBackend then some e else none
  | .newFrame =>
      if e.platformBackend ∧ e.rendererBackend ∧ !e.inFrame then some { e with inFrame := true }
      else none
  | .render => if e.inFrame then some { e with inFrame := false } else none
  | .present => if e.renderer ∧ e.rendererBackend ∧ !e.inFrame then some e else none
  | .getWindowSize | .setMouseGrab _ | .setMouseRect _ | .setRelativeMouseMode _ =>
      if e.window then some e else none
  -- a scene draws in a frame, and may use the window and Dear ImGui whenever it is called
  | .renderScene _ => if e.inFrame then some e else none
  | .didMount _ | .willUnmount _ | .handleInput _ _ | .pushEvent _ =>
      if e.window ∧ e.context then some e else none

/-- The allowed uses of SDL and Dear ImGui. -/
def machine : Machine GuiLibrary GuiCall := ⟨step⟩

end GuiLibrary

/-! ## What scenes expect -/

/-- The scene that is mounted after a call, which is one that scenes expect: they are mounted one
at a time, and only called while they are. -/
def sceneStep (mounted : Option Scene) : GuiCall → Option (Option Scene)
  | .didMount scene => if mounted = none then some (some scene) else none
  | .willUnmount scene => if mounted = some scene then some none else none
  | .handleInput scene _ | .renderScene scene => if mounted = some scene then some mounted else none
  | .pushEvent _ => if mounted = some .sender then some mounted else none
  | _ => some mounted

/-- The calls that scenes expect. -/
def sceneMachine : Machine (Option Scene) GuiCall := ⟨sceneStep⟩

/-- The event that has gone nowhere yet after a call: it goes to the flow or to Dear ImGui, before
the next one is polled or a frame begins. -/
def routingStep (pending : Option PolledEvent) : GuiCall → Option (Option PolledEvent)
  | .pollEvent event => if pending = none then some (some event) else none
  | .processEvent event => if pending = some event then some none else none
  | .pushEvent event =>
      if pending.map (fun polled => InputEvent.fromSDL polled.raw) = some event then some none
      else none
  | .newFrame => if pending = none then some none else none
  | _ => some pending

/-- The ways of the events. -/
def routingMachine : Machine (Option PolledEvent) GuiCall := ⟨routingStep⟩

/-! ## The mouse -/

/-- What SDL was asked to do with the mouse last. -/
structure Confinement where
  grab : Bool
  rect : Option (Int32 × Int32)
  relative : Bool
deriving DecidableEq, Repr

namespace Confinement

/-- The mouse is free. -/
def free : Confinement := ⟨false, none, false⟩

/-- After one more call. A new window leaves the mouse free. -/
def after (m : Confinement) : GuiCall → Confinement
  | .createWindow _ => free
  | .setMouseGrab grabbed => { m with grab := grabbed }
  | .setMouseRect rect => { m with rect := rect }
  | .setRelativeMouseMode enabled => { m with relative := enabled }
  | _ => m

end Confinement

/-! ## The framework -/

/-- `SdlImGuiWindow`. -/
structure SdlImGuiWindow where
  /-- Whether `window_` is set. -/
  window : Bool
  /-- Whether `renderer_` is set. -/
  renderer : Bool
  initialized : Bool
  scene : Option Scene
deriving DecidableEq, Repr

/-- What SDL answers to `SdlImGuiWindow::init`. -/
structure InitAnswers where
  /-- Whether `SDL_CreateWindow` gives a window. -/
  window : Bool
  /-- Whether `SDL_CreateRenderer` gives a renderer. -/
  renderer : Bool
deriving DecidableEq, Repr

/-- What a frame meets: the events that are pending, the size of the window if Continue is
clicked, and the tasks of `process_ui_tasks`, each with the size of the window then. -/
structure FrameInput where
  events : List PolledEvent
  continueClick : Option (Int32 × Int32)
  tasks : List (UiTask × Int32 × Int32)
deriving DecidableEq, Repr

/-- The framework and the sender scene, with the calls made. -/
structure Gui where
  /-- `singleton()`. -/
  singleton : Option SdlImGuiWindow
  /-- `UIInputManager` and the sender scene, which is mounted while it has a flow. -/
  sender : SenderScene
  /-- Whether an error has ended the program. -/
  terminated : Bool
  /-- The calls made, oldest first. -/
  calls : List GuiCall
deriving DecidableEq

namespace Gui

/-- Before `main`. -/
def start : Gui := ⟨none, .init, false, []⟩

/-- `new SdlImGuiWindow()`. -/
def newWindow : SdlImGuiWindow := ⟨false, false, false, none⟩

/-- Calls are made. -/
def call (s : Gui) (cs : List GuiCall) : Gui := { s with calls := s.calls ++ cs }

@[simp]
theorem call_sender (s : Gui) (cs : List GuiCall) : (s.call cs).sender = s.sender := rfl

@[simp]
theorem call_singleton (s : Gui) (cs : List GuiCall) : (s.call cs).singleton = s.singleton := rfl

/-- Whether there is a window that is initialised. -/
def initialized (s : Gui) : Bool := s.singleton.any SdlImGuiWindow.initialized

/-- `scene_`. -/
def scene (s : Gui) : Option Scene := s.singleton.bind SdlImGuiWindow.scene

/-- `scene_ = scene`. -/
def withScene (s : Gui) (scene : Option Scene) : Gui :=
  { s with singleton := s.singleton.map fun w => { w with scene := scene } }

/-- `SdlImGuiWindow::init`. -/
def init (s : Gui) (w : SdlImGuiWindow) (answers : InitAnswers) : Except Gui Gui :=
  if w.initialized then .ok s
  else if !answers.window then
    .error (s.call [.sdlInit, .createWindow false, .sdlQuit])
  else if !answers.renderer then
    .error (s.call [.sdlInit, .createWindow true, .createRenderer false, .destroyWindow, .sdlQuit])
  else
    .ok { s.call [.sdlInit, .createWindow true, .createRenderer true, .createContext,
        .getWindowSize, .platformInit, .rendererInit] with
      singleton := some { w with window := true, renderer := true, initialized := true } }

/-- `get_window`. -/
def getWindow (s : Gui) (answers : InitAnswers) : Except Gui Gui :=
  let w := s.singleton.getD newWindow
  { s with singleton := some w }.init w answers

/-- `init_window`, which does the same. -/
def initWindow (s : Gui) (answers : InitAnswers) : Except Gui Gui := s.getWindow answers

/-! ### The mouse -/

/-- `SdlImGuiWindow::apply_mouse_confinement`. A call that SDL refuses is only reported. -/
def applyMouseConfinement (s : Gui) (size : Int32 × Int32) : Gui :=
  if s.singleton.any SdlImGuiWindow.window then
    s.call ([.setMouseGrab true, .getWindowSize] ++
      (if size.1 ≤ 0 ∨ size.2 ≤ 0 then [] else [.setMouseRect (some size)]) ++
      [.setRelativeMouseMode true])
  else s

/-- `SdlImGuiWindow::release_mouse_confinement`. -/
def releaseMouseConfinement (s : Gui) : Gui :=
  if s.singleton.any SdlImGuiWindow.window then
    s.call [.setRelativeMouseMode false, .setMouseGrab false, .setMouseRect none]
  else s

/-- `SenderScene::apply_mouse_confinement`. -/
def senderApply (s : Gui) (answers : InitAnswers) (size : Int32 × Int32) : Except Gui Gui := do
  let s ← s.getWindow answers
  let s := s.applyMouseConfinement size
  return { s with sender := { s.sender with isMouseContained := true } }

/-- `SenderScene::release_mouse_confinement`. -/
def senderRelease (s : Gui) (answers : InitAnswers) : Except Gui Gui := do
  let s ← s.getWindow answers
  let s := s.releaseMouseConfinement
  return { s with sender := { s.sender with isMouseContained := false } }

/-! ### Scenes -/

/-- `didMount` of a scene. The other two do nothing to the window. -/
def didMount (s : Gui) (answers : InitAnswers) (size : Int32 × Int32) (scene : Scene) :
    Except Gui Gui :=
  let s := s.call [.didMount scene]
  if scene = .sender then do
    let s ← s.senderApply answers size
    return { s with sender := { s.sender with mounted := true } }
  else .ok s

/-- `willUnmount` of a scene. -/
def willUnmount (s : Gui) (answers : InitAnswers) (scene : Scene) : Except Gui Gui :=
  let s := s.call [.willUnmount scene]
  if scene = .sender then do
    let s ← s.senderRelease answers
    return { s with sender := { s.sender with mounted := false } }
  else .ok s

/-- `SdlImGuiWindow::setScene`. -/
def setScene (s : Gui) (answers : InitAnswers) (size : Int32 × Int32) (scene : Option Scene) :
    Except Gui Gui :=
  if s.scene = scene then .ok s
  else do
    let s ← s.scene.elim (.ok s) (s.willUnmount answers)
    let s := s.withScene scene
    scene.elim (.ok s) (s.didMount answers size)

/-- `set_window_scene`. -/
def setWindowScene (s : Gui) (answers : InitAnswers) (size : Int32 × Int32)
    (scene : Option Scene) : Except Gui Gui :=
  match s.singleton with
  | none => do
      let s ← { s with singleton := some newWindow }.init newWindow answers
      s.setScene answers size scene
  | some _ => s.setScene answers size scene

/-- `SdlImGuiWindow::deinit`. -/
def deinit (s : Gui) (w : SdlImGuiWindow) (answers : InitAnswers) : Except Gui Gui :=
  if w.initialized then do
    let s ← w.scene.elim (.ok s) (s.willUnmount answers)
    let s := s.call ([.rendererShutdown, .platformShutdown, .destroyContext] ++
      (if w.renderer then [.destroyRenderer] else []) ++
      (if w.window then [.destroyWindow] else []) ++ [.sdlQuit])
    return { s with singleton := some newWindow }
  else .ok s

/-- `deinit_window`. -/
def deinitWindow (s : Gui) (answers : InitAnswers) : Except Gui Gui :=
  match s.singleton with
  | none => .ok s
  | some w => do
      let s ← s.deinit w answers
      return { s with singleton := none }

/-! ### Frames -/

/-- `SenderScene::handleInput`. -/
def senderHandleInput (s : Gui) (answers : InitAnswers) (event : SdlEvent) : Except Gui Gui := do
  let s ← if SenderScene.isReleaseHotkey s.sender.pressed event then s.senderRelease answers
    else .ok s
  return { s with sender := s.sender.handleInput event }

/-- An event goes to the scene, and from there to Dear ImGui. -/
def dispatchEvent (s : Gui) (answers : InitAnswers) (event : PolledEvent) : Except Gui Gui :=
  match s.scene with
  | some .sender => do
      let s ← (s.call [.handleInput .sender event]).senderHandleInput answers event.raw
      -- while the mouse is contained, the scene stops the propagation
      return s.call [if s.sender.isMouseContained then .pushEvent (.fromSDL event.raw)
        else .processEvent event]
  | some scene => .ok (s.call [.handleInput scene event, .processEvent event])
  | none => .ok (s.call [.processEvent event])

/-- The keys that are down after an event. -/
def updateKeys (s : Gui) (event : PolledEvent) : Gui :=
  { s with sender := { s.sender with
    pressed := SenderScene.updatePressed s.sender.pressed event.raw } }

/-- One turn of the event loop of `SdlImGuiWindow::frame`. -/
def pollEvent (s : Gui) (answers : InitAnswers) (event : PolledEvent) : Except Gui Gui :=
  ((s.call [.pollEvent event]).updateKeys event).dispatchEvent answers event

/-- Whether an event makes `frame` return false. -/
def stopsRunning (s : Gui) : PolledEvent → Bool
  | .quit => true
  | .windowCloseRequested ours => ours && s.singleton.any SdlImGuiWindow.window
  | .input _ => false

/-- `render` of the scene. Only the button of the sender scene does something to the window. -/
def renderScene (s : Gui) (answers : InitAnswers) (continueClick : Option (Int32 × Int32)) :
    Except Gui Gui :=
  match s.scene with
  | some .sender =>
      let s := s.call [.renderScene .sender]
      -- the button is only shown while the mouse is not contained
      if s.sender.isMouseContained then .ok s
      else continueClick.elim (.ok s) (s.senderApply answers)
  | some scene => .ok (s.call [.renderScene scene])
  | none => .ok s

/-- `SdlImGuiWindow::frame`, with what it returns. -/
def frame (s : Gui) (answers : InitAnswers) (input : FrameInput) : Except Gui (Gui × Bool) :=
  if s.initialized then do
    let running := !input.events.any s.stopsRunning
    let s ← input.events.foldlM (fun s event => s.pollEvent answers event) s
    let s ← (s.call [.newFrame]).renderScene answers input.continueClick
    let s ← input.tasks.foldlM
      (fun s task => s.setWindowScene answers task.2 (some task.1.scene)) s
    return (s.call [.render, .present], running)
  else .ok (s, false)

/-- `window_frame`. -/
def windowFrame (s : Gui) (answers : InitAnswers) (input : FrameInput) :
    Except Gui (Gui × Bool) :=
  match s.singleton with
  | none => .ok (s, false)
  | some _ => s.frame answers input

/-! ### The machine -/

/-- The calls of the framework. -/
inductive Step where
  | initWindow (answers : InitAnswers)
  | deinitWindow (answers : InitAnswers)
  | setWindowScene (scene : Option Scene) (answers : InitAnswers) (size : Int32 × Int32)
  | getWindow (answers : InitAnswers)
  | windowFrame (answers : InitAnswers) (input : FrameInput)
deriving DecidableEq, Repr

/-- What a call does, or the state in which an error leaves it. -/
def perform (s : Gui) : Step → Except Gui Gui
  | .initWindow answers => s.initWindow answers
  | .deinitWindow answers => s.deinitWindow answers
  | .setWindowScene scene answers size => s.setWindowScene answers size scene
  | .getWindow answers => s.getWindow answers
  | .windowFrame answers input => (s.windowFrame answers input).map Prod.fst

/-- One call, unless an error has ended the program. -/
def step (s : Gui) (l : Step) : Option Gui :=
  if s.terminated then none
  else match s.perform l with
    | .ok s' => some s'
    | .error s' => some { s' with terminated := true }

/-- The framework as a machine. -/
def machine : Machine Gui Step := ⟨step⟩

end Gui

end Keyleport
