import Keyleport.Lib.PressTracker
import Keyleport.Sender.Scene
import Mathlib.Data.Option.Basic

/-!
# Keys left held on the receiver

The receiver presses and releases what the sender scene forwards. Forwarding ends when the mouse
is released or the scene is unmounted, and nothing is forwarded then for what is still down, the
keys of the release hotkey to begin with. Events that are not converted are forwarded as a press
of key 0, which nothing releases.

* `SenderScene.heldKeys`: the keys and buttons down at the scene.
* `SenderScene.containedEvents`: the events of a run that arrive while the mouse is contained.
* `held_keys_iff`: in a run, no key or button is ever left held if and only if forwarding never
  ends while one is down.
* `hotkey_leaves_held`: Ctrl + Alt + Esc leaves Ctrl and Alt held.
-/

namespace Keyleport

namespace SenderScene

/-- A key or a mouse button, by its code. -/
abbrev Key := InputEventType × UInt16

/-- The press (`true`) or release of a key or button that an event is. -/
def edge (ev : InputEvent) : Option (Key × Bool) :=
  if ev.action = .down then some ((ev.type, ev.code), true)
  else if ev.action = .up then some ((ev.type, ev.code), false)
  else none

/-- Whether the last press or release of a key in a list of events is a press. -/
def lastEdge (k : Key) (evs : List InputEvent) : Option Bool :=
  PressTracker.last k (evs.filterMap edge)

/-- The keys and buttons down after one more event. One that is not converted counts as a press
of key 0. -/
def trackEvent (down : Finset Key) : SdlEvent → Finset Key
  | .keyDown scancode => insert (.key, scancode.toUInt16) down
  | .keyUp scancode => down.erase (.key, scancode.toUInt16)
  | .mouseMotion _ _ => down
  | .mouseWheel _ _ => down
  | .mouseButtonDown button => insert (.mouse, button.toUInt16) down
  | .mouseButtonUp button => down.erase (.mouse, button.toUInt16)
  | .windowFocusLost => insert (.key, 0) down
  | .other _ => insert (.key, 0) down

/-- The keys and buttons whose press was among the events and whose release was not. -/
def heldKeys (events : List SdlEvent) : Finset Key := events.foldl trackEvent ∅

/-- The keys down at the scene are those down in what is forwarded. -/
theorem heldKeys_eq (events : List SdlEvent) :
    heldKeys events = PressTracker.held ((events.map InputEvent.fromSDL).filterMap edge) := by
  induction events using List.reverseRecOn with
  | nil => rfl
  | append_singleton events e ih =>
    have hsplit : heldKeys (events ++ [e]) = trackEvent (heldKeys events) e := by
      rw [heldKeys, List.foldl_append]
      rfl
    -- an event is at most one press or release
    have hconcat : ∀ edge', edge (InputEvent.fromSDL e) = some edge' →
        PressTracker.held (((events ++ [e]).map InputEvent.fromSDL).filterMap edge) =
          PressTracker.track (heldKeys events) edge' := by
      intro edge' hedge
      rw [List.map_append, List.filterMap_append, ih, ← PressTracker.held_concat]
      simp [hedge]
    have hnone : edge (InputEvent.fromSDL e) = none →
        PressTracker.held (((events ++ [e]).map InputEvent.fromSDL).filterMap edge) =
          heldKeys events := by
      intro hedge
      rw [List.map_append, List.filterMap_append, ih]
      simp [hedge]
    rw [hsplit]
    cases e with
    | mouseMotion xrel yrel => exact (hnone rfl).symm
    | mouseWheel x y => exact (hnone rfl).symm
    | keyDown scancode => exact (hconcat ((.key, scancode.toUInt16), true) rfl).symm
    | keyUp scancode => exact (hconcat ((.key, scancode.toUInt16), false) rfl).symm
    | mouseButtonDown button => exact (hconcat ((.mouse, button.toUInt16), true) rfl).symm
    | mouseButtonUp button => exact (hconcat ((.mouse, button.toUInt16), false) rfl).symm
    | windowFocusLost => exact (hconcat ((.key, 0), true) rfl).symm
    | other type => exact (hconcat ((.key, 0), true) rfl).symm

/-- The event of a step, if it arrives while the mouse is contained and does not release it. -/
def containedEvent? (s : SenderScene) : Step → Option SdlEvent
  | .event e => if s.Released ∨ s.endsForwarding (.event e) then none else some e
  | _ => none

/-- The events of a run that arrive while the mouse is contained. -/
def containedEvents (s : SenderScene) : List Step → List SdlEvent
  | [] => []
  | l :: ls => (s.containedEvent? l).toList ++ (s.step l).elim [] fun s' => containedEvents s' ls

/-- A step receives its event if the mouse is contained. -/
theorem received_step {s s' : SenderScene} {l : Step} (h : step s l = some s') :
    s'.received = s.received ++ (s.containedEvent? l).toList := by
  cases l with
  | event e =>
    obtain rfl := Option.some.inj h
    by_cases hs : s.Released
    · rw [pollEvent_of_released hs, containedEvent?, if_pos (Or.inl hs)]
      exact (List.append_nil _).symm
    · cases hkey : isReleaseHotkey (updatePressed s.pressed e) e with
      | true =>
        have hend : s.endsForwarding (.event e) = true := by simp [endsForwarding, hs, hkey]
        rw [pollEvent_of_hotkey hs hkey, containedEvent?, if_pos (Or.inr hend)]
        exact (List.append_nil _).symm
      | false =>
        have hgoes : ¬ (s.Released ∨ s.endsForwarding (.event e) = true) := by
          simp [endsForwarding, hs, hkey]
        rw [pollEvent_of_forwarding hs hkey, containedEvent?, if_neg hgoes]
        rfl
  | continueClick =>
    obtain ⟨-, h⟩ := Option.ite_none_right_eq_some.1 h
    obtain rfl := Option.some.inj h
    exact (List.append_nil _).symm
  | mount =>
    obtain ⟨-, h⟩ := Option.ite_none_left_eq_some.1 h
    obtain rfl := Option.some.inj h
    exact (List.append_nil _).symm
  | unmount =>
    obtain ⟨-, h⟩ := Option.ite_none_right_eq_some.1 h
    obtain rfl := Option.some.inj h
    exact (List.append_nil _).symm

/-- What a run receives. -/
theorem received_of_run {s₀ s : SenderScene} {ls : List Step} (h : machine.run s₀ ls = some s) :
    s.received = s₀.received ++ containedEvents s₀ ls := by
  induction ls generalizing s₀ with
  | nil =>
    obtain rfl := Option.some.inj h
    exact (List.append_nil _).symm
  | cons l ls ih =>
    rw [Machine.run_cons] at h
    obtain ⟨t, ht, h⟩ := Option.bind_eq_some_iff.1 h
    have hstep : s₀.step l = some t := ht
    rw [ih h, received_step hstep, containedEvents, hstep, List.append_assoc]
    rfl

/-- In a reachable state, nothing is down exactly when the last edge forwarded of every key and
button is a release. -/
theorem heldKeys_eq_empty_iff {ls : List Step} {s : SenderScene}
    (h : machine.run init ls = some s) :
    heldKeys (containedEvents init ls) = ∅ ↔ ∀ k, lastEdge k s.forwarded ≠ some true := by
  have hreceived : s.received = containedEvents init ls := received_of_run h
  rw [heldKeys_eq, ← hreceived, ← forwarded_eq_of_run h, PressTracker.held_eq_empty_iff]
  rfl

end SenderScene

open SenderScene in
/-- When a key is left held. In a run, the last press or release forwarded of every key and
button is a release in every state in which nothing is forwarded, if and only if no step of the
run ends the forwarding while a key or button is down: pressed, and not released again, by the
events of the run before it that arrived while the mouse was contained. Events that are not
converted count as presses of key 0. -/
theorem held_keys_iff {ls : List Step} {s : SenderScene} (h : machine.run init ls = some s) :
    (∀ ls' t, ls' <+: ls → machine.run init ls' = some t → t.Released →
      ∀ k, lastEdge k t.forwarded ≠ some true) ↔
    ∀ ls' l t, ls' ++ [l] <+: ls → machine.run init ls' = some t → t.endsForwarding l = true →
      heldKeys (containedEvents init ls') = ∅ := by
  -- a step that forwards nothing leaves the same keys down
  have hkept : ∀ {ls' l t t'}, machine.run init ls' = some t → t.step l = some t' →
      t'.received = t.received →
      containedEvents init (ls' ++ [l]) = containedEvents init ls' := by
    intro ls' l t t' ht hstep hreceived
    have hrun : machine.run init (ls' ++ [l]) = some t' :=
      Machine.run_concat_eq_some.2 ⟨t, ht, hstep⟩
    have hthen : t'.received = containedEvents init (ls' ++ [l]) := received_of_run hrun
    have hnow : t.received = containedEvents init ls' := received_of_run ht
    rw [← hthen, hreceived, hnow]
  constructor
  · intro hreleased ls' l t hprefix ht hend
    obtain ⟨t', hstep, ht'⟩ := Machine.step_of_prefix h hprefix ht
    -- the step that ends the forwarding forwards nothing itself
    rcases step_cases hstep with ⟨e, -, hno, -⟩ | ⟨hreceived, -, -, hends⟩
    · rw [hno] at hend
      cases hend
    · rw [← hkept ht hstep hreceived, heldKeys_eq_empty_iff ht']
      exact hreleased _ t' hprefix ht' (hends hend)
  · intro hends ls' t hprefix ht hreleased
    rw [← heldKeys_eq_empty_iff ht]
    revert hprefix hreleased
    -- induction on the run: what is held in a released state was held when it was released
    refine Machine.run_induction (motive := fun ls' t => ls' <+: ls → t.Released →
      heldKeys (containedEvents init ls') = ∅) (fun _ _ => rfl) ?_ ht
    intro ls' t l t' ht ih hstep hprefix hreleased
    rcases step_cases hstep with ⟨e, hno, -⟩ | ⟨hreceived, -, hcases, -⟩
    · exact absurd hreleased hno
    · rw [hkept ht hstep hreceived]
      rcases hcases hreleased with ht' | hend
      · exact ih ((List.prefix_append _ _).trans hprefix) ht'
      · exact hends ls' l t hprefix ht hend

open SenderScene in
/-- A key pressed and released before the scene is unmounted. -/
theorem held_keys_iff_released : ∃ s,
    machine.run init [.mount, .event (.keyDown 4), .event (.keyUp 4), .unmount] = some s ∧
      s.Released ∧ ∀ k, lastEdge k s.forwarded ≠ some true := by
  have hrun : ∃ s ∈ machine.run init [.mount, .event (.keyDown 4), .event (.keyUp 4), .unmount],
      s.Released := by
    decide
  obtain ⟨s, hs, hreleased⟩ := hrun
  refine ⟨s, hs, hreleased, (held_keys_iff hs).2 ?_ _ s (List.prefix_refl _) hs hreleased⟩
  -- only the last step ends the forwarding
  have hend_cases : ∀ p ∈ List.inits [Step.mount, .event (.keyDown 4), .event (.keyUp 4), .unmount],
      ∀ l ∈ p.getLast?, ∀ t ∈ machine.run init p.dropLast, t.endsForwarding l = true →
        heldKeys (containedEvents init p.dropLast) = ∅ := by
    decide
  intro ls' l t hprefix ht hend
  have hlast := hend_cases (ls' ++ [l]) ((List.mem_inits _ _).2 hprefix) l (by simp) t
  rw [List.dropLast_concat] at hlast
  exact hlast ht hend

open SenderScene in
/-- The release hotkey leaves the keys it consists of held. -/
theorem hotkey_leaves_held : ¬ ∀ ls s, machine.run init ls = some s → s.Released →
    ∀ k, lastEdge k s.forwarded ≠ some true := by
  intro hnone
  have hrun : ∃ s ∈ machine.run init [.mount, .event (.keyDown scancodeLAlt),
      .event (.keyDown scancodeLCtrl), .event (.keyDown scancodeEscape)],
      s.Released ∧ lastEdge (.key, 226) s.forwarded = some true := by
    decide
  obtain ⟨s, hs, hreleased, hheld⟩ := hrun
  exact hnone _ s hs hreleased _ hheld

end Keyleport
