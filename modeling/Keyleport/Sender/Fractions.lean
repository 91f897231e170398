import Keyleport.Keyboard.Sdl
import Keyleport.Sender.Conservation
import Mathlib.Algebra.Order.Ring.Rat
import Mathlib.Tactic.Ring

/-!
# Fractions of motion

The window system counts motion and scrolls in fractions, the input events in integers. Every event
is truncated on its own before the sender flow adds it up, so what is forwarded differs from what
was moved by the sum of all fractions.

* `SdlMotion.forwarded`: what the flow was given of one kind.
* `SdlMotion.forwarded_add_lost`: what is forwarded and what is lost add up to what was moved.
* `fractions_kept_iff`: when less than one is lost.
* `half_notches_lost`: two half notches of the wheel.
-/

namespace Keyleport

open FloatCast SenderFlow

/-- The events of the window system that have an amount. -/
inductive SdlMotion where
  | motion
  | wheel
deriving DecidableEq, Repr

namespace SdlMotion

/-- The action an event of this kind is converted to. -/
def action : SdlMotion → InputEventAction
  | motion => .move
  | wheel => .scroll

/-- The amount of an event of this kind. -/
def amount : SdlMotion → SdlEvent → Option (ℚ × ℚ)
  | motion, .mouseMotion xrel yrel => some (xrel, yrel)
  | wheel, .mouseWheel x y => some (x, y)
  | _, _ => none

/-- The sum of the amounts of this kind. -/
def total (kind : SdlMotion) (events : List SdlEvent) : ℚ × ℚ :=
  (events.filterMap kind.amount).sum

/-- The sum of the fractions of the amounts of this kind. -/
def lost (kind : SdlMotion) (events : List SdlEvent) : ℚ × ℚ :=
  ((events.filterMap kind.amount).map fun a => (a.1 - (trunc a.1 : ℚ), a.2 - (trunc a.2 : ℚ))).sum

/-- What was forwarded of this kind: the motion of all packages sent, of the thread and of the
aggregator. -/
def forwarded (kind : SdlMotion) (s : SenderFlow) : Motion :=
  SenderFlow.motion kind.action (s.sent.map SentEvent.event) +
    match kind with
    | motion => threadHeld s.moveThread + s.moveAgg.held
    | wheel => threadHeld s.scrollThread + s.scrollAgg.held

variable {kind : SdlMotion} {events : List SdlEvent} {s : SenderFlow}

/-- What is forwarded is what was pushed. -/
theorem forwarded_eq {ls : List Step} (h : machine.run init ls = some s) (kind : SdlMotion) :
    kind.forwarded s = SenderFlow.motion kind.action s.pushed := by
  have hI : Invariant s := Invariant.run h
  cases kind with
  | motion =>
    rw [forwarded, action, motion_sent h (Or.inl rfl), ← add_assoc]
    exact hI.moves
  | wheel =>
    rw [forwarded, action, motion_sent h (Or.inr rfl), ← add_assoc]
    exact hI.scrolls

/-- An event with an amount is converted to its integer parts; another event is no motion of this
kind. -/
theorem fromSDL_cases (kind : SdlMotion) (ev : SdlEvent) :
    (∃ a, kind.amount ev = some a ∧ isAggregated (InputEvent.fromSDL ev) kind.action = true ∧
      (InputEvent.fromSDL ev).dx = InputEvent.floatToInt a.1 ∧
      (InputEvent.fromSDL ev).dy = InputEvent.floatToInt a.2) ∨
    (kind.amount ev = none ∧ isAggregated (InputEvent.fromSDL ev) kind.action = false) := by
  cases kind <;> cases ev
  all_goals first
    | exact Or.inl ⟨_, rfl, rfl, rfl, rfl⟩
    | exact Or.inr ⟨rfl, rfl⟩

theorem toInt_floatToInt {x : ℚ} (h : Fits x) : (InputEvent.floatToInt x).toInt = trunc x :=
  FloatCast.x86_64.toInt_toInt32 h

/-- What is forwarded and what is lost add up to the amounts of the events. -/
theorem forwarded_add_lost (hfits : ∀ a ∈ events.filterMap kind.amount, Fits a.1 ∧ Fits a.2) :
    ((SenderFlow.motion kind.action (events.map InputEvent.fromSDL)).1 : ℚ) +
        (kind.lost events).1 = (kind.total events).1 ∧
      ((SenderFlow.motion kind.action (events.map InputEvent.fromSDL)).2 : ℚ) +
        (kind.lost events).2 = (kind.total events).2 := by
  induction events using List.reverseRecOn with
  | nil => simp [SenderFlow.motion, lost, total]
  | append_singleton events ev ih =>
    rw [List.filterMap_append, List.forall_mem_append] at hfits
    obtain ⟨hx, hy⟩ := ih hfits.1
    rcases fromSDL_cases kind ev with ⟨a, hamount, hkind, hdx, hdy⟩ | ⟨hamount, hkind⟩
    · have hfit : Fits a.1 ∧ Fits a.2 := hfits.2 a (by simp [hamount])
      have hlost : kind.lost (events ++ [ev]) =
          kind.lost events + (a.1 - (trunc a.1 : ℚ), a.2 - (trunc a.2 : ℚ)) := by
        simp [lost, hamount]
      have htotal : kind.total (events ++ [ev]) = kind.total events + a := by
        simp [total, hamount]
      rw [List.map_append, List.map_singleton, motion_concat _ hkind, hdx, hdy,
        toInt_floatToInt hfit.1, toInt_floatToInt hfit.2, hlost, htotal]
      simp only [Prod.fst_add, Prod.snd_add, Int.cast_add, ← hx, ← hy]
      exact ⟨by ring, by ring⟩
    · have hlost : kind.lost (events ++ [ev]) = kind.lost events := by simp [lost, hamount]
      have htotal : kind.total (events ++ [ev]) = kind.total events := by simp [total, hamount]
      rw [List.map_append, List.map_singleton, motion_concat_of_not _ hkind, hlost, htotal]
      exact ⟨hx, hy⟩

end SdlMotion

open SdlMotion in
/-- When fractions are kept. In every reachable state of the flow, the motion forwarded of the
wheel events, and likewise of the motion events, differs by less than one on both axes from the
exact amounts of the events pushed, if and only if on both axes the fractions of these amounts
add up to less than one. -/
theorem fractions_kept_iff {ls : List Step} {s : SenderFlow} {events : List SdlEvent}
    (kind : SdlMotion) (h : machine.run init ls = some s)
    (hpushed : s.pushed = events.map InputEvent.fromSDL)
    (hfits : ∀ a ∈ events.filterMap kind.amount, Fits a.1 ∧ Fits a.2) :
    (|((kind.forwarded s).1 : ℚ) - (kind.total events).1| < 1 ∧
      |((kind.forwarded s).2 : ℚ) - (kind.total events).2| < 1) ↔
    |(kind.lost events).1| < 1 ∧ |(kind.lost events).2| < 1 := by
  obtain ⟨hx, hy⟩ := forwarded_add_lost hfits
  rw [forwarded_eq h, hpushed, ← hx, ← hy, sub_add_cancel_left, sub_add_cancel_left, abs_neg,
    abs_neg]

open SdlMotion in
/-- Two thirds of a notch of the wheel, and a motion in the same run. -/
theorem fractions_kept_iff_thirds : ∃ s, machine.run init (.start true ::
      [SdlEvent.mouseWheel 0 (1 / 3), .mouseMotion (5 / 2) (-1 / 4), .mouseWheel 0 (1 / 3)].map
        fun ev => .push (InputEvent.fromSDL ev)) = some s ∧
      |((wheel.forwarded s).1 : ℚ) - 0| < 1 ∧ |((wheel.forwarded s).2 : ℚ) - 2 / 3| < 1 := by
  have hrun : ∃ s ∈ machine.run init (.start true ::
      [SdlEvent.mouseWheel 0 (1 / 3), .mouseMotion (5 / 2) (-1 / 4), .mouseWheel 0 (1 / 3)].map
        fun ev => .push (InputEvent.fromSDL ev)),
      s.pushed = [SdlEvent.mouseWheel 0 (1 / 3), .mouseMotion (5 / 2) (-1 / 4),
        .mouseWheel 0 (1 / 3)].map InputEvent.fromSDL := by
    decide +kernel
  obtain ⟨s, hs, hpushed⟩ := hrun
  have htotal : wheel.total [.mouseWheel 0 (1 / 3), .mouseMotion (5 / 2) (-1 / 4),
      .mouseWheel 0 (1 / 3)] = (0, 2 / 3) := by
    decide +kernel
  have hkept := (fractions_kept_iff wheel hs hpushed (by decide +kernel)).2
    (by decide +kernel)
  rw [htotal] at hkept
  exact ⟨s, hs, hkept⟩

open SdlMotion in
/-- Two half notches of the wheel are forwarded as nothing. -/
theorem half_notches_lost : ¬ ∀ ls s events, machine.run init ls = some s →
    s.pushed = events.map InputEvent.fromSDL →
    (∀ a ∈ events.filterMap wheel.amount, Fits a.1 ∧ Fits a.2) →
    |((wheel.forwarded s).2 : ℚ) - (wheel.total events).2| < 1 := by
  intro hkept
  have hrun : ∃ s ∈ machine.run init [.start true,
      .push (InputEvent.fromSDL (.mouseWheel 0 (1 / 2))),
      .push (InputEvent.fromSDL (.mouseWheel 0 (1 / 2))), .scrollLoop, .scrollLoop, .scrollLoop],
      s.pushed = [.mouseWheel 0 (1 / 2), .mouseWheel 0 (1 / 2)].map InputEvent.fromSDL ∧
      wheel.forwarded s = (0, 0) := by
    decide +kernel
  obtain ⟨s, hs, hpushed, hforwarded⟩ := hrun
  have hless := hkept _ s _ hs hpushed (by decide +kernel)
  rw [hforwarded] at hless
  exact absurd hless (by decide +kernel)

end Keyleport
