import Keyleport.Sender.Motion
import Mathlib.Data.Option.Basic

/-!
# Stopping the sender flow

`stop` clears the flags of the two loops one after the other and waits for both threads. A loop
tests its flag, sleeps, and only then empties its aggregator; one that finds the flag cleared
ends with whatever was added since its last taking.

* `SenderFlow.remainder`: what a loop leaves in its aggregator once its flag is cleared.
* `stop_sends_all_iff`: when everything that was pushed is sent before `stop` returns.
* `stop_drops_move`: a move that is accepted and never sent.
-/

namespace Keyleport

namespace SenderFlow

variable {action : InputEventAction} {s s' : SenderFlow}

/-! ## The stores of `stop` -/

/-- `stop` up to the store to `moveAgg_.running`. -/
def stopMove (s : SenderFlow) : SenderFlow :=
  { s with running := false, moveAgg := { s.moveAgg with running := false }, stopping := true }

/-- The store to `scrollAgg_.running`. -/
def stopScroll (s : SenderFlow) : SenderFlow :=
  { s with scrollAgg := { s.scrollAgg with running := false } }

/-- Without a step of a loop between its stores, `stop` is the two in a row. -/
theorem stop_eq (h : s.running = true) : s.stop = s.stopMove.stopScroll := by
  rw [stop, h]
  rfl

theorem Invariant.stopMove (hI : Invariant s) : Invariant s.stopMove :=
  ⟨hI.service, fun _ => rfl, fun _ => rfl, hI.moves, hI.scrolls⟩

theorem Invariant.stopScroll (hI : Invariant s) : Invariant s.stopScroll :=
  ⟨hI.service, hI.idle, hI.stopping, hI.moves, hI.scrolls⟩

/-! ## What a loop leaves -/

/-- What is left in an aggregator when its loop has ended: nothing, if the loop has yet to take,
and otherwise what it holds now. -/
def remainder (thread : Option Worker) (agg : MoveAggregator) : Motion :=
  if thread = some .take then 0 else agg.held

theorem remainder_eq_zero_iff {thread : Option Worker} {agg : MoveAggregator} :
    remainder thread agg = 0 ↔ thread = some .take ∨ agg.held = 0 := by
  rw [remainder]
  split
  next htake => exact ⟨fun _ => Or.inl htake, fun _ => rfl⟩
  next htake => exact ⟨Or.inr, fun h => h.resolve_left htake⟩

/-- A step of a loop whose flag is cleared does not change what it leaves. -/
theorem loopStep_remainder {communicationService : Bool} {agg agg' : MoveAggregator}
    {worker worker' : Worker} {sent : List SentEvent} (hflag : agg.running = false)
    (h : loopStep action communicationService agg worker = some (worker', agg', sent)) :
    agg'.running = false ∧ remainder (some worker') agg' = remainder (some worker) agg := by
  cases worker with
  | test =>
    -- the flag is seen, and the loop ends
    rw [loopStep, hflag] at h
    obtain ⟨rfl, rfl, rfl⟩ : _ ∧ _ ∧ _ := by simpa using h.symm
    exact ⟨hflag, rfl⟩
  | take =>
    obtain ⟨rfl, rfl, rfl⟩ : _ ∧ _ ∧ _ := by simpa [loopStep] using h
    refine ⟨hflag, ?_⟩
    rw [remainder, remainder, if_neg (by simp), if_pos rfl]
    exact agg.take_held.2
  | send dx dy =>
    obtain ⟨rfl, rfl, rfl⟩ : _ ∧ _ ∧ _ := by simpa [loopStep] using h
    exact ⟨hflag, rfl⟩
  | finished => cases h

/-- A step of one of the two loops. -/
def Step.isLoop (l : Step) : Prop := l = .moveLoop ∨ l = .scrollLoop

/-- Steps of the loops do not push; they do not touch the flag of the other loop, its thread or
its aggregator; and once the own flag is cleared they do not change what is left. -/
structure Drains (move scroll : Bool) (pushed : List InputEvent) (moves scrolls : Motion)
    (s : SenderFlow) : Prop where
  pushed_eq : s.pushed = pushed
  moves : move = true → s.moveAgg.running = false ∧ remainder s.moveThread s.moveAgg = moves
  scrolls : scroll = true →
    s.scrollAgg.running = false ∧ remainder s.scrollThread s.scrollAgg = scrolls

theorem Drains.step {move scroll : Bool} {pushed : List InputEvent} {moves scrolls : Motion}
    {l : Step} (hl : l.isLoop) (hD : Drains move scroll pushed moves scrolls s)
    (h : step s l = some s') : Drains move scroll pushed moves scrolls s' := by
  rcases hl with rfl | rfl
  · obtain ⟨worker, hworker, h⟩ := Option.bind_eq_some_iff.1 h
    obtain ⟨⟨worker', agg', sent⟩, hloop, h⟩ := Option.bind_eq_some_iff.1 h
    obtain rfl := Option.some.inj h
    refine ⟨hD.pushed_eq, fun hmove => ?_, hD.scrolls⟩
    obtain ⟨hflag, hmoves⟩ := hD.moves hmove
    obtain ⟨hflag', hsame⟩ := loopStep_remainder hflag hloop
    exact ⟨hflag', by rw [hsame, ← hworker, hmoves]⟩
  · obtain ⟨worker, hworker, h⟩ := Option.bind_eq_some_iff.1 h
    obtain ⟨⟨worker', agg', sent⟩, hloop, h⟩ := Option.bind_eq_some_iff.1 h
    obtain rfl := Option.some.inj h
    refine ⟨hD.pushed_eq, hD.moves, fun hscroll => ?_⟩
    obtain ⟨hflag, hscrolls⟩ := hD.scrolls hscroll
    obtain ⟨hflag', hsame⟩ := loopStep_remainder hflag hloop
    exact ⟨hflag', by rw [hsame, ← hworker, hscrolls]⟩

theorem Drains.run {move scroll : Bool} {pushed : List InputEvent} {moves scrolls : Motion}
    {ls : List Step} (hls : ∀ l ∈ ls, l.isLoop) (hD : Drains move scroll pushed moves scrolls s)
    (h : machine.run s ls = some s') : Drains move scroll pushed moves scrolls s' :=
  Machine.run_invariant_of_forall (M := machine) (P := Step.isLoop)
    (fun _ _ _ hl hD hstep => hD.step hl hstep) hls hD h

/-- The steps of the loops keep the invariant. -/
theorem Invariant.of_run {ls : List Step} (hI : Invariant s) (h : machine.run s ls = some s') :
    Invariant s' :=
  Machine.run_invariant (M := machine) (I := Invariant) (fun _ _ _ hI hstep => hI.step hstep) hI h

/-- When `stop` returns, what is missing of a motion is what is left in its aggregator. -/
theorem sent_eq_iff {sent pushed left : Motion} (h : sent + 0 + left = pushed) :
    sent = pushed ↔ left = 0 := by
  rw [← h, add_zero, eq_comm, add_eq_left]

end SenderFlow

open SenderFlow in
/-- When stopping loses no motion. `stop` is called in a state `s` of a flow; the loops take any
steps before the second flag is cleared in `u`, and any steps after it until both threads have
ended and `stop` returns. Then the moves and scrolls sent are those pushed, and both aggregators
are empty, if and only if each loop was about to take when its flag was cleared, or its
aggregator held nothing then. -/
theorem stop_sends_all_iff {ls ms ms' : List Step} {s u v t : SenderFlow}
    (h : machine.run init ls = some s)
    (hms : ∀ l ∈ ms, l.isLoop) (hu : machine.run s.stopMove ms = some u)
    (hms' : ∀ l ∈ ms', l.isLoop) (hv : machine.run u.stopScroll ms' = some v)
    (ht : step v .stopJoined = some t) :
    (motion .move t.unreliable = motion .move s.pushed ∧
      motion .scroll t.unreliable = motion .scroll s.pushed ∧
      t.moveAgg.held = 0 ∧ t.scrollAgg.held = 0) ↔
    (s.moveThread = some .take ∨ s.moveAgg.held = 0) ∧
      (u.scrollThread = some .take ∨ u.scrollAgg.held = 0) := by
  have hIu : Invariant u := (Invariant.run h).stopMove.of_run hu
  have hIv : Invariant v := hIu.stopScroll.of_run hv
  -- what each loop will leave is settled when its flag is cleared
  have hDu : Drains true false s.pushed (remainder s.moveThread s.moveAgg) 0 u :=
    Drains.run (s := s.stopMove) hms ⟨rfl, fun _ => ⟨rfl, rfl⟩, nofun⟩ hu
  have hDv : Drains true true s.pushed (remainder s.moveThread s.moveAgg)
      (remainder u.scrollThread u.scrollAgg) v :=
    Drains.run (s := u.stopScroll) hms' ⟨hDu.pushed_eq, hDu.moves, fun _ => ⟨rfl, rfl⟩⟩ hv
  obtain ⟨hjoined, ht⟩ := Option.ite_none_right_eq_some.1 ht
  obtain ⟨-, hmove, hscroll⟩ := hjoined
  obtain rfl := Option.some.inj ht
  -- both loops have ended, so what they leave is what the aggregators hold
  have hmoves : v.moveAgg.held = remainder s.moveThread s.moveAgg := by
    rw [← (hDv.moves rfl).2, remainder, if_neg (by simp [hmove])]
  have hscrolls : v.scrollAgg.held = remainder u.scrollThread u.scrollAgg := by
    rw [← (hDv.scrolls rfl).2, remainder, if_neg (by simp [hscroll])]
  have hsentMove : motion .move v.unreliable + 0 + v.moveAgg.held = motion .move s.pushed := by
    have := hIv.moves
    rwa [Accounted, hmove, hDv.pushed_eq] at this
  have hsentScroll : motion .scroll v.unreliable + 0 + v.scrollAgg.held =
      motion .scroll s.pushed := by
    have := hIv.scrolls
    rwa [Accounted, hscroll, hDv.pushed_eq] at this
  rw [← remainder_eq_zero_iff, ← remainder_eq_zero_iff, ← hmoves, ← hscrolls]
  constructor
  · rintro ⟨-, -, hmoveNone, hscrollNone⟩
    exact ⟨hmoveNone, hscrollNone⟩
  · rintro ⟨hmoveNone, hscrollNone⟩
    exact ⟨(sent_eq_iff hsentMove).2 hmoveNone, (sent_eq_iff hsentScroll).2 hscrollNone,
      hmoveNone, hscrollNone⟩

open SenderFlow in
/-- A move that is pushed while `move_loop` sleeps is sent before `stop` returns. -/
theorem stop_sends_all_iff_asleep : ∃ s v t, machine.run init [.start true, .moveLoop,
      .scrollLoop, .push ⟨.mouse, .move, 0, 1, 0⟩] = some s ∧
    machine.run s.stopMove.stopScroll [.moveLoop, .moveLoop, .moveLoop, .scrollLoop, .scrollLoop,
      .scrollLoop] = some v ∧ step v .stopJoined = some t ∧
    motion .move t.unreliable = motion .move s.pushed ∧ motion .move s.pushed = (1, 0) := by
  have hrun : ∃ s ∈ machine.run init [.start true, .moveLoop, .scrollLoop,
      .push ⟨.mouse, .move, 0, 1, 0⟩], s.moveThread = some .take ∧ s.scrollThread = some .take ∧
      motion .move s.pushed = (1, 0) ∧
      ∃ v ∈ machine.run s.stopMove.stopScroll [.moveLoop, .moveLoop, .moveLoop, .scrollLoop,
        .scrollLoop, .scrollLoop], ∃ t ∈ step v .stopJoined, t.stopping = false := by
    decide
  obtain ⟨s, hs, hmove, hscroll, hpushed, v, hv, t, ht, -⟩ := hrun
  have hloops : ∀ l ∈ [Step.moveLoop, .moveLoop, .moveLoop, .scrollLoop, .scrollLoop, .scrollLoop],
      l.isLoop := by simp [Step.isLoop]
  have hnone : ∀ l ∈ ([] : List Step), l.isLoop := by simp
  have hall := (stop_sends_all_iff hs hnone rfl hloops hv ht).2 ⟨Or.inl hmove, Or.inl hscroll⟩
  exact ⟨s, v, t, hs, hv, ht, hall.1, hpushed⟩

open SenderFlow in
/-- A move that is pushed before the test of `move_loop` is lost: the loop finds its flag cleared
and ends without taking. -/
theorem stop_drops_move : ¬ ∀ ls t, machine.run init (ls ++ [.stopJoined]) = some t →
    motion .move t.unreliable = motion .move t.pushed := by
  intro hall
  have hrun : ∃ t ∈ machine.run init ([.start true, .push ⟨.mouse, .move, 0, 1, 0⟩, .stop,
      .moveLoop, .scrollLoop] ++ [.stopJoined]),
      motion .move t.unreliable ≠ motion .move t.pushed := by
    decide
  obtain ⟨t, ht, hne⟩ := hrun
  exact hne (hall _ t ht)

end Keyleport
