import Keyleport.Sender.Motion
import Mathlib.Data.Option.Basic

/-!
# What the sender flow hands over

A step of the flow hands at most one event to the communication service: a key or button that is
pushed, reliably, or what a loop has taken, unreliably and never as nothing. So the reliable
events are the pushed events that are no motion, and the motion of all packages is accounted for.

* `SenderFlow.sent_cases`: what one step pushes and sends.
* `SenderFlow.reliable_eq_of_run`: the events sent reliably, in every reachable state.
* `coalescing_conserves_motion`: the account of moves and scrolls, in every reachable state.
-/

namespace Keyleport

namespace SenderFlow

variable {action : InputEventAction} {s s' : SenderFlow} {ev : InputEvent}

/-- An event that goes to one of the two aggregators. -/
def isMotion (ev : InputEvent) : Bool := isAggregated ev .move || isAggregated ev .scroll

/-- The events handed to `send_package_reliable`. -/
def reliable (s : SenderFlow) : List InputEvent :=
  (s.sent.filter SentEvent.reliable).map SentEvent.event

/-! ## One step -/

/-- A loop sends nothing, or the motion it has taken, which is not zero. -/
theorem loopStep_sent {communicationService : Bool} {agg agg' : MoveAggregator}
    {worker worker' : Worker} {sent : List SentEvent}
    (h : loopStep action communicationService agg worker = some (worker', agg', sent)) :
    sent = [] ∨ ∃ dx dy, ¬ (dx = 0 ∧ dy = 0) ∧
      sent = [⟨false, ⟨.mouse, action, 0, dx, dy⟩⟩] := by
  cases worker with
  | test =>
    obtain ⟨rfl, rfl, rfl⟩ : _ ∧ _ ∧ _ := by simpa [loopStep] using h
    exact Or.inl rfl
  | take =>
    obtain ⟨rfl, rfl, rfl⟩ : _ ∧ _ ∧ _ := by simpa [loopStep] using h
    exact Or.inl rfl
  | send dx dy =>
    obtain ⟨rfl, rfl, rfl⟩ : _ ∧ _ ∧ _ := by simpa [loopStep] using h
    split
    · exact Or.inl rfl
    next hzero =>
      cases communicationService with
      | true => exact Or.inr ⟨dx, dy, hzero, rfl⟩
      | false => exact Or.inl rfl
  | finished => cases h

/-- A step pushes an event that is sent at once, pushes an event that is held, sends a motion
that was taken, or neither pushes nor sends. -/
theorem sent_cases {l : Step} (hI : Invariant s) (h : step s l = some s') :
    (∃ ev, l = .push ev ∧ isMotion ev = false ∧ s'.pushed = s.pushed ++ [ev] ∧
      s'.sent = s.sent ++ [⟨true, ev⟩]) ∨
    (∃ ev, l = .push ev ∧ isMotion ev = true ∧ s'.pushed = s.pushed ++ [ev] ∧
      s'.sent = s.sent) ∨
    (∃ action dx dy, (action = .move ∨ action = .scroll) ∧ ¬ (dx = 0 ∧ dy = 0) ∧
      s'.pushed = s.pushed ∧ s'.sent = s.sent ++ [⟨false, ⟨.mouse, action, 0, dx, dy⟩⟩]) ∨
    (s'.pushed = s.pushed ∧ s'.sent = s.sent) := by
  cases l with
  | start service =>
    obtain ⟨-, h⟩ := Option.ite_none_right_eq_some.1 h
    obtain rfl := Option.some.inj h
    cases service <;> exact Or.inr (Or.inr (Or.inr ⟨rfl, rfl⟩))
  | push ev =>
    obtain ⟨-, h⟩ := Option.ite_none_left_eq_some.1 h
    rcases pushEvent_cases h with ⟨-, rfl⟩ | ⟨hmove, agg, -, rfl⟩ | ⟨hscroll, agg, -, rfl⟩ |
      ⟨hmove, hscroll, rfl⟩
    · exact Or.inr (Or.inr (Or.inr ⟨rfl, rfl⟩))
    · exact Or.inr (Or.inl ⟨ev, rfl, by simp [isMotion, hmove], rfl, rfl⟩)
    · exact Or.inr (Or.inl ⟨ev, rfl, by simp [isMotion, hscroll], rfl, rfl⟩)
    · -- only a running flow gets here, and it has a service to send to
      have hrunning : s.running = true := by
        by_contra hstopped
        rw [pushEvent, Bool.eq_false_iff.2 hstopped] at h
        have hpushed := congrArg SenderFlow.pushed (Option.some.inj h)
        exact absurd hpushed (by simp)
      rw [hI.communicationService hrunning, if_pos rfl]
      exact Or.inl ⟨ev, rfl, by simp [isMotion, hmove, hscroll], rfl, rfl⟩
  | moveLoop =>
    obtain ⟨worker, -, h⟩ := Option.bind_eq_some_iff.1 h
    obtain ⟨⟨worker', agg', sent⟩, hloop, h⟩ := Option.bind_eq_some_iff.1 h
    obtain rfl := Option.some.inj h
    rcases loopStep_sent hloop with rfl | ⟨dx, dy, hne, rfl⟩
    · exact Or.inr (Or.inr (Or.inr ⟨rfl, List.append_nil _⟩))
    · exact Or.inr (Or.inr (Or.inl ⟨.move, dx, dy, Or.inl rfl, hne, rfl, rfl⟩))
  | scrollLoop =>
    obtain ⟨worker, -, h⟩ := Option.bind_eq_some_iff.1 h
    obtain ⟨⟨worker', agg', sent⟩, hloop, h⟩ := Option.bind_eq_some_iff.1 h
    obtain rfl := Option.some.inj h
    rcases loopStep_sent hloop with rfl | ⟨dx, dy, hne, rfl⟩
    · exact Or.inr (Or.inr (Or.inr ⟨rfl, List.append_nil _⟩))
    · exact Or.inr (Or.inr (Or.inl ⟨.scroll, dx, dy, Or.inr rfl, hne, rfl, rfl⟩))
  | stop =>
    obtain ⟨-, h⟩ := Option.ite_none_left_eq_some.1 h
    obtain rfl := Option.some.inj h
    rw [stop]
    split <;> exact Or.inr (Or.inr (Or.inr ⟨rfl, rfl⟩))
  | stopJoined =>
    obtain ⟨-, h⟩ := Option.ite_none_right_eq_some.1 h
    exact Or.inr (Or.inr (Or.inr (Option.some.inj h ▸ ⟨rfl, rfl⟩)))

/-- A running flow accepts every event and keeps running. -/
theorem pushEvent_running (hrunning : s.running = true) (h : s.pushEvent ev = some s') :
    s'.pushed = s.pushed ++ [ev] ∧ s'.running = true ∧ s'.stopping = s.stopping := by
  rcases pushEvent_cases h with ⟨hstopped, -⟩ | ⟨-, agg, -, rfl⟩ | ⟨-, agg, -, rfl⟩ | ⟨-, -, rfl⟩
  · rw [hrunning] at hstopped
    cases hstopped
  · exact ⟨rfl, hrunning, rfl⟩
  · exact ⟨rfl, hrunning, rfl⟩
  · exact ⟨rfl, hrunning, rfl⟩

/-- A step of a loop pushes nothing, and does not start or stop the flow. -/
theorem loop_pushed (h : s.moveLoop = some s' ∨ s.scrollLoop = some s') :
    s'.pushed = s.pushed ∧ s'.running = s.running ∧ s'.stopping = s.stopping := by
  rcases h with h | h
  all_goals
    obtain ⟨worker, -, h⟩ := Option.bind_eq_some_iff.1 h
    obtain ⟨⟨worker', agg', sent⟩, -, h⟩ := Option.bind_eq_some_iff.1 h
    obtain rfl := Option.some.inj h
    exact ⟨rfl, rfl, rfl⟩

/-! ## Runs -/

/-- The reliable events of a state are those pushed that are no motion. -/
theorem reliable_eq_of_run {ls : List Step} (h : machine.run init ls = some s) :
    s.reliable = s.pushed.filter fun ev => !isMotion ev := by
  refine Machine.run_induction (M := machine)
    (motive := fun _ s => s.reliable = s.pushed.filter fun ev => !isMotion ev) rfl ?_ h
  intro ls t l t' ht ih hstep
  rcases sent_cases (Invariant.run ht) hstep with ⟨ev, -, hmotion, hpushed, hsent⟩ |
    ⟨ev, -, hmotion, hpushed, hsent⟩ | ⟨action, dx, dy, -, -, hpushed, hsent⟩ |
    ⟨hpushed, hsent⟩
  · rw [reliable, hpushed, hsent, List.filter_append, List.map_append, List.filter_append, ← ih]
    simp [reliable, hmotion]
  · rw [reliable, hpushed, hsent, List.filter_append, ← ih]
    simp [reliable, hmotion]
  · rw [reliable, hpushed, hsent, List.filter_append, List.map_append, ← ih]
    simp [reliable]
  · rw [reliable, hpushed, hsent, ← ih]
    rfl

/-- The unreliable events of a state are moves and scrolls with code 0, and none of them is a
motion by zero. -/
theorem unreliable_of_run {ls : List Step} (h : machine.run init ls = some s) :
    ∀ ev ∈ s.unreliable, ∃ action dx dy, (action = .move ∨ action = .scroll) ∧
      ¬ (dx = 0 ∧ dy = 0) ∧ ev = ⟨.mouse, action, 0, dx, dy⟩ := by
  refine Machine.run_induction (M := machine) (motive := fun _ s => ∀ ev ∈ s.unreliable,
    ∃ action dx dy, (action = .move ∨ action = .scroll) ∧ ¬ (dx = 0 ∧ dy = 0) ∧
      ev = ⟨.mouse, action, 0, dx, dy⟩) (by simp [unreliable, init]) ?_ h
  intro ls t l t' ht ih hstep ev' hev'
  rcases sent_cases (Invariant.run ht) hstep with ⟨ev, -, -, -, hsent⟩ |
    ⟨ev, -, -, -, hsent⟩ | ⟨action, dx, dy, haction, hne, -, hsent⟩ | ⟨-, hsent⟩
  · have hsame : t'.unreliable = t.unreliable := by simp [unreliable, hsent]
    exact ih ev' (hsame ▸ hev')
  · exact ih ev' (by rwa [unreliable, hsent] at hev')
  · have hone : t'.unreliable = t.unreliable ++ [⟨.mouse, action, 0, dx, dy⟩] := by
      simp [unreliable, hsent]
    rw [hone] at hev'
    rcases List.mem_append.1 hev' with hev' | hev'
    · exact ih ev' hev'
    · exact ⟨action, dx, dy, haction, hne, List.mem_singleton.1 hev'⟩
  · exact ih ev' (by rwa [unreliable, hsent] at hev')

/-- The motion of all events sent is that of the unreliable ones. -/
theorem motion_sent {ls : List Step} (h : machine.run init ls = some s)
    (haction : action = .move ∨ action = .scroll) :
    motion action (s.sent.map SentEvent.event) = motion action s.unreliable := by
  -- an event that is counted is no reliable one
  have hcounted : ∀ e ∈ s.sent, isAggregated e.event action =
      (isAggregated e.event action && !e.reliable) := by
    intro e he
    cases hreliable : e.reliable with
    | false => simp
    | true =>
      have hmem : e.event ∈ s.reliable :=
        List.mem_map_of_mem (List.mem_filter.2 ⟨he, hreliable⟩)
      rw [reliable_eq_of_run h] at hmem
      have hnone : isMotion e.event = false := by simpa using (List.mem_filter.1 hmem).2
      have hsplit : isAggregated e.event .move = false ∧ isAggregated e.event .scroll = false := by
        simpa [isMotion] using hnone
      rcases haction with rfl | rfl
      · rw [hsplit.1]
        rfl
      · rw [hsplit.2]
        rfl
  rw [motion, motion, unreliable, List.filter_map, List.filter_map, List.filter_filter]
  exact congrArg (fun evs => ((evs.map SentEvent.event).map fun ev =>
    (ev.dx.toInt, ev.dy.toInt)).sum) (List.filter_congr hcounted)

end SenderFlow

open SenderFlow in
/-- Coalescing conserves motion. In every reachable state, of any interleaving of pushes with the
two loops: the moves of all packages sent, those `move_loop` has taken and not sent and those in
its aggregator add up to the moves pushed, and the same holds of the scrolls; a package that is
sent unreliably is a move or a scroll by a delta that is not zero, and one that is sent reliably
is neither. -/
theorem coalescing_conserves_motion {ls : List Step} {s : SenderFlow}
    (h : machine.run init ls = some s) :
    motion .move (s.sent.map SentEvent.event) + threadHeld s.moveThread + s.moveAgg.held =
      motion .move s.pushed ∧
    motion .scroll (s.sent.map SentEvent.event) + threadHeld s.scrollThread + s.scrollAgg.held =
      motion .scroll s.pushed ∧
    (∀ ev ∈ s.unreliable, isMotion ev = true ∧ ¬ (ev.dx = 0 ∧ ev.dy = 0)) ∧
    ∀ ev ∈ s.reliable, isMotion ev = false := by
  have hI : Invariant s := Invariant.run h
  rw [motion_sent h (Or.inl rfl), motion_sent h (Or.inr rfl)]
  refine ⟨hI.moves, hI.scrolls, fun ev hev => ?_, fun ev hev => ?_⟩
  · obtain ⟨action, dx, dy, haction, hne, rfl⟩ := unreliable_of_run h ev hev
    rcases haction with rfl | rfl <;> exact ⟨rfl, hne⟩
  · rw [reliable_eq_of_run h] at hev
    simpa using (List.mem_filter.1 hev).2

open SenderFlow in
/-- A state with a move that was sent, one that was taken, one that is held, and a scroll that is
held. -/
theorem coalescing_conserves_motion_taken : ∃ s,
    machine.run init [.start true, .push ⟨.mouse, .move, 0, 3, -1⟩, .moveLoop, .moveLoop,
      .moveLoop, .push ⟨.mouse, .move, 0, 5, 0⟩, .moveLoop, .moveLoop,
      .push ⟨.mouse, .move, 0, 0, 7⟩, .push ⟨.mouse, .scroll, 0, 0, 2⟩] = some s ∧
    s.sent = [⟨false, ⟨.mouse, .move, 0, 3, -1⟩⟩] ∧ threadHeld s.moveThread = (5, 0) ∧
    s.moveAgg.held = (0, 7) ∧ s.scrollAgg.held = (0, 2) ∧
    (3, -1) + (5, 0) + (0, 7) = motion .move s.pushed ∧
    (0, 0) + threadHeld s.scrollThread + (0, 2) = motion .scroll s.pushed := by
  have hrun : ∃ s ∈ machine.run init [.start true, .push ⟨.mouse, .move, 0, 3, -1⟩, .moveLoop,
      .moveLoop, .moveLoop, .push ⟨.mouse, .move, 0, 5, 0⟩, .moveLoop, .moveLoop,
      .push ⟨.mouse, .move, 0, 0, 7⟩, .push ⟨.mouse, .scroll, 0, 0, 2⟩],
      s.sent = [⟨false, ⟨.mouse, .move, 0, 3, -1⟩⟩] ∧ threadHeld s.moveThread = (5, 0) ∧
      s.moveAgg.held = (0, 7) ∧ s.scrollAgg.held = (0, 2) := by
    decide
  obtain ⟨s, hs, hsent, htaken, hheld, hscroll⟩ := hrun
  obtain ⟨hmoves, hscrolls, -⟩ := coalescing_conserves_motion hs
  rw [hsent, htaken, hheld] at hmoves
  rw [hsent, hscroll] at hscrolls
  exact ⟨s, hs, hsent, htaken, hheld, hscroll, hmoves, hscrolls⟩

end Keyleport
