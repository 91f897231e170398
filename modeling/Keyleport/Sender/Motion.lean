import Keyleport.Sender.Flow
import Mathlib.Tactic.Abel

/-!
# Motion through the sender flow

Moves and scrolls reach the communication service by way of an aggregator and a thread, buttons
and keys at once. Nothing is lost on the way, but a button may overtake the motion that preceded
it: the aggregator is emptied by a thread that sleeps between two takings.

* `SenderFlow.loopStep_spec`: a step of a loop moves motion from the aggregator to the wire.
* `SenderFlow.Invariant.run`: what was sent, taken or is held adds up to what was pushed.
* `button_after_motion`: what is missing when a button is sent is what is taken or held.
* `button_overtakes_motion`: a button sent while motion is held.
-/

namespace Keyleport

namespace SenderFlow

/-! ## Sums of motion -/

/-- The sum of the moves, or of the scrolls, of a list of events. -/
def motion (action : InputEventAction) (evs : List InputEvent) : Motion :=
  ((evs.filter fun ev => isAggregated ev action).map fun ev => (ev.dx.toInt, ev.dy.toInt)).sum

/-- The events handed to `send_package_unreliable`. -/
def unreliable (s : SenderFlow) : List InputEvent :=
  (s.sent.filter fun e => !e.reliable).map SentEvent.event

/-- What a thread that may not exist has taken. -/
def threadHeld (thread : Option Worker) : Motion := thread.elim 0 Worker.held

variable {action : InputEventAction} {s s' : SenderFlow} {ev : InputEvent}

theorem motion_append (evs evs' : List InputEvent) :
    motion action (evs ++ evs') = motion action evs + motion action evs' := by
  rw [motion, List.filter_append, List.map_append, List.sum_append]
  rfl

theorem motion_concat (evs : List InputEvent) (h : isAggregated ev action = true) :
    motion action (evs ++ [ev]) = motion action evs + (ev.dx.toInt, ev.dy.toInt) := by
  rw [motion_append]
  simp [motion, h]

theorem motion_concat_of_not (evs : List InputEvent) (h : isAggregated ev action = false) :
    motion action (evs ++ [ev]) = motion action evs := by
  rw [motion_append]
  simp [motion, h]

/-- An event of one action is not one of the other. -/
theorem isAggregated_of_ne {action' : InputEventAction} (h : isAggregated ev action = true)
    (hne : action ≠ action') : isAggregated ev action' = false := by
  simp only [isAggregated, decide_eq_true_eq, decide_eq_false_iff_not] at h ⊢
  exact fun h' => hne (h.2.symm.trans h'.2)

/-! ## Steps of a loop -/

/-- A step of a loop sends unreliable events of its own action only, and what it sends, has
taken and leaves in the aggregator adds up to what was there. -/
theorem loopStep_spec {agg agg' : MoveAggregator} {worker worker' : Worker}
    {sent : List SentEvent} (h : loopStep action true agg worker = some (worker', agg', sent)) :
    (∀ e ∈ sent, e.reliable = false ∧ isAggregated e.event action = true) ∧
      motion action (sent.map SentEvent.event) + worker'.held + agg'.held =
        worker.held + agg.held := by
  cases worker with
  | test =>
    obtain ⟨rfl, rfl, rfl⟩ : _ ∧ _ ∧ _ := by simpa [loopStep] using h
    refine ⟨nofun, ?_⟩
    cases agg.running <;> simp [motion, Worker.held]
  | take =>
    -- the motion goes from the aggregator to the thread
    obtain ⟨rfl, rfl, rfl⟩ : _ ∧ _ ∧ _ := by simpa [loopStep] using h
    refine ⟨nofun, ?_⟩
    obtain ⟨htaken, hempty⟩ := agg.take_held
    rw [hempty]
    simpa [motion, Worker.held] using htaken
  | send dx dy =>
    obtain ⟨rfl, rfl, rfl⟩ : _ ∧ _ ∧ _ := by simpa [loopStep] using h
    by_cases hzero : dx = 0 ∧ dy = 0
    · -- nothing was taken, and nothing is sent
      obtain ⟨rfl, rfl⟩ := hzero
      refine ⟨by simp, ?_⟩
      simp [motion, Worker.held]
    · have his : isAggregated ⟨.mouse, action, 0, dx, dy⟩ action = true :=
        decide_eq_true ⟨rfl, rfl⟩
      rw [if_neg hzero]
      refine ⟨fun e he => ?_, ?_⟩
      · obtain rfl := List.mem_singleton.1 he
        exact ⟨rfl, his⟩
      · simp [motion, Worker.held, his]
  | finished => cases h

/-- What a loop of another action sends is no motion of this one. -/
theorem motion_of_other {action' : InputEventAction} {sent : List SentEvent}
    (h : ∀ e ∈ sent, e.reliable = false ∧ isAggregated e.event action = true)
    (hne : action ≠ action') : motion action' (sent.map SentEvent.event) = 0 := by
  have hnone : (sent.map SentEvent.event).filter (fun ev => isAggregated ev action') = [] := by
    rw [List.filter_eq_nil_iff]
    intro ev hev
    obtain ⟨e, he, rfl⟩ := List.mem_map.1 hev
    rw [isAggregated_of_ne (h e he).2 hne]
    exact Bool.false_ne_true
  rw [motion, hnone]
  rfl

/-- Unreliable events are counted when they are sent. -/
theorem unreliable_append {sent sent' : List SentEvent}
    (h : ∀ e ∈ sent', e.reliable = false ∧ isAggregated e.event action = true) :
    ((sent ++ sent').filter fun e => !e.reliable).map SentEvent.event =
      (sent.filter fun e => !e.reliable).map SentEvent.event ++ sent'.map SentEvent.event := by
  have hall : sent'.filter (fun e => !e.reliable) = sent' :=
    List.filter_eq_self.2 fun e he => by rw [(h e he).1]; rfl
  rw [List.filter_append, List.map_append, hall]

/-! ## The invariant -/

/-- The motion of one action that was sent, is taken or is held is the motion pushed. -/
def Accounted (action : InputEventAction) (thread : Option Worker) (agg : MoveAggregator)
    (s : SenderFlow) : Prop :=
  motion action s.unreliable + threadHeld thread + agg.held = motion action s.pushed

/-- What holds in every reachable state. -/
structure Invariant (s : SenderFlow) : Prop where
  /-- The threads have a communication service to send to. -/
  service : s.communicationService = false → s.moveThread = none ∧ s.scrollThread = none
  idle : s.moveThread = none → s.running = false
  stopping : s.stopping = true → s.running = false
  moves : Accounted .move s.moveThread s.moveAgg s
  scrolls : Accounted .scroll s.scrollThread s.scrollAgg s

theorem Invariant.init : Invariant init :=
  ⟨fun _ => ⟨rfl, rfl⟩, fun _ => rfl, fun _ => rfl, rfl, rfl⟩

/-- A running flow has a communication service. -/
theorem Invariant.communicationService (hI : Invariant s) (hrun : s.running = true) :
    s.communicationService = true := by
  cases hcs : s.communicationService with
  | true => rfl
  | false =>
    rw [hI.idle (hI.service hcs).1] at hrun
    cases hrun

/-- A flow with a thread has a communication service. -/
theorem Invariant.communicationService_of_thread (hI : Invariant s) {worker : Worker}
    (h : s.moveThread = some worker ∨ s.scrollThread = some worker) :
    s.communicationService = true := by
  cases hcs : s.communicationService with
  | true => rfl
  | false =>
    obtain ⟨hmove, hscroll⟩ := hI.service hcs
    rw [hmove, hscroll] at h
    simp at h

/-- A step of the loop of one action keeps both accounts. -/
private theorem accounted_loop {action' : InputEventAction} {thread' : Option Worker}
    {agg agg' aggOther : MoveAggregator} {worker worker' : Worker} {sent : List SentEvent}
    (hown : Accounted action (some worker) agg s) (hother : Accounted action' thread' aggOther s)
    (hne : action ≠ action') (s' : SenderFlow) (hsent : s'.sent = s.sent ++ sent)
    (hpushed : s'.pushed = s.pushed)
    (h : loopStep action true agg worker = some (worker', agg', sent)) :
    Accounted action (some worker') agg' s' ∧ Accounted action' thread' aggOther s' := by
  obtain ⟨hall, hsum⟩ := loopStep_spec h
  have hunreliable : s'.unreliable = s.unreliable ++ sent.map SentEvent.event := by
    rw [unreliable, hsent]
    exact unreliable_append hall
  constructor
  · -- of this action, the step moves motion within the account
    rw [Accounted, hunreliable, motion_append, hpushed, ← hown]
    calc motion action s.unreliable + motion action (sent.map SentEvent.event) + worker'.held
          + agg'.held
        = motion action s.unreliable + (motion action (sent.map SentEvent.event) + worker'.held
          + agg'.held) := by abel
      _ = motion action s.unreliable + (worker.held + agg.held) := by rw [hsum]
      _ = motion action s.unreliable + threadHeld (some worker) + agg.held :=
          (add_assoc _ _ _).symm
  · -- of the other action, nothing is sent
    rw [Accounted, hunreliable, motion_append, motion_of_other hall hne, add_zero, hpushed]
    exact hother

/-- `push_event` adds to the account of the event's action, or sends the event. -/
theorem pushEvent_cases (h : s.pushEvent ev = some s') :
    (s.running = false ∧ s' = s) ∨
    (isAggregated ev .move = true ∧ ∃ agg, s.moveAgg.add ev.dx ev.dy = some agg ∧
      s' = { s with pushed := s.pushed ++ [ev], moveAgg := agg }) ∨
    (isAggregated ev .scroll = true ∧ ∃ agg, s.scrollAgg.add ev.dx ev.dy = some agg ∧
      s' = { s with pushed := s.pushed ++ [ev], scrollAgg := agg }) ∨
    (isAggregated ev .move = false ∧ isAggregated ev .scroll = false ∧
      s' = { s with
        pushed := s.pushed ++ [ev]
        sent := if s.communicationService then s.sent ++ [⟨true, ev⟩] else s.sent }) := by
  rw [pushEvent] at h
  cases hrun : s.running with
  | false =>
    rw [hrun] at h
    exact Or.inl ⟨rfl, (Option.some.inj h).symm⟩
  | true =>
    rw [hrun] at h
    refine Or.inr ?_
    cases hmove : isAggregated ev .move with
    | true =>
      simp only [hmove, Bool.not_true, Bool.false_eq_true, if_false, if_true] at h
      obtain ⟨agg, hagg, h⟩ := Option.bind_eq_some_iff.1 h
      exact Or.inl ⟨rfl, agg, hagg, (Option.some.inj h).symm⟩
    | false =>
      refine Or.inr ?_
      cases hscroll : isAggregated ev .scroll with
      | true =>
        simp only [hmove, hscroll, Bool.not_true, Bool.false_eq_true, if_false, if_true] at h
        obtain ⟨agg, hagg, h⟩ := Option.bind_eq_some_iff.1 h
        exact Or.inl ⟨rfl, agg, hagg, (Option.some.inj h).symm⟩
      | false =>
        -- the event goes out at once, if there is a service
        refine Or.inr ⟨rfl, rfl, ?_⟩
        simp only [hmove, hscroll, Bool.not_true, Bool.false_eq_true, if_false] at h
        split at h
        next hcs => rw [if_pos hcs]; exact (Option.some.inj h).symm
        next hcs => rw [if_neg hcs]; exact (Option.some.inj h).symm

private theorem Invariant.push (hI : Invariant s) (h : s.pushEvent ev = some s') :
    Invariant s' := by
  rcases pushEvent_cases h with ⟨-, rfl⟩ | ⟨hmove, agg, hagg, rfl⟩ | ⟨hscroll, agg, hagg, rfl⟩ |
    ⟨hmove, hscroll, rfl⟩
  · exact hI
  · -- a move is pushed and held
    have hscroll := isAggregated_of_ne hmove (show InputEventAction.move ≠ .scroll by decide)
    refine ⟨hI.service, hI.idle, hI.stopping, ?_, ?_⟩
    · rw [Accounted, motion_concat _ hmove, (MoveAggregator.add_held hagg).1, ← hI.moves,
        ← add_assoc]
      rfl
    · rw [Accounted, motion_concat_of_not _ hscroll]
      exact hI.scrolls
  · -- a scroll is pushed and held
    have hmove := isAggregated_of_ne hscroll (show InputEventAction.scroll ≠ .move by decide)
    refine ⟨hI.service, hI.idle, hI.stopping, ?_, ?_⟩
    · rw [Accounted, motion_concat_of_not _ hmove]
      exact hI.moves
    · rw [Accounted, motion_concat _ hscroll, (MoveAggregator.add_held hagg).1, ← hI.scrolls,
        ← add_assoc]
      rfl
  · -- any other event is no motion, and is sent reliably if at all
    have hunreliable : unreliable { s with
        pushed := s.pushed ++ [ev]
        sent := if s.communicationService then s.sent ++ [⟨true, ev⟩] else s.sent } =
        s.unreliable := by
      unfold unreliable
      cases s.communicationService <;> simp
    refine ⟨hI.service, hI.idle, hI.stopping, ?_, ?_⟩
    · rw [Accounted, motion_concat_of_not _ hmove, hunreliable]
      exact hI.moves
    · rw [Accounted, motion_concat_of_not _ hscroll, hunreliable]
      exact hI.scrolls

private theorem Invariant.moveLoop (hI : Invariant s) (h : s.moveLoop = some s') :
    Invariant s' := by
  obtain ⟨worker, hworker, h⟩ := Option.bind_eq_some_iff.1 h
  obtain ⟨⟨worker', agg', sent⟩, hloop, h⟩ := Option.bind_eq_some_iff.1 h
  obtain rfl := Option.some.inj h
  have hcs : s.communicationService = true :=
    hI.communicationService_of_thread (Or.inl hworker)
  rw [hcs] at hloop
  obtain ⟨hmoves, hscrolls⟩ := accounted_loop (hworker ▸ hI.moves) hI.scrolls (by decide)
    { s with moveThread := some worker', moveAgg := agg', sent := s.sent ++ sent } rfl rfl hloop
  refine ⟨fun hcs' => ?_, nofun, hI.stopping, hmoves, hscrolls⟩
  rw [hcs] at hcs'
  cases hcs'

private theorem Invariant.scrollLoop (hI : Invariant s) (h : s.scrollLoop = some s') :
    Invariant s' := by
  obtain ⟨worker, hworker, h⟩ := Option.bind_eq_some_iff.1 h
  obtain ⟨⟨worker', agg', sent⟩, hloop, h⟩ := Option.bind_eq_some_iff.1 h
  obtain rfl := Option.some.inj h
  have hcs : s.communicationService = true :=
    hI.communicationService_of_thread (Or.inr hworker)
  rw [hcs] at hloop
  obtain ⟨hscrolls, hmoves⟩ := accounted_loop (hworker ▸ hI.scrolls) hI.moves (by decide)
    { s with scrollThread := some worker', scrollAgg := agg', sent := s.sent ++ sent } rfl rfl
    hloop
  refine ⟨fun hcs' => ?_, hI.idle, hI.stopping, hmoves, hscrolls⟩
  rw [hcs] at hcs'
  cases hcs'

/-- Every step keeps the invariant. -/
theorem Invariant.step {l : Step} (hI : Invariant s) (h : step s l = some s') :
    Invariant s' := by
  cases l with
  | start service =>
    obtain ⟨⟨hmove, hscroll, hstopping⟩, h⟩ := Option.ite_none_right_eq_some.1 h
    obtain rfl := Option.some.inj h
    have hmoves := hI.moves
    have hscrolls := hI.scrolls
    rw [hmove] at hmoves
    rw [hscroll] at hscrolls
    -- without a service `start` fails and no thread is created
    cases service with
    | false => exact ⟨fun _ => ⟨hmove, hscroll⟩, hI.idle, hI.stopping, hI.moves, hI.scrolls⟩
    | true =>
      refine ⟨nofun, nofun, fun hstop => ?_, hmoves, hscrolls⟩
      have hstop' : s.stopping = true := hstop
      rw [hstopping] at hstop'
      cases hstop'
  | push ev =>
    obtain ⟨-, h⟩ := Option.ite_none_left_eq_some.1 h
    exact hI.push h
  | moveLoop => exact hI.moveLoop h
  | scrollLoop => exact hI.scrollLoop h
  | stop =>
    obtain ⟨-, h⟩ := Option.ite_none_left_eq_some.1 h
    obtain rfl := Option.some.inj h
    rw [stop]
    split
    next => exact hI
    next => exact ⟨hI.service, fun _ => rfl, fun _ => rfl, hI.moves, hI.scrolls⟩
  | stopJoined =>
    obtain ⟨⟨hstop, hmove, hscroll⟩, h⟩ := Option.ite_none_right_eq_some.1 h
    obtain rfl := Option.some.inj h
    have hmoves := hI.moves
    have hscrolls := hI.scrolls
    rw [hmove] at hmoves
    rw [hscroll] at hscrolls
    exact ⟨fun _ => ⟨rfl, rfl⟩, fun _ => hI.stopping hstop, nofun, hmoves, hscrolls⟩

theorem Invariant.run {ls : List Step} (h : machine.run SenderFlow.init ls = some s) :
    Invariant s :=
  Machine.run_invariant (fun _ _ _ hI hstep => hI.step hstep) Invariant.init h

/-- An event of a mouse button. -/
def isButton (ev : InputEvent) : Bool := ev.type = .mouse ∧ (ev.action = .down ∨ ev.action = .up)

theorem isAggregated_of_isButton (h : isButton ev = true) :
    isAggregated ev .move = false ∧ isAggregated ev .scroll = false := by
  simp only [isButton, decide_eq_true_eq] at h
  have hne : ev.action ≠ .move ∧ ev.action ≠ .scroll := by
    rcases h.2 with ha | ha <;> rw [ha] <;> decide
  simp [isAggregated, hne.1, hne.2]

end SenderFlow

open SenderFlow in
/-- What a button may overtake. Whenever a running flow is given a button event, in any
interleaving with the loops, it hands it to `send_package_reliable`; at that moment the moves
already handed to `send_package_unreliable`, those `move_loop` has taken and not sent, and those
held by the aggregator add up to all moves pushed before. So the moves sent are the moves pushed
exactly when what is taken and held adds up to zero. -/
theorem button_after_motion {ls : List Step} {s : SenderFlow} {ev : InputEvent}
    (h : machine.run init ls = some s) (hrunning : s.running = true) (hev : isButton ev = true) :
    (∃ s', step s (.push ev) = some s' ∧ s'.sent = s.sent ++ [⟨true, ev⟩]) ∧
    motion .move s.unreliable + threadHeld s.moveThread + s.moveAgg.held =
      motion .move s.pushed ∧
    (motion .move s.unreliable = motion .move s.pushed ↔
      threadHeld s.moveThread + s.moveAgg.held = 0) := by
  have hI : Invariant s := Invariant.run h
  have hmoves : motion .move s.unreliable + threadHeld s.moveThread + s.moveAgg.held =
      motion .move s.pushed := hI.moves
  refine ⟨?_, hmoves, ?_⟩
  · have hstopping : s.stopping = false := by
      cases hstop : s.stopping with
      | false => rfl
      | true =>
        rw [hI.stopping hstop] at hrunning
        cases hrunning
    obtain ⟨hmove, hscroll⟩ := isAggregated_of_isButton hev
    refine ⟨{ s with pushed := s.pushed ++ [ev], sent := s.sent ++ [⟨true, ev⟩] }, ?_, rfl⟩
    simp [step, pushEvent, hstopping, hrunning, hmove, hscroll, hI.communicationService hrunning]
  · rw [← hmoves, add_assoc, eq_comm, add_eq_left]

open SenderFlow in
/-- A button pushed once the motion before it was sent. -/
theorem button_after_motion_sent : ∃ s,
    machine.run init [.start true, .push ⟨.mouse, .move, 0, 3, -1⟩, .moveLoop, .moveLoop,
      .moveLoop] = some s ∧
    motion .move s.unreliable = motion .move s.pushed ∧
    ∃ s', step s (.push ⟨.mouse, .down, 1, 0, 0⟩) = some s' := by
  have hrun : ∃ s ∈ machine.run init [.start true, .push ⟨.mouse, .move, 0, 3, -1⟩, .moveLoop,
      .moveLoop, .moveLoop], s.running = true ∧ s.moveThread = some .test ∧
        s.moveAgg = ⟨true, 0, 0⟩ := by
    decide
  obtain ⟨s, hs, hrunning, hthread, hagg⟩ := hrun
  obtain ⟨⟨s', hs', -⟩, -, hiff⟩ :=
    button_after_motion hs hrunning (show isButton ⟨.mouse, .down, 1, 0, 0⟩ = true by decide)
  refine ⟨s, hs, hiff.2 ?_, s', hs'⟩
  rw [hthread, hagg]
  rfl

open SenderFlow in
/-- A button pushed right after a move is sent before it. -/
theorem button_overtakes_motion : ¬ ∀ ls s ev, machine.run init ls = some s →
    s.running = true → isButton ev = true →
    motion .move s.unreliable = motion .move s.pushed := by
  intro hordered
  have hrun : ∃ s ∈ machine.run init [.start true, .push ⟨.mouse, .move, 0, 1, 0⟩],
      s.running = true ∧ motion .move s.unreliable ≠ motion .move s.pushed := by
    decide
  obtain ⟨s, hs, hrunning, hne⟩ := hrun
  exact hne (hordered _ s ⟨.mouse, .down, 1, 0, 0⟩ hs hrunning (by decide))

end Keyleport
