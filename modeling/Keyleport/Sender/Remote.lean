import Keyleport.Lib.Transit
import Keyleport.Sender.Conservation

/-!
# Input from a distance

What the sender flow is for: the events pushed at one device are injected at another one. Keys and
buttons go on a channel that keeps the order of each connection, coalesced moves and scrolls on one
that keeps no order, and both may lose what is on its way. Here events travel as they are; what the
program sends instead is modelled with the link.

* `RemoteInput.Invariant`: what was accepted is what the flow sent, what was injected has arrived.
* `RemoteInput.perm_pushed`, `RemoteInput.motion_pushed`: where the pushed events are.
* `RemoteInput.injected_filter`: keys whose events are neither on their way nor lost.
-/

namespace Keyleport

/-- The flow of the sender, the two channels and the events injected at the receiver. A way through
a channel is the number of a connection. -/
structure RemoteInput where
  flow : SenderFlow
  reliable : Transit ℕ InputEvent
  unreliable : Transit ℕ InputEvent
  /-- Oldest first. -/
  injected : List InputEvent
deriving DecidableEq, Repr

namespace RemoteInput

open SenderFlow (isMotion motion threadHeld)
open scoped List

/-- A new flow and empty channels. -/
def init : RemoteInput := ⟨.init, .empty, .empty, []⟩

/-- An event that the flow sends is accepted by its channel. -/
def accept (s : RemoteInput) (way : Option ℕ) (e : SentEvent) : RemoteInput :=
  if e.reliable then { s with reliable := s.reliable.accept way e.event }
  else { s with unreliable := s.unreliable.accept way e.event }

/-- The steps. -/
inductive Step where
  /-- A step of the flow, and the way of what it sends. -/
  | flow (l : SenderFlow.Step) (way : Option ℕ)
  /-- The next event of a connection arrives. -/
  | arriveReliable (connection : ℕ)
  | arriveUnreliable (p : ℕ × InputEvent → Bool)
  | loseReliable (p : ℕ × InputEvent → Bool)
  | loseUnreliable (p : ℕ × InputEvent → Bool)

/-- One step. -/
def step (s : RemoteInput) : Step → Option RemoteInput
  | .flow l way => do
      let flow ← SenderFlow.step s.flow l
      let sent := flow.sent.drop s.flow.sent.length
      return sent.foldl (fun s e => s.accept way e) { s with flow := flow }
  | .arriveReliable connection => do
      let (ev, reliable) ← s.reliable.arrive (Transit.next connection)
      return { s with reliable := reliable, injected := s.injected ++ [ev] }
  | .arriveUnreliable p => do
      let (ev, unreliable) ← s.unreliable.arrive p
      return { s with unreliable := unreliable, injected := s.injected ++ [ev] }
  | .loseReliable p => do
      let reliable ← s.reliable.lose p
      return { s with reliable := reliable }
  | .loseUnreliable p => do
      let unreliable ← s.unreliable.lose p
      return { s with unreliable := unreliable }

/-- Input from a distance, as a machine. -/
def machine : Machine RemoteInput Step := ⟨step⟩

/-! ## The invariant -/

variable {s s' : RemoteInput}

/-- What holds in every reachable state. -/
structure Invariant (s : RemoteInput) : Prop where
  flow : ∃ ls, SenderFlow.machine.run SenderFlow.init ls = some s.flow
  reliableAccounted : s.reliable.Accounted
  reliableOrdered : s.reliable.Ordered
  unreliableAccounted : s.unreliable.Accounted
  reliableAccepted : s.reliable.accepted.map Prod.snd = s.flow.reliable
  unreliableAccepted : s.unreliable.accepted.map Prod.snd = s.flow.unreliable
  reliableInjected : s.injected.filter (fun ev => !isMotion ev) = s.reliable.arrived.map Prod.snd
  unreliableInjected : s.injected.filter isMotion = s.unreliable.arrived.map Prod.snd

theorem Invariant.init : Invariant init :=
  ⟨⟨[], rfl⟩, .empty, .empty, .empty, rfl, rfl, rfl, rfl⟩

/-- A step of the flow sends at most one event. -/
theorem sent_concat {flow flow' : SenderFlow} {l : SenderFlow.Step}
    (hI : SenderFlow.Invariant flow) (h : SenderFlow.step flow l = some flow') :
    flow'.sent = flow.sent ∨ ∃ e, flow'.sent = flow.sent ++ [e] := by
  rcases SenderFlow.sent_cases hI h with ⟨ev, -, -, -, hsent⟩ | ⟨ev, -, -, -, hsent⟩ |
    ⟨action, dx, dy, -, -, -, hsent⟩ | ⟨-, hsent⟩
  · exact Or.inr ⟨_, hsent⟩
  · exact Or.inl hsent
  · exact Or.inr ⟨_, hsent⟩
  · exact Or.inl hsent

/-- What a step of the flow sends is accepted. -/
theorem flow_cases {l : SenderFlow.Step} {way : Option ℕ} (hI : SenderFlow.Invariant s.flow)
    (h : step s (.flow l way) = some s') : ∃ flow, SenderFlow.step s.flow l = some flow ∧
      (flow.sent = s.flow.sent ∧ s' = { s with flow := flow } ∨
      ∃ e, flow.sent = s.flow.sent ++ [e] ∧ s' = accept { s with flow := flow } way e) := by
  obtain ⟨flow, hflow, h⟩ := Option.bind_eq_some_iff.1 h
  obtain rfl := Option.some.inj h
  refine ⟨flow, hflow, (sent_concat hI hflow).imp ?_ ?_⟩
  · intro hsent
    exact ⟨hsent, by rw [hsent, List.drop_length]; rfl⟩
  · rintro ⟨e, hsent⟩
    exact ⟨e, hsent, by rw [hsent, List.drop_left]; rfl⟩

/-- An event on the reliable channel is no motion. -/
theorem Invariant.isMotion_reliable (hI : Invariant s) {x : ℕ × InputEvent}
    (hx : x ∈ s.reliable.inFlight) : isMotion x.2 = false := by
  obtain ⟨ls, hls⟩ := hI.flow
  have hmem : x.2 ∈ s.flow.reliable := by
    rw [← hI.reliableAccepted]
    refine hI.reliableAccounted.perm.subset ?_
    simp only [List.mem_append, List.mem_map]
    exact Or.inl (Or.inl (Or.inr ⟨x, hx, rfl⟩))
  rw [SenderFlow.reliable_eq_of_run hls] at hmem
  simpa using (List.mem_filter.1 hmem).2

/-- An event on the unreliable channel is a motion. -/
theorem Invariant.isMotion_unreliable (hI : Invariant s) {x : ℕ × InputEvent}
    (hx : x ∈ s.unreliable.inFlight) : isMotion x.2 = true := by
  obtain ⟨ls, hls⟩ := hI.flow
  have hmem : x.2 ∈ s.flow.unreliable := by
    rw [← hI.unreliableAccepted]
    refine hI.unreliableAccounted.perm.subset ?_
    simp only [List.mem_append, List.mem_map]
    exact Or.inl (Or.inl (Or.inr ⟨x, hx, rfl⟩))
  obtain ⟨action, dx, dy, haction, -, hev⟩ := SenderFlow.unreliable_of_run hls x.2 hmem
  rw [hev]
  rcases haction with rfl | rfl <;> rfl

/-- Accepting what the flow has just sent keeps the invariant. -/
private theorem Invariant.accept {flow : SenderFlow} {e : SentEvent} (hI : Invariant s)
    (way : Option ℕ) {ls : List SenderFlow.Step}
    (hflow : SenderFlow.machine.run SenderFlow.init ls = some flow)
    (hsent : flow.sent = s.flow.sent ++ [e]) :
    Invariant (RemoteInput.accept { s with flow := flow } way e) := by
  have hreliable := hI.reliableAccepted
  have hunreliable := hI.unreliableAccepted
  rw [RemoteInput.accept]
  cases he : e.reliable with
  | true =>
    refine ⟨⟨ls, hflow⟩, hI.reliableAccounted.accept way _, hI.reliableOrdered.accept way _,
      hI.unreliableAccounted, ?_, ?_, hI.reliableInjected, hI.unreliableInjected⟩
    · simp [Transit.accept, SenderFlow.reliable, hsent, he, hreliable]
    · simp [SenderFlow.unreliable, hsent, he, hunreliable]
  | false =>
    refine ⟨⟨ls, hflow⟩, hI.reliableAccounted, hI.reliableOrdered,
      hI.unreliableAccounted.accept way _, ?_, ?_, hI.reliableInjected, hI.unreliableInjected⟩
    · simp [SenderFlow.reliable, hsent, he, hreliable]
    · simp [Transit.accept, SenderFlow.unreliable, hsent, he, hunreliable]

/-- Every step keeps the invariant. -/
theorem Invariant.step {l : Step} (hI : Invariant s) (h : step s l = some s') : Invariant s' := by
  obtain ⟨ls, hls⟩ := hI.flow
  cases l with
  | flow l way =>
    obtain ⟨flow, hflow, ⟨hsent, rfl⟩ | ⟨e, hsent, rfl⟩⟩ := flow_cases (.run hls) h
    · have hrun := Machine.run_concat_eq_some.2 ⟨_, hls, hflow⟩
      refine ⟨⟨_, hrun⟩, hI.reliableAccounted, hI.reliableOrdered, hI.unreliableAccounted, ?_, ?_,
        hI.reliableInjected, hI.unreliableInjected⟩
      · rw [SenderFlow.reliable, hsent]
        exact hI.reliableAccepted
      · rw [SenderFlow.unreliable, hsent]
        exact hI.unreliableAccepted
    · exact hI.accept way (Machine.run_concat_eq_some.2 ⟨_, hls, hflow⟩) hsent
  | arriveReliable connection =>
    obtain ⟨⟨ev, reliable⟩, harrive, h⟩ := Option.bind_eq_some_iff.1 h
    obtain rfl := Option.some.inj h
    obtain ⟨c, before, after, -, -, hsplit, heq⟩ := Transit.arrive_cases harrive
    have hmotion : isMotion ev = false :=
      hI.isMotion_reliable (x := (c, ev)) (by rw [hsplit]; simp)
    refine ⟨hI.flow, hI.reliableAccounted.arrive harrive, hI.reliableOrdered.arrive harrive,
      hI.unreliableAccounted, ?_, hI.unreliableAccepted, ?_, ?_⟩
    · rw [heq]
      exact hI.reliableAccepted
    · rw [heq, List.filter_append, hI.reliableInjected]
      simp [hmotion]
    · rw [List.filter_append, hI.unreliableInjected]
      simp [hmotion]
  | arriveUnreliable p =>
    obtain ⟨⟨ev, unreliable⟩, harrive, h⟩ := Option.bind_eq_some_iff.1 h
    obtain rfl := Option.some.inj h
    obtain ⟨c, before, after, -, -, hsplit, heq⟩ := Transit.arrive_cases harrive
    have hmotion : isMotion ev = true :=
      hI.isMotion_unreliable (x := (c, ev)) (by rw [hsplit]; simp)
    refine ⟨hI.flow, hI.reliableAccounted, hI.reliableOrdered,
      hI.unreliableAccounted.arrive harrive, hI.reliableAccepted, ?_, ?_, ?_⟩
    · rw [heq]
      exact hI.unreliableAccepted
    · rw [List.filter_append, hI.reliableInjected]
      simp [hmotion]
    · rw [heq, List.filter_append, hI.unreliableInjected]
      simp [hmotion]
  | loseReliable p =>
    obtain ⟨reliable, hlose, h⟩ := Option.bind_eq_some_iff.1 h
    obtain rfl := Option.some.inj h
    obtain ⟨x, before, after, -, -, heq⟩ := Transit.lose_cases hlose
    refine ⟨hI.flow, hI.reliableAccounted.lose hlose, hI.reliableOrdered.lose hlose,
      hI.unreliableAccounted, ?_, hI.unreliableAccepted, ?_, hI.unreliableInjected⟩
    · rw [heq]
      exact hI.reliableAccepted
    · rw [heq]
      exact hI.reliableInjected
  | loseUnreliable p =>
    obtain ⟨unreliable, hlose, h⟩ := Option.bind_eq_some_iff.1 h
    obtain rfl := Option.some.inj h
    obtain ⟨x, before, after, -, -, heq⟩ := Transit.lose_cases hlose
    refine ⟨hI.flow, hI.reliableAccounted, hI.reliableOrdered,
      hI.unreliableAccounted.lose hlose, hI.reliableAccepted, ?_, hI.reliableInjected, ?_⟩
    · rw [heq]
      exact hI.unreliableAccepted
    · rw [heq]
      exact hI.unreliableInjected

theorem Invariant.run {ls : List Step} (h : machine.run RemoteInput.init ls = some s) :
    Invariant s :=
  Machine.run_invariant (fun _ _ _ hI hstep => hI.step hstep) Invariant.init h

/-! ## Where the events are -/

/-- The keys and buttons pushed are injected, on their way, lost, or were given up at once. -/
theorem Invariant.perm_pushed (hI : Invariant s) :
    s.injected.filter (fun ev => !isMotion ev) ++ s.reliable.inFlight.map Prod.snd ++
        s.reliable.lost.map Prod.snd ++ s.reliable.discarded ~
      s.flow.pushed.filter fun ev => !isMotion ev := by
  obtain ⟨ls, hls⟩ := hI.flow
  rw [← SenderFlow.reliable_eq_of_run hls, hI.reliableInjected, ← hI.reliableAccepted]
  exact hI.reliableAccounted.perm

/-- Those that arrive on one connection were pushed in the order in which they are injected. -/
theorem Invariant.sublist_pushed (hI : Invariant s) (connection : ℕ) :
    (Transit.on connection s.reliable.arrived).Sublist
      (s.flow.pushed.filter fun ev => !isMotion ev) := by
  obtain ⟨ls, hls⟩ := hI.flow
  rw [← SenderFlow.reliable_eq_of_run hls, ← hI.reliableAccepted]
  exact hI.reliableOrdered.sublist connection

/-- The order of events does not matter to their motion. -/
theorem motion_perm {action : InputEventAction} {evs evs' : List InputEvent} (h : evs ~ evs') :
    motion action evs = motion action evs' := ((h.filter _).map _).sum_eq

/-- Keys and buttons do not add to a motion. -/
theorem motion_filter {action : InputEventAction} (haction : action = .move ∨ action = .scroll)
    (evs : List InputEvent) : motion action (evs.filter isMotion) = motion action evs := by
  rw [motion, motion, List.filter_filter]
  refine congrArg (fun evs : List InputEvent =>
    (evs.map fun ev => (ev.dx.toInt, ev.dy.toInt)).sum) (List.filter_congr fun ev _ => ?_)
  rcases haction with rfl | rfl <;> simp +contextual [isMotion]

/-- The motion that was sent is injected, on its way, lost or was given up at once. -/
theorem Invariant.motion_sent (hI : Invariant s) {action : InputEventAction}
    (haction : action = .move ∨ action = .scroll) :
    motion action s.injected + motion action (s.unreliable.inFlight.map Prod.snd) +
        motion action (s.unreliable.lost.map Prod.snd) + motion action s.unreliable.discarded =
      motion action s.flow.unreliable := by
  rw [← motion_filter haction s.injected, hI.unreliableInjected, ← hI.unreliableAccepted,
    ← motion_perm hI.unreliableAccounted.perm]
  simp only [SenderFlow.motion_append]

/-- The moves and scrolls pushed are injected, on their way, lost, given up at once, taken by a
thread or held by an aggregator. -/
theorem Invariant.motion_pushed (hI : Invariant s) :
    motion .move s.injected + motion .move (s.unreliable.inFlight.map Prod.snd) +
        motion .move (s.unreliable.lost.map Prod.snd) + motion .move s.unreliable.discarded +
        threadHeld s.flow.moveThread + s.flow.moveAgg.held = motion .move s.flow.pushed ∧
    motion .scroll s.injected + motion .scroll (s.unreliable.inFlight.map Prod.snd) +
        motion .scroll (s.unreliable.lost.map Prod.snd) + motion .scroll s.unreliable.discarded +
        threadHeld s.flow.scrollThread + s.flow.scrollAgg.held = motion .scroll s.flow.pushed := by
  obtain ⟨ls, hls⟩ := hI.flow
  have hflow : SenderFlow.Invariant s.flow := .run hls
  rw [hI.motion_sent (Or.inl rfl), hI.motion_sent (Or.inr rfl)]
  exact ⟨hflow.moves, hflow.scrolls⟩

/-- If the keys and buttons of a kind take one connection, and none of them is on its way or lost,
then they are injected as they were pushed. -/
theorem Invariant.injected_filter (hI : Invariant s) {connection : ℕ} {q : InputEvent → Bool}
    (hq : ∀ ev, q ev = true → isMotion ev = false)
    (hway : ∀ x ∈ s.reliable.accepted, q x.2 = true → x.1 = some connection)
    (hkept : ∀ x ∈ s.reliable.inFlight ++ s.reliable.lost, q x.2 = false) :
    s.injected.filter q = s.flow.pushed.filter q := by
  have hsplit : ∀ evs : List InputEvent,
      evs.filter q = (evs.filter fun ev => !isMotion ev).filter q := by
    intro evs
    rw [List.filter_filter]
    refine List.filter_congr fun ev _ => ?_
    cases h : q ev with
    | false => rfl
    | true => simp [hq ev h]
  obtain ⟨ls, hls⟩ := hI.flow
  rw [hsplit, hsplit s.flow.pushed, ← SenderFlow.reliable_eq_of_run hls, hI.reliableInjected,
    ← hI.reliableAccepted]
  exact hI.reliableOrdered.arrived_filter hI.reliableAccounted hway hkept

end RemoteInput

end Keyleport
