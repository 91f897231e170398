import Keyleport.Lib.Machine
import Keyleport.Sender.MoveAggregator

/-!
# The sender flow

`flows/sender/sender.cpp`. `push_event` adds moves and scrolls to their aggregators and sends
every other event itself; two background threads empty the aggregators every few milliseconds
and send what they took. The loops of the two threads differ in the aggregator and the action
only. A thread stops between any two of its steps, so the steps of the machine are one call of
`push_event`, one test, taking or sending of a loop, and the phases of `start` and `stop`.
-/

namespace Keyleport

/-- An event handed to the communication service. -/
structure SentEvent where
  /-- `send_package_reliable`, else `send_package_unreliable`. -/
  reliable : Bool
  event : InputEvent
deriving DecidableEq, Repr

/-- Where a background thread is in its loop. -/
inductive Worker where
  /-- Before the test of `running`. -/
  | test
  /-- Before `take`, asleep or awake. -/
  | take
  /-- After `take`, with what was taken. -/
  | send (dx dy : Int32)
  /-- Past the loop. -/
  | finished
deriving DecidableEq, Repr

/-- What a thread has taken and not sent yet. -/
def Worker.held : Worker → Motion
  | send dx dy => (dx.toInt, dy.toInt)
  | _ => 0

/-- `flows::SenderFlow`, with the events accepted by `push_event` and those sent. -/
structure SenderFlow where
  /-- `running_`. -/
  running : Bool
  moveAgg : MoveAggregator
  scrollAgg : MoveAggregator
  /-- `moveThread_`, if it is joinable. -/
  moveThread : Option Worker
  /-- `scrollThread_`, if it is joinable. -/
  scrollThread : Option Worker
  /-- Whether `communication_service_` is set. -/
  communicationService : Bool
  /-- Whether a call of `stop` waits for the threads. -/
  stopping : Bool
  /-- The events given to `push_event` while it was running, oldest first. -/
  pushed : List InputEvent
  /-- The events handed to the communication service, oldest first. -/
  sent : List SentEvent
deriving DecidableEq, Repr

namespace SenderFlow

/-- A new flow. -/
def init : SenderFlow := ⟨false, .new, .new, none, none, false, false, [], []⟩

/-- An event that `push_event` gives to an aggregator, by its action. -/
def isAggregated (ev : InputEvent) (action : InputEventAction) : Bool :=
  ev.type = .mouse ∧ ev.action = action

/-- `start`, with whether the repository has a communication service. -/
def start (s : SenderFlow) (service : Bool) : Bool × SenderFlow :=
  if service then
    (true, { s with
      communicationService := true
      moveAgg := { s.moveAgg with running := true }
      scrollAgg := { s.scrollAgg with running := true }
      running := true
      moveThread := some .test
      scrollThread := some .test })
  else (false, { s with communicationService := false })

/-- `push_event`. Without an outcome if a sum leaves the range of `int`. -/
def pushEvent (s : SenderFlow) (ev : InputEvent) : Option SenderFlow :=
  if !s.running then some s
  else
    let s := { s with pushed := s.pushed ++ [ev] }
    if isAggregated ev .move then do
      let moveAgg ← s.moveAgg.add ev.dx ev.dy
      return { s with moveAgg := moveAgg }
    else if isAggregated ev .scroll then do
      let scrollAgg ← s.scrollAgg.add ev.dx ev.dy
      return { s with scrollAgg := scrollAgg }
    -- keys and buttons are sent by the caller's thread
    else if s.communicationService then some { s with sent := s.sent ++ [⟨true, ev⟩] }
    else some s

/-- One step of `move_loop` or `scroll_loop`: the thread, its aggregator, and what it sends. -/
def loopStep (action : InputEventAction) (communicationService : Bool) (agg : MoveAggregator) :
    Worker → Option (Worker × MoveAggregator × List SentEvent)
  | .test => some (if agg.running then .take else .finished, agg, [])
  | .take =>
      let (taken, agg) := agg.take
      some (.send taken.1 taken.2, agg, [])
  | .send dx dy =>
      -- `continue` when nothing was taken
      let sent :=
        if dx = 0 ∧ dy = 0 then []
        else if communicationService then [⟨false, ⟨.mouse, action, 0, dx, dy⟩⟩]
        else []
      some (.test, agg, sent)
  | .finished => none

/-- One step of `move_loop`. -/
def moveLoop (s : SenderFlow) : Option SenderFlow := do
  let worker ← s.moveThread
  let (worker, agg, sent) ← loopStep .move s.communicationService s.moveAgg worker
  return { s with moveThread := some worker, moveAgg := agg, sent := s.sent ++ sent }

/-- One step of `scroll_loop`. -/
def scrollLoop (s : SenderFlow) : Option SenderFlow := do
  let worker ← s.scrollThread
  let (worker, agg, sent) ← loopStep .scroll s.communicationService s.scrollAgg worker
  return { s with scrollThread := some worker, scrollAgg := agg, sent := s.sent ++ sent }

/-- `stop`, up to the first `join`. -/
def stop (s : SenderFlow) : SenderFlow :=
  if !s.running then s
  else { s with
    running := false
    moveAgg := { s.moveAgg with running := false }
    scrollAgg := { s.scrollAgg with running := false }
    stopping := true }

/-- The rest of `stop`, once both threads have finished. -/
def stopJoined (s : SenderFlow) : Option SenderFlow :=
  if s.stopping ∧ s.moveThread = some .finished ∧ s.scrollThread = some .finished then
    some { s with
      moveThread := none
      scrollThread := none
      communicationService := false
      stopping := false }
  else none

/-! ## The machine -/

/-- The steps of a flow. -/
inductive Step where
  | start (service : Bool)
  | push (ev : InputEvent)
  | moveLoop
  | scrollLoop
  | stop
  | stopJoined
deriving DecidableEq, Repr

/-- One step. The caller starts a flow that has no threads, and is not inside `stop` when it
calls another operation. -/
def step (s : SenderFlow) : Step → Option SenderFlow
  | .start service =>
      if s.moveThread = none ∧ s.scrollThread = none ∧ s.stopping = false then
        some (s.start service).2
      else none
  | .push ev => if s.stopping then none else s.pushEvent ev
  | .moveLoop => s.moveLoop
  | .scrollLoop => s.scrollLoop
  | .stop => if s.stopping then none else some s.stop
  | .stopJoined => s.stopJoined

/-- The flow as a machine. -/
def machine : Machine SenderFlow Step := ⟨step⟩

end SenderFlow

end Keyleport
