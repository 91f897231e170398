import Keyleport.Networking.UdpServer
import Keyleport.Session.Device

/-!
# The session behind its server

`communication_service::update` polls the server, whose messages go to the callback of `init`, on
the services thread. Clicks and UI tasks happen on the main thread, so they also come between two
messages of one poll, and packets arrive at any time. The session by itself takes messages one at
a time. Here it is run with the server and its queue in front of it, and the loop of `poll_events`
one turn at a time.

* `SessionHost.run_turns`: turns with nothing in between are a poll of the server.
* `session_behind_server`: the session behind its server runs as the session by itself does on the
  messages of the packets taken, each once and in order of arrival.
* `packet_latency`: after how many polls a packet has been handled.
-/

namespace Keyleport

/-- A session with the server of its communication service and the answers that
`enet_host_service` has ready. -/
structure SessionHost where
  session : Session
  server : UdpServer
  queue : List (Option ServerEvent)
  /-- In `poll_events`: what is left of `kMaxPerPoll`. -/
  polling : Option ℕ

namespace SessionHost

open UdpServer (kMaxPerPoll extractIp turn message?)

/-- What happens to a session and its server. -/
inductive Step where
  /-- ENet has an event more, or an error. -/
  | arrive (answer : Option ServerEvent)
  /-- `update` calls `poll_events`. -/
  | pollEvents
  /-- One turn of the loop in `poll_events`, or its end. -/
  | turn
  /-- A step of the session that is no message. -/
  | session (l : Session.Step)

/-- One turn of the loop in `poll_events` for an event, with what is left of the budget behind it.
A turn in which the callback throws has no outcome. -/
def takeEvent (lib : Nlohmann) (s : SessionHost) (n : ℕ) (queue : List (Option ServerEvent))
    (event : ServerEvent) : Option SessionHost :=
  let packet := s.server.packetOf event
  let server := s.server.hostService event
  match event with
  | .receive peer data =>
      if extractIp peer = [] then
        -- `continue` comes before `++processed`
        some ⟨s.session, server.destroyPacket packet, queue, some (n + 1)⟩
      else do
        let session ← (s.session.onMessage lib (UdpServer.message peer data)).toOption
        return ⟨session, server.destroyPacket packet, queue, some n⟩
  | .connect | .disconnect => some { s with server := server, queue := queue, polling := some n }

/-- One turn of the loop in `poll_events`, or its end. -/
def takeTurn (lib : Nlohmann) (s : SessionHost) : Option SessionHost :=
  match s.polling, s.queue with
  | none, _ => none
  | some 0, _ => some { s with polling := none }
  | some (_ + 1), [] => some { s with server := s.server.hostServiceNone, polling := none }
  | some (_ + 1), none :: queue =>
      some { s with server := s.server.hostServiceNone, queue := queue, polling := none }
  | some (n + 1), some event :: queue => s.takeEvent lib n queue event

/-- One step. `poll_events` returns at once if the server has no host. -/
def step (lib : Nlohmann) (host : Host) (s : SessionHost) : Step → Option SessionHost
  | .arrive answer => some { s with queue := s.queue ++ [answer] }
  | .pollEvents =>
      if s.server.host then
        if s.polling = none then some { s with polling := some kMaxPerPoll } else none
      else some s
  | .turn => s.takeTurn lib
  | .session (.message _) => none
  | .session l =>
      (Session.step lib host s.session l).map fun session => { s with session := session }

/-- The session behind its server as a machine. -/
def machine (lib : Nlohmann) (host : Host) : Machine SessionHost Step := ⟨step lib host⟩

variable {lib : Nlohmann} {host : Host} {s s' : SessionHost}

/-! ## Turns and polls -/

/-- A poll that returns is what the turns of its loop do, if nothing comes in between. -/
theorem run_turns {session session' : Session} {server : UdpServer}
    {queue : List (Option ServerEvent)} {n : ℕ}
    (h : (UdpServer.pollLoop (Session.onMessage lib) n server session queue).outcome =
      .ok session') :
    ∃ k, (machine lib host).run ⟨session, server, queue, some n⟩ (List.replicate k .turn) =
      some ⟨session',
        (UdpServer.pollLoop (Session.onMessage lib) n server session queue).server,
        (UdpServer.pollLoop (Session.onMessage lib) n server session queue).queue, none⟩ := by
  -- induction on the queue: each answer is one turn more, and the end of the loop is the last one
  induction queue generalizing n server session with
  | nil =>
    cases n <;> obtain rfl := Except.ok.inj h <;> exact ⟨1, rfl⟩
  | cons answer queue ih =>
    cases n with
    | zero =>
      obtain rfl := Except.ok.inj h
      exact ⟨1, rfl⟩
    | succ n =>
      cases answer with
      | none =>
        obtain rfl := Except.ok.inj h
        exact ⟨1, rfl⟩
      | some event =>
        cases event with
        | connect =>
          obtain ⟨k, hk⟩ := ih h
          exact ⟨k + 1, hk⟩
        | disconnect =>
          obtain ⟨k, hk⟩ := ih h
          exact ⟨k + 1, hk⟩
        | receive peer data =>
          by_cases hip : extractIp peer = []
          · simp only [UdpServer.pollLoop, if_pos hip] at h ⊢
            obtain ⟨k, hk⟩ := ih h
            refine ⟨k + 1, ?_⟩
            rw [List.replicate_succ, Machine.run_cons, ← hk]
            simp only [machine, step, takeTurn, takeEvent, if_pos hip, Option.bind_some]
          · simp only [UdpServer.pollLoop, if_neg hip] at h ⊢
            cases hmsg : session.onMessage lib (UdpServer.message peer data) with
            | error e =>
              -- excluded, as the poll returns
              rw [hmsg] at h
              cases h
            | ok t =>
              simp only [hmsg] at h ⊢
              obtain ⟨k, hk⟩ := ih h
              refine ⟨k + 1, ?_⟩
              rw [List.replicate_succ, Machine.run_cons, ← hk]
              simp only [machine, step, takeTurn, takeEvent, if_neg hip, hmsg]
              rfl

/-- A turn takes one answer or ends the poll, and the session handles the message of the answer. -/
theorem takeTurn_spec (host : Host) (h : s.takeTurn lib = some s') :
    ∃ received : List (Option ServerEvent), received.length ≤ 1 ∧
      (∀ taken, Polling.Turns.step turn kMaxPerPoll ⟨taken, s.queue, s.polling⟩ .take =
        some ⟨taken ++ received, s'.queue, s'.polling⟩) ∧
      (Session.machine lib host).run s.session ((received.filterMap message?).map .message) =
        some s'.session ∧
      s'.server.host = s.server.host := by
  obtain ⟨session, server, queue, polling⟩ := s
  cases polling with
  | none => cases h
  | some n =>
    cases n with
    | zero =>
      obtain rfl := Option.some.inj h
      -- the budget is used up, and nothing is taken
      exact ⟨[], Nat.zero_le 1, fun taken => by rw [List.append_nil]; rfl, rfl, rfl⟩
    | succ n =>
      cases queue with
      | nil =>
        obtain rfl := Option.some.inj h
        exact ⟨[], Nat.zero_le 1, fun taken => by rw [List.append_nil]; rfl, rfl, rfl⟩
      | cons answer queue =>
        -- all answers are taken, whatever they are
        refine ⟨[answer], le_rfl, ?_⟩
        cases answer with
        | none =>
          obtain rfl := Option.some.inj h
          exact ⟨fun taken => rfl, rfl, rfl⟩
        | some event =>
          cases event with
          | connect =>
            obtain rfl := Option.some.inj h
            exact ⟨fun taken => rfl, rfl, rfl⟩
          | disconnect =>
            obtain rfl := Option.some.inj h
            exact ⟨fun taken => rfl, rfl, rfl⟩
          | receive peer data =>
            simp only [takeTurn, takeEvent] at h
            split at h
            next hip =>
              obtain rfl := Option.some.inj h
              -- no message, and the budget stays
              have hnone : message? (some (.receive peer data)) = none := if_pos hip
              refine ⟨fun taken => ?_, ?_, ?_⟩
              · simp only [Polling.Turns.step, turn, if_pos hip, Polling.leftAfter]
              · simp only [List.filterMap_cons_none hnone, List.filterMap_nil]
                rfl
              · simp
            next hip =>
              obtain ⟨t, ht, h⟩ := Option.bind_eq_some_iff.1 h
              obtain rfl := Option.some.inj h
              -- one message, which the session handles
              have hsome : message? (some (.receive peer data)) =
                  some (UdpServer.message peer data) := if_neg hip
              refine ⟨fun taken => ?_, ?_, ?_⟩
              · simp only [Polling.Turns.step, turn, if_neg hip, Polling.leftAfter]
              · simp only [List.filterMap_cons_some hsome, List.filterMap_nil]
                exact Option.bind_eq_some_iff.2 ⟨t, ht, rfl⟩
              · simp

/-! ## Runs -/

/-- The answer that arrives. -/
def Step.arrival? : Step → Option (Option ServerEvent)
  | arrive answer => some answer
  | pollEvents | turn | session _ => none

/-- The step of the session that is no message. -/
def Step.session? : Step → Option Session.Step
  | session l => some l
  | arrive _ | pollEvents | turn => none

/-- Whether a step is a call of `poll_events`. -/
def Step.isPoll : Step → Bool
  | pollEvents => true
  | arrive _ | turn | session _ => false

/-- The message that a step of the session handles. -/
def handled? : Session.Step → Option Message
  | .message msg => some msg
  | .connectClick _ | .runUiTask | .setAvailableDevices _ => none

/-- What a step is to the queue of a server. -/
def Step.event? (hasHost : Bool) : Step → Option (Polling.TurnEvent (Option ServerEvent))
  | arrive answer => some (.arrive answer)
  | pollEvents => if hasHost then some .start else none
  | turn => some .take
  | session _ => none

@[simp]
theorem handled_message (msgs : List Message) :
    (msgs.map Session.Step.message).filterMap handled? = msgs := by
  rw [List.filterMap_map]
  exact List.filterMap_some

@[simp]
theorem filter_message (msgs : List Message) :
    (msgs.map Session.Step.message).filter (fun l => (handled? l).isNone) = [] := by
  simp [List.filter_eq_nil_iff, handled?]

/-- After the steps `ls` the session by itself has taken the steps `steps`: the messages of the
answers `received` among the steps of `ls` that are no messages. The queue has been polled for
these answers. -/
structure Follows (lib : Nlohmann) (host : Host) (s₀ : SessionHost) (ls : List Step)
    (s : SessionHost) (received : List (Option ServerEvent)) (steps : List Session.Step) :
    Prop where
  runs : (Session.machine lib host).run s₀.session steps = some s.session
  messages : steps.filterMap handled? = received.filterMap message?
  others : (steps.filter fun l => (handled? l).isNone) = ls.filterMap Step.session?
  turns : (Polling.Turns.machine turn kMaxPerPoll).run ⟨[], s₀.queue, s₀.polling⟩
    (ls.filterMap (Step.event? s₀.server.host)) = some ⟨received, s.queue, s.polling⟩
  host : s.server.host = s₀.server.host

variable {s₀ : SessionHost} {ls : List Step} {received : List (Option ServerEvent)}
  {steps : List Session.Step}

theorem step_session {l : Session.Step} (h : step lib host s (.session l) = some s') :
    handled? l = none ∧
      ∃ t, Session.step lib host s.session l = some t ∧ s' = { s with session := t } := by
  cases l with
  | message msg => cases h
  | connectClick d =>
    obtain ⟨t, ht, h⟩ := Option.map_eq_some_iff.1 h
    exact ⟨rfl, t, ht, h.symm⟩
  | runUiTask =>
    obtain ⟨t, ht, h⟩ := Option.map_eq_some_iff.1 h
    exact ⟨rfl, t, ht, h.symm⟩
  | setAvailableDevices ds => exact ⟨rfl, _, rfl, (Option.some.inj h).symm⟩

/-- A step of the session that is no message is one of the session by itself. -/
theorem Follows.session {l : Session.Step} (h : Follows lib host s₀ ls s received steps)
    (hs : step lib host s (.session l) = some s') :
    Follows lib host s₀ (ls ++ [.session l]) s' received (steps ++ [l]) := by
  obtain ⟨hnone, t, ht, rfl⟩ := step_session hs
  refine ⟨Machine.run_concat_eq_some.2 ⟨s.session, h.runs, ht⟩, ?_, ?_, ?_, h.host⟩
  · rw [List.filterMap_append, List.filterMap_cons_none hnone, List.filterMap_nil,
      List.append_nil, h.messages]
  · rw [List.filter_append, List.filterMap_append, h.others]
    simp [Step.session?, hnone]
  · rw [List.filterMap_append]
    -- the queue of the server does not see the step
    exact (congrArg _ (List.append_nil _)).trans h.turns

/-- A turn hands at most one message to the session. -/
theorem Follows.turn (h : Follows lib host s₀ ls s received steps)
    (hs : s.takeTurn lib = some s') :
    ∃ received' steps', Follows lib host s₀ (ls ++ [.turn]) s' received' steps' := by
  obtain ⟨more, -, hturn, hruns, hhost⟩ := takeTurn_spec host hs
  refine ⟨received ++ more, steps ++ (more.filterMap message?).map .message, ?_, ?_, ?_, ?_, ?_⟩
  · rw [Machine.run_append, h.runs]
    exact hruns
  · rw [List.filterMap_append, handled_message, h.messages, List.filterMap_append]
  · rw [List.filter_append, filter_message, h.others, List.append_nil, List.filterMap_append]
    exact (List.append_nil _).symm
  · rw [List.filterMap_append]
    exact Machine.run_concat_eq_some.2 ⟨_, h.turns, hturn received⟩
  · exact hhost.trans h.host

/-- Every step keeps the correspondence. -/
theorem Follows.step {l : Step} (h : Follows lib host s₀ ls s received steps)
    (hs : SessionHost.step lib host s l = some s') :
    ∃ received' steps', Follows lib host s₀ (ls ++ [l]) s' received' steps' := by
  cases l with
  | turn => exact h.turn hs
  | session l => exact ⟨received, steps ++ [l], h.session hs⟩
  | arrive answer =>
    obtain rfl := Option.some.inj hs
    refine ⟨received, steps, h.runs, h.messages, ?_, ?_, h.host⟩
    · rw [h.others, List.filterMap_append]
      exact (List.append_nil _).symm
    · rw [List.filterMap_append]
      exact Machine.run_concat_eq_some.2 ⟨_, h.turns, rfl⟩
  | pollEvents =>
    have hothers : (steps.filter fun l => (handled? l).isNone) =
        (ls ++ [Step.pollEvents]).filterMap Step.session? := by
      rw [h.others, List.filterMap_append]
      exact (List.append_nil _).symm
    refine ⟨received, steps, ?_⟩
    simp only [SessionHost.step] at hs
    split at hs
    next hhost =>
      obtain ⟨hidle, hs⟩ := Option.ite_none_right_eq_some.1 hs
      obtain rfl := Option.some.inj hs
      -- a poll of the queue begins
      refine ⟨h.runs, h.messages, hothers, ?_, h.host⟩
      rw [List.filterMap_append]
      have hevent : [Step.pollEvents].filterMap (Step.event? s₀.server.host) = [.start] := by
        simp [Step.event?, ← h.host, hhost]
      rw [hevent]
      exact Machine.run_concat_eq_some.2 ⟨_, h.turns, if_pos hidle⟩
    next hhost =>
      -- without a host there is no poll
      obtain rfl := Option.some.inj hs
      refine ⟨h.runs, h.messages, hothers, ?_, h.host⟩
      have hevent : [Step.pollEvents].filterMap (Step.event? s₀.server.host) = [] := by
        simp [Step.event?, ← h.host, hhost]
      rw [List.filterMap_append, hevent, List.append_nil, h.turns]

/-- Every run of a session behind its server corresponds to one of the session by itself. -/
theorem follows_of_run (h : (machine lib host).run s₀ ls = some s) :
    ∃ received steps, Follows lib host s₀ ls s received steps := by
  refine Machine.run_induction (motive := fun ls s => ∃ received steps,
    Follows lib host s₀ ls s received steps) ⟨[], [], rfl, rfl, rfl, rfl, rfl⟩ ?_ h
  intro ls t l t' _ ⟨received, steps, hfollows⟩ hstep
  exact hfollows.step hstep

/-- The answers received and those in the queue are those that were there and those that arrived. -/
theorem Follows.arrivals (h : Follows lib host s₀ ls s received steps) :
    received ++ s.queue = s₀.queue ++ ls.filterMap Step.arrival? := by
  rw [Polling.turns_append h.turns, List.nil_append, List.filterMap_filterMap]
  congr 2
  funext l
  cases l with
  | pollEvents => cases s₀.server.host <;> rfl
  | _ => rfl

/-- Each call of `poll_events` by a server that has a host begins a poll of the queue. -/
theorem countP_event (ls : List Step) :
    (ls.filterMap (Step.event? true)).countP Polling.TurnEvent.isStart = ls.countP Step.isPoll := by
  induction ls with
  | nil => rfl
  | cons l ls ih =>
    cases l with
    | session l => exact ih
    | arrive answer => exact ih
    | turn => exact ih
    | pollEvents =>
      rw [List.countP_cons_of_pos rfl, ← ih]
      exact List.countP_cons_of_pos rfl

end SessionHost

open SessionHost in
/-- A session behind its server. Over every interleaving of arrivals, turns of `poll_events`,
clicks, UI tasks and lists of devices, the session is where it would be by itself after the same
steps and the messages of the answers received, each handled once and in order of arrival. No
answer is lost: those received and those still in the queue are those that arrived. -/
theorem session_behind_server {lib : Nlohmann} {host : Host} {s₀ s : SessionHost} {ls : List Step}
    (h : (machine lib host).run s₀ ls = some s) :
    ∃ received steps,
      received ++ s.queue = s₀.queue ++ ls.filterMap Step.arrival? ∧
      (Session.machine lib host).run s₀.session steps = some s.session ∧
      steps.filterMap handled? = received.filterMap UdpServer.message? ∧
      (steps.filter fun l => (handled? l).isNone) = ls.filterMap Step.session? := by
  obtain ⟨received, steps, hfollows⟩ := follows_of_run h
  exact ⟨received, steps, hfollows.arrivals, hfollows.runs, hfollows.messages, hfollows.others⟩

/-- A session behind its server, which has a request of `10.0.0.2` in its queue. -/
def SessionHost.requested : SessionHost :=
  ⟨Session.init, UdpServer.init 8801 true true, [some (.receive (some (some (.ofString "10.0.0.2")))
    (some (.ofString "\x7b\"__typename\":\"become_receiver\",\"payload\":\"\"\x7d")))], none⟩

/-- The server is polled, and before the turn of the request comes the list of devices changes. -/
def SessionHost.listInPoll : List SessionHost.Step :=
  [.pollEvents, .session (.setAvailableDevices [⟨false, [], .ofString "10.0.0.2", []⟩]), .turn,
    .turn]

open SessionHost in
/-- The run ends between two polls, with the session pinned to `10.0.0.2`. -/
theorem SessionHost.exists_listInPoll : ∃ s,
    (machine JsonText.nlohmann ⟨[], true⟩).run requested listInPoll = some s ∧
      s.session.pinnedPeer = some ⟨.ofString "10.0.0.2"⟩ ∧ s.polling = none := by
  have hrun : ∃ s ∈ (machine JsonText.nlohmann ⟨[], true⟩).run requested listInPoll,
      s.session.pinnedPeer = some ⟨.ofString "10.0.0.2"⟩ ∧ s.polling = none := by
    decide +kernel
  exact hrun

open SessionHost in
/-- The session accepts `10.0.0.2`, which it did not know when the poll began. -/
theorem session_behind_server_listInPoll : ∃ (s : SessionHost)
    (received : List (Option ServerEvent)) (steps : List Session.Step),
    s.session.pinnedPeer = some ⟨.ofString "10.0.0.2"⟩ ∧
      received ++ s.queue = requested.queue ++ listInPoll.filterMap Step.arrival? ∧
      (Session.machine JsonText.nlohmann ⟨[], true⟩).run requested.session steps =
        some s.session ∧
      steps.filterMap handled? = received.filterMap UdpServer.message? := by
  obtain ⟨s, hs, hpin, -⟩ := exists_listInPoll
  obtain ⟨received, steps, harrived, hruns, hmessages, -⟩ := session_behind_server hs
  exact ⟨s, received, steps, hpin, harrived, hruns, hmessages⟩

open SessionHost UdpServer in
/-- How long a packet waits. If a packet or another answer is in the queue of a server that has a
host and is between two polls, it is among those received, with all those before it, once more than
`1/64` of their load in polls has ended, and the session has then handled their messages in the
order of the run. An event before it counts 1, a packet without an address nothing, and an error
64. What arrives, is clicked or runs meanwhile makes no difference. -/
theorem packet_latency {lib : Nlohmann} {host : Host} {s₀ s : SessionHost} {ls : List Step}
    {before rest : List (Option ServerEvent)} {answer : Option ServerEvent}
    (hhost : s₀.server.host = true) (hidle : s₀.polling = none)
    (hqueue : s₀.queue = before ++ answer :: rest)
    (h : (machine lib host).run s₀ ls = some s)
    (hpolls : Polling.load turn kMaxPerPoll before + kMaxPerPoll * s.polling.toList.length <
      kMaxPerPoll * ls.countP Step.isPoll) :
    ∃ received steps,
      received ++ s.queue = before ++ answer :: rest ++ ls.filterMap Step.arrival? ∧
      (Session.machine lib host).run s₀.session steps = some s.session ∧
      steps.filterMap handled? = received.filterMap message? ∧
      (steps.filter fun l => (handled? l).isNone) = ls.filterMap Step.session? ∧
      before ++ [answer] <+: received := by
  obtain ⟨received, steps, hfollows⟩ := follows_of_run h
  refine ⟨received, steps, hqueue ▸ hfollows.arrivals, hfollows.runs, hfollows.messages,
    hfollows.others, ?_⟩
  have hturns := hfollows.turns
  rw [hidle, hhost] at hturns
  refine Polling.prefix_taken_turns (q := ⟨[], s₀.queue⟩) hqueue ?_ hturns
  rw [countP_event]
  exact hpolls

open SessionHost UdpServer in
/-- One poll has ended, and the session has handled the request. -/
theorem packet_latency_listInPoll : ∃ (s : SessionHost)
    (received : List (Option ServerEvent)) (steps : List Session.Step),
    (machine JsonText.nlohmann ⟨[], true⟩).run requested listInPoll = some s ∧
      (Session.machine JsonText.nlohmann ⟨[], true⟩).run requested.session steps =
        some s.session ∧
      steps.filterMap handled? = received.filterMap message? ∧
      requested.queue <+: received := by
  obtain ⟨s, hs, -, hpolling⟩ := exists_listInPoll
  have hpolls : Polling.load turn kMaxPerPoll [] + kMaxPerPoll * s.polling.toList.length <
      kMaxPerPoll * listInPoll.countP Step.isPoll := by
    rw [hpolling]
    decide
  obtain ⟨received, steps, -, hruns, hmessages, -, hreceived⟩ :=
    @packet_latency _ _ requested s listInPoll [] [] _ rfl rfl rfl hs hpolls
  exact ⟨s, received, steps, hs, hruns, hmessages, hreceived⟩

end Keyleport
