import Keyleport.Discovery.Table
import Keyleport.Networking.UdpBroadcast

/-!
# The discovery service and its socket

`discovery_service::update` starts with a poll of the broadcast server, whose messages go to the
callback of `init`. The service by itself takes messages one at a time. Here it is run with the
socket in front of it: datagrams arrive at any time, an update takes at most eight of them, and
`cleanup` closes the socket.

* `host_refines`: the service behind its socket runs as the service by itself does on the messages
  of the datagrams taken, each once and in order of arrival.
* `datagram_latency`: after how many updates a datagram has been handled.
-/

namespace Keyleport

open UdpBroadcastServer

/-- A `discovery_service` with the socket of its `broadcast_server_`. -/
structure DiscoveryHost where
  service : DiscoveryService
  /-- The datagrams in the queue of the socket, if it is open. -/
  queue : Option (List Recv)
deriving DecidableEq, Repr

namespace DiscoveryHost

/-- The callback of `init`, with the readings of the clock for each message of a poll, and the
number of messages the poll has emitted before. -/
def onMessage (lib : Nlohmann) (clock : ℕ → MessageClock) (s : DiscoveryService × ℕ)
    (msg : Message) : Except TypeError (DiscoveryService × ℕ) := do
  let service ← s.1.onMessage lib msg (clock s.2)
  return (service, s.2 + 1)

/-- `init`, with whether the server's socket could be bound. -/
def init (lib : Nlohmann) (deviceId deviceName platform : StdString) (first second : UInt64)
    (bound : Bool) : Except TypeError DiscoveryHost := do
  let service ← DiscoveryService.init lib deviceId deviceName platform first second
  return ⟨service, if bound then some [] else none⟩

/-- `if (broadcast_server_) { broadcast_server_->poll_events(); }`. -/
def pollServer (lib : Nlohmann) (platform : Platform) (s : DiscoveryHost)
    (clock : ℕ → MessageClock) : Except TypeError DiscoveryHost :=
  match s.service.broadcastServer, s.queue with
  | true, some queue => do
      let ((service, _), queue) ← pollEvents platform (onMessage lib clock) (s.service, 0) queue
      return ⟨service, some queue⟩
  | _, _ => .ok s

/-- `update`. -/
def update (lib : Nlohmann) (platform : Platform) (s : DiscoveryHost) (clock : ℕ → MessageClock)
    (broadcast stale : UInt64) : Except TypeError DiscoveryHost := do
  let s ← s.pollServer lib platform clock
  let service ← s.service.update lib broadcast stale
  return { s with service := service }

/-- `cleanup`, which destroys the server and so closes its socket. -/
def cleanup (lib : Nlohmann) (s : DiscoveryHost) (now : UInt64) :
    Except TypeError DiscoveryHost := do
  let service ← s.service.cleanup lib now
  return ⟨service, none⟩

/-- What happens to a service and its socket. -/
inductive Step where
  /-- The network puts a datagram into the queue of the socket. -/
  | arrive (r : Recv)
  | update (clock : ℕ → MessageClock) (broadcast stale : UInt64)
  | cleanup (now : UInt64)

/-- One step. A step that throws ends the run. -/
def step (lib : Nlohmann) (platform : Platform) (s : DiscoveryHost) :
    Step → Option DiscoveryHost
  | .arrive r => some { s with queue := s.queue.map fun queue => queue ++ [r] }
  | .update clock broadcast stale => (s.update lib platform clock broadcast stale).toOption
  | .cleanup now => (s.cleanup lib now).toOption

/-- The service behind its socket as a machine. -/
def machine (lib : Nlohmann) (platform : Platform) : Machine DiscoveryHost Step :=
  ⟨step lib platform⟩

/-! ## Labels -/

/-- The datagram that arrives. -/
def Step.arrival? : Step → Option Recv
  | arrive r => some r
  | update _ _ _ | cleanup _ => none

/-- A step as an event of the socket's queue. -/
def Step.event? : Step → Option (Polling.Event Recv)
  | arrive r => some (.arrive r)
  | update _ _ _ => some .poll
  | cleanup _ => none

/-- Whether a step is an update. -/
def Step.isUpdate : Step → Bool
  | update _ _ _ => true
  | arrive _ | cleanup _ => false

/-- The steps of the service by itself on the messages of a poll, from the message with a number
on. -/
def messages (clock : ℕ → MessageClock) (msgs : List Message) (n : ℕ) :
    List DiscoveryService.Step :=
  (msgs.zipIdx n).map fun m => .message m.1 (clock m.2)

/-- What a step does, as steps of the service by itself. -/
inductive Block : Step → List DiscoveryService.Step → Prop where
  | arrive (r : Recv) : Block (.arrive r) []
  | update (clock : ℕ → MessageClock) (broadcast stale : UInt64) (msgs : List Message)
      (hlen : msgs.length ≤ maxPerPoll) :
      Block (.update clock broadcast stale) (messages clock msgs 0 ++ [.update broadcast stale])
  | cleanup (now : UInt64) : Block (.cleanup now) [.cleanup now]

/-- The message that a step of the service by itself handles. -/
def handled? : DiscoveryService.Step → Option Message
  | .message msg _ => some msg
  | .update _ _ | .cleanup _ => none

theorem filterMap_handled?_messages (clock : ℕ → MessageClock) (msgs : List Message) (n : ℕ) :
    (messages clock msgs n).filterMap handled? = msgs := by
  induction msgs generalizing n with
  | nil => rfl
  | cons msg msgs ih =>
    rw [messages, List.zipIdx_cons, List.map_cons]
    exact congrArg (msg :: ·) (ih (n + 1))

/-- What a step takes from the queue. -/
def taken (platform : Platform) (s : DiscoveryHost) : Step → List Recv
  | .update _ _ _ =>
      match s.service.broadcastServer, s.queue with
      | true, some queue => (poll platform queue).1
      | _, _ => []
  | .arrive _ | .cleanup _ => []

/-- The queue after a step. -/
def queueAfter (platform : Platform) (s : DiscoveryHost) : Step → Option (List Recv)
  | .arrive r => s.queue.map fun queue => queue ++ [r]
  | .update clock broadcast stale =>
      s.queue.map fun queue =>
        queue.drop (taken platform s (.update clock broadcast stale)).length
  | .cleanup _ => none

/-! ## What a step does -/

variable {lib : Nlohmann} {platform : Platform} {s s' : DiscoveryHost}

/-- The callback over the messages of a poll is a run of the service by itself. -/
theorem run_of_foldlM {clock : ℕ → MessageClock} {msgs : List Message}
    {service t : DiscoveryService} {n m : ℕ} (hserver : service.broadcastServer = true)
    (h : msgs.foldlM (onMessage lib clock) (service, n) = .ok (t, m)) :
    (DiscoveryService.machine lib).run service (messages clock msgs n) = some t ∧
      t.broadcastServer = true := by
  induction msgs generalizing service n with
  | nil =>
    obtain ⟨rfl, -⟩ := Prod.mk.inj (Except.ok.inj h)
    exact ⟨rfl, hserver⟩
  | cons msg msgs ih =>
    rw [List.foldlM_cons] at h
    obtain ⟨⟨u, k⟩, hu, h⟩ := Except.bind_eq_ok_iff.1 h
    obtain ⟨u', hmsg, hu⟩ := Except.bind_eq_ok_iff.1 hu
    obtain ⟨rfl, rfl⟩ := Prod.mk.inj (Except.ok.inj hu)
    have hstep : DiscoveryService.step lib service (.message msg (clock n)) = some u' := by
      rw [DiscoveryService.step, if_pos hserver, hmsg]
      rfl
    -- a datagram leaves the server running
    have hsaid := DiscoveryService.says_of_step (fun _ heq => by cases heq) hstep
    obtain ⟨hrun, ht⟩ := ih (hsaid.broadcastServer.trans hserver) h
    refine ⟨?_, ht⟩
    rw [messages, List.zipIdx_cons, List.map_cons, Machine.run_cons]
    exact Option.bind_eq_some_iff.2 ⟨u', hstep, hrun⟩

/-- A poll of an open socket takes from the front of the queue, and the service handles the
messages of what it takes. -/
theorem pollServer_spec {clock : ℕ → MessageClock} {queue : List Recv}
    (hserver : s.service.broadcastServer = true) (hqueue : s.queue = some queue)
    (h : s.pollServer lib platform clock = .ok s') :
    (DiscoveryService.machine lib).run s.service
        (messages clock ((poll platform queue).1.filterMap (message? platform)) 0) =
      some s'.service ∧
    s'.service.broadcastServer = true ∧ s'.queue = some (poll platform queue).2 := by
  -- the loop over the socket is a fold over the messages of what it takes
  rw [pollServer, hserver, hqueue] at h
  simp only [pollEvents, pollLoop_eq] at h
  obtain ⟨⟨⟨t, m⟩, rest⟩, hpoll, h⟩ := Except.bind_eq_ok_iff.1 h
  obtain ⟨⟨t', m'⟩, hfold, hpoll⟩ := Except.bind_eq_ok_iff.1 hpoll
  obtain ⟨heq, rfl⟩ := Prod.mk.inj (Except.ok.inj hpoll)
  obtain ⟨rfl, rfl⟩ := Prod.mk.inj heq
  obtain rfl := Except.ok.inj h
  obtain ⟨hrun, ht⟩ := run_of_foldlM hserver hfold
  exact ⟨hrun, ht, rfl⟩

/-- A server that is gone, or has no socket, is not polled. -/
theorem pollServer_closed {clock : ℕ → MessageClock}
    (hclosed : s.service.broadcastServer = false ∨ s.queue = none) :
    s.pollServer lib platform clock = .ok s := by
  rw [pollServer]
  rcases hclosed with hserver | hqueue
  · rw [hserver]
  · rw [hqueue]
    cases s.service.broadcastServer <;> rfl

/-- A step is a block of steps of the service by itself, on the messages of what it takes. -/
theorem step_refines {l : Step} (h : step lib platform s l = some s') :
    ∃ block, Block l block ∧
      (DiscoveryService.machine lib).run s.service block = some s'.service ∧
      block.filterMap handled? = (taken platform s l).filterMap (message? platform) ∧
      s'.queue = queueAfter platform s l := by
  cases l with
  | arrive r =>
    obtain rfl := Option.some.inj h
    exact ⟨[], .arrive r, rfl, rfl, rfl⟩
  | update clock broadcast stale =>
    obtain ⟨t, ht, h⟩ := Except.bind_eq_ok_iff.1 (Except.eq_ok_of_toOption h)
    obtain ⟨service, hupdate, h⟩ := Except.bind_eq_ok_iff.1 h
    obtain rfl := Except.ok.inj h
    -- whether or not the socket was polled, the rest of the update is an update of the service
    have hrest : DiscoveryService.step lib t.service (.update broadcast stale) = some service := by
      rw [DiscoveryService.step, hupdate]
      rfl
    by_cases hopen : s.service.broadcastServer = true ∧ ∃ queue, s.queue = some queue
    · obtain ⟨hserver, queue, hqueue⟩ := hopen
      obtain ⟨hrun, -, hleft⟩ := pollServer_spec hserver hqueue ht
      have htaken : taken platform s (.update clock broadcast stale) = (poll platform queue).1 := by
        rw [taken, hserver, hqueue]
      refine ⟨_, .update clock broadcast stale _ (length_messages_le platform queue),
        Machine.run_concat_eq_some.2 ⟨t.service, hrun, hrest⟩, ?_, ?_⟩
      -- what is handled is what was polled
      · rw [htaken, List.filterMap_append, filterMap_handled?_messages]
        exact List.append_nil _
      -- and the rest is still in the queue
      · simp only [queueAfter, htaken, hleft, hqueue, Option.map_some]
        exact congrArg some (Polling.poll_snd _ _ _)
    · -- nothing is polled
      have hclosed : s.service.broadcastServer = false ∨ s.queue = none := by
        cases hserver : s.service.broadcastServer with
        | false => exact Or.inl rfl
        | true =>
          cases hqueue : s.queue with
          | none => exact Or.inr rfl
          | some queue => exact absurd ⟨hserver, queue, hqueue⟩ hopen
      rw [pollServer_closed hclosed] at ht
      obtain rfl := Except.ok.inj ht
      have htaken : taken platform s (.update clock broadcast stale) = [] := by
        rw [taken]
        rcases hclosed with hserver | hqueue
        · rw [hserver]
        · rw [hqueue]
          cases s.service.broadcastServer <;> rfl
      refine ⟨_, .update clock broadcast stale [] (Nat.zero_le _),
        Machine.run_concat_eq_some.2 ⟨s.service, rfl, hrest⟩, ?_, ?_⟩
      · rw [htaken]
        rfl
      · simp only [queueAfter, htaken, List.length_nil, List.drop_zero, Option.map_id']
  | cleanup now =>
    obtain ⟨service, hcleanup, h⟩ := Except.bind_eq_ok_iff.1 (Except.eq_ok_of_toOption h)
    obtain rfl := Except.ok.inj h
    refine ⟨_, .cleanup now, ?_, rfl, rfl⟩
    have hstep : DiscoveryService.step lib s.service (.cleanup now) = some service := by
      rw [DiscoveryService.step, hcleanup]
      rfl
    exact Option.bind_eq_some_iff.2 ⟨service, hstep, rfl⟩

/-- What is taken is at the front of the queue. -/
theorem taken_prefix (platform : Platform) (s : DiscoveryHost) (l : Step) :
    taken platform s l <+: s.queue.getD [] := by
  cases l with
  | arrive r => exact List.nil_prefix
  | update clock broadcast stale =>
    rw [taken]
    split
    next queue _ hqueue =>
      rw [hqueue]
      exact ⟨_, Polling.poll_append _ _ _⟩
    next => exact List.nil_prefix
  | cleanup now => exact List.nil_prefix

/-- The history of a run: the blocks of its steps, and what was received of the datagrams that
were there or arrived. -/
structure Follows (lib : Nlohmann) (platform : Platform) (s₀ : DiscoveryHost) (ls : List Step)
    (s : DiscoveryHost) (blocks : List (List DiscoveryService.Step)) (received : List Recv) :
    Prop where
  block : List.Forall₂ Block ls blocks
  run : (DiscoveryService.machine lib).run s₀.service blocks.flatten = some s.service
  handled : blocks.flatten.filterMap handled? = received.filterMap (message? platform)
  inOrder : received <+: s₀.queue.getD [] ++ ls.filterMap Step.arrival?
  pending : ∀ queue, s.queue = some queue →
    received ++ queue = s₀.queue.getD [] ++ ls.filterMap Step.arrival?

/-- One more step, with what it takes. -/
theorem Follows.step {s₀ : DiscoveryHost} {ls : List Step} {l : Step}
    {blocks : List (List DiscoveryService.Step)} {received : List Recv}
    (hF : Follows lib platform s₀ ls s blocks received)
    (h : DiscoveryHost.step lib platform s l = some s') :
    ∃ block, Follows lib platform s₀ (ls ++ [l]) s' (blocks ++ [block])
      (received ++ taken platform s l) := by
  obtain ⟨block, hblock, hrun, hhandled, hqueue⟩ := step_refines h
  have htaken := taken_prefix platform s l
  refine ⟨block, List.rel_append hF.block (.cons hblock .nil), ?_, ?_, ?_, ?_⟩
  -- the blocks run one after the other
  · rw [List.flatten_append, List.flatten_singleton, Machine.run_append, hF.run]
    exact hrun
  · rw [List.flatten_append, List.flatten_singleton, List.filterMap_append, hF.handled, hhandled,
      List.filterMap_append]
  · rw [List.filterMap_append, ← List.append_assoc]
    refine List.IsPrefix.trans ?_ (List.prefix_append _ _)
    cases hq : s.queue with
    | none =>
      -- nothing can be taken
      rw [hq] at htaken
      rw [List.prefix_nil.1 htaken, List.append_nil]
      exact hF.inOrder
    | some queue =>
      rw [hq] at htaken
      rw [← hF.pending queue hq]
      exact (List.prefix_append_right_inj _).2 htaken
  -- the datagrams that are left are still in order, also those that arrive in this step
  · intro queue' hq'
    rw [hq'] at hqueue
    cases l with
    | arrive r =>
      obtain ⟨queue, hq, rfl⟩ := Option.map_eq_some_iff.1 hqueue.symm
      have hnone : taken platform s (.arrive r) = [] := rfl
      rw [List.filterMap_append, ← List.append_assoc (s₀.queue.getD []), ← hF.pending queue hq,
        hnone, List.append_nil, ← List.append_assoc]
      rfl
    | update clock broadcast stale =>
      obtain ⟨queue, hq, rfl⟩ := Option.map_eq_some_iff.1 hqueue.symm
      rw [hq, Option.getD_some] at htaken
      rw [List.filterMap_append, List.append_assoc received,
        List.prefix_iff_eq_append.1 htaken, hF.pending queue hq]
      exact congrArg _ (List.append_nil _).symm
    | cleanup now => cases hqueue

theorem Follows.of_run {s₀ : DiscoveryHost} {ls : List Step}
    (h : (machine lib platform).run s₀ ls = some s) :
    ∃ blocks received, Follows lib platform s₀ ls s blocks received := by
  refine Machine.run_induction (motive := fun ls s => ∃ blocks received,
    Follows lib platform s₀ ls s blocks received) ?_ ?_ h
  · refine ⟨[], [], .nil, rfl, rfl, List.nil_prefix, fun queue hq => ?_⟩
    rw [hq]
    exact (List.append_nil _).symm
  · rintro ls s l s' - ⟨blocks, received, hF⟩ hstep
    obtain ⟨block, hF'⟩ := hF.step hstep
    exact ⟨_, _, hF'⟩

/-! ## A server that listens -/

/-- Only a cleanup stops the server. -/
theorem server_of_step {l : Step} (hl : ∀ now, l ≠ .cleanup now)
    (hserver : s.service.broadcastServer = true) (h : step lib platform s l = some s') :
    s'.service.broadcastServer = true := by
  cases l with
  | arrive r =>
    obtain rfl := Option.some.inj h
    exact hserver
  | update clock broadcast stale =>
    obtain ⟨t, ht, h⟩ := Except.bind_eq_ok_iff.1 (Except.eq_ok_of_toOption h)
    obtain ⟨service, hupdate, h⟩ := Except.bind_eq_ok_iff.1 h
    obtain rfl := Except.ok.inj h
    have hrest : DiscoveryService.step lib t.service (.update broadcast stale) = some service := by
      rw [DiscoveryService.step, hupdate]
      rfl
    have hsaid := DiscoveryService.says_of_step (fun _ heq => by cases heq) hrest
    have htserver : t.service.broadcastServer = true := by
      cases hqueue : s.queue with
      | none =>
        rw [pollServer_closed (Or.inr hqueue)] at ht
        obtain rfl := Except.ok.inj ht
        exact hserver
      | some queue => exact (pollServer_spec hserver hqueue ht).2.1
    -- the poll leaves the server running, and so does the rest of the update
    exact hsaid.broadcastServer.trans htserver
  -- excluded by `hl`
  | cleanup now => exact absurd rfl (hl now)

/-- What a running server takes, and leaves, is what a bounded poll of its queue does. -/
theorem step_eq_polling (platform : Platform) {l : Step} {q : Polling.Queue Recv}
    (hl : ∀ now, l ≠ .cleanup now) (hserver : s.service.broadcastServer = true)
    (hqueue : s.queue = some q.pending) :
    queueAfter platform s l = some (Polling.after (turn platform) maxPerPoll q
        ([l].filterMap Step.event?)).pending ∧
      q.taken ++ taken platform s l =
        (Polling.after (turn platform) maxPerPoll q ([l].filterMap Step.event?)).taken := by
  cases l with
  | arrive r =>
    rw [queueAfter, hqueue]
    exact ⟨rfl, List.append_nil _⟩
  | update clock broadcast stale =>
    have htaken : taken platform s (.update clock broadcast stale) =
        (poll platform q.pending).1 := by
      rw [taken, hserver, hqueue]
    rw [queueAfter, htaken, hqueue]
    exact ⟨congrArg some (Polling.poll_snd _ _ _).symm, rfl⟩
  | cleanup now => exact absurd rfl (hl now)

/-- Until the cleanup the queue is polled as a queue with a budget of eight. -/
theorem polling_of_run {s₀ : DiscoveryHost} {queue₀ : List Recv} {ls : List Step}
    (hserver : s₀.service.broadcastServer = true) (hqueue : s₀.queue = some queue₀)
    (hls : ∀ l ∈ ls, ∀ now, l ≠ .cleanup now) (h : (machine lib platform).run s₀ ls = some s) :
    s.service.broadcastServer = true ∧
    ∃ blocks, Follows lib platform s₀ ls s blocks (Polling.after (turn platform) maxPerPoll
        ⟨[], queue₀⟩ (ls.filterMap Step.event?)).taken ∧
      s.queue = some (Polling.after (turn platform) maxPerPoll ⟨[], queue₀⟩
        (ls.filterMap Step.event?)).pending := by
  -- the labels seen so far are part of the induction, as only a cleanup is excluded
  revert hls
  refine Machine.run_induction (motive := fun ls s => (∀ l ∈ ls, ∀ now, l ≠ .cleanup now) →
    s.service.broadcastServer = true ∧
    ∃ blocks, Follows lib platform s₀ ls s blocks (Polling.after (turn platform) maxPerPoll
        ⟨[], queue₀⟩ (ls.filterMap Step.event?)).taken ∧
      s.queue = some (Polling.after (turn platform) maxPerPoll ⟨[], queue₀⟩
        (ls.filterMap Step.event?)).pending) ?_ ?_ h
  · intro _
    refine ⟨hserver, [], ⟨.nil, rfl, rfl, List.nil_prefix, fun queue hq => ?_⟩, hqueue⟩
    rw [hq]
    exact (List.append_nil _).symm
  · intro ls s l s' _ ih hstep hls
    obtain ⟨ht, blocks, hF, hq⟩ := ih fun l' hl' => hls l' (List.mem_append_left _ hl')
    have hl := hls l (List.mem_append_right _ List.mem_cons_self)
    obtain ⟨hafter, htaken⟩ := step_eq_polling platform hl ht hq
    obtain ⟨block, hF'⟩ := hF.step hstep
    obtain ⟨-, -, -, -, hqueue'⟩ := step_refines hstep
    rw [htaken, ← Polling.after_append, ← List.filterMap_append] at hF'
    refine ⟨server_of_step hl ht hstep, _, hF', ?_⟩
    rw [hqueue', hafter, ← Polling.after_append, ← List.filterMap_append]

end DiscoveryHost

open DiscoveryHost in
/-- A service behind its socket is the service by itself. For every run of a discovery service
with the socket of its server, from any state and over any interleaving of arriving datagrams,
updates and cleanups, there is a run of the service by itself to the same state. Each update is
at most eight messages and then the rest of the update. The messages handled are those of the
datagrams received, which are the first of the datagrams there were, each once and in order, and
while the socket is open the others are still in its queue. -/
theorem host_refines {lib : Nlohmann} {platform : Platform} {s₀ s : DiscoveryHost}
    {ls : List Step} (h : (machine lib platform).run s₀ ls = some s) :
    ∃ blocks received, List.Forall₂ Block ls blocks ∧
      (DiscoveryService.machine lib).run s₀.service blocks.flatten = some s.service ∧
      blocks.flatten.filterMap handled? = received.filterMap (message? platform) ∧
      received <+: s₀.queue.getD [] ++ ls.filterMap Step.arrival? ∧
      ∀ queue, s.queue = some queue →
        received ++ queue = s₀.queue.getD [] ++ ls.filterMap Step.arrival? := by
  obtain ⟨blocks, received, hF⟩ := Follows.of_run h
  exact ⟨blocks, received, hF.block, hF.run, hF.handled, hF.inOrder, hF.pending⟩

/-- An empty datagram from `10.0.0.2`, and one that says who it is. -/
def DiscoveryHost.emptyAndSeen : List Recv :=
  [.datagram (some (.ofString "10.0.0.2")) [],
    .datagram (some (.ofString "10.0.0.2")) (.ofString "\x7b\"device_id\":\"b\"\x7d")]

/-- Two updates at the time 1. -/
def DiscoveryHost.twoUpdates : List DiscoveryHost.Step :=
  [.update (fun _ => ⟨1, 1, 1⟩) 1 1, .update (fun _ => ⟨1, 1, 1⟩) 1 1]

open DiscoveryHost in
/-- Two datagrams arrive and two updates take them. -/
theorem host_refines_twoUpdates : ∃ s₀ s,
    init JsonText.nlohmann (.ofString "a") [] [] 0 0 true = .ok s₀ ∧
      (machine JsonText.nlohmann .macos).run s₀ (emptyAndSeen.map .arrive ++ twoUpdates) =
        some s ∧
      s.service.discoveredPeers ≠ [] ∧
      ∃ steps, (DiscoveryService.machine JsonText.nlohmann).run s₀.service steps =
        some s.service := by
  have hrun : ∃ s₀ ∈ (init JsonText.nlohmann (.ofString "a") [] [] 0 0 true).toOption,
      ∃ s ∈ (machine JsonText.nlohmann .macos).run s₀ (emptyAndSeen.map .arrive ++ twoUpdates),
        s.service.discoveredPeers ≠ [] := by
    decide +kernel
  obtain ⟨s₀, hs₀, s, hs, hpeers⟩ := hrun
  obtain ⟨blocks, -, -, hblocks, -⟩ := host_refines hs
  exact ⟨s₀, s, Except.eq_ok_of_toOption hs₀, hs, hpeers, blocks.flatten, hblocks⟩

open DiscoveryHost in
/-- How long a datagram waits. While the service runs, a datagram is among those received, with all
those before it in the queue of the socket, once there were so many updates that eight for each
exceed the load before it: the number of those datagrams, where one that ends a poll (an empty one,
or on Windows one that is too long) counts for eight. The steps of the run have then handled its
message. Whatever arrives behind it does not delay it. -/
theorem datagram_latency {lib : Nlohmann} {platform : Platform} {s₀ s : DiscoveryHost}
    {before rest : List Recv} {r : Recv} {ls : List Step}
    (hserver : s₀.service.broadcastServer = true) (hqueue : s₀.queue = some (before ++ r :: rest))
    (hls : ∀ l ∈ ls, ∀ now, l ≠ .cleanup now)
    (hupdates : Polling.load (turn platform) maxPerPoll before <
      maxPerPoll * ls.countP Step.isUpdate)
    (h : (machine lib platform).run s₀ ls = some s) :
    ∃ blocks received, List.Forall₂ Block ls blocks ∧
      (DiscoveryService.machine lib).run s₀.service blocks.flatten = some s.service ∧
      blocks.flatten.filterMap handled? = received.filterMap (message? platform) ∧
      (∀ queue, s.queue = some queue →
        received ++ queue = before ++ r :: rest ++ ls.filterMap Step.arrival?) ∧
      before ++ [r] <+: received := by
  obtain ⟨-, blocks, hF, -⟩ := polling_of_run hserver hqueue hls h
  have hpending := hF.pending
  rw [hqueue, Option.getD_some] at hpending
  refine ⟨blocks, _, hF.block, hF.run, hF.handled, hpending, ?_⟩
  have hpolls : (ls.filterMap Step.event?).countP Polling.Event.isPoll =
      ls.countP Step.isUpdate := by
    rw [List.countP_filterMap]
    refine List.countP_congr fun l _ => ?_
    cases l <;> simp [Step.event?, Step.isUpdate, Polling.Event.isPoll]
  -- the service is polled as a queue, so the general bound holds of it
  exact Polling.prefix_taken (s := ⟨[], before ++ r :: rest⟩) rfl
    (hupdates.trans_eq (congrArg (maxPerPoll * ·) hpolls.symm))

open DiscoveryHost in
/-- The datagram behind the empty one waits for the second update. -/
theorem datagram_latency_empty : ∃ s₀ s blocks received,
    s₀.queue = some emptyAndSeen ∧
      (machine JsonText.nlohmann .macos).run s₀ twoUpdates = some s ∧
      List.Forall₂ Block twoUpdates blocks ∧
      (DiscoveryService.machine JsonText.nlohmann).run s₀.service blocks.flatten =
        some s.service ∧
      blocks.flatten.filterMap handled? = received.filterMap (message? .macos) ∧
      emptyAndSeen <+: received := by
  have hrun : ∃ s₀ ∈ (init JsonText.nlohmann (.ofString "a") [] [] 0 0 true).toOption,
      s₀.service.broadcastServer = true ∧
      ∃ s ∈ (machine JsonText.nlohmann .macos).run { s₀ with queue := some emptyAndSeen }
        twoUpdates, s.service.discoveredPeers ≠ [] := by
    decide +kernel
  obtain ⟨s₀, -, hserver, s, hs, -⟩ := hrun
  have hqueue : ({ s₀ with queue := some emptyAndSeen } : DiscoveryHost).queue =
      some (emptyAndSeen.take 1 ++ emptyAndSeen.getLast (by decide) :: []) := rfl
  have hlistens : ({ s₀ with queue := some emptyAndSeen } : DiscoveryHost).service.broadcastServer =
      true := hserver
  obtain ⟨blocks, received, hblock, hruns, hhandled, -, hreceived⟩ :=
    datagram_latency hlistens hqueue (by simp [twoUpdates]) (by decide) hs
  exact ⟨_, s, blocks, received, rfl, hs, hblock, hruns, hhandled, hreceived⟩

end Keyleport
