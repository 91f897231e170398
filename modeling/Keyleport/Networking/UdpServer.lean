import Keyleport.Lib.Except
import Keyleport.Lib.Machine
import Keyleport.Lib.Polling
import Keyleport.Networking.Message

/-!
# The UDP server

`networking/p2p/udp_server.cpp`: an ENet host that is polled for at most 64 events at a time. A
packet whose peer has no address is destroyed without counting; any other is given to the
subscribers of `on_message` and destroyed when they return. What the subscribers do is given to
the server as a function on the state of the program, which may throw.

* `EnetServer.machine`: the use of ENet that is allowed to a server, as a machine over its calls.
* `EnetServer.destroyed_add_held`: in an allowed use a packet is destroyed once or is still held.
* `UdpServer.pollLoop_spec`: a poll emits the messages of what a bounded poll takes.
* `server_packets`: what a server does with ENet and its packets.
-/

namespace Keyleport

/-- An event that `enet_host_service` reports. -/
inductive ServerEvent where
  | connect
  | disconnect
  /-- A packet and its peer, with the text that `enet_address_get_host_ip` gives of the address
  of the peer. -/
  | receive (peer : Option (Option StdString)) (packet : Option StdString)
deriving DecidableEq, Repr

/-- The calls of a server, with what they answer. A packet is named by the number of packets given
before it. -/
inductive ServerCall where
  /-- `enet_initialize`, and whether it succeeded. -/
  | enetInit (ok : Bool)
  /-- `enet_host_create`, and whether it gave a host. -/
  | hostCreate (port : UInt16) (created : Bool)
  /-- `enet_host_service`, the event it reported, if any, and the packet of the event. -/
  | hostService (event : Option ServerEvent) (packet : Option ℕ)
  /-- `enet_packet_destroy`. -/
  | packetDestroy (packet : ℕ)
  /-- `enet_host_destroy`. -/
  | hostDestroy
  /-- `enet_deinitialize`. -/
  | enetDeinit
deriving DecidableEq, Repr

/-! ## The allowed uses of ENet -/

/-- ENet as a server sees it. -/
structure EnetServer where
  initialized : Bool
  /-- Whether there is a host. -/
  host : Bool
  /-- How many packets were given. -/
  given : ℕ
  /-- The packets given and not destroyed. -/
  held : List ℕ
deriving DecidableEq, Repr

namespace EnetServer

/-- ENet before it is initialized. -/
def new : EnetServer := ⟨false, false, 0, []⟩

/-- A call that is allowed: a host is created and destroyed while ENet is initialized and serviced
while it lives, and a packet is destroyed while it is held. -/
def step (e : EnetServer) : ServerCall → Option EnetServer
  | .enetInit ok => if e.initialized then none else some { e with initialized := ok }
  | .hostCreate _ created =>
      if e.initialized && !e.host then some { e with host := created } else none
  | .hostService _ none => if e.host then some e else none
  | .hostService _ (some p) =>
      if e.host = true ∧ p = e.given then some { e with given := p + 1, held := e.held ++ [p] }
      else none
  | .packetDestroy p => if p ∈ e.held then some { e with held := e.held.erase p } else none
  | .hostDestroy => if e.host then some { e with host := false } else none
  | .enetDeinit =>
      if e.initialized && !e.host then some { e with initialized := false } else none

/-- The allowed uses of ENet. -/
def machine : Machine EnetServer ServerCall := ⟨step⟩

variable {e e' : EnetServer} {calls : List ServerCall} {c : ServerCall}

/-- A call gives the next packet, destroys one that is held, or leaves the packets alone. -/
theorem step_cases (h : step e c = some e') :
    (∃ event, c = .hostService event (some e.given) ∧ e'.given = e.given + 1 ∧
      e'.held = e.held ++ [e.given]) ∨
    (∃ p ∈ e.held, c = .packetDestroy p ∧ e'.given = e.given ∧ e'.held = e.held.erase p) ∨
    ((∀ p, c ≠ .packetDestroy p) ∧ e'.given = e.given ∧ e'.held = e.held) := by
  cases c with
  | hostService event packet =>
    cases packet with
    | none =>
      obtain ⟨-, h⟩ := Option.ite_none_right_eq_some.1 h
      exact Or.inr (Or.inr ⟨by simp, Option.some.inj h ▸ ⟨rfl, rfl⟩⟩)
    | some p =>
      obtain ⟨⟨-, rfl⟩, h⟩ := Option.ite_none_right_eq_some.1 h
      exact Or.inl ⟨event, rfl, Option.some.inj h ▸ ⟨rfl, rfl⟩⟩
  | packetDestroy p =>
    obtain ⟨hp, h⟩ := Option.ite_none_right_eq_some.1 h
    exact Or.inr (Or.inl ⟨p, hp, rfl, Option.some.inj h ▸ ⟨rfl, rfl⟩⟩)
  | enetInit ok =>
    obtain ⟨-, h⟩ := Option.ite_none_left_eq_some.1 h
    exact Or.inr (Or.inr ⟨by simp, Option.some.inj h ▸ ⟨rfl, rfl⟩⟩)
  | hostCreate _ _ | hostDestroy | enetDeinit =>
    obtain ⟨-, h⟩ := Option.ite_none_right_eq_some.1 h
    exact Or.inr (Or.inr ⟨by simp, Option.some.inj h ▸ ⟨rfl, rfl⟩⟩)

/-- How often a packet was destroyed. -/
def destroyed (calls : List ServerCall) (p : ℕ) : ℕ := calls.count (.packetDestroy p)

theorem destroyed_concat (calls : List ServerCall) (c : ServerCall) (p : ℕ) :
    destroyed (calls ++ [c]) p =
      destroyed calls p + if c = .packetDestroy p then 1 else 0 := by
  rw [destroyed, List.count_append, List.count_singleton]
  simp only [destroyed, beq_iff_eq]

/-- In an allowed use, a packet that was given was destroyed once or is held, and one that was not
given is neither. -/
theorem destroyed_add_held (h : machine.run new calls = some e) (p : ℕ) :
    destroyed calls p + e.held.count p = if p < e.given then 1 else 0 := by
  refine Machine.run_induction (M := machine) (motive := fun calls e =>
    destroyed calls p + e.held.count p = if p < e.given then 1 else 0) rfl ?_ h
  intro calls e c e' _ ih hstep
  rw [destroyed_concat]
  rcases step_cases hstep with ⟨event, rfl, hgiven, hheld⟩ | ⟨q, hq, rfl, hgiven, hheld⟩ |
    ⟨hc, hgiven, hheld⟩
  · -- the packet given is one that was not given before
    rw [hgiven, hheld, List.count_append, List.count_singleton, if_neg (by simp)]
    simp only [beq_iff_eq]
    split_ifs at ih ⊢ <;> omega
  -- `q` was held, so one time less is held and one time more destroyed
  · rw [hgiven, hheld, ← ih, List.count_erase]
    have hcount : 0 < e.held.count q := List.count_pos_iff.2 hq
    simp only [ServerCall.packetDestroy.injEq, beq_iff_eq]
    split_ifs with hqp
    · subst hqp
      omega
    · rfl
  -- no packet comes or goes
  · rw [hgiven, hheld, if_neg (hc p), Nat.add_zero, ih]

end EnetServer

/-! ## The server -/

/-- `udp_server`, with the calls it has made. -/
structure UdpServer where
  /-- Whether `host_` is set. -/
  host : Bool
  enetInited : Bool
  /-- How many packets ENet has given. -/
  received : ℕ
  /-- The calls made, oldest first. -/
  calls : List ServerCall
deriving DecidableEq, Repr

namespace UdpServer

/-- `kMaxPerPoll`. -/
def kMaxPerPoll : ℕ := 64

/-- The constructor, with the answers of `enet_initialize` and `enet_host_create`. -/
def init (port : Int32) (initialized created : Bool) : UdpServer :=
  if initialized then
    ⟨created, true, 0, [.enetInit true, .hostCreate port.toUInt32.toUInt16 created]⟩
  else ⟨false, false, 0, [.enetInit false]⟩

/-- The destructor. -/
def destroy (server : UdpServer) : UdpServer :=
  let server :=
    if server.host then
      { server with host := false, calls := server.calls ++ [.hostDestroy] }
    else server
  if server.enetInited then
    { server with enetInited := false, calls := server.calls ++ [.enetDeinit] }
  else server

/-- `extract_ip`, empty for a peer that is null or whose address has no text. -/
def extractIp (peer : Option (Option StdString)) : StdString := (peer.getD none).getD []

/-- `destroy_packet`. -/
def destroyPacket (server : UdpServer) (packet : Option ℕ) : UdpServer :=
  match packet with
  | some p => { server with calls := server.calls ++ [.packetDestroy p] }
  | none => server

/-- The name of the packet of an event. -/
def packetOf (server : UdpServer) : ServerEvent → Option ℕ
  | .receive _ (some _) => some server.received
  | .receive _ none | .connect | .disconnect => none

/-- A call of `enet_host_service` that reports an event. -/
def hostService (server : UdpServer) (event : ServerEvent) : UdpServer :=
  { server with
    received := server.received + (server.packetOf event).toList.length
    calls := server.calls ++ [.hostService event (server.packetOf event)] }

/-- A call of `enet_host_service` that reports none. -/
def hostServiceNone (server : UdpServer) : UdpServer :=
  { server with calls := server.calls ++ [.hostService none none] }

/-- The message that a packet is emitted as. The payload of a null packet is empty. -/
def message (peer : Option (Option StdString)) (packet : Option StdString) : Message :=
  ⟨⟨extractIp peer⟩, Peer.self, packet.getD []⟩

/-- What a poll leaves, and whether it threw. -/
structure Polled (σ ε : Type) where
  server : UdpServer
  /-- The answers of `enet_host_service` that were not asked for. -/
  queue : List (Option ServerEvent)
  outcome : Except ε σ

variable {σ ε : Type}

/-- The loop of `poll_events`, with what is left of its budget, over the answers that
`enet_host_service` has ready: an event, or `none` for a call that fails. -/
def pollLoop (onMessage : σ → Message → Except ε σ) :
    ℕ → UdpServer → σ → List (Option ServerEvent) → Polled σ ε
  | 0, server, s, queue => ⟨server, queue, .ok s⟩
  -- nothing is ready
  | _ + 1, server, s, [] => ⟨server.hostServiceNone, [], .ok s⟩
  -- the call fails
  | _ + 1, server, s, none :: queue => ⟨server.hostServiceNone, queue, .ok s⟩
  | n + 1, server, s, some event :: queue =>
      let packet := server.packetOf event
      let server := server.hostService event
      match event with
      | .receive peer data =>
          if extractIp peer = [] then
            -- `continue` comes before `++processed`
            pollLoop onMessage (n + 1) (server.destroyPacket packet) s queue
          else
            match onMessage s (message peer data) with
            -- the exception leaves the loop before the packet is destroyed
            | .error e => ⟨server, queue, .error e⟩
            | .ok s => pollLoop onMessage n (server.destroyPacket packet) s queue
      | .connect | .disconnect => pollLoop onMessage n server s queue

/-- `poll_events`. -/
def pollEvents (onMessage : σ → Message → Except ε σ) (server : UdpServer) (s : σ)
    (queue : List (Option ServerEvent)) : Polled σ ε :=
  if server.host then pollLoop onMessage kMaxPerPoll server s queue
  else ⟨server, queue, .ok s⟩

/-! ## What a poll emits -/

/-- The message that is emitted for an answer. -/
def message? : Option ServerEvent → Option Message
  | some (.receive peer data) => if extractIp peer = [] then none else some (message peer data)
  | some .connect | some .disconnect | none => none

/-- What an answer does to a poll. -/
def turn : Option ServerEvent → Polling.Turn
  | some (.receive peer _) => if extractIp peer = [] then .free else .counted
  | some .connect | some .disconnect => .counted
  | none => .last

/-- A poll emits, in order and until one throws, the messages of the answers that a bounded poll
takes, and if it returns it leaves the others. -/
theorem pollLoop_spec (onMessage : σ → Message → Except ε σ) (n : ℕ) (server : UdpServer) (s : σ)
    (queue : List (Option ServerEvent)) :
    (pollLoop onMessage n server s queue).outcome =
      ((Polling.poll turn n queue).1.filterMap message?).foldlM onMessage s ∧
    ∀ s', (pollLoop onMessage n server s queue).outcome = .ok s' →
      (pollLoop onMessage n server s queue).queue = (Polling.poll turn n queue).2 := by
  -- induction on the queue, for every budget that may be left
  induction queue generalizing n server s with
  | nil => cases n <;> exact ⟨rfl, fun _ _ => rfl⟩
  | cons answer queue ih =>
    cases n with
    | zero => exact ⟨rfl, fun _ _ => rfl⟩
    | succ n =>
      cases answer with
      | none => exact ⟨rfl, fun _ _ => rfl⟩
      | some event =>
        cases event with
        | connect => exact ih n _ s
        | disconnect => exact ih n _ s
        | receive peer data =>
          by_cases hip : extractIp peer = []
          -- taken for free, and nothing is emitted
          · have hnone : message? (some (.receive peer data)) = none := if_pos hip
            simp only [pollLoop, Polling.poll, turn, if_pos hip, List.filterMap_cons_none hnone]
            exact ih (n + 1) _ s
          · have hsome : message? (some (.receive peer data)) = some (message peer data) :=
              if_neg hip
            simp only [pollLoop, Polling.poll, turn, if_neg hip, List.filterMap_cons_some hsome,
              List.foldlM_cons]
            cases onMessage s (message peer data) with
            -- the fold over the messages stops here too
            | error e => exact ⟨rfl, fun s' h => by cases h⟩
            | ok t => exact ih n _ t

/-! ## What a poll does with ENet -/

/-- The calls are an allowed use, in which some packets are held. -/
def Uses (server : UdpServer) (held : List ℕ) : Prop :=
  EnetServer.machine.run .new server.calls =
    some ⟨server.enetInited, server.host, server.received, held⟩

variable {server : UdpServer} {held : List ℕ}

theorem uses_init (port : Int32) (initialized created : Bool) :
    Uses (init port initialized created) [] := by
  cases initialized <;> rfl

/-- A servicing of the host that reports nothing. -/
theorem Uses.hostServiceNone (h : Uses server held) (hhost : server.host = true) :
    Uses server.hostServiceNone held := by
  refine Machine.run_concat_eq_some.2 ⟨_, h, ?_⟩
  exact if_pos hhost

/-- A servicing of the host that reports an event gives the packet of the event. -/
theorem Uses.hostService (h : Uses server []) (hhost : server.host = true) (event : ServerEvent) :
    Uses (server.hostService event) (server.packetOf event).toList := by
  refine Machine.run_concat_eq_some.2 ⟨_, h, ?_⟩
  cases hpacket : server.packetOf event with
  | none =>
    simp only [UdpServer.hostService, hpacket]
    exact if_pos hhost
  | some p =>
    -- only a packet that is there has a name, and it is the next one
    have hp : p = server.received := by
      cases event with
      | receive peer data =>
        cases data with
        | none => cases hpacket
        | some data => exact (Option.some.inj hpacket).symm
      | connect => cases hpacket
      | disconnect => cases hpacket
    subst hp
    simp only [UdpServer.hostService, hpacket]
    exact if_pos ⟨hhost, rfl⟩

/-- The packet of an event is destroyed while it is held. -/
theorem Uses.destroyPacket {packet : Option ℕ} (h : Uses server packet.toList) :
    Uses (server.destroyPacket packet) [] := by
  cases packet with
  | none => exact h
  | some p =>
    refine Machine.run_concat_eq_some.2 ⟨_, h, ?_⟩
    simp [EnetServer.machine, EnetServer.step, UdpServer.destroyPacket]

/-- The destructor gives back what the constructor took. -/
theorem Uses.destroy (h : Uses server held)
    (hinit : server.host = true → server.enetInited = true) :
    EnetServer.machine.run .new server.destroy.calls =
      some ⟨false, false, server.received, held⟩ := by
  obtain ⟨host, enetInited, received, calls⟩ := server
  cases host with
  -- the host goes before ENet
  | true =>
    obtain rfl : enetInited = true := hinit rfl
    exact Machine.run_concat_eq_some.2 ⟨_, Machine.run_concat_eq_some.2 ⟨_, h, rfl⟩, rfl⟩
  | false =>
    cases enetInited with
    | true => exact Machine.run_concat_eq_some.2 ⟨_, h, rfl⟩
    | false => exact h

@[simp]
theorem host_hostService (server : UdpServer) (event : ServerEvent) :
    (server.hostService event).host = server.host := rfl

@[simp]
theorem enetInited_hostService (server : UdpServer) (event : ServerEvent) :
    (server.hostService event).enetInited = server.enetInited := rfl

@[simp]
theorem host_destroyPacket (server : UdpServer) (packet : Option ℕ) :
    (server.destroyPacket packet).host = server.host := by
  cases packet <;> rfl

@[simp]
theorem enetInited_destroyPacket (server : UdpServer) (packet : Option ℕ) :
    (server.destroyPacket packet).enetInited = server.enetInited := by
  cases packet <;> rfl

/-- What a poll leaves held: nothing if it returns, and the packet of the message whose subscriber
threw if it does not. -/
structure Leaves (server : UdpServer) (r : Polled σ ε) (held : List ℕ) : Prop where
  uses : Uses r.server held
  host : r.server.host = server.host
  enetInited : r.server.enetInited = server.enetInited
  returned : ∀ s', r.outcome = .ok s' → held = []
  last : held = [] ∨ held = [r.server.received - 1]

theorem Leaves.of_eq {server' : UdpServer} {r : Polled σ ε} (h : Leaves server' r held)
    (hhost : server'.host = server.host) (hinited : server'.enetInited = server.enetInited) :
    Leaves server r held :=
  ⟨h.uses, h.host.trans hhost, h.enetInited.trans hinited, h.returned, h.last⟩

/-- The loop holds a packet only while its subscribers run. -/
theorem pollLoop_leaves (onMessage : σ → Message → Except ε σ) (n : ℕ) (s : σ)
    (queue : List (Option ServerEvent)) (hhost : server.host = true) (h : Uses server []) :
    ∃ held, Leaves server (pollLoop onMessage n server s queue) held := by
  -- `Uses server []` is the invariant of the loop: nothing is held between two turns
  induction queue generalizing n server s with
  | nil =>
    cases n with
    | zero => exact ⟨[], h, rfl, rfl, fun _ _ => rfl, Or.inl rfl⟩
    | succ n => exact ⟨[], h.hostServiceNone hhost, rfl, rfl, fun _ _ => rfl, Or.inl rfl⟩
  | cons answer queue ih =>
    cases n with
    | zero => exact ⟨[], h, rfl, rfl, fun _ _ => rfl, Or.inl rfl⟩
    | succ n =>
      cases answer with
      | none => exact ⟨[], h.hostServiceNone hhost, rfl, rfl, fun _ _ => rfl, Or.inl rfl⟩
      | some event =>
        have hgiven := h.hostService hhost event
        cases event with
        -- these events carry no packet
        | connect =>
          have hhost' : (server.hostService .connect).host = true := hhost
          obtain ⟨held, hleaves⟩ := ih n s hhost' hgiven
          exact ⟨held, hleaves.of_eq rfl rfl⟩
        | disconnect =>
          have hhost' : (server.hostService .disconnect).host = true := hhost
          obtain ⟨held, hleaves⟩ := ih n s hhost' hgiven
          exact ⟨held, hleaves.of_eq rfl rfl⟩
        | receive peer data =>
          -- a packet is destroyed after its subscribers, or at once if it has no address
          have hdestroyed := hgiven.destroyPacket
          have hhost' : ((server.hostService (.receive peer data)).destroyPacket
              (server.packetOf (.receive peer data))).host = true := by
            rw [host_destroyPacket, host_hostService, hhost]
          simp only [pollLoop]
          split
          next =>
            obtain ⟨held, hleaves⟩ := ih (n + 1) s hhost' hdestroyed
            exact ⟨held, hleaves.of_eq (by simp) (by simp)⟩
          next =>
            cases onMessage s (message peer data) with
            | error e =>
              -- the packet given last is not destroyed
              refine ⟨_, hgiven, rfl, rfl, (fun s' hs' => by cases hs'), ?_⟩
              cases data with
              | none => exact Or.inl rfl
              | some data => exact Or.inr rfl
            | ok t =>
              obtain ⟨held, hleaves⟩ := ih n t hhost' hdestroyed
              exact ⟨held, hleaves.of_eq (by simp) (by simp)⟩

/-- A server that is polled, with or without a host. -/
theorem pollEvents_leaves (onMessage : σ → Message → Except ε σ) (s : σ)
    (queue : List (Option ServerEvent)) (h : Uses server []) :
    ∃ held, Leaves server (pollEvents onMessage server s queue) held := by
  rw [pollEvents]
  split
  next hhost => exact pollLoop_leaves onMessage kMaxPerPoll s queue hhost h
  next => exact ⟨[], h, rfl, rfl, fun _ _ => rfl, Or.inl rfl⟩

end UdpServer

/-! ## The machine -/

/-- A server in its program. -/
structure ServerHost (σ : Type) where
  server : UdpServer
  /-- The answers that `enet_host_service` has ready. -/
  queue : List (Option ServerEvent)
  /-- The state of the program around it. -/
  program : σ

namespace ServerHost

variable {σ ε : Type}

/-- What happens to a server after its constructor. -/
inductive Step (σ : Type) where
  /-- ENet has an event more, or an error. -/
  | arrive (answer : Option ServerEvent)
  /-- The program does something else. -/
  | program (s : σ)
  | pollEvents

/-- One step. A poll that throws ends the run. -/
def step (onMessage : σ → Message → Except ε σ) (s : ServerHost σ) :
    Step σ → Option (ServerHost σ)
  | .arrive answer => some { s with queue := s.queue ++ [answer] }
  | .program p => some { s with program := p }
  | .pollEvents =>
      let polled := UdpServer.pollEvents onMessage s.server s.program s.queue
      polled.outcome.toOption.map fun p => ⟨polled.server, polled.queue, p⟩

/-- A server in its program, as a machine. -/
def machine (onMessage : σ → Message → Except ε σ) : Machine (ServerHost σ) (Step σ) :=
  ⟨step onMessage⟩

end ServerHost

open ServerHost UdpServer in
/-- A server and its packets. For every behaviour of the subscribers, whether or not they throw,
and after every run of arrivals and polls from the constructor on, the calls made are an allowed
use of ENet: the host is serviced only while there is one, and each packet given has been
destroyed exactly once. That holds of the next poll too, except that if it throws, the packet of
the message that was being emitted is not destroyed. The destructor leaves nothing behind. -/
theorem server_packets {σ ε : Type} (onMessage : σ → Message → Except ε σ) (port : Int32)
    (initialized created : Bool) (program : σ) {s : ServerHost σ} {ls : List (Step σ)}
    (h : (machine onMessage).run ⟨UdpServer.init port initialized created, [], program⟩ ls =
      some s) :
    (∀ p, EnetServer.destroyed s.server.calls p = if p < s.server.received then 1 else 0) ∧
    EnetServer.machine.run .new s.server.destroy.calls =
      some ⟨false, false, s.server.received, []⟩ ∧
    ∀ r, r = UdpServer.pollEvents onMessage s.server s.program s.queue →
      ∃ held, EnetServer.machine.run .new r.server.calls =
          some ⟨s.server.enetInited, s.server.host, r.server.received, held⟩ ∧
        (held = [] ∨ held = [r.server.received - 1] ∧ ∃ e, r.outcome = .error e) := by
  have hI : Uses s.server [] ∧ (s.server.host = true → s.server.enetInited = true) := by
    refine Machine.run_invariant (M := machine onMessage) (I := fun s =>
      Uses s.server [] ∧ (s.server.host = true → s.server.enetInited = true)) ?_ ?_ h
    · rintro s l s' ⟨huses, hinit⟩ hstep
      cases l with
      | arrive answer =>
        obtain rfl := Option.some.inj hstep
        exact ⟨huses, hinit⟩
      | program p =>
        obtain rfl := Option.some.inj hstep
        exact ⟨huses, hinit⟩
      | pollEvents =>
        obtain ⟨held, hleaves⟩ := pollEvents_leaves onMessage s.program s.queue huses
        obtain ⟨p, hp, rfl⟩ := Option.map_eq_some_iff.1 hstep
        obtain rfl := hleaves.returned p (Except.eq_ok_of_toOption hp)
        refine ⟨hleaves.uses, fun hhost => ?_⟩
        exact hleaves.enetInited.trans (hinit (hleaves.host.symm.trans hhost))
    · refine ⟨uses_init port initialized created, fun hhost => ?_⟩
      cases initialized with
      | true => rfl
      | false => cases hhost
  obtain ⟨huses, hinit⟩ := hI
  refine ⟨fun p => ?_, huses.destroy hinit, ?_⟩
  · simpa using EnetServer.destroyed_add_held huses p
  · rintro r rfl
    obtain ⟨held, hleaves⟩ := pollEvents_leaves onMessage s.program s.queue huses
    refine ⟨held, ?_, ?_⟩
    · rw [← hleaves.host, ← hleaves.enetInited]
      exact hleaves.uses
    · cases houtcome : (pollEvents onMessage s.server s.program s.queue).outcome with
      | ok p => exact Or.inl (hleaves.returned p houtcome)
      | error e => exact hleaves.last.imp_right fun hlast => ⟨hlast, e, rfl⟩

/-- A packet of `10.0.0.2` arrives, and the server is polled. -/
def ServerHost.receiveOne : List (ServerHost.Step ℕ) :=
  [.arrive (some (.receive (some (some (.ofString "10.0.0.2"))) (some (.ofString "x")))),
    .pollEvents]

open ServerHost in
/-- The packet is counted by the program and destroyed. -/
theorem server_packets_one : ∃ s,
    (machine fun (n : ℕ) _ => (.ok (n + 1) : Except Unit ℕ)).run
        ⟨UdpServer.init 8801 true true, [], 0⟩ receiveOne = some s ∧
      s.program = 1 ∧
      EnetServer.destroyed s.server.calls 0 = if 0 < s.server.received then 1 else 0 := by
  obtain ⟨s, hs, hprogram⟩ : ∃ s,
      (machine fun (n : ℕ) _ => (.ok (n + 1) : Except Unit ℕ)).run
        ⟨UdpServer.init 8801 true true, [], 0⟩ receiveOne = some s ∧ s.program = 1 :=
    ⟨_, rfl, rfl⟩
  exact ⟨s, hs, hprogram, (server_packets _ 8801 true true 0 hs).1 0⟩

end Keyleport
