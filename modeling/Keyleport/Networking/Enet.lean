import Keyleport.Lib.Machine
import Keyleport.Lib.StdString

/-!
# Calls of ENet

The part of ENet that `networking/p2p/udp_client.cpp` uses, as the calls it makes in order with
what they answered. A client host has one slot for a peer. The peer lives from the
`enet_host_connect` that gives it until `enet_peer_reset`, and its state is whatever the last
`enet_host_service` left it in.

* `EnetHost.machine`: the use of a one-slot host that is allowed; any other call has no outcome.
* `EnetHost.not_touches_of_reset`: in an allowed use, no call touches a peer that was reset.
-/

namespace Keyleport

/-- `ENetPeerState`. -/
inductive EnetPeerState where
  | disconnected
  | connecting
  | acknowledgingConnect
  | connectionPending
  | connectionSucceeded
  | connected
  | disconnectLater
  | disconnecting
  | acknowledgingDisconnect
  | zombie
deriving DecidableEq, Repr

/-- `ENetEventType`, but for `ENET_EVENT_TYPE_NONE`. -/
inductive EnetEventType where
  | connect
  | disconnect
  | receive
deriving DecidableEq, Repr

/-- The flags of a packet that are used. -/
inductive EnetPacketFlag where
  /-- `ENET_PACKET_FLAG_RELIABLE`. -/
  | reliable
  /-- `ENET_PACKET_FLAG_UNRELIABLE_FRAGMENT`. -/
  | unreliableFragment
deriving DecidableEq, Repr

/-- What a client does, with the answers it gets. A peer is named by the number of peers given
before it. -/
inductive EnetCall where
  /-- `enet_host_create`, and whether it gave a host. -/
  | hostCreate (created : Bool)
  /-- `enet_host_service`: the event it reported, if any, and the state it left the peer in. -/
  | hostService (event : Option EnetEventType) (state : EnetPeerState)
  /-- `enet_host_connect`, and the peer it gave. -/
  | hostConnect (ip : StdString) (port : UInt16) (peer : Option ℕ)
  /-- A reading of `peer->state`. -/
  | readState (peer : ℕ)
  /-- `enet_peer_reset`. -/
  | peerReset (peer : ℕ)
  /-- `enet_peer_send` of a packet. -/
  | peerSend (peer : Option ℕ) (channel : UInt8) (flag : EnetPacketFlag) (payload : StdString)
  /-- `enet_packet_destroy`. -/
  | packetDestroy
  /-- `enet_host_flush`. -/
  | hostFlush
  /-- A reading of the clock by `now_ms`. -/
  | nowMs (now : UInt64)
  /-- The start of an attempt to connect, at the reading that the client remembers. -/
  | attempt (now : UInt64)
deriving DecidableEq, Repr

namespace EnetCall

/-- Whether a call uses a peer. -/
def touches (p : ℕ) : EnetCall → Bool
  | readState q => p = q
  | peerReset q => p = q
  | peerSend q _ _ _ => q = some p
  | _ => false

/-- The packet of a call, as its channel, flag and payload. -/
def packet? : EnetCall → Option (UInt8 × EnetPacketFlag × StdString)
  | peerSend _ channel flag payload => some (channel, flag, payload)
  | _ => none

/-- The reading of the clock that a call is. -/
def reading? : EnetCall → Option UInt64
  | nowMs now => some now
  | _ => none

/-- The time of the attempt to connect that a call starts. -/
def attempt? : EnetCall → Option UInt64
  | attempt now => some now
  | _ => none

end EnetCall

/-! ## A host with one slot -/

/-- A host that has one slot. -/
structure EnetHost where
  /-- How many peers were given. -/
  given : ℕ
  /-- The peer that is live, and its state. -/
  live : Option (ℕ × EnetPeerState)
deriving DecidableEq, Repr

namespace EnetHost

/-- A host that was just created. -/
def new : EnetHost := ⟨0, none⟩

/-- A call that is allowed: only the live peer is used, a packet is sent to a peer that is
connected, and a connection is started when no peer is live. -/
def step (e : EnetHost) : EnetCall → Option EnetHost
  | .hostService _ state => some { e with live := e.live.map fun held => (held.1, state) }
  | .hostConnect _ _ none => if e.live = none then some e else none
  | .hostConnect _ _ (some p) =>
      if e.live = none ∧ p = e.given then some ⟨p + 1, some (p, .connecting)⟩ else none
  | .readState p => if e.live.map Prod.fst = some p then some e else none
  | .peerReset p => if e.live.map Prod.fst = some p then some { e with live := none } else none
  | .peerSend (some p) _ _ _ => if e.live = some (p, .connected) then some e else none
  | .peerSend none _ _ _ => none
  | .hostCreate _ | .packetDestroy | .hostFlush | .nowMs _ | .attempt _ => some e

/-- The allowed uses of a host. -/
def machine : Machine EnetHost EnetCall := ⟨step⟩

variable {e e' : EnetHost} {calls : List EnetCall} {c : EnetCall} {p : ℕ}

/-- A peer that a call uses is live. -/
theorem live_of_touches (h : step e c = some e') (hp : c.touches p = true) :
    e.live.map Prod.fst = some p := by
  cases c with
  | readState q =>
    obtain rfl : p = q := of_decide_eq_true hp
    exact (Option.ite_none_right_eq_some.1 h).1
  | peerReset q =>
    obtain rfl : p = q := of_decide_eq_true hp
    exact (Option.ite_none_right_eq_some.1 h).1
  | peerSend q channel flag payload =>
    obtain rfl : q = some p := of_decide_eq_true hp
    rw [(Option.ite_none_right_eq_some.1 h).1]
    rfl
  | _ => cases hp

/-- A call leaves the live peer, drops it, or makes a peer live that was never given before. -/
theorem step_cases (h : step e c = some e') :
    (e'.given = e.given ∧ e'.live.map Prod.fst = e.live.map Prod.fst) ∨
    (e'.given = e.given ∧ e'.live = none) ∨
    (e'.given = e.given + 1 ∧ e'.live = some (e.given, .connecting)) := by
  cases c with
  | hostService event state =>
    obtain rfl := Option.some.inj h
    refine Or.inl ⟨rfl, ?_⟩
    rw [Option.map_map]
    rfl
  | hostConnect ip port peer =>
    cases peer with
    | none =>
      obtain ⟨-, h⟩ := Option.ite_none_right_eq_some.1 h
      exact Or.inl (Option.some.inj h ▸ ⟨rfl, rfl⟩)
    | some q =>
      -- the peer given is the next one, as the one slot was free
      obtain ⟨⟨-, rfl⟩, h⟩ := Option.ite_none_right_eq_some.1 h
      exact Or.inr (Or.inr (Option.some.inj h ▸ ⟨rfl, rfl⟩))
  | readState q =>
    obtain ⟨-, h⟩ := Option.ite_none_right_eq_some.1 h
    exact Or.inl (Option.some.inj h ▸ ⟨rfl, rfl⟩)
  | peerReset q =>
    obtain ⟨-, h⟩ := Option.ite_none_right_eq_some.1 h
    exact Or.inr (Or.inl (Option.some.inj h ▸ ⟨rfl, rfl⟩))
  | peerSend q channel flag payload =>
    cases q with
    | none => cases h
    | some q =>
      obtain ⟨-, h⟩ := Option.ite_none_right_eq_some.1 h
      exact Or.inl (Option.some.inj h ▸ ⟨rfl, rfl⟩)
  | _ => exact Or.inl (Option.some.inj h ▸ ⟨rfl, rfl⟩)

/-- A peer was given before it is live. -/
theorem lt_given (h : machine.run new calls = some e) (hp : e.live.map Prod.fst = some p) :
    p < e.given := by
  refine Machine.run_invariant (M := machine)
    (I := fun e => ∀ p, e.live.map Prod.fst = some p → p < e.given) ?_ (by simp [new]) h p hp
  intro e c e' hI hstep q hq
  rcases step_cases hstep with ⟨hgiven, hlive⟩ | ⟨-, hlive⟩ | ⟨hgiven, hlive⟩
  · rw [hgiven]
    exact hI q (hlive ▸ hq)
  · rw [hlive] at hq
    cases hq
  · rw [hlive] at hq
    obtain rfl := Option.some.inj hq
    omega

/-- A peer that was given and is not live never becomes live again. -/
theorem not_live_of_run (hgiven : p < e.given) (hlive : e.live.map Prod.fst ≠ some p)
    (h : machine.run e calls = some e') : e'.live.map Prod.fst ≠ some p := by
  refine (Machine.run_invariant (M := machine)
    (I := fun e => p < e.given ∧ e.live.map Prod.fst ≠ some p) ?_ ⟨hgiven, hlive⟩ h).2
  rintro e c e' ⟨hgiven, hlive⟩ hstep
  rcases step_cases hstep with ⟨hg, hl⟩ | ⟨hg, hl⟩ | ⟨hg, hl⟩
  · rw [hg, hl]
    exact ⟨hgiven, hlive⟩
  · rw [hg, hl]
    exact ⟨hgiven, nofun⟩
  · -- the new peer has a number of its own
    rw [hg, hl]
    refine ⟨by omega, fun hp => ?_⟩
    have : e.given = p := Option.some.inj hp
    omega

/-- A peer that was reset is not live at any later time. -/
theorem not_live_of_reset {pre post : List EnetCall}
    (h : machine.run new (pre ++ .peerReset p :: post) = some e) :
    e.live.map Prod.fst ≠ some p := by
  rw [Machine.run_append] at h
  obtain ⟨e₁, h₁, h⟩ := Option.bind_eq_some_iff.1 h
  obtain ⟨e₂, hreset : step e₁ (.peerReset p) = some e₂, h⟩ := Option.bind_eq_some_iff.1 h
  have hlive₁ : e₁.live.map Prod.fst = some p := live_of_touches hreset (decide_eq_true rfl)
  obtain rfl : e₂ = { e₁ with live := none } := by
    simp only [step, if_pos hlive₁] at hreset
    exact (Option.some.inj hreset).symm
  have hlt : p < e₁.given := lt_given h₁ hlive₁
  exact not_live_of_run (e := { e₁ with live := none }) hlt (by simp) h

/-- In an allowed use, no call touches a peer after it was reset. -/
theorem not_touches_of_reset {pre mid post : List EnetCall}
    (h : machine.run new (pre ++ .peerReset p :: (mid ++ c :: post)) = some e) :
    c.touches p = false := by
  rw [← List.cons_append, ← List.append_assoc, Machine.run_append] at h
  obtain ⟨e₁, h₁, h⟩ := Option.bind_eq_some_iff.1 h
  obtain ⟨e₂, hcall : step e₁ c = some e₂, -⟩ := Option.bind_eq_some_iff.1 h
  rw [Bool.eq_false_iff]
  exact fun htouches => not_live_of_reset h₁ (live_of_touches hcall htouches)

/-- A packet is sent only to the live peer, while it is connected. -/
theorem live_of_peerSend {pre post : List EnetCall} {q : Option ℕ} {channel : UInt8}
    {flag : EnetPacketFlag} {payload : StdString}
    (h : machine.run new (pre ++ .peerSend q channel flag payload :: post) = some e) :
    ∃ p given, q = some p ∧ machine.run new pre = some ⟨given, some (p, .connected)⟩ := by
  rw [Machine.run_append] at h
  obtain ⟨⟨given, live⟩, h₁, h⟩ := Option.bind_eq_some_iff.1 h
  obtain ⟨e₂, hcall : step ⟨given, live⟩ (.peerSend q channel flag payload) = some e₂, -⟩ :=
    Option.bind_eq_some_iff.1 h
  cases q with
  | none => cases hcall
  | some p =>
    obtain ⟨rfl, -⟩ := Option.ite_none_right_eq_some.1 hcall
    exact ⟨p, given, rfl, h₁⟩

/-- A connection is started only when no peer is live. -/
theorem live_of_hostConnect {pre post : List EnetCall} {ip : StdString} {port : UInt16}
    {q : Option ℕ} (h : machine.run new (pre ++ .hostConnect ip port q :: post) = some e) :
    ∃ given, machine.run new pre = some ⟨given, none⟩ := by
  rw [Machine.run_append] at h
  obtain ⟨⟨given, live⟩, h₁, h⟩ := Option.bind_eq_some_iff.1 h
  obtain ⟨e₂, hcall : step ⟨given, live⟩ (.hostConnect ip port q) = some e₂, -⟩ :=
    Option.bind_eq_some_iff.1 h
  have hlive : live = none := by
    cases q with
    | none =>
      exact (Option.ite_none_right_eq_some.1 hcall).1
    | some p =>
      exact (Option.ite_none_right_eq_some.1 hcall).1.1
  exact ⟨given, hlive ▸ h₁⟩

end EnetHost

end Keyleport
