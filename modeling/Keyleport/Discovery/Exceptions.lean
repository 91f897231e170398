import Keyleport.Discovery.Table

/-!
# Exceptions of the discovery callback

The services thread has no handler, so an exception that leaves the `on_message` callback of the
discovery service ends the program. The decoder guards the read of the state, but not those of
the four string fields. The broadcast that answers a new peer encodes the own state, which did
encode when the service was started.

* `datagram_returns_iff`: for every reachable state and datagram, exactly when the callback
  returns.
* `datagram_throws`: a `device_id` that is a number ends the program.
-/

namespace Keyleport

namespace DiscoveryService

variable {lib : Nlohmann} {s s' : DiscoveryService}

/-- While the own state encodes, handling a decoded peer never throws. -/
theorem onPeer_ok {payload : StdString} (h : s.selfPeer.encode lib = .ok payload)
    (peer : DiscoveryPeer) (clock : MessageClock) : ∃ s', s.onPeer lib peer clock = .ok s' := by
  rw [onPeer]
  split
  · exact ⟨_, rfl⟩
  · split
    · exact ⟨_, rfl⟩
    · have hsame := sameSelf_updatePeerState s peer clock.seen clock.stale
      generalize s.updatePeerState peer clock.seen clock.stale = r at hsame
      obtain ⟨isNew, t⟩ := r
      cases isNew with
      | false => exact ⟨_, rfl⟩
      | true => exact broadcastOwnState_ok (hsame.selfPeer ▸ h) true clock.broadcast

/-- While the own state encodes, the callback returns exactly when the datagram decodes. -/
theorem onMessage_ok_iff {payload : StdString} (h : s.selfPeer.encode lib = .ok payload)
    (msg : Message) (clock : MessageClock) :
    (∃ s', s.onMessage lib msg clock = .ok s') ↔
      ∃ peer, DiscoveryPeer.decode lib msg.payload = .ok peer := by
  rw [onMessage, Except.bind_ok_iff]
  constructor
  · rintro ⟨peer, hpeer, -⟩
    exact ⟨peer, hpeer⟩
  · rintro ⟨peer, hpeer⟩
    exact ⟨peer, hpeer, onPeer_ok h _ clock⟩

/-- A step leaves the own state alone or stops the server. -/
theorem sameSelf_of_step {l : Step} (h : step lib s l = some s') :
    SameSelf s s' ∨ s'.broadcastServer = false := by
  by_cases hl : ∃ now, l = .cleanup now
  · obtain ⟨now, rfl⟩ := hl
    exact Or.inr (cleanup_spec (Except.eq_ok_of_toOption h)).2.2
  · exact Or.inl (says_of_step (fun now heq => hl ⟨now, heq⟩) h).toSameSelf

/-- The own state of a running service encodes. -/
theorem encode_selfPeer_of_run {deviceId deviceName platform : StdString}
    {first second : UInt64} {s₀ : DiscoveryService} {ls : List Step}
    (hinit : init lib deviceId deviceName platform first second = .ok s₀)
    (h : (machine lib).run s₀ ls = some s) :
    s.broadcastServer = true → ∃ payload, s.selfPeer.encode lib = .ok payload := by
  refine Machine.run_induction (motive := fun _ s => s.broadcastServer = true →
    ∃ payload, s.selfPeer.encode lib = .ok payload) ?_ ?_ h
  · intro _
    obtain ⟨-, -, -, -, payload, hpayload, -⟩ := init_spec hinit
    exact ⟨payload, hpayload⟩
  · intro ls t l t' _ ht hstep hserver
    rcases sameSelf_of_step hstep with hsame | hstopped
    · rw [hsame.selfPeer]
      exact ht (hsame.broadcastServer ▸ hserver)
    · rw [hstopped] at hserver
      cases hserver

end DiscoveryService

open DiscoveryService in
/-- When a datagram brings the service down. In every state a running service can reach, the
callback returns for a datagram if and only if its payload is not a JSON object, or every one of
its fields `device_id`, `device_name`, `ip_address` and `platform` that is present is a string. -/
theorem datagram_returns_iff {lib : Nlohmann} {deviceId deviceName platform : StdString}
    {first second : UInt64} {s₀ s : DiscoveryService} {ls : List Step}
    (hinit : init lib deviceId deviceName platform first second = .ok s₀)
    (h : (machine lib).run s₀ ls = some s) (hserver : s.broadcastServer = true)
    (msg : Message) (clock : MessageClock) :
    (∃ s', s.onMessage lib msg clock = .ok s') ↔
      ∀ j, lib.parseObject msg.payload = some j →
        ∀ key ∈ DiscoveryPeer.stringFields, ∀ v, j.find? key = some v → v.isString := by
  obtain ⟨payload, hpayload⟩ := encode_selfPeer_of_run hinit h hserver
  rw [onMessage_ok_iff hpayload, DiscoveryPeer.decode_ok_iff]

open DiscoveryService in
/-- A service with an ASCII device id starts, and listens. -/
theorem DiscoveryService.exists_init : ∃ s₀,
    init JsonText.nlohmann (.ofString "a") [] [] 0 0 = .ok s₀ ∧ s₀.broadcastServer = true := by
  have hrun : ∃ s₀ ∈ (init JsonText.nlohmann (.ofString "a") [] [] 0 0).toOption,
      s₀.broadcastServer = true := by
    decide +kernel
  obtain ⟨s₀, hs₀, hserver⟩ := hrun
  exact ⟨s₀, Except.eq_ok_of_toOption hs₀, hserver⟩

open DiscoveryService in
/-- A text that is not JSON is handled in the state after `init`, whatever the sender. -/
theorem datagram_returns_not_json : ∃ s₀,
    init JsonText.nlohmann (.ofString "a") [] [] 0 0 = .ok s₀ ∧
      ∀ sender clock, ∃ s', s₀.onMessage JsonText.nlohmann ⟨sender, .self, .ofString "x"⟩ clock =
        .ok s' := by
  obtain ⟨s₀, hinit, hserver⟩ := exists_init
  have hempty : (machine JsonText.nlohmann).run s₀ [] = some s₀ := rfl
  refine ⟨s₀, hinit, fun sender clock =>
    (datagram_returns_iff hinit hempty hserver ⟨sender, .self, .ofString "x"⟩ clock).2 ?_⟩
  intro j hj
  have hnone : JsonText.nlohmann.parseObject (.ofString "x") = none := by decide +kernel
  rw [hnone] at hj
  cases hj

open DiscoveryService in
/-- A datagram whose `device_id` is a number throws in the state after `init`. -/
theorem datagram_throws : ¬ ∀ (deviceId deviceName platform : StdString) (first second : UInt64)
    (s₀ s : DiscoveryService) (ls : List Step) (msg : Message) (clock : MessageClock),
    init JsonText.nlohmann deviceId deviceName platform first second = .ok s₀ →
    (machine JsonText.nlohmann).run s₀ ls = some s → s.broadcastServer = true →
    ∃ s', s.onMessage JsonText.nlohmann msg clock = .ok s' := by
  intro hreturns
  have hrun : ∃ s₀ ∈ (init JsonText.nlohmann (.ofString "a") [] [] 0 0).toOption,
      s₀.broadcastServer = true ∧
        (s₀.onMessage JsonText.nlohmann
          ⟨⟨.ofString "10.0.0.2"⟩, .self, .ofString "\x7b\"device_id\":5\x7d"⟩ ⟨0, 0, 0⟩).toOption =
          none := by
    decide +kernel
  obtain ⟨s₀, hs₀, hserver, hthrows⟩ := hrun
  obtain ⟨s', hs'⟩ := hreturns _ _ _ _ _ s₀ s₀ [] _ _ (Except.eq_ok_of_toOption hs₀) rfl hserver
  rw [hs'] at hthrows
  cases hthrows

end Keyleport
