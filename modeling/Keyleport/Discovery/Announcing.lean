import Keyleport.Discovery.Identity
import Keyleport.Discovery.RoundTrip
import Keyleport.Utils.DeviceName

/-!
# Announcing a device

Every broadcast encodes the own state, and the library refuses to write a string that is not UTF-8.
Of the four strings of the own state three are ASCII; the fourth is the device name, whose bytes
come from the system as they are.

* `getRandomId`: the device id, from the draws of its generator.
* `DiscoveryService.Announces`: no broadcast of a service throws.
* `announces_iff`: for which systems the service announces itself.
* `latin1_hostname_throws`: a host name in another encoding.
-/

namespace Keyleport

/-- The `charset` of `get_random_id`. -/
def randomIdCharset : StdString :=
  .ofString "0123456789ABCDEFGHIJKLMNOPQRSTUVWXYZabcdefghijklmnopqrstuvwxyz"

/-- `get_random_id`, with the indices drawn from the distribution. -/
def getRandomId (draws : List (Fin 62)) : StdString :=
  draws.map fun (i : Fin 62) => randomIdCharset.getD i 0

theorem getRandomId_validUtf8 (draws : List (Fin 62)) : (getRandomId draws).ValidUtf8 := by
  have hcharset : ∀ i : Fin 62, randomIdCharset.getD i 0 < 0x80 := by decide
  apply StdString.validUtf8_of_ascii
  intro b hb
  obtain ⟨i, -, rfl⟩ := List.mem_map.1 hb
  exact hcharset i

namespace DiscoveryService

variable {lib : Nlohmann} {s t : DiscoveryService} {me : DiscoveryPeer}

/-- No broadcast throws: neither those of `init` nor, in any state that the service reaches, those
that answer a new peer or are due, that of `update` and that of `cleanup`. -/
def Announces (lib : Nlohmann) (deviceId deviceName platform : StdString) : Prop :=
  ∀ first second, ∃ s, init lib deviceId deviceName platform first second = .ok s ∧
    ∀ ls t, (machine lib).run s ls = some t →
      (∀ force now, ∃ t', t.broadcastOwnState lib force now = .ok t') ∧
      (∀ broadcast stale, ∃ t', t.update lib broadcast stale = .ok t') ∧
      ∀ now, ∃ t', t.cleanup lib now = .ok t'

/-- A change of the state of a peer does not change whether its strings are UTF-8. -/
theorem validUtf8_withState {p : DiscoveryPeer} (hp : p.ValidUtf8) (state : DiscoveryPeerState) :
    DiscoveryPeer.ValidUtf8 { p with state := state } :=
  ⟨hp.deviceId, hp.deviceName, hp.ipAddress, hp.platform⟩

/-- While the strings of the own state are UTF-8, none of the broadcasts throws. -/
theorem broadcasts_ok (hlib : lib.Lawful) (hself : t.selfPeer.ValidUtf8) :
    (∀ force now, ∃ t', t.broadcastOwnState lib force now = .ok t') ∧
      (∀ broadcast stale, ∃ t', t.update lib broadcast stale = .ok t') ∧
      ∀ now, ∃ t', t.cleanup lib now = .ok t' := by
  obtain ⟨payload, hpayload⟩ := (DiscoveryPeer.encode_ok_iff hlib).2 hself
  refine ⟨fun force now => broadcastOwnState_ok hpayload force now, fun broadcast stale => ?_,
    fun now => ?_⟩
  · obtain ⟨t', ht'⟩ := broadcastOwnState_ok hpayload false broadcast
    rw [update, ht']
    exact ⟨_, rfl⟩
  · unfold cleanup
    split
    next =>
      -- the last broadcast is that of the peer as gone
      obtain ⟨gone, hgone⟩ := (DiscoveryPeer.encode_ok_iff hlib).2 (validUtf8_withState hself .gone)
      obtain ⟨t', ht'⟩ := broadcastOwnState_ok
        (s := { t with selfPeer := { t.selfPeer with state := .gone } }) hgone true now
      rw [ht']
      exact ⟨_, rfl⟩
    next => exact ⟨_, rfl⟩

/-- While the strings of the own state are UTF-8, `init` returns. -/
theorem init_ok (hlib : lib.Lawful) {deviceId deviceName platform : StdString}
    (hvalid : DiscoveryPeer.ValidUtf8 ⟨deviceId, deviceName, selfIpAddress, platform, .idle⟩)
    (first second : UInt64) : ∃ s, init lib deviceId deviceName platform first second = .ok s := by
  obtain ⟨payload, hpayload⟩ := (DiscoveryPeer.encode_ok_iff hlib).2 hvalid
  rw [init, Except.bind_ok_iff]
  generalize hs : (DiscoveryService.mk [] [] ⟨deviceId, deviceName, selfIpAddress, platform, .idle⟩
    true true 0 [] []) = s
  have hself : s.selfPeer.encode lib = .ok payload := by
    rw [← hs]
    exact hpayload
  obtain ⟨t, ht⟩ := broadcastOwnState_ok hself true first
  -- the second broadcast encodes the same peer
  have hself' : t.selfPeer.encode lib = .ok payload := by
    obtain ⟨time, new, rfl, -⟩ := broadcastOwnState_eq_ok ht
    exact hself
  exact ⟨t, ht, broadcastOwnState_ok hself' true second⟩

/-- A service announces itself exactly when the strings of its own state are UTF-8. -/
theorem announces_iff_validUtf8 (hlib : lib.Lawful) {deviceId deviceName platform : StdString} :
    Announces lib deviceId deviceName platform ↔
      DiscoveryPeer.ValidUtf8 ⟨deviceId, deviceName, selfIpAddress, platform, .idle⟩ := by
  constructor
  · intro hannounces
    obtain ⟨s, hinit, -⟩ := hannounces 0 0
    obtain ⟨-, hself, -, -, payload, hpayload, -⟩ := init_spec hinit
    rw [hself] at hpayload
    exact (DiscoveryPeer.encode_ok_iff hlib).1 ⟨payload, hpayload⟩
  · intro hvalid first second
    obtain ⟨s, hinit⟩ := init_ok hlib hvalid first second
    refine ⟨s, hinit, fun ls t hrun => broadcasts_ok hlib ?_⟩
    -- a run changes only the state of the own peer
    obtain ⟨state, hself⟩ := ((SpeaksFor.init hinit).run hrun).selfPeer
    rw [hself]
    exact validUtf8_withState hvalid state

end DiscoveryService

open DiscoveryService in
/-- When a device can announce itself. On every system, whatever is drawn for the device id, no
broadcast of the service throws, in whatever run, if and only if the answers of the system that the
device name is made of are UTF-8. -/
theorem announces_iff {lib : Nlohmann} (hlib : lib.Lawful) (sys : HostSystem)
    (draws : List (Fin 62)) :
    Announces lib (getRandomId draws) sys.getDeviceName sys.getPlatform ↔
      ∀ text ∈ sys.texts, text.ValidUtf8 := by
  rw [announces_iff_validUtf8 hlib, ← sys.getDeviceName_validUtf8_iff]
  constructor
  · exact fun hvalid => hvalid.deviceName
  · intro hname
    have hip : selfIpAddress.ValidUtf8 := by decide
    exact ⟨getRandomId_validUtf8 draws, hname, hip, sys.getPlatform_validUtf8⟩

open DiscoveryService in
/-- A Linux machine without a product name, and with a host name in UTF-8. -/
theorem announces_iff_hostname : Announces JsonText.nlohmann (getRandomId [0, 61])
    (HostSystem.linux none none (some (.ofString " caf\u00e9 \n")) none none).getDeviceName
    (.ofString "linux") :=
  (announces_iff JsonText.lawful (.linux none none (some (.ofString " caf\u00e9 \n")) none none)
    [0, 61]).2 (by decide)

open DiscoveryService in
/-- A host name in Latin-1 is no UTF-8, and the first broadcast of `init` throws. -/
theorem latin1_hostname_throws : ¬ ∀ (sys : HostSystem) (draws : List (Fin 62)),
    Announces JsonText.nlohmann (getRandomId draws) sys.getDeviceName sys.getPlatform := by
  intro hannounces
  obtain ⟨s, hinit, -⟩ :=
    hannounces (.linux none none (some [0x63, 0x61, 0x66, 0xe9, 0x0a]) none none) [0, 61] 0 0
  have hthrows : (init JsonText.nlohmann (getRandomId [0, 61])
      (HostSystem.linux none none (some [0x63, 0x61, 0x66, 0xe9, 0x0a]) none none).getDeviceName
      (.ofString "linux") 0 0).toOption = none := by
    decide +kernel
  rw [HostSystem.getPlatform] at hinit
  rw [hinit] at hthrows
  cases hthrows

end Keyleport
