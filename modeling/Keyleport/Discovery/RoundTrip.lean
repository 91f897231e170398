import Keyleport.Discovery.Peer
import Keyleport.Lib.Json.RoundTrip

/-!
# Round trips of discovery messages

A peer is written and read by name, field by field. It can be written exactly when its four strings
are UTF-8, and whatever is read from a text can be written again: the strings of a text that is
accepted are UTF-8, those of a text that is not are empty, and the state is an enumerator.

* `DiscoveryPeer.ValidUtf8`: the strings of a peer are UTF-8.
* `DiscoveryPeer.encode_ok_iff`: such peers are the ones that are written.
* `DiscoveryPeer.validUtf8_of_decode`: every peer that is read is one of them.
* `peer_roundTrip`: a peer that is written is read back, also after it has been read.
-/

namespace Keyleport

namespace DiscoveryPeer

/-- The four strings are UTF-8. -/
structure ValidUtf8 (p : DiscoveryPeer) : Prop where
  deviceId : p.deviceId.ValidUtf8
  deviceName : p.deviceName.ValidUtf8
  ipAddress : p.ipAddress.ValidUtf8
  platform : p.platform.ValidUtf8

variable {lib : Nlohmann} {p : DiscoveryPeer}

/-- The object of a peer is UTF-8 exactly when its strings are. -/
theorem validUtf8_toJson_iff : p.toJson.ValidUtf8 ↔ p.ValidUtf8 := by
  rw [toJson_eq]
  constructor
  · intro hobject
    cases hobject with
    | object hkeys hvalues =>
      simp only [List.forall_mem_cons, Json.validUtf8_string_iff] at hvalues
      obtain ⟨hid, hname, hip, hplatform, -⟩ := hvalues
      exact ⟨hid, hname, hip, hplatform⟩
  · intro hvalid
    refine .object (by simp only [List.map_cons, List.map_nil]; decide) ?_
    simp only [List.forall_mem_cons]
    exact ⟨.string hvalid.deviceId, .string hvalid.deviceName, .string hvalid.ipAddress,
      .string hvalid.platform, .integer _, by simp⟩

/-- A peer can be encoded exactly when its strings are UTF-8. -/
theorem encode_ok_iff (hlib : lib.Lawful) : (∃ s, p.encode lib = .ok s) ↔ p.ValidUtf8 :=
  hlib.dump_ok_iff.trans validUtf8_toJson_iff

/-! ## What is read -/

/-- The strings of every peer that is read are UTF-8. -/
theorem validUtf8_of_decode (hlib : lib.Lawful) {s : StdString} (h : decode lib s = .ok p) :
    p.ValidUtf8 := by
  unfold decode at h
  cases hparse : lib.parseObject s with
  | none =>
    rw [hparse] at h
    obtain rfl := Except.ok.inj h
    exact ⟨StdString.validUtf8_nil, StdString.validUtf8_nil, StdString.validUtf8_nil,
      StdString.validUtf8_nil⟩
  | some j =>
    rw [hparse] at h
    have hj : j.ValidUtf8 := hlib.parse_validUtf8 (Option.filter_eq_some_iff.1 hparse).1
    obtain ⟨deviceId, hid, h⟩ := Except.bind_eq_ok_iff.1 h
    obtain ⟨deviceName, hname, h⟩ := Except.bind_eq_ok_iff.1 h
    obtain ⟨ipAddress, hip, h⟩ := Except.bind_eq_ok_iff.1 h
    obtain ⟨platform, hplatform, h⟩ := Except.bind_eq_ok_iff.1 h
    have hstrings : ValidUtf8 ⟨deviceId, deviceName, ipAddress, platform, .idle⟩ :=
      ⟨hj.valueString StdString.validUtf8_nil hid, hj.valueString StdString.validUtf8_nil hname,
        hj.valueString StdString.validUtf8_nil hip,
        hj.valueString StdString.validUtf8_nil hplatform⟩
    -- the state is read last and leaves the strings alone
    split at h
    next =>
      obtain ⟨state, -, h⟩ := Except.bind_eq_ok_iff.1 h
      obtain rfl := Except.ok.inj h
      exact ⟨hstrings.deviceId, hstrings.deviceName, hstrings.ipAddress, hstrings.platform⟩
    next =>
      obtain rfl := Except.ok.inj h
      exact hstrings

/-- A peer whose strings are UTF-8 is read back from its own text. -/
theorem roundTrip_of_validUtf8 (hlib : lib.Lawful) (hp : p.ValidUtf8) :
    ∃ s, p.encode lib = .ok s ∧ decode lib s = .ok p := by
  obtain ⟨s, hs⟩ := (encode_ok_iff hlib).2 hp
  exact ⟨s, hs, decode_encode hlib hs⟩

end DiscoveryPeer

open DiscoveryPeer in
/-- Discovery messages round-trip. A peer whose four strings are UTF-8 is encoded, and its text
decodes to the peer; and a peer that was decoded from any bytes is encoded again, to a text that
decodes to the same peer. -/
theorem peer_roundTrip {lib : Nlohmann} (hlib : lib.Lawful) :
    (∀ p : DiscoveryPeer, p.ValidUtf8 → ∃ s, p.encode lib = .ok s ∧ decode lib s = .ok p) ∧
      ∀ s p, decode lib s = .ok p → ∃ t, p.encode lib = .ok t ∧ decode lib t = .ok p :=
  ⟨fun _ hp => roundTrip_of_validUtf8 hlib hp,
    fun _ _ hdecode => roundTrip_of_validUtf8 hlib (validUtf8_of_decode hlib hdecode)⟩

open DiscoveryPeer in
/-- A peer with a quote, a backslash and a control character in its strings, and one that was read
from a text without most of its members and with a state that names none. -/
theorem peer_roundTrip_escaped :
    (∃ s, encode JsonText.nlohmann ⟨.ofString "a\"b", .ofString "c\\d\n", [], [1], .gone⟩ = .ok s ∧
      decode JsonText.nlohmann s = .ok ⟨.ofString "a\"b", .ofString "c\\d\n", [], [1], .gone⟩) ∧
    ∃ p, decode JsonText.nlohmann (.ofString "\x7b\"device_id\":\"a\",\"state\":7\x7d") = .ok p ∧
      ∃ t, p.encode JsonText.nlohmann = .ok t ∧ decode JsonText.nlohmann t = .ok p := by
  have hread : ∃ p, (decode JsonText.nlohmann
      (.ofString "\x7b\"device_id\":\"a\",\"state\":7\x7d")).toOption = some p :=
    ⟨⟨.ofString "a", [], [], [], .idle⟩, by decide +kernel⟩
  obtain ⟨p, hp⟩ := hread
  have hdecode := Except.eq_ok_of_toOption hp
  obtain ⟨hwritten, hagain⟩ := peer_roundTrip JsonText.lawful
  exact ⟨hwritten _ ⟨by decide, by decide, by decide, by decide⟩, p, hdecode, hagain _ p hdecode⟩

end Keyleport
