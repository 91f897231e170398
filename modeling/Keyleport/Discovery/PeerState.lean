import Keyleport.Discovery.Peer
import Keyleport.Lib.Json.RoundTrip

/-!
# The state of a peer

The decoder of peers tests that the state is an integer and that the number is one of its
enumerators, but between the two tests it casts the integer to an `int`. So the number that is
tested is the state modulo `2 ^ 32`.

* `DiscoveryPeer.named`: the state a value names.
* `DiscoveryPeer.ofJson_state`: the state that is decoded.
* `peer_state_iff`: for which values the two are the same.
* `wrapped_state_gone`: a number that names no state and is read as gone.
-/

namespace Keyleport

namespace DiscoveryPeer

/-- The state a JSON value names: only the integers 1 and 2 name one that is not idle. -/
def named : Json → DiscoveryPeerState
  | .integer n => if n = 1 then .busy else if n = 2 then .gone else .idle
  | _ => .idle

/-- The state the decoder gives a value. -/
def readState : Json → DiscoveryPeerState
  | .integer n => .ofInt32 (Int32.ofInt n)
  | _ => .idle

variable {lib : Nlohmann} {s : StdString} {j v : Json}

/-- The number of a state is compared modulo `2 ^ 32`. -/
theorem ofInt32_ofInt (n : ℤ) : DiscoveryPeerState.ofInt32 (Int32.ofInt n) =
    if (2 ^ 32 : ℤ) ∣ n - 1 then .busy else if (2 ^ 32 : ℤ) ∣ n - 2 then .gone else .idle := by
  have hbusy_iff : Int32.ofInt n = DiscoveryPeerState.busy.toInt32 ↔ (2 ^ 32 : ℤ) ∣ n - 1 :=
    Json.ofInt_eq_iff
  have hgone_iff : Int32.ofInt n = DiscoveryPeerState.gone.toInt32 ↔ (2 ^ 32 : ℤ) ∣ n - 2 :=
    Json.ofInt_eq_iff
  by_cases hbusy : (2 ^ 32 : ℤ) ∣ n - 1
  · rw [if_pos hbusy, hbusy_iff.2 hbusy]
    rfl
  · by_cases hgone : (2 ^ 32 : ℤ) ∣ n - 2
    · rw [if_neg hbusy, if_pos hgone, hgone_iff.2 hgone]
      rfl
    · -- idle, by its own number or as any other
      rw [if_neg hbusy, if_neg hgone, DiscoveryPeerState.ofInt32, if_neg (mt hbusy_iff.1 hbusy),
        if_neg (mt hgone_iff.1 hgone), ite_self]

/-- The state of an object that is read. -/
theorem ofJson_state {p : DiscoveryPeer} (hstate : j.find? (.ofString "state") = some v)
    (h : ofJson lib j = .ok p) : p.state = readState v := by
  obtain ⟨_, -, h⟩ := Except.bind_eq_ok_iff.1 h
  obtain ⟨_, -, h⟩ := Except.bind_eq_ok_iff.1 h
  obtain ⟨_, -, h⟩ := Except.bind_eq_ok_iff.1 h
  obtain ⟨_, -, h⟩ := Except.bind_eq_ok_iff.1 h
  rw [hstate, Option.any_some] at h
  cases v using Json.casesOn
  case integer n =>
    have hread : j.valueInt lib (.ofString "state") 0 = .ok (Int32.ofInt n) := by
      rw [Json.valueInt, Json.value, hstate]
      rfl
    rw [hread] at h
    cases h
    rfl
  all_goals
    cases h
    rfl

/-- An integer is read as the state it names, unless it is one modulo `2 ^ 32` only. -/
theorem readState_eq_named_iff : readState v = named v ↔
    ∀ n, v = .integer n → n ≠ 1 → n ≠ 2 → ¬ (2 ^ 32 : ℤ) ∣ n - 1 ∧ ¬ (2 ^ 32 : ℤ) ∣ n - 2 := by
  cases v using Json.casesOn
  case integer n =>
    constructor
    · intro h m hm hone htwo
      obtain rfl := Json.integer.inj hm
      rw [readState, ofInt32_ofInt, named, if_neg hone, if_neg htwo] at h
      refine ⟨fun hbusy => ?_, fun hgone => ?_⟩
      · rw [if_pos hbusy] at h
        cases h
      · rw [if_pos hgone] at h
        split at h <;> cases h
    · intro h
      by_cases hone : n = 1
      · subst hone
        rfl
      · by_cases htwo : n = 2
        · subst htwo
          rfl
        · obtain ⟨hbusy, hgone⟩ := h n rfl hone htwo
          rw [readState, ofInt32_ofInt, named, if_neg hone, if_neg htwo, if_neg hbusy,
            if_neg hgone]
  all_goals exact iff_of_true rfl fun n hn => by cases hn

end DiscoveryPeer

open DiscoveryPeer in
/-- When the state of a peer is validated. An object whose four string fields are strings and whose
state is any JSON value decodes to a peer that is busy if the value is the integer 1, gone if it is
the integer 2 and idle otherwise, if and only if the value is no other integer that is congruent to
1 or 2 modulo `2 ^ 32`. -/
theorem peer_state_iff {lib : Nlohmann} {s : StdString} {j v : Json}
    (hparse : lib.parseObject s = some j)
    (hstrings : ∀ key ∈ stringFields, j.containsString key = true)
    (hstate : j.find? (.ofString "state") = some v) :
    (∃ p, decode lib s = .ok p ∧ p.state = named v) ↔
      ∀ n, v = .integer n → n ≠ 1 → n ≠ 2 → ¬ (2 ^ 32 : ℤ) ∣ n - 1 ∧ ¬ (2 ^ 32 : ℤ) ∣ n - 2 := by
  have hfields : ∀ key ∈ stringFields, ∀ v, j.find? key = some v → v.isString := by
    intro key hkey v hv
    have hstring := hstrings key hkey
    rwa [Json.containsString, hv, Option.any_some] at hstring
  obtain ⟨p, hp⟩ := ofJson_ok_iff.2 hfields
  have hdecode : decode lib s = .ok p := by
    rw [decode, hparse]
    exact hp
  rw [← readState_eq_named_iff, ← ofJson_state hstate hp]
  constructor
  · rintro ⟨q, hq, hnamed⟩
    obtain rfl := Except.ok.inj (hdecode.symm.trans hq)
    exact hnamed
  · exact fun hnamed => ⟨p, hdecode, hnamed⟩

/-- An object with four strings and a given state. -/
def stateText (state : String) : StdString :=
  .ofString ("\x7b\"device_id\":\"a\",\"device_name\":\"b\",\"ip_address\":\"c\"," ++
    "\"platform\":\"d\",\"state\":" ++ state ++ "\x7d")

open DiscoveryPeer in
/-- A number that is three modulo `2 ^ 32` is read as idle. -/
theorem peer_state_iff_three : ∃ p,
    decode JsonText.nlohmann (stateText "4294967299") = .ok p ∧ p.state = .idle := by
  have hparse : ∃ j ∈ JsonText.nlohmann.parseObject (stateText "4294967299"),
      (∀ key ∈ stringFields, j.containsString key = true) ∧
        j.integerMember (.ofString "state") = some 4294967299 := by
    decide +kernel
  obtain ⟨j, hj, hstrings, hstate⟩ := hparse
  apply (peer_state_iff hj hstrings (Json.integerMember_eq_some_iff.1 hstate)).2
  intro n hn _ _
  obtain rfl := Json.integer.inj hn
  decide

open DiscoveryPeer in
/-- A number that is two modulo `2 ^ 32` is read as gone. -/
theorem wrapped_state_gone : ¬ ∀ s j v, JsonText.nlohmann.parseObject s = some j →
    (∀ key ∈ stringFields, j.containsString key = true) →
    j.find? (.ofString "state") = some v →
    ∃ p, decode JsonText.nlohmann s = .ok p ∧ p.state = named v := by
  intro hvalidated
  have hparse : ∃ j ∈ JsonText.nlohmann.parseObject (stateText "4294967298"),
      (∀ key ∈ stringFields, j.containsString key = true) ∧
        j.integerMember (.ofString "state") = some 4294967298 := by
    decide +kernel
  have hgone : ∃ p ∈ (decode JsonText.nlohmann (stateText "4294967298")).toOption,
      p.state = .gone := by
    decide +kernel
  obtain ⟨j, hj, hstrings, hstate⟩ := hparse
  obtain ⟨q, hq, hqgone⟩ := hgone
  obtain ⟨p, hp, hidle⟩ :=
    hvalidated _ j _ hj hstrings (Json.integerMember_eq_some_iff.1 hstate)
  obtain rfl := Except.ok.inj (hp.symm.trans (Except.eq_ok_of_toOption hq))
  rw [hqgone] at hidle
  exact absurd hidle (by decide)

end Keyleport
