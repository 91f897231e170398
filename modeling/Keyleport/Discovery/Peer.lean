import Keyleport.Lib.Except
import Keyleport.Lib.Json.Value

/-!
# Discovery peers

`services/discovery/discovery_peer.h` and `entities/connection_candidate.h`: what a device
broadcasts about itself, and what the home scene lists of it. The decoder reads its four string
fields with `value`, which throws on a member of another type; only the state is guarded.
-/

namespace Keyleport

/-- `entities::ConnectionCandidate`. -/
structure ConnectionCandidate where
  isBusy : Bool
  name : StdString
  ip : StdString
  port : StdString
deriving DecidableEq, Repr

/-- `discovery_peer_state`. -/
inductive DiscoveryPeerState where
  | idle
  | busy
  | gone
deriving DecidableEq, Repr

namespace DiscoveryPeerState

/-- `static_cast<int>` of a state. -/
def toInt32 : DiscoveryPeerState → Int32
  | idle => 0
  | busy => 1
  | gone => 2

/-- The state with a number; any other number is read as idle. -/
def ofInt32 (sv : Int32) : DiscoveryPeerState :=
  if sv = idle.toInt32 then idle
  else if sv = busy.toInt32 then busy
  else if sv = gone.toInt32 then gone
  else idle

end DiscoveryPeerState

/-- `discovery_peer`. -/
structure DiscoveryPeer where
  deviceId : StdString
  deviceName : StdString
  ipAddress : StdString
  platform : StdString
  state : DiscoveryPeerState
deriving DecidableEq, Repr

/-- `discovery_peer{}`. -/
instance : Inhabited DiscoveryPeer := ⟨⟨[], [], [], [], .idle⟩⟩

namespace DiscoveryPeer

/-- The JSON object of a peer. -/
def toJson (p : DiscoveryPeer) : Json :=
  .ofPairs [(.ofString "device_id", .string p.deviceId),
    (.ofString "device_name", .string p.deviceName),
    (.ofString "ip_address", .string p.ipAddress),
    (.ofString "platform", .string p.platform),
    (.ofString "state", .integer p.state.toInt32.toInt)]

/-- `discovery_peer::encode`. -/
def encode (lib : Nlohmann) (p : DiscoveryPeer) : Except TypeError StdString :=
  lib.dump p.toJson

/-- The peer of a JSON object. -/
def ofJson (lib : Nlohmann) (j : Json) : Except TypeError DiscoveryPeer := do
  let deviceId ← j.valueString (.ofString "device_id") []
  let deviceName ← j.valueString (.ofString "device_name") []
  let ipAddress ← j.valueString (.ofString "ip_address") []
  let platform ← j.valueString (.ofString "platform") []
  let p : DiscoveryPeer := ⟨deviceId, deviceName, ipAddress, platform, .idle⟩
  -- a state that is not an integer is ignored
  if (j.find? (.ofString "state")).any Json.isNumberInteger then
    let sv ← j.valueInt lib (.ofString "state") 0
    return { p with state := .ofInt32 sv }
  else return p

/-- `discovery_peer::decode`. -/
def decode (lib : Nlohmann) (s : StdString) : Except TypeError DiscoveryPeer :=
  match lib.parseObject s with
  | none => .ok default
  | some j => ofJson lib j

/-! ## Encoding and decoding a peer -/

/-- The members of a peer's object, in key order. -/
theorem toJson_eq (p : DiscoveryPeer) : p.toJson =
    .object [(.ofString "device_id", .string p.deviceId),
      (.ofString "device_name", .string p.deviceName),
      (.ofString "ip_address", .string p.ipAddress),
      (.ofString "platform", .string p.platform),
      (.ofString "state", .integer p.state.toInt32.toInt)] := rfl

theorem canonical_toJson (p : DiscoveryPeer) : p.toJson.Canonical := by
  have hlo := p.state.toInt32.le_toInt
  have hhi := p.state.toInt32.toInt_lt
  rw [toJson_eq]
  refine .object (by simp only [List.map_cons, List.map_nil]; decide) ?_
  simp only [List.forall_mem_cons]
  exact ⟨.string _, .string _, .string _, .string _, .integer (by omega) (by omega), by simp⟩

variable {lib : Nlohmann}

/-- Reading the object of a peer gives the peer. -/
theorem ofJson_toJson (p : DiscoveryPeer) : ofJson lib p.toJson = .ok p := by
  obtain ⟨deviceId, deviceName, ipAddress, platform, state⟩ := p
  cases state <;> rfl

/-- The text of a peer decodes to the peer. -/
theorem decode_encode (hlib : lib.Lawful) {p : DiscoveryPeer} {s : StdString}
    (hs : p.encode lib = .ok s) : decode lib s = .ok p := by
  have hparse : lib.parseObject s = some p.toJson :=
    hlib.parseObject_dump p.canonical_toJson hs
  rw [decode, hparse]
  exact ofJson_toJson p

/-! ## Malformed objects -/

/-- The string fields of a peer, in the order they are read. -/
def stringFields : List StdString :=
  [.ofString "device_id", .ofString "device_name", .ofString "ip_address", .ofString "platform"]

/-- The read of the state is guarded and never throws. -/
private theorem state_ok (j : Json) (p : DiscoveryPeer) :
    ∃ q, (if (j.find? (.ofString "state")).any Json.isNumberInteger then do
      let sv ← j.valueInt lib (.ofString "state") 0
      return { p with state := .ofInt32 sv }
    else return p : Except TypeError DiscoveryPeer) = .ok q := by
  split
  next h =>
    obtain ⟨v, hv, hint⟩ := (Option.any_eq_true _ _).1 h
    have harith : v.isArithmetic := by
      cases v using Json.casesOn <;> first | rfl | cases hint
    obtain ⟨sv, hsv⟩ : ∃ sv, j.valueInt lib (.ofString "state") 0 = .ok sv :=
      (Json.valueInt_ok_iff lib 0).2 fun w hw => by
        obtain rfl := Option.some.inj (hv.symm.trans hw)
        exact harith
    rw [hsv]
    exact ⟨_, rfl⟩
  next => exact ⟨p, rfl⟩

/-- The object of a peer is read exactly when every string field that is present is a string;
the state never throws. -/
theorem ofJson_ok_iff {j : Json} : (∃ p, ofJson lib j = .ok p) ↔
    ∀ key ∈ stringFields, ∀ v, j.find? key = some v → v.isString := by
  simp only [stringFields, List.forall_mem_cons, ← Json.valueString_ok_iff []]
  rw [ofJson]
  constructor
  · -- each read comes after those before it, and all of them returned
    rintro ⟨p, hp⟩
    obtain ⟨_, hid, p, hp⟩ := Except.bind_ok_iff.1 ⟨p, hp⟩
    obtain ⟨_, hname, p, hp⟩ := Except.bind_ok_iff.1 ⟨p, hp⟩
    obtain ⟨_, hip, p, hp⟩ := Except.bind_ok_iff.1 ⟨p, hp⟩
    obtain ⟨_, hplatform, p, hp⟩ := Except.bind_ok_iff.1 ⟨p, hp⟩
    exact ⟨⟨_, hid⟩, ⟨_, hname⟩, ⟨_, hip⟩, ⟨_, hplatform⟩, by simp⟩
  · rintro ⟨⟨_, hid⟩, ⟨_, hname⟩, ⟨_, hip⟩, ⟨_, hplatform⟩, -⟩
    rw [hid, hname, hip, hplatform]
    exact state_ok j _

theorem decode_ok_iff {s : StdString} : (∃ p, decode lib s = .ok p) ↔
    ∀ j, lib.parseObject s = some j → ∀ key ∈ stringFields, ∀ v, j.find? key = some v →
      v.isString := by
  rw [decode]
  cases h : lib.parseObject s with
  | none => simp
  | some j => simpa using ofJson_ok_iff

end DiscoveryPeer

end Keyleport
