import Keyleport.Keyboard.InputEvent
import Keyleport.Lib.Json.RoundTrip
import Keyleport.Networking.Message

/-!
# Packages

`services/communication/typed_package.h` and the two packages it carries,
`become_receiver_package.h` and `keyboard_input_package.h`. A package is a JSON object with a
type name and a payload, and the payload is itself the text of a JSON object.
-/

namespace Keyleport

/-- `typed_package`. -/
structure TypedPackage where
  /-- `__typename`. -/
  typename : StdString
  payload : StdString
  /-- `meta`: the message the package was decoded from. -/
  metaMessage : Message
deriving DecidableEq, Repr

instance : Inhabited TypedPackage := ⟨⟨[], [], default⟩⟩

namespace TypedPackage

/-- The JSON object of a package. -/
def toJson (p : TypedPackage) : Json :=
  .ofPairs [(.ofString "__typename", .string p.typename),
    (.ofString "payload", .string p.payload)]

/-- `typed_package::encode`. -/
def encode (lib : Nlohmann) (p : TypedPackage) : Except TypeError StdString :=
  lib.dump p.toJson

/-- `typed_package::decode`. -/
def decode (lib : Nlohmann) (s : StdString) : Except TypeError TypedPackage :=
  match lib.parseObject s with
  | none => .ok default
  | some j => do
      let typename ← j.guardedString (.ofString "__typename")
      let payload ← j.guardedString (.ofString "payload")
      return ⟨typename, payload, default⟩

end TypedPackage

/-- `become_receiver_package`. -/
structure BecomeReceiverPackage where
  deviceId : StdString
deriving DecidableEq, Repr

namespace BecomeReceiverPackage

/-- `become_receiver_package::__typename`. -/
def typename : StdString := .ofString "become_receiver"

/-- `become_receiver_package::is`. -/
def is (pkg : TypedPackage) : Bool := pkg.typename = typename

/-- The JSON object of a package. -/
def toJson (p : BecomeReceiverPackage) : Json :=
  .ofPairs [(.ofString "device_id", .string p.deviceId)]

/-- `become_receiver_package::encode`. -/
def encode (lib : Nlohmann) (p : BecomeReceiverPackage) : Except TypeError StdString :=
  lib.dump p.toJson

/-- `become_receiver_package::decode`. -/
def decode (lib : Nlohmann) (s : StdString) : Except TypeError BecomeReceiverPackage :=
  match lib.parseObject s with
  | none => .ok ⟨[]⟩
  | some j => do
      let deviceId ← j.guardedString (.ofString "device_id")
      return ⟨deviceId⟩

end BecomeReceiverPackage

/-- `keyboard_input_package`. -/
structure KeyboardInputPackage where
  event : InputEvent
deriving DecidableEq, Repr

namespace KeyboardInputPackage

/-- `keyboard_input_package::__typename`. -/
def typename : StdString := .ofString "keyboard_input"

/-- `keyboard_input_package::is`. -/
def is (pkg : TypedPackage) : Bool := pkg.typename = typename

/-- `keyboard_input_package::encode`. -/
def encode (lib : Nlohmann) (p : KeyboardInputPackage) : Except TypeError StdString :=
  InputEventJSONConverter.encode lib p.event

/-- `keyboard_input_package::decode`. -/
def decode (lib : Nlohmann) (s : StdString) : Except TypeError KeyboardInputPackage := do
  let event ← InputEventJSONConverter.decode lib s
  return ⟨event⟩

/-- `keyboard_input_package::build`. -/
def build (lib : Nlohmann) (e : InputEvent) : Except TypeError TypedPackage := do
  let payload ← encode lib ⟨e⟩
  return ⟨typename, payload, default⟩

end KeyboardInputPackage

/-! ## Guarded decoders -/

/-- Both reads of the decoder are guarded: a member of another type is read as empty. -/
theorem TypedPackage.decode_of_parseObject {lib : Nlohmann} {s : StdString} {j : Json}
    (h : lib.parseObject s = some j) :
    decode lib s = .ok ⟨j.stringMember (.ofString "__typename"),
      j.stringMember (.ofString "payload"), default⟩ := by
  rw [decode, h]
  simp only [Json.guardedString_eq]
  rfl

/-- The decoder of a package never throws. -/
theorem TypedPackage.decode_ok (lib : Nlohmann) (s : StdString) : ∃ p, decode lib s = .ok p := by
  cases h : lib.parseObject s with
  | none =>
    rw [decode, h]
    exact ⟨_, rfl⟩
  | some j => exact ⟨_, decode_of_parseObject h⟩

/-- The read of the decoder is guarded: a member of another type is read as empty. -/
theorem BecomeReceiverPackage.decode_of_parseObject {lib : Nlohmann} {s : StdString} {j : Json}
    (h : lib.parseObject s = some j) :
    decode lib s = .ok ⟨j.stringMember (.ofString "device_id")⟩ := by
  rw [decode, h]
  simp only [Json.guardedString_eq]
  rfl

/-- The decoder of a connection request never throws. -/
theorem BecomeReceiverPackage.decode_ok (lib : Nlohmann) (s : StdString) :
    ∃ p, decode lib s = .ok p := by
  cases h : lib.parseObject s with
  | none =>
    rw [decode, h]
    exact ⟨_, rfl⟩
  | some j => exact ⟨_, decode_of_parseObject h⟩

/-! ## The wire -/

section Wire

variable {lib : Nlohmann}

theorem TypedPackage.toJson_eq (p : TypedPackage) : p.toJson =
    .object [(.ofString "__typename", .string p.typename),
      (.ofString "payload", .string p.payload)] := rfl

theorem TypedPackage.canonical_toJson (p : TypedPackage) : p.toJson.Canonical := by
  rw [toJson_eq]
  refine .object (by simp only [List.map_cons, List.map_nil]; decide) ?_
  simp only [List.forall_mem_cons]
  exact ⟨.string _, .string _, by simp⟩

theorem TypedPackage.validUtf8_toJson {p : TypedPackage} (ht : p.typename.ValidUtf8)
    (hp : p.payload.ValidUtf8) : p.toJson.ValidUtf8 := by
  rw [toJson_eq]
  refine .object (by simp only [List.map_cons, List.map_nil]; decide) ?_
  simp only [List.forall_mem_cons]
  exact ⟨.string ht, .string hp, by simp⟩

/-- Decoding the text of a package gives its type name and payload. The message it came from
is not on the wire. -/
theorem TypedPackage.decode_encode (hlib : lib.Lawful) {p : TypedPackage} {s : StdString}
    (hs : p.encode lib = .ok s) : decode lib s = .ok ⟨p.typename, p.payload, default⟩ := by
  have hparse : lib.parseObject s = some p.toJson :=
    hlib.parseObject_dump p.canonical_toJson hs
  have htype : p.toJson.guardedString (.ofString "__typename") = .ok p.typename := rfl
  have hpayload : p.toJson.guardedString (.ofString "payload") = .ok p.payload := rfl
  rw [decode, hparse]
  simp only [htype, hpayload, bind, Except.bind, pure, Except.pure]

/-- A package is read as what it was sent as: the type names of the two packages differ. -/
theorem BecomeReceiverPackage.is_eq_false_of_keyboard {pkg : TypedPackage}
    (h : KeyboardInputPackage.is pkg = true) : is pkg = false := by
  have hne : KeyboardInputPackage.typename ≠ typename := by decide
  have hname : pkg.typename = KeyboardInputPackage.typename := of_decide_eq_true h
  exact decide_eq_false (by rw [hname]; exact hne)

/-- An event can always be packed. -/
theorem KeyboardInputPackage.build_ok (hlib : lib.Lawful) (e : InputEvent) :
    ∃ payload, build lib e = .ok ⟨typename, payload, default⟩ ∧ payload.ValidUtf8 ∧
      InputEventJSONConverter.decode lib payload = .ok e := by
  obtain ⟨payload, hpayload, hvalid⟩ := InputEventJSONConverter.encode_ok hlib e
  refine ⟨payload, ?_, hvalid, InputEventJSONConverter.decode_encode hlib hpayload⟩
  rw [build, encode, hpayload]
  rfl

/-- The wire loses nothing: a package with UTF-8 strings survives encoding and decoding, and an
event packed, encoded and decoded is the same event, taken for nothing else on the way. -/
theorem wire_lossless (hlib : lib.Lawful) :
    (∀ p : TypedPackage, p.typename.ValidUtf8 → p.payload.ValidUtf8 →
      ∃ s q, p.encode lib = .ok s ∧ TypedPackage.decode lib s = .ok q ∧
        q.typename = p.typename ∧ q.payload = p.payload) ∧
    (∀ e : InputEvent, ∃ p s q, KeyboardInputPackage.build lib e = .ok p ∧
      p.encode lib = .ok s ∧ TypedPackage.decode lib s = .ok q ∧
      KeyboardInputPackage.is q = true ∧ BecomeReceiverPackage.is q = false ∧
      KeyboardInputPackage.decode lib q.payload = .ok ⟨e⟩) := by
  constructor
  · intro p ht hp
    obtain ⟨s, hs⟩ := hlib.dump_ok_iff.2 (TypedPackage.validUtf8_toJson ht hp)
    exact ⟨s, _, hs, TypedPackage.decode_encode hlib hs, rfl, rfl⟩
  · intro e
    obtain ⟨payload, hbuild, hvalid, hevent⟩ := KeyboardInputPackage.build_ok hlib e
    -- the payload is the text of an object, hence UTF-8, so the outer object can be dumped
    have hname : StdString.ValidUtf8 KeyboardInputPackage.typename := by decide
    obtain ⟨s, hs⟩ := hlib.dump_ok_iff.2
      (TypedPackage.validUtf8_toJson (p := ⟨_, payload, default⟩) hname hvalid)
    have his : KeyboardInputPackage.is ⟨KeyboardInputPackage.typename, payload, default⟩ = true :=
      decide_eq_true rfl
    refine ⟨_, s, _, hbuild, hs, TypedPackage.decode_encode hlib hs, his,
      BecomeReceiverPackage.is_eq_false_of_keyboard his, ?_⟩
    rw [KeyboardInputPackage.decode, hevent]
    rfl

/-- A package whose strings hold a quote, a backslash and a line feed, and the event with the
largest code and the extreme deltas. -/
theorem wire_lossless_escapes :
    (∃ s q, TypedPackage.encode JsonText.nlohmann
        ⟨.ofString "a\"b", .ofString "\\\n", default⟩ = .ok s ∧
      TypedPackage.decode JsonText.nlohmann s = .ok q ∧
      q.typename = .ofString "a\"b" ∧ q.payload = .ofString "\\\n") ∧
    (∃ p s q, KeyboardInputPackage.build JsonText.nlohmann
        ⟨.mouse, .scroll, 65535, -2147483648, 2147483647⟩ = .ok p ∧
      p.encode JsonText.nlohmann = .ok s ∧ TypedPackage.decode JsonText.nlohmann s = .ok q ∧
      KeyboardInputPackage.is q = true ∧ BecomeReceiverPackage.is q = false ∧
      KeyboardInputPackage.decode JsonText.nlohmann q.payload =
        .ok ⟨⟨.mouse, .scroll, 65535, -2147483648, 2147483647⟩⟩) :=
  ⟨(wire_lossless JsonText.lawful).1 ⟨_, _, default⟩ (by decide) (by decide),
    (wire_lossless JsonText.lawful).2 _⟩

end Wire

end Keyleport
