import Keyleport.Lib.Except
import Keyleport.Lib.Json.Value

/-!
# Input events

`keyboard/input_event.h`: the event record sent from the sender to the receiver, and its JSON
converter.

A C++ scoped enumeration over `uint8_t` can hold any `uint8_t`, and the decoder casts whatever
number it reads, so `InputEventType` and `InputEventAction` hold a byte and name the enumerators.
-/

namespace Keyleport

/-- `InputEvent::Type`. -/
structure InputEventType where
  val : UInt8
deriving DecidableEq, Repr

/-- `InputEvent::Action`. -/
structure InputEventAction where
  val : UInt8
deriving DecidableEq, Repr

namespace InputEventType

/-- `Type::Key`. -/
def key : InputEventType := ⟨0⟩

/-- `Type::Mouse`. -/
def mouse : InputEventType := ⟨1⟩

end InputEventType

namespace InputEventAction

/-- `Action::Down`. -/
def down : InputEventAction := ⟨0⟩

/-- `Action::Up`. -/
def up : InputEventAction := ⟨1⟩

/-- `Action::Move`. -/
def move : InputEventAction := ⟨2⟩

/-- `Action::Scroll`. -/
def scroll : InputEventAction := ⟨3⟩

end InputEventAction

/-- `InputEvent`. -/
structure InputEvent where
  type : InputEventType
  action : InputEventAction
  code : UInt16
  dx : Int32
  dy : Int32
deriving DecidableEq, Repr

/-- `InputEvent{}`: every field zero, which reads as a press of key 0. -/
instance : Inhabited InputEvent := ⟨⟨⟨0⟩, ⟨0⟩, 0, 0, 0⟩⟩

namespace InputEvent

/-! ## Presses and releases -/

/-- A press or release of a key or mouse button. -/
def IsEdge (ev : InputEvent) : Prop :=
  (ev.type = .key ∨ ev.type = .mouse) ∧ (ev.action = .down ∨ ev.action = .up)

instance : DecidablePred IsEdge := fun _ => inferInstanceAs (Decidable (_ ∧ _))

/-- The code of a key event, and whether it is a press. -/
def keyEdge (ev : InputEvent) : Option (UInt16 × Bool) :=
  if ev.type = .key then some (ev.code, ev.action = .down) else none

/-- The code of a mouse button event, and whether it is a press. -/
def buttonEdge (ev : InputEvent) : Option (UInt16 × Bool) :=
  if ev.type = .mouse then some (ev.code, ev.action = .down) else none

/-- The four kinds of presses and releases. -/
theorem IsEdge.cases {ev : InputEvent} (h : ev.IsEdge) :
    ∃ (code : UInt16) (dx dy : Int32) (down : Bool),
    ev = ⟨.key, if down then .down else .up, code, dx, dy⟩ ∨
      ev = ⟨.mouse, if down then .down else .up, code, dx, dy⟩ := by
  obtain ⟨type, action, code, dx, dy⟩ := ev
  obtain ⟨rfl | rfl, rfl | rfl⟩ := h
  · exact ⟨code, dx, dy, true, Or.inl rfl⟩
  · exact ⟨code, dx, dy, false, Or.inl rfl⟩
  · exact ⟨code, dx, dy, true, Or.inr rfl⟩
  · exact ⟨code, dx, dy, false, Or.inr rfl⟩

end InputEvent

namespace InputEventJSONConverter

/-- The JSON object of an event. -/
def toJson (e : InputEvent) : Json :=
  .ofPairs [(.ofString "type", .integer e.type.val.toNat),
    (.ofString "action", .integer e.action.val.toNat),
    (.ofString "code", .integer e.code.toNat),
    (.ofString "dx", .integer e.dx.toInt),
    (.ofString "dy", .integer e.dy.toInt)]

/-- `InputEventJSONConverter::encode`. -/
def encode (lib : Nlohmann) (e : InputEvent) : Except TypeError StdString :=
  lib.dump (toJson e)

/-- The event of a JSON object: each field is read as an `int` and cast to its own type. -/
def ofJson (lib : Nlohmann) (j : Json) : Except TypeError InputEvent := do
  let type ← j.valueInt lib (.ofString "type") 0
  let action ← j.valueInt lib (.ofString "action") 0
  let code ← j.valueInt lib (.ofString "code") 0
  let dx ← j.valueInt lib (.ofString "dx") 0
  let dy ← j.valueInt lib (.ofString "dy") 0
  return ⟨⟨type.toUInt32.toUInt8⟩, ⟨action.toUInt32.toUInt8⟩, code.toUInt32.toUInt16, dx, dy⟩

/-- `InputEventJSONConverter::decode`. -/
def decode (lib : Nlohmann) (s : StdString) : Except TypeError InputEvent :=
  match lib.parseObject s with
  | none => .ok default
  | some j => ofJson lib j

/-! ## Encoding and decoding an event -/

/-- The members of an event's object, in key order. -/
theorem toJson_eq (e : InputEvent) : toJson e =
    .object [(.ofString "action", .integer e.action.val.toNat),
      (.ofString "code", .integer e.code.toNat),
      (.ofString "dx", .integer e.dx.toInt),
      (.ofString "dy", .integer e.dy.toInt),
      (.ofString "type", .integer e.type.val.toNat)] := rfl

theorem canonical_toJson (e : InputEvent) : (toJson e).Canonical := by
  have hx := e.dx.le_toInt
  have hx' := e.dx.toInt_lt
  have hy := e.dy.le_toInt
  have hy' := e.dy.toInt_lt
  have ht := e.type.val.toNat_lt
  have ha := e.action.val.toNat_lt
  have hc := e.code.toNat_lt
  rw [toJson_eq]
  refine .object (by simp only [List.map_cons, List.map_nil]; decide) ?_
  simp only [List.forall_mem_cons]
  exact ⟨.integer (by omega) (by omega), .integer (by omega) (by omega),
    .integer (by omega) (by omega), .integer (by omega) (by omega),
    .integer (by omega) (by omega), by simp⟩

theorem validUtf8_toJson (e : InputEvent) : (toJson e).ValidUtf8 := by
  rw [toJson_eq]
  refine .object (by simp only [List.map_cons, List.map_nil]; decide) ?_
  simp only [List.forall_mem_cons]
  exact ⟨.integer _, .integer _, .integer _, .integer _, .integer _, by simp⟩

/-- Casting an enumerator to `int` and back loses nothing. -/
private theorem uint8_cast (b : UInt8) :
    (Int32.ofInt (b.toNat : ℤ)).toUInt32.toUInt8 = b := by
  rw [Int32.ofInt_eq_ofNat]
  change (UInt32.ofNat b.toNat).toUInt8 = b
  rw [UInt32.toUInt8_ofNat']
  exact UInt8.ofNat_toNat

/-- Casting a code to `int` and back loses nothing. -/
private theorem uint16_cast (c : UInt16) :
    (Int32.ofInt (c.toNat : ℤ)).toUInt32.toUInt16 = c := by
  rw [Int32.ofInt_eq_ofNat]
  change (UInt32.ofNat c.toNat).toUInt16 = c
  rw [UInt32.toUInt16_ofNat']
  exact UInt16.ofNat_toNat

variable {lib : Nlohmann}

/-- Reading the object of an event gives the event. -/
theorem ofJson_toJson (e : InputEvent) : ofJson lib (toJson e) = .ok e := by
  have htype : (toJson e).valueInt lib (.ofString "type") 0 =
      .ok (Int32.ofInt (e.type.val.toNat : ℤ)) := rfl
  have haction : (toJson e).valueInt lib (.ofString "action") 0 =
      .ok (Int32.ofInt (e.action.val.toNat : ℤ)) := rfl
  have hcode : (toJson e).valueInt lib (.ofString "code") 0 =
      .ok (Int32.ofInt (e.code.toNat : ℤ)) := rfl
  have hdx : (toJson e).valueInt lib (.ofString "dx") 0 = .ok (Int32.ofInt e.dx.toInt) := rfl
  have hdy : (toJson e).valueInt lib (.ofString "dy") 0 = .ok (Int32.ofInt e.dy.toInt) := rfl
  rw [ofJson, htype, haction, hcode, hdx, hdy]
  simp only [bind, Except.bind, pure, Except.pure, uint8_cast, uint16_cast, Int32.ofInt_toInt]

/-- Every event can be encoded, as UTF-8 text. -/
theorem encode_ok (hlib : lib.Lawful) (e : InputEvent) :
    ∃ s, encode lib e = .ok s ∧ s.ValidUtf8 := by
  obtain ⟨s, hs⟩ := hlib.dump_ok_iff.2 (validUtf8_toJson e)
  exact ⟨s, hs, hlib.parse_utf8 (hlib.parse_dump (canonical_toJson e) hs)⟩

/-- The text of an event decodes to the event. -/
theorem decode_encode (hlib : lib.Lawful) {e : InputEvent} {s : StdString}
    (hs : encode lib e = .ok s) : decode lib s = .ok e := by
  have hparse : lib.parseObject s = some (toJson e) :=
    hlib.parseObject_dump (canonical_toJson e) hs
  rw [decode, hparse]
  exact ofJson_toJson e

/-! ## Malformed objects -/

/-- The fields of an event, in the order they are read. -/
def fields : List StdString :=
  [.ofString "type", .ofString "action", .ofString "code", .ofString "dx", .ofString "dy"]

/-- The reads of the fields are not guarded: the object of an event is read exactly when every
field that is present converts to an `int`. -/
theorem ofJson_ok_iff {j : Json} : (∃ e, ofJson lib j = .ok e) ↔
    ∀ key ∈ fields, ∀ v, j.find? key = some v → v.isArithmetic := by
  simp only [fields, List.forall_mem_cons, ← Json.valueInt_ok_iff lib 0]
  rw [ofJson]
  constructor
  · -- each read comes after those before it, and all of them returned
    rintro ⟨e, he⟩
    obtain ⟨_, htype, e, he⟩ := Except.bind_ok_iff.1 ⟨e, he⟩
    obtain ⟨_, haction, e, he⟩ := Except.bind_ok_iff.1 ⟨e, he⟩
    obtain ⟨_, hcode, e, he⟩ := Except.bind_ok_iff.1 ⟨e, he⟩
    obtain ⟨_, hdx, e, he⟩ := Except.bind_ok_iff.1 ⟨e, he⟩
    obtain ⟨_, hdy, e, he⟩ := Except.bind_ok_iff.1 ⟨e, he⟩
    exact ⟨⟨_, htype⟩, ⟨_, haction⟩, ⟨_, hcode⟩, ⟨_, hdx⟩, ⟨_, hdy⟩, by simp⟩
  · rintro ⟨⟨_, htype⟩, ⟨_, haction⟩, ⟨_, hcode⟩, ⟨_, hdx⟩, ⟨_, hdy⟩, -⟩
    rw [htype, haction, hcode, hdx, hdy]
    exact ⟨_, rfl⟩

theorem decode_ok_iff {s : StdString} : (∃ e, decode lib s = .ok e) ↔
    ∀ j, lib.parseObject s = some j → ∀ key ∈ fields, ∀ v, j.find? key = some v →
      v.isArithmetic := by
  rw [decode]
  cases h : lib.parseObject s with
  | none => simp
  | some j => simpa using ofJson_ok_iff

end InputEventJSONConverter

end Keyleport
