import Keyleport.Keyboard.InputEvent
import Keyleport.Lib.Json.RoundTrip
import Mathlib.Algebra.Order.Group.Unbundled.Int

/-!
# Fields out of range

The decoder of events casts every field from a 64-bit integer to an `int` and on to the field's own
type, and tests none of them. So a field is read modulo the number of values of its type, and an
object with a field that no event has reads as one that has it.

* `InputEventJSONConverter.Field`: the five fields, with their types and legal values.
* `InputEventJSONConverter.ofJson_spec`: every field is read modulo the size of its type.
* `decode_unaliased_iff`: for which objects the decoder does not alias.
* `code_aliased`: an object that reads as another key.
-/

namespace Keyleport

namespace InputEventJSONConverter

/-- A field of an event. -/
structure Field where
  key : StdString
  /-- Its value in an event. -/
  read : InputEvent → ℤ
  /-- The smallest value of its type. -/
  min : ℤ
  /-- How many values its type has. -/
  size : ℤ
  /-- The largest legal value. -/
  max : ℤ

namespace Field

/-- `type`, one of two enumerators. -/
def type : Field := ⟨.ofString "type", fun e => e.type.val.toNat, 0, 2 ^ 8, 1⟩

/-- `action`, one of four enumerators. -/
def action : Field := ⟨.ofString "action", fun e => e.action.val.toNat, 0, 2 ^ 8, 3⟩

/-- `code`, any `uint16_t`. -/
def code : Field := ⟨.ofString "code", fun e => e.code.toNat, 0, 2 ^ 16, 2 ^ 16 - 1⟩

/-- `dx`, any `int32_t`. -/
def dx : Field := ⟨.ofString "dx", fun e => e.dx.toInt, -2 ^ 31, 2 ^ 32, 2 ^ 31 - 1⟩

/-- `dy`, any `int32_t`. -/
def dy : Field := ⟨.ofString "dy", fun e => e.dy.toInt, -2 ^ 31, 2 ^ 32, 2 ^ 31 - 1⟩

/-- The fields of an event. -/
def all : List Field := [type, action, code, dx, dy]

/-- An enumerator, a `uint16_t` or an `int32_t`. -/
def Legal (f : Field) (n : ℤ) : Prop := f.min ≤ n ∧ n ≤ f.max

instance (f : Field) : DecidablePred f.Legal := fun _ => inferInstanceAs (Decidable (_ ∧ _))

/-- The number in this field of an object, if there is one. -/
def number (f : Field) (j : Json) : Option ℤ := j.integerMember f.key

variable {f : Field} {j : Json}

/-- The value of a field is one of its type. -/
theorem read_range (hf : f ∈ all) (e : InputEvent) :
    f.min ≤ f.read e ∧ f.read e < f.min + f.size := by
  have ht := e.type.val.toNat_lt
  have ha := e.action.val.toNat_lt
  have hc := e.code.toNat_lt
  have hx := e.dx.le_toInt
  have hx' := e.dx.toInt_lt
  have hy := e.dy.le_toInt
  have hy' := e.dy.toInt_lt
  simp only [all, List.mem_cons, List.not_mem_nil, or_false] at hf
  rcases hf with rfl | rfl | rfl | rfl | rfl <;>
    simp only [type, action, code, dx, dy] <;> omega

/-- Zero is legal, and every legal value is one of the type. -/
theorem legal_zero (hf : f ∈ all) : f.Legal 0 ∧ f.max < f.min + f.size := by
  revert f
  decide

/-- A value of the type is known by its remainder. -/
theorem read_eq {e : InputEvent} {n : ℤ} (hf : f ∈ all) (h : f.size ∣ n - f.read e)
    (hn : f.Legal n) : f.read e = n := by
  have hrange := read_range hf e
  have hmax := (legal_zero hf).2
  obtain ⟨hlo, hhi⟩ := hn
  have hzero := Int.eq_zero_of_abs_lt_dvd h (abs_lt.2 ⟨by omega, by omega⟩)
  omega

/-- Every field of the zero event is zero. -/
theorem read_default (hf : f ∈ all) : f.read default = 0 := by
  revert f
  decide

/-- Events with the same values are the same. -/
theorem ext {e e' : InputEvent} (h : ∀ f ∈ all, f.read e = f.read e') : e = e' := by
  simp only [all, List.forall_mem_cons] at h
  obtain ⟨htype, haction, hcode, hdx, hdy, -⟩ := h
  obtain ⟨⟨type⟩, ⟨action⟩, code, dx, dy⟩ := e
  obtain ⟨⟨type'⟩, ⟨action'⟩, code', dx', dy'⟩ := e'
  obtain rfl := UInt8.toNat_inj.1 (Int.ofNat_inj.1 htype)
  obtain rfl := UInt8.toNat_inj.1 (Int.ofNat_inj.1 haction)
  obtain rfl := UInt16.toNat_inj.1 (Int.ofNat_inj.1 hcode)
  obtain rfl := Int32.toInt_inj.1 hdx
  obtain rfl := Int32.toInt_inj.1 hdy
  rfl

end Field

/-! ## Objects -/

/-- Every field that is present is an integer. -/
def Integers (j : Json) : Prop :=
  ∀ f ∈ Field.all, ∀ v ∈ j.find? f.key, v.isNumberInteger = true

instance : DecidablePred Integers := fun _ => List.decidableBAll _ _

/-- Every field that is present has a legal value. -/
def InRange (j : Json) : Prop := ∀ f ∈ Field.all, ∀ n ∈ f.number j, f.Legal n

instance : DecidablePred InRange := fun _ => List.decidableBAll _ _

/-- The type and the action of an event are enumerators. -/
def Named (e : InputEvent) : Prop :=
  (e.type = .key ∨ e.type = .mouse) ∧
    (e.action = .down ∨ e.action = .up ∨ e.action = .move ∨ e.action = .scroll)

/-- The text of an object decodes to an event with enumerators for its type and action and the
values of all fields in range, and if a field is out of range, to the zero event or to one that no
other object in range decodes to. -/
def Unaliased (lib : Nlohmann) (s : StdString) (j : Json) : Prop :=
  ∃ e, decode lib s = .ok e ∧ Named e ∧
    (∀ f ∈ Field.all, ∀ n ∈ f.number j, f.Legal n → f.read e = n) ∧
    (InRange j ∨ e = default ∨ ∀ s' j', lib.parseObject s' = some j' → Integers j' → InRange j' →
      j' ≠ j → decode lib s' ≠ .ok e)

variable {lib : Nlohmann} {j : Json}

/-- An event with enumerators has legal values only. -/
theorem named_iff {e : InputEvent} : Named e ↔ ∀ f ∈ Field.all, f.Legal (f.read e) := by
  obtain ⟨⟨type⟩, ⟨action⟩, code, dx, dy⟩ := e
  have hcode := code.toNat_lt
  have hx := dx.le_toInt
  have hx' := dx.toInt_lt
  have hy := dy.le_toInt
  have hy' := dy.toInt_lt
  simp only [Named, InputEventType.key, InputEventType.mouse, InputEventAction.down,
    InputEventAction.up, InputEventAction.move, InputEventAction.scroll, InputEventType.mk.injEq,
    InputEventAction.mk.injEq, ← UInt8.toNat_inj, UInt8.reduceToNat, Field.all,
    List.forall_mem_cons, Field.Legal, Field.type, Field.action, Field.code, Field.dx, Field.dy]
  constructor
  · rintro ⟨htype, haction⟩
    refine ⟨by omega, by omega, by omega, by omega, by omega, by simp⟩
  · rintro ⟨htype, haction, -⟩
    exact ⟨by omega, by omega⟩

/-! ## Reading -/

/-- A field is read as an `int`. -/
theorem valueInt_of_integers (h : Integers j) {f : Field} (hf : f ∈ Field.all) :
    j.valueInt lib f.key 0 = .ok (Int32.ofInt ((f.number j).getD 0)) := by
  have hint := h f hf
  unfold Json.valueInt Json.value Field.number Json.integerMember
  cases hv : j.find? f.key with
  | none => rfl
  | some v =>
    cases v using Json.casesOn
    case integer n => rfl
    all_goals cases hint _ hv

private theorem toNat_ofInt (n : ℤ) : (Int32.ofInt n).toUInt32.toNat = (n % 2 ^ 32).toNat :=
  BitVec.toNat_ofInt n

/-- An integer cast to an enumeration is reduced modulo `2 ^ 8`. -/
private theorem dvd_sub_uint8 (n : ℤ) :
    (2 : ℤ) ^ 8 ∣ n - ((Int32.ofInt n).toUInt32.toUInt8.toNat : ℤ) := by
  rw [UInt32.toNat_toUInt8, toNat_ofInt]
  omega

/-- An integer cast to a `uint16_t` is reduced modulo `2 ^ 16`. -/
private theorem dvd_sub_uint16 (n : ℤ) :
    (2 : ℤ) ^ 16 ∣ n - ((Int32.ofInt n).toUInt32.toUInt16.toNat : ℤ) := by
  rw [UInt32.toNat_toUInt16, toNat_ofInt]
  omega

variable (lib) in
/-- Every field is read modulo the size of its type. -/
theorem ofJson_spec (h : Integers j) : ∃ e, ofJson lib j = .ok e ∧
    ∀ f ∈ Field.all, f.size ∣ (f.number j).getD 0 - f.read e := by
  have htype : j.valueInt lib (.ofString "type") 0 = _ :=
    valueInt_of_integers h (f := Field.type) (by simp [Field.all])
  have haction : j.valueInt lib (.ofString "action") 0 = _ :=
    valueInt_of_integers h (f := Field.action) (by simp [Field.all])
  have hcode : j.valueInt lib (.ofString "code") 0 = _ :=
    valueInt_of_integers h (f := Field.code) (by simp [Field.all])
  have hdx : j.valueInt lib (.ofString "dx") 0 = _ :=
    valueInt_of_integers h (f := Field.dx) (by simp [Field.all])
  have hdy : j.valueInt lib (.ofString "dy") 0 = _ :=
    valueInt_of_integers h (f := Field.dy) (by simp [Field.all])
  rw [ofJson, htype, haction, hcode, hdx, hdy]
  refine ⟨_, rfl, ?_⟩
  simp only [Field.all, List.forall_mem_cons]
  exact ⟨dvd_sub_uint8 _, dvd_sub_uint8 _, dvd_sub_uint16 _, Json.ofInt_eq_iff.1 rfl,
    Json.ofInt_eq_iff.1 rfl, by simp⟩

/-- An object whose fields are in range is read exactly. -/
theorem read_of_inRange {e : InputEvent} (hinRange : InRange j)
    (hspec : ∀ f ∈ Field.all, f.size ∣ (f.number j).getD 0 - f.read e) {f : Field}
    (hf : f ∈ Field.all) : f.read e = (f.number j).getD 0 ∧ f.Legal (f.read e) := by
  have hlegal : f.Legal ((f.number j).getD 0) := by
    cases hn : f.number j with
    | none => exact (Field.legal_zero hf).1
    | some n => exact hinRange f hf n hn
  have hread := Field.read_eq hf (hspec f hf) hlegal
  exact ⟨hread, hread.symm ▸ hlegal⟩

/-- An object of multiples is read as the zero event. -/
theorem eq_default_of_dvd {e : InputEvent} (hzero : ∀ f ∈ Field.all, ∀ n ∈ f.number j, f.size ∣ n)
    (hspec : ∀ f ∈ Field.all, f.size ∣ (f.number j).getD 0 - f.read e) : e = default := by
  apply Field.ext
  intro f hf
  have hvalue : f.size ∣ (f.number j).getD 0 := by
    cases hn : f.number j with
    | none => exact Int.dvd_zero _
    | some n => exact hzero f hf n hn
  have hread : f.size ∣ 0 - f.read e := by
    have hsub := Int.dvd_sub (hspec f hf) hvalue
    rwa [sub_right_comm, sub_self] at hsub
  rw [Field.read_eq hf hread (Field.legal_zero hf).1, Field.read_default hf]

/-- The fields of an event's own object. -/
theorem find?_toJson (e : InputEvent) {f : Field} (hf : f ∈ Field.all) :
    (toJson e).find? f.key = some (.integer (f.read e)) := by
  simp only [Field.all, List.mem_cons, List.not_mem_nil, or_false] at hf
  rcases hf with rfl | rfl | rfl | rfl | rfl <;> rfl

/-- An event with enumerators has a text, of an object in range. -/
theorem exists_inRange (hlib : lib.Lawful) {e : InputEvent} (he : Named e) :
    ∃ s, lib.parseObject s = some (toJson e) ∧ Integers (toJson e) ∧ InRange (toJson e) ∧
      decode lib s = .ok e := by
  obtain ⟨s, hs, -⟩ := encode_ok hlib e
  refine ⟨s, hlib.parseObject_dump (canonical_toJson e) hs, fun f hf v hv => ?_,
    fun f hf n hn => ?_, decode_encode hlib hs⟩
  · rw [find?_toJson e hf] at hv
    cases hv
    rfl
  · have hfind := Json.integerMember_eq_some_iff.1 hn
    rw [find?_toJson e hf] at hfind
    cases hfind
    exact named_iff.1 he f hf

end InputEventJSONConverter

open InputEventJSONConverter in
/-- When decoding does not alias. The text of an object whose fields are integers decodes without
aliasing if and only if every field that is present has a legal value, or every field that is
present is a multiple of the number of values of its type and the event is all zero. -/
theorem decode_unaliased_iff {lib : Nlohmann} (hlib : lib.Lawful) {s : StdString} {j : Json}
    (hparse : lib.parseObject s = some j) (hints : Integers j) :
    Unaliased lib s j ↔ (∀ f ∈ Field.all, ∀ n ∈ f.number j, f.Legal n) ∨
      ∀ f ∈ Field.all, ∀ n ∈ f.number j, f.size ∣ n := by
  obtain ⟨e, he, hspec⟩ := ofJson_spec lib hints
  have hdecode : decode lib s = .ok e := by
    rw [decode, hparse]
    exact he
  constructor
  · rintro ⟨e', he', hnamed, -, hrange | hdefault | hnone⟩
    · exact Or.inl hrange
    · -- all fields are read as zero
      obtain rfl := Except.ok.inj (hdecode.symm.trans he')
      subst hdefault
      apply Or.inr
      intro f hf n hn
      have hdvd := hspec f hf
      rwa [Field.read_default hf, sub_zero, hn, Option.getD_some] at hdvd
    · -- the event's own object is in range
      obtain ⟨s', hparse', hints', hrange', hdecode'⟩ := exists_inRange hlib hnamed
      by_cases hrange : InRange j
      · exact Or.inl hrange
      · have hne : toJson e' ≠ j := fun heq => hrange (heq ▸ hrange')
        exact absurd hdecode' (hnone s' _ hparse' hints' hrange' hne)
  · rintro (hrange | hzero)
    · refine ⟨e, hdecode, named_iff.2 fun f hf => (read_of_inRange hrange hspec hf).2,
        fun f hf n hn _ => ?_, Or.inl hrange⟩
      rw [(read_of_inRange hrange hspec hf).1, hn, Option.getD_some]
    · obtain rfl := eq_default_of_dvd hzero hspec
      refine ⟨default, hdecode, named_iff.2 fun f hf => ?_, fun f hf n hn hlegal => ?_,
        Or.inr (Or.inl rfl)⟩
      · rw [Field.read_default hf]
        exact (Field.legal_zero hf).1
      · exact Field.read_eq hf (by rw [Field.read_default hf, sub_zero]; exact hzero f hf n hn)
          hlegal

open InputEventJSONConverter in
/-- A type one above the range of a byte reads as zero, like everything else in the object. -/
theorem decode_unaliased_iff_zero : ∃ j,
    JsonText.nlohmann.parseObject (.ofString "\x7b\"type\":256,\"dx\":0\x7d") = some j ∧
      Unaliased JsonText.nlohmann (.ofString "\x7b\"type\":256,\"dx\":0\x7d") j := by
  have hparse : ∃ j ∈ JsonText.nlohmann.parseObject
      (.ofString "\x7b\"type\":256,\"dx\":0\x7d"), Integers j ∧
        ∀ f ∈ Field.all, ∀ n ∈ f.number j, f.size ∣ n := by
    decide +kernel
  obtain ⟨j, hj, hints, hzero⟩ := hparse
  exact ⟨j, hj, (decode_unaliased_iff JsonText.lawful hj hints).2 (Or.inr hzero)⟩

open InputEventJSONConverter in
/-- A code out of range reads as the code of another key. -/
theorem code_aliased : ¬ ∀ s j, JsonText.nlohmann.parseObject s = some j → Integers j →
    Unaliased JsonText.nlohmann s j := by
  intro hunaliased
  have hbad : ∃ j ∈ JsonText.nlohmann.parseObject (.ofString "\x7b\"code\":65540\x7d"),
      Integers j ∧ ¬ InRange j := by
    decide +kernel
  have hgood : ∃ j ∈ JsonText.nlohmann.parseObject (.ofString "\x7b\"code\":4\x7d"),
      Integers j ∧ InRange j := by
    decide +kernel
  have hdecode : (decode JsonText.nlohmann (.ofString "\x7b\"code\":65540\x7d")).toOption =
      some ⟨.key, .down, 4, 0, 0⟩ := by
    decide +kernel
  have hdecode' : (decode JsonText.nlohmann (.ofString "\x7b\"code\":4\x7d")).toOption =
      some ⟨.key, .down, 4, 0, 0⟩ := by
    decide +kernel
  obtain ⟨j, hj, hints, hrange⟩ := hbad
  obtain ⟨j', hj', hints', hrange'⟩ := hgood
  obtain ⟨e, he, -, -, hin | hdefault | hnone⟩ := hunaliased _ j hj hints
  · exact hrange hin
  · have hfour := Except.ok.inj (he.symm.trans (Except.eq_ok_of_toOption hdecode))
    subst hdefault
    exact absurd hfour (by decide)
  · obtain rfl := Except.ok.inj (he.symm.trans (Except.eq_ok_of_toOption hdecode))
    exact hnone _ j' hj' hints' hrange' (fun heq => hrange (heq ▸ hrange'))
      (Except.eq_ok_of_toOption hdecode')

end Keyleport
