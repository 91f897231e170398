import Keyleport.Lib.FloatCast
import Keyleport.Lib.StdString

/-!
# JSON values as `nlohmann::json` holds them

The value tree, the typed reads of it that can throw, and the two text functions and the cast of
numbers, taken as parameters.

* `Json`: the value tree. Objects are `std::map`s, so their members are kept sorted by key.
* `Json.getString`, `Json.getInt`, `Json.valueString`, `Json.valueInt`: `get<T>()` and
  `value(key, default)`, which throw `type_error` on a value of another type.
* `Nlohmann`: `json::parse(s, nullptr, false)`, `dump()` and the cast of a `double` that is read as
  an `int`.
* `Nlohmann.Lawful`: what is documented of the text functions.
-/

/-- A JSON value. The signed and unsigned 64-bit integer types are one constructor, as the
library compares and converts them by value. -/
inductive Json where
  | null
  | boolean (b : Bool)
  | integer (n : ℤ)
  | float (x : ℚ)
  | string (s : StdString)
  | array (xs : List Json)
  | object (members : List (StdString × Json))

/-- The `type_error` exceptions the library throws. -/
inductive TypeError where
  /-- 302: a value read as a type it does not convert to. -/
  | wrongType
  /-- 316: a string that is not valid UTF-8 serialised. -/
  | invalidUtf8
deriving DecidableEq, Repr

/-- The functions of the library that read and write text, and the one it converts numbers with. -/
structure Nlohmann where
  /-- `json::parse(s, nullptr, false)`; `none` is the discarded value, which is not an object
  and not an array. It never throws. -/
  parse : StdString → Option Json
  /-- `dump()` with the default error handler. -/
  dump : Json → Except TypeError StdString
  /-- `static_cast<int>` of a `double`, as it is compiled into `get<int>()`. -/
  cast : FloatCast

namespace Json

/-- Induction over the value tree, with the hypothesis for every element and member. -/
@[elab_as_elim, induction_eliminator]
theorem induction {motive : Json → Prop} (null : motive null) (boolean : ∀ b, motive (boolean b))
    (integer : ∀ n, motive (integer n)) (float : ∀ x, motive (float x))
    (string : ∀ s, motive (string s)) (array : ∀ xs, (∀ x ∈ xs, motive x) → motive (array xs))
    (object : ∀ members, (∀ p ∈ members, motive p.2) → motive (object members)) (j : Json) :
    motive j := by
  refine Json.rec (motive_1 := motive) (motive_2 := fun xs => ∀ x ∈ xs, motive x)
    (motive_3 := fun members => ∀ p ∈ members, motive p.2) (motive_4 := fun p => motive p.2)
    null boolean integer float string array object ?_ ?_ ?_ ?_ ?_ j
  · simp
  · intro x xs hx hxs
    exact List.forall_mem_cons.2 ⟨hx, hxs⟩
  · simp
  · intro p ps hp hps
    exact List.forall_mem_cons.2 ⟨hp, hps⟩
  · intro k v hv
    exact hv

/-! ## Construction and access -/

/-- Set a member in a key-sorted list: `std::map::operator[]` followed by an assignment. -/
def insertMember (k : StdString) (v : Json) :
    List (StdString × Json) → List (StdString × Json)
  | [] => [(k, v)]
  | p :: ps =>
      if k < p.1 then (k, v) :: p :: ps
      else if k = p.1 then (k, v) :: ps
      else p :: insertMember k v ps

/-- The object with the given members, later ones winning. -/
def ofPairs (ps : List (StdString × Json)) : Json :=
  object (ps.foldl (fun acc p => insertMember p.1 p.2 acc) [])

/-- `is_object()`. -/
def isObject : Json → Bool
  | object _ => true
  | _ => false

/-- `is_string()`. -/
def isString : Json → Bool
  | string _ => true
  | _ => false

/-- `is_number_integer()`, true of signed and unsigned integers. -/
def isNumberInteger : Json → Bool
  | integer _ => true
  | _ => false

/-- Whether the library converts the value to an arithmetic type: a number or a boolean. -/
def isArithmetic : Json → Bool
  | integer _ => true
  | float _ => true
  | boolean _ => true
  | _ => false

/-- `find(key)` on an object. -/
def find? (j : Json) (key : StdString) : Option Json :=
  match j with
  | object members => (members.find? fun p => p.1 = key).map Prod.snd
  | _ => none

/-! ## Typed reads -/

/-- `get<std::string>()`. -/
def getString : Json → Except TypeError StdString
  | string s => .ok s
  | _ => .error .wrongType

/-- `get<int>()`: numbers and booleans convert, with a `static_cast`. -/
def getInt (lib : Nlohmann) : Json → Except TypeError Int32
  | integer n => .ok (Int32.ofInt n)
  | float x => .ok (lib.cast.toInt32 x)
  | boolean b => .ok (if b then 1 else 0)
  | _ => .error .wrongType

/-- Integers cast to one `int` when they agree modulo `2 ^ 32`. -/
theorem ofInt_eq_iff {n : ℤ} {x : Int32} : Int32.ofInt n = x ↔ (2 ^ 32 : ℤ) ∣ n - x.toInt := by
  rw [← Int32.toInt_inj, Int32.toInt_ofInt]
  constructor
  · intro h
    rw [← h]
    exact Int.dvd_self_sub_bmod
  · intro h
    rw [← x.toInt_bmod]
    exact Int.bmod_eq_bmod_iff_bmod_sub_eq_zero.2 (Int.dvd_iff_bmod_eq_zero.1 h)

/-- `value(key, default)` on an object: the member if it is present, else the default. A member
of a type that does not convert throws; it does not fall back to the default. -/
def value {α : Type} (get : Json → Except TypeError α) (j : Json) (key : StdString)
    (default : α) : Except TypeError α :=
  match j.find? key with
  | some v => get v
  | none => .ok default

/-- `value(key, std::string)`. -/
def valueString (j : Json) (key default : StdString) : Except TypeError StdString :=
  j.value getString key default

/-- `value(key, int)`. -/
def valueInt (lib : Nlohmann) (j : Json) (key : StdString) (default : Int32) :
    Except TypeError Int32 :=
  j.value (getInt lib) key default

/-- `contains(key) && j[key].is_string()`. -/
def containsString (j : Json) (key : StdString) : Bool := (j.find? key).any isString

/-- A string member read behind that test, empty otherwise. -/
def guardedString (j : Json) (key : StdString) : Except TypeError StdString :=
  if j.containsString key then j.valueString key [] else .ok []

/-- The text of a string member, empty if there is none. -/
def stringMember (j : Json) (key : StdString) : StdString :=
  match j.find? key with
  | some (string s) => s
  | _ => []

/-- The number in an integer member, if there is one. -/
def integerMember (j : Json) (key : StdString) : Option ℤ :=
  match j.find? key with
  | some (integer n) => some n
  | _ => none

theorem integerMember_eq_some_iff {j : Json} {key : StdString} {n : ℤ} :
    j.integerMember key = some n ↔ j.find? key = some (integer n) := by
  unfold integerMember
  cases h : j.find? key with
  | none => simp
  | some v => cases v using Json.casesOn <;> simp

/-- A guarded read never throws: a member that is not a string reads as the empty string. -/
theorem guardedString_eq (j : Json) (key : StdString) :
    j.guardedString key = .ok (j.stringMember key) := by
  unfold guardedString containsString valueString value stringMember
  cases h : j.find? key with
  | none => rfl
  | some v => cases v using Json.casesOn <;> rfl

/-- The member `key` is absent or of a type that `get` converts. -/
def Reads {α : Type} (get : Json → Except TypeError α) (j : Json) (key : StdString) : Prop :=
  ∀ v, j.find? key = some v → ∃ a, get v = .ok a

/-- `value` returns exactly when the member is absent or convertible. -/
theorem value_ok_iff {α : Type} {get : Json → Except TypeError α} {j : Json} {key : StdString}
    {default : α} : (∃ a, j.value get key default = .ok a) ↔ j.Reads get key := by
  unfold value Reads
  cases j.find? key <;> simp

/-- Exactly the strings convert to `std::string`. -/
theorem getString_ok_iff {j : Json} : (∃ s, j.getString = .ok s) ↔ j.isString := by
  cases j using Json.casesOn <;> simp [getString, isString]

/-- Exactly the numbers and booleans convert to `int`. -/
theorem getInt_ok_iff {lib : Nlohmann} {j : Json} :
    (∃ n, j.getInt lib = .ok n) ↔ j.isArithmetic := by
  cases j using Json.casesOn <;> simp [getInt, isArithmetic]

theorem valueString_ok_iff {j : Json} {key : StdString} (default : StdString) :
    (∃ s, j.valueString key default = .ok s) ↔ ∀ v, j.find? key = some v → v.isString := by
  simp only [valueString, value_ok_iff, Reads, getString_ok_iff]

theorem valueInt_ok_iff (lib : Nlohmann) {j : Json} {key : StdString} (default : Int32) :
    (∃ n, j.valueInt lib key default = .ok n) ↔
      ∀ v, j.find? key = some v → v.isArithmetic := by
  simp only [valueInt, value_ok_iff, Reads, getInt_ok_iff]

/-! ## Well-formedness -/

/-- All strings and keys in the tree are valid UTF-8. -/
inductive ValidUtf8 : Json → Prop
  | null : ValidUtf8 null
  | boolean (b : Bool) : ValidUtf8 (boolean b)
  | integer (n : ℤ) : ValidUtf8 (integer n)
  | float (x : ℚ) : ValidUtf8 (float x)
  | string {s : StdString} (h : s.ValidUtf8) : ValidUtf8 (string s)
  | array {xs : List Json} (h : ∀ x ∈ xs, ValidUtf8 x) : ValidUtf8 (array xs)
  | object {members : List (StdString × Json)} (hk : ∀ k ∈ members.map Prod.fst, k.ValidUtf8)
      (hv : ∀ p ∈ members, ValidUtf8 p.2) : ValidUtf8 (object members)

/-- A string value is UTF-8 when its text is. -/
theorem validUtf8_string_iff {s : StdString} : (string s).ValidUtf8 ↔ s.ValidUtf8 := by
  constructor
  · intro h
    cases h with
    | string hs => exact hs
  · exact .string

/-- The members of a UTF-8 value are UTF-8. -/
theorem ValidUtf8.of_find? {j v : Json} {key : StdString} (hj : j.ValidUtf8)
    (h : j.find? key = some v) : v.ValidUtf8 := by
  cases hj with
  | object hk hv =>
    obtain ⟨p, hp, rfl⟩ := Option.map_eq_some_iff.1 h
    exact hv p (List.mem_of_find?_eq_some hp)
  | _ => cases h

/-- What is read as a string from a UTF-8 value is UTF-8. -/
theorem ValidUtf8.valueString {j : Json} {key default s : StdString} (hj : j.ValidUtf8)
    (hdefault : default.ValidUtf8) (h : j.valueString key default = .ok s) : s.ValidUtf8 := by
  unfold Json.valueString Json.value at h
  cases hfind : j.find? key with
  | none =>
    rw [hfind] at h
    obtain rfl := Except.ok.inj h
    exact hdefault
  | some v =>
    rw [hfind] at h
    have hv := hj.of_find? hfind
    cases hv with
    | string hs =>
      obtain rfl := Except.ok.inj h
      exact hs
    | _ => cases h

/-- The tree is one the library can hold (64-bit integers, objects sorted by key with no key
twice), and has no floating-point numbers, whose text is a rounded decimal. -/
inductive Canonical : Json → Prop
  | null : Canonical null
  | boolean (b : Bool) : Canonical (boolean b)
  | integer {n : ℤ} (lo : -2 ^ 63 ≤ n) (hi : n < 2 ^ 64) : Canonical (integer n)
  | string (s : StdString) : Canonical (string s)
  | array {xs : List Json} (h : ∀ x ∈ xs, Canonical x) : Canonical (array xs)
  | object {members : List (StdString × Json)}
      (sorted : (members.map Prod.fst).Pairwise (· < ·)) (h : ∀ p ∈ members, Canonical p.2) :
      Canonical (object members)

end Json

/-! ## The library's text functions -/

/-- The documented behaviour of the text functions. -/
structure Nlohmann.Lawful (lib : Nlohmann) : Prop where
  /-- Parsing inverts dumping. -/
  parse_dump {j : Json} {s : StdString} : j.Canonical → lib.dump j = .ok s → lib.parse s = some j
  /-- `dump` throws exactly when a string is not valid UTF-8. -/
  dump_ok_iff {j : Json} : (∃ s, lib.dump j = .ok s) ↔ j.ValidUtf8
  /-- Only valid UTF-8 is accepted. -/
  parse_utf8 {s : StdString} {j : Json} : lib.parse s = some j → s.ValidUtf8
  /-- The strings of a parsed value are valid UTF-8. -/
  parse_validUtf8 {s : StdString} {j : Json} : lib.parse s = some j → j.ValidUtf8

/-- `parse` of a text that must be an object: every decoder starts with this test and returns
its default otherwise. -/
def Nlohmann.parseObject (lib : Nlohmann) (s : StdString) : Option Json :=
  (lib.parse s).filter Json.isObject

theorem Nlohmann.Lawful.parseObject_dump {lib : Nlohmann} (hlib : lib.Lawful)
    {members : List (StdString × Json)} {s : StdString} (hc : (Json.object members).Canonical)
    (hs : lib.dump (.object members) = .ok s) : lib.parseObject s = some (.object members) := by
  rw [Nlohmann.parseObject, hlib.parse_dump hc hs]
  rfl
