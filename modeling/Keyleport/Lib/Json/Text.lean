import Keyleport.Lib.Json.Value
import Mathlib.Data.Rat.Defs

/-!
# JSON text

A printer and a parser for JSON text, giving a concrete `Nlohmann`. Text is handled as a list of
code units, one per byte, written as the characters below 256 so that the syntax is readable.

* `JsonText.print`: the compact form, members in key order, control characters escaped, other
  bytes copied.
* `JsonText.parseValue`: the whole grammar, the last of two equal keys winning,
  numbers without a 64-bit integer value becoming floating point. The fuel bounds the nesting
  and the length of arrays and objects; the length of the text is enough.
* `JsonText.nlohmann`: the two as the library's functions.
-/

namespace JsonText

/-! ## Printing -/

/-- The lowercase hexadecimal digit of a number below 16. -/
def hexDigit (n : ℕ) : Char := Nat.digitChar n

/-- The text of one code unit inside a string. -/
def escapeUnit (c : Char) : List Char :=
  if c = '"' then ['\\', '"']
  else if c = '\\' then ['\\', '\\']
  else if c = '\x08' then ['\\', 'b']
  else if c = '\x0c' then ['\\', 'f']
  else if c = '\n' then ['\\', 'n']
  else if c = '\r' then ['\\', 'r']
  else if c = '\t' then ['\\', 't']
  -- the other control characters have no short escape
  else if c.toNat < 0x20 then
    ['\\', 'u', '0', '0', hexDigit (c.toNat / 16), hexDigit (c.toNat % 16)]
  else [c]

/-- The text of a string. -/
def printString (s : StdString) : List Char :=
  '"' :: (s.flatMap fun b => escapeUnit (Char.ofUInt8 b)) ++ ['"']

/-- The decimal text of an integer. -/
def printInt (n : ℤ) : List Char :=
  if n < 0 then '-' :: Nat.toDigits 10 n.natAbs else Nat.toDigits 10 n.natAbs

/-- The decimal text of a floating-point number `m / 2 ^ k`, exactly. -/
def printFloat (x : ℚ) : List Char :=
  printInt (x.num * 5 ^ Nat.log2 x.den) ++ 'e' :: '-' :: Nat.toDigits 10 (Nat.log2 x.den)

mutual

/-- The compact text of a value. -/
def print : Json → List Char
  | .null => ['n', 'u', 'l', 'l']
  | .boolean true => ['t', 'r', 'u', 'e']
  | .boolean false => ['f', 'a', 'l', 's', 'e']
  | .integer n => printInt n
  | .float x => printFloat x
  | .string s => printString s
  | .array [] => ['[', ']']
  | .array (x :: xs) => '[' :: (print x ++ printElements xs)
  | .object [] => ['{', '}']
  | .object (p :: ps) => '{' :: (printMember p ++ printMembers ps)

/-- The elements after the first, and the closing bracket. -/
def printElements : List Json → List Char
  | [] => [']']
  | x :: xs => ',' :: (print x ++ printElements xs)

/-- The members after the first, and the closing brace. -/
def printMembers : List (StdString × Json) → List Char
  | [] => ['}']
  | p :: ps => ',' :: (printMember p ++ printMembers ps)

/-- One member. -/
def printMember : StdString × Json → List Char
  | (k, v) => printString k ++ ':' :: print v

end

mutual

/-- Whether every string and key is valid UTF-8. -/
def utf8 : Json → Bool
  | .string s => decide s.ValidUtf8
  | .array xs => utf8Elements xs
  | .object ps => utf8Members ps
  | _ => true

/-- `utf8` of every element. -/
def utf8Elements : List Json → Bool
  | [] => true
  | x :: xs => utf8 x && utf8Elements xs

/-- `utf8` of every member. -/
def utf8Members : List (StdString × Json) → Bool
  | [] => true
  | p :: ps => utf8Member p && utf8Members ps

/-- `utf8` of a key and its value. -/
def utf8Member : StdString × Json → Bool
  | (k, v) => decide k.ValidUtf8 && utf8 v

end

/-! ## Parsing -/

/-- Skip whitespace. -/
def skipWs (s : List Char) : List Char :=
  s.dropWhile fun c => c = ' ' || c = '\t' || c = '\n' || c = '\r'

/-- Remove a literal from the front. -/
def expect : List Char → List Char → Option (List Char)
  | [], s => some s
  | c :: cs, d :: s => if c = d then expect cs s else none
  | _ :: _, [] => none

/-- The value of a hexadecimal digit. -/
def hexValue (c : Char) : Option ℕ :=
  if '0' ≤ c ∧ c ≤ '9' then some (c.toNat - 48)
  else if 'a' ≤ c ∧ c ≤ 'f' then some (c.toNat - 87)
  else if 'A' ≤ c ∧ c ≤ 'F' then some (c.toNat - 55)
  else none

/-- The code unit written by four hexadecimal digits. -/
def hex4 (a b c d : Char) : Option ℕ := do
  let a ← hexValue a
  let b ← hexValue b
  let c ← hexValue c
  let d ← hexValue d
  return ((a * 16 + b) * 16 + c) * 16 + d

/-- The unit named by a one-letter escape. -/
def shortEscape (c : Char) : Option Char :=
  if c = '"' then some '"'
  else if c = '\\' then some '\\'
  else if c = '/' then some '/'
  else if c = 'b' then some '\x08'
  else if c = 'f' then some '\x0c'
  else if c = 'n' then some '\n'
  else if c = 'r' then some '\r'
  else if c = 't' then some '\t'
  else none

/-- The UTF-8 code units of a code point. -/
def codePoint (u : ℕ) : List Char :=
  (String.utf8EncodeChar (Char.ofNat u)).map Char.ofUInt8

/-- The units of a string up to its closing quote, and the text after it. -/
def parseUnits : List Char → Option (List Char × List Char)
  | [] => none
  | '"' :: r => some ([], r)
  | '\\' :: 'u' :: a :: b :: c :: d :: r =>
      (hex4 a b c d).bind fun u =>
        if 0xD800 ≤ u ∧ u < 0xDC00 then
          -- a high surrogate needs a low one after it
          match r with
          | '\\' :: 'u' :: a :: b :: c :: d :: r =>
              (hex4 a b c d).bind fun v =>
                if 0xDC00 ≤ v ∧ v < 0xE000 then
                  (parseUnits r).map fun p =>
                    (codePoint (0x10000 + (u - 0xD800) * 0x400 + (v - 0xDC00)) ++ p.1, p.2)
                else none
          | _ => none
        -- a low surrogate needs a high one before it
        else if 0xDC00 ≤ u ∧ u < 0xE000 then none
        else (parseUnits r).map fun p => (codePoint u ++ p.1, p.2)
  | '\\' :: e :: r =>
      (shortEscape e).bind fun c => (parseUnits r).map fun p => (c :: p.1, p.2)
  | c :: r =>
      -- control characters must be escaped
      if c.toNat < 0x20 then none else (parseUnits r).map fun p => (c :: p.1, p.2)

/-- A string after its opening quote. -/
def parseString (s : List Char) : Option (StdString × List Char) :=
  (parseUnits s).map fun p => (p.1.map Char.toUInt8, p.2)

/-- The digits at the front. -/
def scanDigits (s : List Char) : List Char × List Char :=
  (s.takeWhile Char.isDigit, s.dropWhile Char.isDigit)

/-- The digits after a decimal point, if there is one. -/
def scanFraction : List Char → Option (Option (List Char) × List Char)
  | '.' :: s =>
      let p := scanDigits s
      if p.1 = [] then none else some (some p.1, p.2)
  | s => some (none, s)

/-- The exponent, if there is one. -/
def scanExponent (s : List Char) : Option (Option ℤ × List Char) :=
  match s with
  | c :: r =>
      if c = 'e' ∨ c = 'E' then
        let (neg, r) := match r with
          | '+' :: r => (false, r)
          | '-' :: r => (true, r)
          | r => (false, r)
        let p := scanDigits r
        let e : ℤ := Nat.ofDigitChars 10 p.1 0
        if p.1 = [] then none else some (some (if neg then -e else e), p.2)
      else some (none, s)
  | [] => some (none, s)

/-- The value of a number without fraction and exponent: an integer when 64 bits hold it. -/
def integerValue (n : ℤ) : Json :=
  if -2 ^ 63 ≤ n ∧ n < 2 ^ 64 then .integer n else .float n

/-- An unsigned number, to be negated if `neg`. -/
def parseUnsigned (neg : Bool) (s : List Char) : Option (Json × List Char) :=
  let p := scanDigits s
  let sign (n : ℤ) : ℤ := if neg then -n else n
  -- no leading zeros
  if p.1 = [] ∨ (p.1.head? = some '0' ∧ p.1.length ≠ 1) then none
  else
    (scanFraction p.2).bind fun f => (scanExponent f.2).map fun e =>
      match f.1, e.1 with
      | none, none => (integerValue (sign (Nat.ofDigitChars 10 p.1 0)), e.2)
      | frac, exp =>
          -- the digits without their point, scaled
          let ds := frac.getD []
          let m := sign (Nat.ofDigitChars 10 (p.1 ++ ds) 0)
          (.float ((m : ℚ) * 10 ^ (exp.getD 0 - ds.length)), e.2)

/-- A number. -/
def parseNumber : List Char → Option (Json × List Char)
  | '-' :: s => parseUnsigned true s
  | s => parseUnsigned false s

mutual

/-- A value, and the text after it. -/
def parseValue : ℕ → List Char → Option (Json × List Char)
  | 0, _ => none
  | n + 1, s =>
      match skipWs s with
      | [] => none
      | c :: r =>
          if c = 'n' then (expect ['u', 'l', 'l'] r).map fun r => (.null, r)
          else if c = 't' then (expect ['r', 'u', 'e'] r).map fun r => (.boolean true, r)
          else if c = 'f' then (expect ['a', 'l', 's', 'e'] r).map fun r => (.boolean false, r)
          else if c = '"' then (parseString r).map fun p => (.string p.1, p.2)
          else if c = '[' then
            match skipWs r with
            | ']' :: r => some (.array [], r)
            | r => (parseElements n r).map fun p => (.array p.1, p.2)
          else if c = '{' then
            match skipWs r with
            | '}' :: r => some (.object [], r)
            | r => (parseMembers n r).map fun p => (.ofPairs p.1, p.2)
          else parseNumber (c :: r)

/-- The elements of a non-empty array, after the opening bracket. -/
def parseElements : ℕ → List Char → Option (List Json × List Char)
  | 0, _ => none
  | n + 1, s =>
      (parseValue n s).bind fun p =>
        match skipWs p.2 with
        | ',' :: r => (parseElements n r).map fun q => (p.1 :: q.1, q.2)
        | ']' :: r => some ([p.1], r)
        | _ => none

/-- The members of a non-empty object, after the opening brace. -/
def parseMembers : ℕ → List Char → Option (List (StdString × Json) × List Char)
  | 0, _ => none
  | n + 1, s =>
      (expect ['"'] (skipWs s)).bind fun r => (parseString r).bind fun k =>
        (expect [':'] (skipWs k.2)).bind fun r => (parseValue n r).bind fun p =>
          match skipWs p.2 with
          | ',' :: r => (parseMembers n r).map fun q => ((k.1, p.1) :: q.1, q.2)
          | '}' :: r => some ([(k.1, p.1)], r)
          | _ => none

end

/-- Parse a whole text. The lexer rejects ill-formed UTF-8 as it reads; here the text is checked
before and the strings after, which accepts the same texts. -/
def parse (s : StdString) : Option Json :=
  if s.ValidUtf8 then
    match parseValue s.length (s.map Char.ofUInt8) with
    | some (j, r) => if skipWs r = [] ∧ utf8 j then some j else none
    | none => none
  else none

/-- Print a value, or throw on a string that is not UTF-8. -/
def dump (j : Json) : Except TypeError StdString :=
  if utf8 j then .ok ((print j).map Char.toUInt8) else .error .invalidUtf8

end JsonText

/-- The library with the text functions of this module, on x86-64. -/
def JsonText.nlohmann : Nlohmann where
  parse := JsonText.parse
  dump := JsonText.dump
  cast := .x86_64
