import Keyleport.Lib.Json.Text
import Mathlib.Data.List.Basic

/-!
# The text functions obey the documented laws

`JsonText.lawful`: parsing inverts printing on canonical values, printing fails exactly on
strings that are not UTF-8, and what is accepted is UTF-8.
-/

namespace JsonText

/-! ## Code units and bytes -/

/-- A character that stands for a byte. -/
def IsUnit (c : Char) : Prop := c.toNat < 256

theorem isUnit_ofUInt8 (b : UInt8) : IsUnit (Char.ofUInt8 b) := b.toNat_lt

@[simp]
theorem toNat_ofUInt8 (b : UInt8) : (Char.ofUInt8 b).toNat = b.toNat := rfl

@[simp]
theorem toUInt8_ofUInt8 (b : UInt8) : (Char.ofUInt8 b).toUInt8 = b := by
  apply UInt8.toNat_inj.1
  change b.toNat % 2 ^ 8 = b.toNat
  exact Nat.mod_eq_of_lt b.toNat_lt

theorem ofUInt8_toUInt8 {c : Char} (h : IsUnit c) : Char.ofUInt8 c.toUInt8 = c := by
  apply Char.toNat_inj.1
  change c.toNat % 2 ^ 8 = c.toNat
  exact Nat.mod_eq_of_lt h

theorem map_ofUInt8_toUInt8 {cs : List Char} (h : ∀ c ∈ cs, IsUnit c) :
    (cs.map Char.toUInt8).map Char.ofUInt8 = cs := by
  rw [List.map_map]
  exact (List.map_congr_left fun c hc => ofUInt8_toUInt8 (h c hc)).trans (List.map_id cs)

theorem map_toUInt8_ofUInt8 (s : StdString) : (s.map Char.ofUInt8).map Char.toUInt8 = s := by
  rw [List.map_map]
  exact (List.map_congr_left fun b _ => toUInt8_ofUInt8 b).trans (List.map_id s)

/-! ## Strings -/

/-- The units below the space that have no short escape are written in hexadecimal. -/
private theorem parse_hexEscape {n : ℕ} (hn : n < 32) :
    hex4 '0' '0' (hexDigit (n / 16)) (hexDigit (n % 16)) = some n ∧
      codePoint n = [Char.ofNat n] := by
  revert n
  decide

/-- Reading the text of one unit gives the unit. -/
theorem parseUnits_escapeUnit {c : Char} (r : List Char) :
    parseUnits (escapeUnit c ++ r) = (parseUnits r).map fun p => (c :: p.1, p.2) := by
  unfold escapeUnit
  split_ifs with h1 h2 h3 h4 h5 h6 h7 h8
  -- the seven short escapes, the hexadecimal escape, and a unit that is copied
  · subst h1; simp [parseUnits, shortEscape]
  · subst h2; simp [parseUnits, shortEscape]
  · subst h3; simp [parseUnits, shortEscape]
  · subst h4; simp [parseUnits, shortEscape]
  · subst h5; simp [parseUnits, shortEscape]
  · subst h6; simp [parseUnits, shortEscape]
  · subst h7; simp [parseUnits, shortEscape]
  · obtain ⟨hhex, hcode⟩ := parse_hexEscape h8
    rw [List.cons_append, List.cons_append, List.cons_append, List.cons_append,
      List.cons_append, List.cons_append, List.nil_append, parseUnits, hhex, Option.bind_some,
      if_neg (by omega), if_neg (by omega), hcode, Char.ofNat_toNat]
    rfl
  · have hplain : parseUnits (c :: r) =
        if c.toNat < 0x20 then none else (parseUnits r).map fun p => (c :: p.1, p.2) := by
      rw [parseUnits.eq_def]
      split <;> simp_all
    rw [List.singleton_append, hplain, if_neg h8]

/-- Reading the text of a string gives its units. -/
theorem parseUnits_flatMap (s : StdString) (r : List Char) :
    parseUnits ((s.flatMap fun b => escapeUnit (Char.ofUInt8 b)) ++ '"' :: r) =
      some (s.map Char.ofUInt8, r) := by
  induction s with
  | nil => simp [parseUnits]
  | cons b s ih =>
    rw [List.flatMap_cons, List.append_assoc, parseUnits_escapeUnit, ih]
    rfl

/-- Reading a printed string, after its opening quote, gives the string. -/
theorem parseString_printString (s : StdString) (r : List Char) :
    ∃ t, printString s ++ r = '"' :: t ∧ parseString t = some (s, r) := by
  refine ⟨(s.flatMap fun b => escapeUnit (Char.ofUInt8 b)) ++ '"' :: r, ?_, ?_⟩
  · simp [printString]
  · rw [parseString, parseUnits_flatMap, Option.map_some, map_toUInt8_ofUInt8]

/-! ## Numbers -/

/-- What may follow a value inside an array or an object, or nothing. -/
def Follow (r : List Char) : Prop := ∀ c t, r = c :: t → c = ',' ∨ c = ']' ∨ c = '}'

theorem follow_nil : Follow [] := by
  intro c t h
  cases h

theorem follow_cons {c : Char} {t : List Char} (h : c = ',' ∨ c = ']' ∨ c = '}') :
    Follow (c :: t) := by
  intro c' t' h'
  obtain ⟨rfl, rfl⟩ := List.cons.inj h'
  exact h

/-- Nothing that follows a value continues a number. -/
private theorem Follow.scan {r : List Char} (h : Follow r) :
    r.takeWhile Char.isDigit = [] ∧ r.dropWhile Char.isDigit = r ∧
      scanFraction r = some (none, r) ∧ scanExponent r = some (none, r) := by
  cases r with
  | nil => simp [scanFraction, scanExponent]
  | cons c t =>
    rcases h c t rfl with rfl | rfl | rfl <;>
      simp [scanFraction, scanExponent, Char.isDigit]

private theorem isDigit_of_mem_toDigits {n : ℕ} {c : Char} (h : c ∈ Nat.toDigits 10 n) :
    c.isDigit = true :=
  Nat.isDigit_of_mem_toDigits (by decide) (by decide) h

private theorem scanDigits_toDigits (n : ℕ) {r : List Char} (hr : Follow r) :
    scanDigits (Nat.toDigits 10 n ++ r) = (Nat.toDigits 10 n, r) := by
  have hall : ∀ c ∈ Nat.toDigits 10 n, c.isDigit = true := fun c => isDigit_of_mem_toDigits
  rw [scanDigits, List.takeWhile_append_of_pos hall, List.dropWhile_append_of_pos hall,
    hr.scan.1, hr.scan.2.1, List.append_nil]

/-- The decimal text of a natural number starts with a digit. -/
private theorem toDigits_eq_cons (n : ℕ) :
    ∃ d ds, Nat.toDigits 10 n = d :: ds ∧ d.isDigit = true := by
  cases h : Nat.toDigits 10 n with
  | nil => exact absurd h Nat.toDigits_ne_nil
  | cons d ds => exact ⟨d, ds, rfl, isDigit_of_mem_toDigits (n := n) (by rw [h]; simp)⟩

/-- A decimal text starts with a zero only if it is the zero. -/
private theorem head_toDigits (n : ℕ) :
    (Nat.toDigits 10 n).head? = some '0' → (Nat.toDigits 10 n).length = 1 := by
  induction n using Nat.strong_induction_on with
  | _ n ih =>
    rcases Nat.lt_or_ge n 10 with h | h
    · rw [Nat.toDigits_of_lt_base h]
      simp
    · -- the head is that of the text of `n / 10`, which is not zero
      rw [Nat.toDigits_of_base_le (by decide) h]
      intro happ
      exfalso
      have h0 : (Nat.toDigits 10 (n / 10)).head? = some '0' := by
        obtain ⟨d, ds, hds, -⟩ := toDigits_eq_cons (n / 10)
        rw [hds, List.cons_append, List.head?_cons] at happ
        rw [hds, List.head?_cons, happ]
      have hlen := ih (n / 10) (by omega) h0
      -- a one-digit text that is the digit zero is the text of zero
      have hlt : n / 10 < 10 := by
        have := (Nat.length_toDigits_le_iff (b := 10) (n := n / 10) (k := 1) (by decide)
          (by decide)).1 hlen.le
        omega
      rw [Nat.toDigits_of_lt_base hlt] at h0
      have hz : n / 10 = 0 := by
        have hd : ∀ m < 10, Nat.digitChar m = '0' → m = 0 := by decide
        exact hd _ hlt (by simpa using h0)
      omega

private theorem parseUnsigned_toDigits (neg : Bool) (n : ℕ) {r : List Char} (hr : Follow r) :
    parseUnsigned neg (Nat.toDigits 10 n ++ r) =
      some (integerValue (if neg then -(n : ℤ) else n), r) := by
  -- the test for an empty text or a leading zero
  have hhead : ¬(Nat.toDigits 10 n = [] ∨
      ((Nat.toDigits 10 n).head? = some '0' ∧ (Nat.toDigits 10 n).length ≠ 1)) := by
    rintro (h | ⟨h, hlen⟩)
    · exact Nat.toDigits_ne_nil h
    · exact hlen (head_toDigits n h)
  rw [parseUnsigned, scanDigits_toDigits n hr]
  simp only [if_neg hhead, hr.scan.2.2.1, hr.scan.2.2.2, Option.bind_some, Option.map_some,
    Nat.ofDigitChars_ten_toDigits]

/-- The text of an integer is not whitespace and not the start of anything but a number. -/
private theorem printInt_eq_cons (n : ℤ) :
    ∃ c t, printInt n = c :: t ∧ (c = '-' ∨ c.isDigit = true) := by
  unfold printInt
  split
  · exact ⟨'-', _, rfl, Or.inl rfl⟩
  · obtain ⟨d, ds, h, hd⟩ := toDigits_eq_cons n.natAbs
    exact ⟨d, ds, h, Or.inr hd⟩

/-- Reading the text of a 64-bit integer gives the integer. -/
theorem parseNumber_printInt {n : ℤ} (lo : -2 ^ 63 ≤ n) (hi : n < 2 ^ 64) {r : List Char}
    (hr : Follow r) : parseNumber (printInt n ++ r) = some (.integer n, r) := by
  have hval : integerValue n = .integer n := if_pos ⟨lo, hi⟩
  unfold printInt
  split
  · have hn : -((n.natAbs : ℕ) : ℤ) = n := by omega
    rw [List.cons_append, parseNumber, parseUnsigned_toDigits true _ hr, if_pos rfl, hn, hval]
  · have hn : ((n.natAbs : ℕ) : ℤ) = n := by omega
    obtain ⟨d, ds, hds, hd⟩ := toDigits_eq_cons n.natAbs
    -- the text does not start with a minus sign
    have hunsigned : parseNumber (Nat.toDigits 10 n.natAbs ++ r) =
        parseUnsigned false (Nat.toDigits 10 n.natAbs ++ r) := by
      rw [hds, List.cons_append, parseNumber.eq_def]
      split
      next heq =>
        obtain ⟨rfl, -⟩ := List.cons.inj heq
        exact absurd hd (by decide)
      next => rfl
    rw [hunsigned, parseUnsigned_toDigits false _ hr, if_neg (by decide), hn, hval]

/-! ## Values -/

/-- Setting a key above all others appends the member. -/
private theorem insertMember_of_lt {k : StdString} {v : Json} {ps : List (StdString × Json)}
    (h : ∀ p ∈ ps, p.1 < k) : Json.insertMember k v ps = ps ++ [(k, v)] := by
  induction ps with
  | nil => rfl
  | cons p ps ih =>
    have hp : p.1 < k := h p List.mem_cons_self
    have hk : ¬k < p.1 := List.lt_asymm hp
    have hne : ¬k = p.1 := fun he => List.lt_irrefl k (he ▸ hp)
    rw [Json.insertMember, if_neg hk, if_neg hne,
      ih fun q hq => h q (List.mem_cons_of_mem _ hq), List.cons_append]

/-- An object built from members in key order has exactly these members. -/
theorem ofPairs_of_sorted {ps : List (StdString × Json)} (h : ps.Pairwise (·.1 < ·.1)) :
    Json.ofPairs ps = .object ps := by
  -- the members set so far are below those to come
  suffices hfold : ∀ acc : List (StdString × Json), (acc ++ ps).Pairwise (·.1 < ·.1) →
      ps.foldl (fun acc p => Json.insertMember p.1 p.2 acc) acc = acc ++ ps by
    rw [Json.ofPairs, hfold [] h, List.nil_append]
  clear h
  induction ps with
  | nil => simp
  | cons p ps ih =>
    intro acc hsorted
    have hlt : ∀ q ∈ acc, q.1 < p.1 := fun q hq =>
      (List.pairwise_append.1 hsorted).2.2 q hq p List.mem_cons_self
    rw [List.foldl_cons, insertMember_of_lt hlt, ih _ (by simpa using hsorted)]
    simp

/-- The text of a value starts with neither whitespace nor a closing bracket. -/
private theorem print_eq_cons (j : Json) (hj : j.Canonical) :
    ∃ c t, print j = c :: t ∧ (∀ r, skipWs (c :: r) = c :: r) ∧ c ≠ ']' ∧ c ≠ '}' := by
  cases hj with
  | null => exact ⟨'n', _, rfl, fun _ => rfl, by decide, by decide⟩
  | boolean b =>
    cases b
    · exact ⟨'f', _, rfl, fun _ => rfl, by decide, by decide⟩
    · exact ⟨'t', _, rfl, fun _ => rfl, by decide, by decide⟩
  | @integer n lo hi =>
    -- a sign or a digit, neither of which is white space or a bracket
    obtain ⟨c, t, hct, hc⟩ := printInt_eq_cons n
    refine ⟨c, t, by rw [print, hct], fun r => ?_, ?_, ?_⟩
    · have hws : (c = ' ' || c = '\t' || c = '\n' || c = '\r') = false := by
        rcases hc with rfl | hc
        · rfl
        · simp only [Bool.or_eq_false_iff, decide_eq_false_iff_not]
          refine ⟨⟨⟨?_, ?_⟩, ?_⟩, ?_⟩ <;> rintro rfl <;> exact absurd hc (by decide)
      rw [skipWs, List.dropWhile_cons_of_neg (by rw [hws]; decide)]
    · rintro rfl
      exact hc.elim (by decide) (by decide)
    · rintro rfl
      exact hc.elim (by decide) (by decide)
  | string s => exact ⟨'"', _, rfl, fun _ => rfl, by decide, by decide⟩
  | @array xs h => cases xs <;> exact ⟨'[', _, rfl, fun _ => rfl, by decide, by decide⟩
  | @object ps hs h => cases ps <;> exact ⟨'{', _, rfl, fun _ => rfl, by decide, by decide⟩

/-- The text of `j` reads back as `j`, whatever may follow a value follows. -/
private def Parses (j : Json) : Prop :=
  ∀ n r, (print j).length ≤ n → Follow r → parseValue n (print j ++ r) = some (j, r)

private theorem length_printElements (xs : List Json) : 0 < (printElements xs).length := by
  cases xs <;> simp [printElements]

private theorem length_printMembers (ps : List (StdString × Json)) :
    0 < (printMembers ps).length := by
  cases ps <;> simp [printMembers]

private theorem follow_printElements (xs : List Json) (r : List Char) :
    Follow (printElements xs ++ r) := by
  cases xs <;> rw [printElements, List.cons_append] <;> exact follow_cons (by decide)

private theorem follow_printMembers (ps : List (StdString × Json)) (r : List Char) :
    Follow (printMembers ps ++ r) := by
  cases ps <;> rw [printMembers, List.cons_append] <;> exact follow_cons (by decide)

private theorem parseElements_print {x : Json} {xs : List Json} (hx : Parses x)
    (hxs : ∀ y ∈ xs, Parses y) (n : ℕ) (r : List Char)
    (hn : (print x).length + (printElements xs).length ≤ n) :
    parseElements n (print x ++ (printElements xs ++ r)) = some (x :: xs, r) := by
  induction xs generalizing x n with
  | nil =>
    obtain ⟨n, rfl⟩ : ∃ m, n = m + 1 :=
      ⟨n - 1, by have := length_printElements []; omega⟩
    rw [parseElements, hx n _ (by simp [printElements] at hn; omega) (follow_printElements _ _)]
    rfl
  | cons y ys ih =>
    obtain ⟨n, rfl⟩ : ∃ m, n = m + 1 :=
      ⟨n - 1, by have := length_printElements (y :: ys); omega⟩
    -- one unit of fuel is for the comma
    have hlen : (printElements (y :: ys)).length =
        (print y).length + (printElements ys).length + 1 := by simp [printElements]
    rw [parseElements, hx n _ (by omega) (follow_printElements _ _), Option.bind_some]
    have htail := ih (hxs y List.mem_cons_self)
      (fun z hz => hxs z (List.mem_cons_of_mem _ hz)) n (by omega)
    have hws : skipWs (printElements (y :: ys) ++ r) =
        ',' :: (print y ++ (printElements ys ++ r)) := by
      rw [printElements, List.cons_append, List.append_assoc]
      rfl
    simp only [hws, htail, Option.map_some]

/-- Reading one printed member leaves the decision to what follows it. -/
private theorem parseMembers_succ {p : StdString × Json} (hp : Parses p.2) (n : ℕ)
    (rest : List Char) (hn : (printMember p).length ≤ n + 1) (hrest : Follow rest) :
    parseMembers (n + 1) (printMember p ++ rest) =
      match skipWs rest with
      | ',' :: r => (parseMembers n r).map fun q => (p :: q.1, q.2)
      | '}' :: r => some ([p], r)
      | _ => none := by
  obtain ⟨k, v⟩ := p
  change Parses v at hp
  obtain ⟨t, ht, hk⟩ := parseString_printString k (':' :: (print v ++ rest))
  have hlen : (printMember (k, v)).length = (printString k).length + (print v).length + 1 := by
    simp only [printMember, List.length_append, List.length_cons]
    omega
  have hkey : 0 < (printString k).length := by simp [printString]
  have htext : printMember (k, v) ++ rest = '"' :: t := by
    rw [← ht]
    simp [printMember]
  have hv : parseValue n (print v ++ rest) = some (v, rest) := hp n rest (by omega) hrest
  rw [htext, parseMembers]
  -- the quote, the key, the colon and the value are read in turn
  change (parseString t).bind _ = _
  rw [hk]
  change (parseValue n (print v ++ rest)).bind _ = _
  rw [hv]
  rfl

private theorem parseMembers_print {p : StdString × Json} {ps : List (StdString × Json)}
    (hp : Parses p.2) (hps : ∀ q ∈ ps, Parses q.2) (n : ℕ) (r : List Char)
    (hn : (printMember p).length + (printMembers ps).length ≤ n) :
    parseMembers n (printMember p ++ (printMembers ps ++ r)) = some (p :: ps, r) := by
  induction ps generalizing p n with
  | nil =>
    obtain ⟨n, rfl⟩ : ∃ m, n = m + 1 := ⟨n - 1, by have := length_printMembers []; omega⟩
    rw [parseMembers_succ hp n _ (by omega) (follow_printMembers _ _)]
    rfl
  | cons q qs ih =>
    obtain ⟨n, rfl⟩ : ∃ m, n = m + 1 :=
      ⟨n - 1, by have := length_printMembers (q :: qs); omega⟩
    -- one unit of fuel is for the comma
    have hlen : (printMembers (q :: qs)).length =
        (printMember q).length + (printMembers qs).length + 1 := by simp [printMembers]
    have htail := ih (hps q List.mem_cons_self)
      (fun z hz => hps z (List.mem_cons_of_mem _ hz)) n (by omega)
    have hws : skipWs (printMembers (q :: qs) ++ r) =
        ',' :: (printMember q ++ (printMembers qs ++ r)) := by
      rw [printMembers, List.cons_append, List.append_assoc]
      rfl
    rw [parseMembers_succ hp n _ (by omega) (follow_printMembers _ _), hws]
    simp only [htail, Option.map_some]

private theorem parses_integer {i : ℤ} (lo : -2 ^ 63 ≤ i) (hi : i < 2 ^ 64) :
    Parses (.integer i) := by
  intro n r hn hr
  obtain ⟨c, t, hct, hws, -⟩ := print_eq_cons _ (.integer lo hi)
  obtain ⟨n, rfl⟩ : ∃ m, n = m + 1 := ⟨n - 1, by rw [hct, List.length_cons] at hn; omega⟩
  obtain ⟨c', t', hct', hc⟩ := printInt_eq_cons i
  have hnum := parseNumber_printInt lo hi hr
  rw [print] at hct ⊢
  obtain ⟨rfl, rfl⟩ := List.cons.inj (hct.symm.trans hct')
  -- a sign or a digit selects the number branch
  have hne : ∀ d ∈ ['n', 't', 'f', '"', '[', '{'], c ≠ d := by
    intro d hd
    rintro rfl
    rcases hc with rfl | hc
    · exact absurd hd (by decide)
    · simp only [List.mem_cons, List.not_mem_nil, or_false] at hd
      rcases hd with rfl | rfl | rfl | rfl | rfl | rfl <;> exact absurd hc (by decide)
  simp only [List.forall_mem_cons] at hne
  obtain ⟨h1, h2, h3, h4, h5, h6, -⟩ := hne
  rw [hct, List.cons_append] at hnum ⊢
  rw [parseValue, hws]
  simp only [h1, h2, h3, h4, h5, h6, if_false, hnum]

private theorem parses_string (s : StdString) : Parses (.string s) := by
  intro n r hn _
  obtain ⟨n, rfl⟩ : ∃ m, n = m + 1 := ⟨n - 1, by simp [print, printString] at hn; omega⟩
  obtain ⟨t, ht, hs⟩ := parseString_printString s r
  have hws : skipWs ('"' :: t) = '"' :: t := rfl
  rw [print, ht, parseValue, hws]
  simp [hs]

private theorem parses_array {x : Json} {xs : List Json} (hx : x.Canonical)
    (hall : ∀ y ∈ x :: xs, Parses y) : Parses (.array (x :: xs)) := by
  intro n r hn _
  obtain ⟨n, rfl⟩ : ∃ m, n = m + 1 := ⟨n - 1, by simp [print] at hn; omega⟩
  obtain ⟨c, t, hct, hws, hne, -⟩ := print_eq_cons x hx
  have hlen : (print (.array (x :: xs))).length =
      (print x).length + (printElements xs).length + 1 := by simp [print]
  -- the first element does not start like the end of an empty array
  have helems := parseElements_print (hall x List.mem_cons_self)
    (fun y hy => hall y (List.mem_cons_of_mem _ hy)) n r (by omega)
  have hbracket : skipWs ('[' :: (print x ++ (printElements xs ++ r))) =
      '[' :: (print x ++ (printElements xs ++ r)) := rfl
  rw [print, List.cons_append, List.append_assoc, parseValue, hbracket]
  simp only [hct, List.cons_append, hws] at helems ⊢
  simp [hne, helems]

private theorem parses_object {p : StdString × Json} {ps : List (StdString × Json)}
    (hsorted : ((p :: ps).map Prod.fst).Pairwise (· < ·)) (hall : ∀ q ∈ p :: ps, Parses q.2) :
    Parses (.object (p :: ps)) := by
  intro n r hn _
  obtain ⟨n, rfl⟩ : ∃ m, n = m + 1 := ⟨n - 1, by simp [print] at hn; omega⟩
  have hlen : (print (.object (p :: ps))).length =
      (printMember p).length + (printMembers ps).length + 1 := by simp [print]
  have hmems := parseMembers_print (hall p List.mem_cons_self)
    (fun q hq => hall q (List.mem_cons_of_mem _ hq)) n r (by omega)
  obtain ⟨t, ht⟩ : ∃ t, printMember p ++ (printMembers ps ++ r) = '"' :: t := by
    obtain ⟨k, v⟩ := p
    exact ⟨_, rfl⟩
  have hws : skipWs ('"' :: t) = '"' :: t := rfl
  have hbrace : skipWs ('{' :: '"' :: t) = '{' :: '"' :: t := rfl
  rw [ht] at hmems
  rw [print, List.cons_append, List.append_assoc, ht, parseValue, hbrace]
  simp [hws, hmems, ofPairs_of_sorted (List.pairwise_map.1 hsorted)]

/-- Reading the text of a canonical value gives the value. -/
theorem parseValue_print {j : Json} (hj : j.Canonical) (n : ℕ) (r : List Char)
    (hn : (print j).length ≤ n) (hr : Follow r) : parseValue n (print j ++ r) = some (j, r) := by
  -- by induction on the value, for every amount of fuel that covers its text
  suffices h : Parses j from h n r hn hr
  clear hn hr n r
  induction j with
  | null =>
    intro n r hn _
    obtain ⟨n, rfl⟩ : ∃ m, n = m + 1 := ⟨n - 1, by simp [print] at hn; omega⟩
    rfl
  | boolean b =>
    intro n r hn _
    obtain ⟨n, rfl⟩ : ∃ m, n = m + 1 := ⟨n - 1, by cases b <;> simp [print] at hn <;> omega⟩
    cases b <;> rfl
  | integer i =>
    cases hj with
    | integer lo hi => exact parses_integer lo hi
  | float x => cases hj
  | string s => exact parses_string s
  | array xs ih =>
    cases hj with
    | array hxs =>
      cases xs with
      | nil =>
        intro n r hn _
        obtain ⟨n, rfl⟩ : ∃ m, n = m + 1 := ⟨n - 1, by simp [print] at hn; omega⟩
        rfl
      | cons x xs => exact parses_array (hxs x List.mem_cons_self) fun y hy => ih y hy (hxs y hy)
  | object ps ih =>
    cases hj with
    | object hsorted hps =>
      cases ps with
      | nil =>
        intro n r hn _
        obtain ⟨n, rfl⟩ : ∃ m, n = m + 1 := ⟨n - 1, by simp [print] at hn; omega⟩
        rfl
      | cons p ps => exact parses_object hsorted fun q hq => ih q hq (hps q hq)

/-! ## UTF-8 -/

/-- A text of ASCII characters. -/
private def Ascii (cs : List Char) : Prop := ∀ c ∈ cs, c.toNat < 128

-- named, as the instance found for a quantifier over characters may enumerate them all
private instance Ascii.decidable (cs : List Char) : Decidable (Ascii cs) :=
  List.decidableBAll (fun c : Char => c.toNat < 128) cs

/-- The bytes of an ASCII text are valid UTF-8. -/
private theorem validUtf8_of_ascii {cs : List Char} (h : Ascii cs) :
    StdString.ValidUtf8 (cs.map Char.toUInt8) := by
  refine StdString.validUtf8_iff.2 ⟨cs, ?_⟩
  induction cs with
  | nil => rfl
  | cons c cs ih =>
    have hc : c.val.toNat ≤ 127 := Nat.le_of_lt_succ (h c List.mem_cons_self)
    rw [List.map_cons, List.flatMap_cons, ← ih fun d hd => h d (List.mem_cons_of_mem _ hd)]
    simp only [String.utf8EncodeChar, if_pos hc]
    rfl

/-- A character above ASCII is encoded with bytes above ASCII. -/
private theorem utf8EncodeChar_high {c : Char} (hc : 128 ≤ c.toNat) :
    ∀ b ∈ String.utf8EncodeChar c, 128 ≤ b.toNat := by
  have hv : ¬c.val.toNat ≤ 127 := Nat.not_le.2 hc
  have hlow (m k : ℕ) (hk : 128 ≤ k) (hm : m + k < 256) : 128 ≤ (UInt8.ofNat (m + k)).toNat := by
    rw [UInt8.toNat_ofNat', Nat.mod_eq_of_lt hm]
    omega
  intro b hb
  simp only [String.utf8EncodeChar, if_neg hv] at hb
  split_ifs at hb <;> simp only [List.mem_cons, List.not_mem_nil, or_false] at hb <;>
    rcases hb with rfl | rfl | rfl | rfl <;> exact hlow _ _ (by decide) (by omega)

/-- The units of an escape are ASCII, unless the unit is copied. -/
private theorem escapeUnit_cases (c : Char) :
    escapeUnit c = [c] ∨ Ascii (escapeUnit c) := by
  have hhex : ∀ n < 16, (hexDigit n).toNat < 128 := by decide
  unfold escapeUnit
  split_ifs with h1 h2 h3 h4 h5 h6 h7 h8
  · exact Or.inr (by decide)
  · exact Or.inr (by decide)
  · exact Or.inr (by decide)
  · exact Or.inr (by decide)
  · exact Or.inr (by decide)
  · exact Or.inr (by decide)
  · exact Or.inr (by decide)
  · refine Or.inr ?_
    have hd := hhex (c.toNat / 16) (by omega)
    have hm := hhex (c.toNat % 16) (by omega)
    simp only [Ascii, List.forall_mem_cons]
    exact ⟨by decide, by decide, by decide, by decide, hd, hm, by simp⟩
  · exact Or.inl rfl

private theorem escapeUnit_high {c : Char} (hc : 128 ≤ c.toNat) : escapeUnit c = [c] := by
  have hne : ∀ d : Char, d.toNat < 128 → c ≠ d := by
    rintro d hd rfl
    omega
  unfold escapeUnit
  rw [if_neg (hne _ (by decide)), if_neg (hne _ (by decide)), if_neg (hne _ (by decide)),
    if_neg (hne _ (by decide)), if_neg (hne _ (by decide)), if_neg (hne _ (by decide)),
    if_neg (hne _ (by decide)), if_neg (by omega)]

/-- Escaping keeps valid UTF-8 valid: ASCII characters become ASCII texts, the bytes of the
others are copied. -/
private theorem validUtf8_printString {s : StdString} (hs : s.ValidUtf8) :
    StdString.ValidUtf8 ((printString s).map Char.toUInt8) := by
  have hquote : StdString.ValidUtf8 (['"'].map Char.toUInt8) := by decide
  have hbody : StdString.ValidUtf8
      ((s.flatMap fun b => escapeUnit (Char.ofUInt8 b)).map Char.toUInt8) := by
    obtain ⟨cs, rfl⟩ := StdString.validUtf8_iff.1 hs
    clear hs
    induction cs with
    | nil => exact StdString.validUtf8_nil
    | cons c cs ih =>
      rw [List.flatMap_cons, List.flatMap_append, List.map_append]
      refine StdString.ValidUtf8.append ?_ ih
      rcases Nat.lt_or_ge c.toNat 128 with hc | hc
      · have hle : c.val.toNat ≤ 127 := Nat.le_of_lt_succ hc
        simp only [String.utf8EncodeChar, if_pos hle, List.flatMap_cons, List.flatMap_nil,
          List.append_nil]
        apply validUtf8_of_ascii
        have hunit : (Char.ofUInt8 (UInt8.ofNat c.val.toNat)).toNat < 128 := by
          rw [toNat_ofUInt8, UInt8.toNat_ofNat', Nat.mod_eq_of_lt (by omega)]
          exact hc
        rcases escapeUnit_cases (Char.ofUInt8 (UInt8.ofNat c.val.toNat)) with h | h
        · rw [h]
          simpa [Ascii] using hunit
        · exact h
      · -- the bytes are copied, so they are the encoding of `c`
        have hcopy :
            (String.utf8EncodeChar c).flatMap (fun b => escapeUnit (Char.ofUInt8 b)) =
              (String.utf8EncodeChar c).map Char.ofUInt8 := by
          rw [List.map_eq_flatMap]
          exact List.flatMap_congr fun b hb =>
            escapeUnit_high (by rw [toNat_ofUInt8]; exact utf8EncodeChar_high hc b hb)
        rw [hcopy, map_toUInt8_ofUInt8]
        exact StdString.validUtf8_iff.2 ⟨[c], by simp⟩
  rw [printString, List.map_append]
  exact (hquote.append hbody).append hquote

/-- `utf8` decides that the strings of a value are valid UTF-8. -/
theorem utf8_iff {j : Json} : utf8 j = true ↔ j.ValidUtf8 := by
  induction j with
  | null => exact ⟨fun _ => .null, fun _ => rfl⟩
  | boolean b => exact ⟨fun _ => .boolean b, fun _ => rfl⟩
  | integer n => exact ⟨fun _ => .integer n, fun _ => rfl⟩
  | float x => exact ⟨fun _ => .float x, fun _ => rfl⟩
  | string s =>
    rw [utf8, decide_eq_true_iff]
    exact ⟨.string, fun | .string h => h⟩
  | array xs ih =>
    -- the check of the elements is a loop of its own
    have helems : utf8Elements xs = true ↔ ∀ x ∈ xs, utf8 x = true := by
      clear ih
      induction xs with
      | nil => simp [utf8Elements]
      | cons x xs ihx => simp [utf8Elements, ihx]
    rw [utf8, helems]
    exact ⟨fun h => .array fun x hx => (ih x hx).1 (h x hx),
      fun | .array h => fun x hx => (ih x hx).2 (h x hx)⟩
  | object ps ih =>
    have hmems : utf8Members ps = true ↔ ∀ p ∈ ps, p.1.ValidUtf8 ∧ utf8 p.2 = true := by
      clear ih
      induction ps with
      | nil => simp [utf8Members]
      | cons p ps ihp =>
        obtain ⟨k, v⟩ := p
        simp [utf8Members, utf8Member, ihp]
    rw [utf8, hmems]
    exact ⟨fun h => .object (List.forall_mem_map.2 fun p hp => (h p hp).1)
        fun p hp => (ih p hp).1 (h p hp).2,
      fun | .object hk hv => fun p hp =>
        ⟨hk p.1 (List.mem_map_of_mem hp), (ih p hp).2 (hv p hp)⟩⟩

/-- A text whose bytes are valid UTF-8 and stand for the units they came from. -/
private def GoodText (cs : List Char) : Prop :=
  (∀ c ∈ cs, IsUnit c) ∧ StdString.ValidUtf8 (cs.map Char.toUInt8)

private theorem GoodText.append {cs ds : List Char} (hc : GoodText cs) (hd : GoodText ds) :
    GoodText (cs ++ ds) := by
  refine ⟨fun c h => (List.mem_append.1 h).elim (hc.1 c) (hd.1 c), ?_⟩
  rw [List.map_append]
  exact hc.2.append hd.2

private theorem goodText_of_ascii {cs : List Char} (h : Ascii cs) : GoodText cs :=
  ⟨fun c hc => (h c hc).trans (by decide), validUtf8_of_ascii h⟩

private theorem goodText_printString {s : StdString} (hs : s.ValidUtf8) :
    GoodText (printString s) := by
  refine ⟨fun c hc => ?_, validUtf8_printString hs⟩
  have hascii {d : Char} (hd : d.toNat < 128) : IsUnit d := hd.trans (by decide)
  simp only [printString, List.cons_append, List.mem_cons, List.mem_append, List.mem_flatMap,
    List.not_mem_nil, or_false] at hc
  rcases hc with rfl | ⟨b, -, hc⟩ | rfl
  · exact hascii (by decide)
  · rcases escapeUnit_cases (Char.ofUInt8 b) with h | h
    · rw [h, List.mem_singleton] at hc
      exact hc ▸ isUnit_ofUInt8 b
    · exact hascii (h c hc)
  · exact hascii (by decide)

private theorem goodText_printInt (n : ℤ) : GoodText (printInt n) := by
  apply goodText_of_ascii
  have hdigits : ∀ c ∈ Nat.toDigits 10 n.natAbs, c.toNat < 128 := by
    intro c hc
    have hd := isDigit_of_mem_toDigits hc
    rw [Char.isDigit, Bool.and_eq_true, decide_eq_true_iff, decide_eq_true_iff] at hd
    exact lt_of_le_of_lt hd.2 (by decide)
  unfold printInt
  split
  · exact List.forall_mem_cons.2 ⟨by decide, hdigits⟩
  · exact hdigits

private theorem GoodText.cons_ascii {c : Char} {cs : List Char} (hc : c.toNat < 128)
    (hcs : GoodText cs) : GoodText (c :: cs) := by
  have hone : GoodText [c] := goodText_of_ascii fun d hd => by rwa [List.mem_singleton.1 hd]
  exact hone.append hcs

private theorem goodText_printElements {xs : List Json} (h : ∀ x ∈ xs, GoodText (print x)) :
    GoodText (printElements xs) := by
  induction xs with
  | nil => exact goodText_of_ascii (by decide)
  | cons x xs ih =>
    obtain ⟨hx, hxs⟩ := List.forall_mem_cons.1 h
    exact GoodText.cons_ascii (by decide) (hx.append (ih hxs))

private theorem goodText_printMembers {ps : List (StdString × Json)}
    (h : ∀ p ∈ ps, GoodText (printMember p)) : GoodText (printMembers ps) := by
  induction ps with
  | nil => exact goodText_of_ascii (by decide)
  | cons p ps ih =>
    obtain ⟨hp, hps⟩ := List.forall_mem_cons.1 h
    exact GoodText.cons_ascii (by decide) (hp.append (ih hps))

/-- The text of a value with UTF-8 strings is UTF-8. -/
private theorem goodText_print {j : Json} (hc : j.Canonical) (hj : j.ValidUtf8) :
    GoodText (print j) := by
  induction j with
  | null => exact goodText_of_ascii (by decide)
  | boolean b => cases b <;> exact goodText_of_ascii (by decide)
  | integer n => exact goodText_printInt n
  | float x => cases hc
  | string s =>
    cases hj with
    | string hs => exact goodText_printString hs
  | array xs ih =>
    cases hc with
    | array hcs =>
      cases hj with
      | array hjs =>
        -- the first element follows a bracket, each other one a comma
        have hxs : ∀ x ∈ xs, GoodText (print x) := fun x hx => ih x hx (hcs x hx) (hjs x hx)
        cases xs with
        | nil => exact goodText_of_ascii (by decide)
        | cons x xs =>
          obtain ⟨hx, hxs⟩ := List.forall_mem_cons.1 hxs
          exact GoodText.cons_ascii (by decide) (hx.append (goodText_printElements hxs))
  | object ps ih =>
    cases hc with
    | object _ hcs =>
      cases hj with
      | object hk hjs =>
        have hps : ∀ p ∈ ps, GoodText (printMember p) := by
          rintro ⟨k, v⟩ hp
          have hkey : GoodText (printString k) :=
            goodText_printString (hk k (List.mem_map_of_mem hp))
          have hvalue : GoodText (print v) := ih _ hp (hcs _ hp) (hjs _ hp)
          exact hkey.append (GoodText.cons_ascii (by decide) hvalue)
        cases ps with
        | nil => exact goodText_of_ascii (by decide)
        | cons p ps =>
          obtain ⟨hp, hps⟩ := List.forall_mem_cons.1 hps
          exact GoodText.cons_ascii (by decide) (hp.append (goodText_printMembers hps))

/-! ## The laws -/

theorem dump_ok_iff {j : Json} : (∃ s, dump j = .ok s) ↔ j.ValidUtf8 := by
  unfold dump
  split
  next h => exact ⟨fun _ => utf8_iff.1 h, fun _ => ⟨_, rfl⟩⟩
  next h => exact ⟨fun ⟨_, he⟩ => (by cases he), fun hj => absurd (utf8_iff.2 hj) h⟩

/-- Parsing inverts printing. -/
theorem parse_dump {j : Json} {s : StdString} (hc : j.Canonical) (hs : dump j = .ok s) :
    parse s = some j := by
  have hj : j.ValidUtf8 := dump_ok_iff.1 ⟨s, hs⟩
  have hgood := goodText_print hc hj
  rw [dump, if_pos (utf8_iff.2 hj)] at hs
  obtain rfl := Except.ok.inj hs
  have hread := parseValue_print hc (print j).length [] le_rfl follow_nil
  rw [List.append_nil] at hread
  rw [parse, if_pos hgood.2, map_ofUInt8_toUInt8 hgood.1, List.length_map, hread]
  exact if_pos ⟨rfl, utf8_iff.2 hj⟩

/-- The text functions of this library obey the documented laws. -/
theorem lawful : nlohmann.Lawful where
  parse_dump := parse_dump
  dump_ok_iff := dump_ok_iff
  parse_utf8 := by
    intro s j h
    by_contra hs
    rw [show nlohmann.parse s = parse s from rfl, parse, if_neg hs] at h
    cases h
  parse_validUtf8 := by
    intro s j h
    rw [show nlohmann.parse s = parse s from rfl, parse] at h
    split at h
    · split at h
      · split at h
        next hu =>
          obtain rfl := Option.some.inj h
          exact utf8_iff.1 hu.2
        next => cases h
      · cases h
    · cases h

end JsonText
