import Keyleport.Lib.StdString
import Mathlib.Algebra.Ring.Int.Defs
import Mathlib.Data.List.Basic

/-!
# The command line

`utils/cli/args.cpp`. The loop of `parse` takes an option with the value behind it, or the help
flag, and returns at the first argument that is neither. After the last argument the mode is
checked and a port that is not positive is replaced.

* `Cli.Item`, `Cli.Reading`: the options a list of arguments is made of, and where it stops.
* `Cli.parseLoop_spec`: the loop reads its arguments, each once.
* `accepted_iff`: the last occurrence of an option wins; when accepted options can be used.
* `sender_without_ip`: a sender that is accepted without an address.
-/

namespace Keyleport

namespace Cli

/-- `cli::Options`. -/
structure Options where
  mode : StdString
  ip : StdString
  port : Int32
  help : Bool
  valid : Bool
  error : StdString
deriving DecidableEq, Repr

/-- `Options{}`. -/
instance : Inhabited Options := ⟨⟨[], [], 0, false, true, []⟩⟩

/-- `set_error`. -/
def setError (o : Options) (msg : StdString) : Options := { o with valid := false, error := msg }

/-- `std::isspace`. -/
def isSpace (b : UInt8) : Bool := b = 0x20 || (0x09 ≤ b && b ≤ 0x0d)

/-- `std::isdigit`. -/
def isDigit (b : UInt8) : Bool := 0x30 ≤ b && b ≤ 0x39

/-- The number that decimal digits stand for. -/
def digitsValue (digits : List UInt8) : ℕ := digits.foldl (fun n b => 10 * n + (b.toNat - 0x30)) 0

/-- `std::stoi`, which throws without digits behind an optional sign, or if the number is no `int`.
What comes behind the digits is ignored. -/
def stoi (s : StdString) : Option Int32 :=
  let text := s.dropWhile isSpace
  let negative := text.head? = some 0x2d
  let unsigned := if negative ∨ text.head? = some 0x2b then text.tail else text
  let digits := unsigned.takeWhile isDigit
  let n : ℤ := if negative then -digitsValue digits else digitsValue digits
  if digits ≠ [] ∧ -2 ^ 31 ≤ n ∧ n < 2 ^ 31 then some (Int32.ofInt n) else none

/-- Spaces and a sign in front are read, and what is behind the digits is not. -/
example : stoi (.ofString " +8080x") = some 8080 ∧ stoi (.ofString "-") = none ∧
    stoi (.ofString "2147483648") = none := by decide

/-- `arg == "--mode" || arg == "-m"`. -/
def isMode (arg : StdString) : Bool := arg = .ofString "--mode" ∨ arg = .ofString "-m"

/-- `arg == "--ip"`. -/
def isIp (arg : StdString) : Bool := arg = .ofString "--ip"

/-- `arg == "--port" || arg == "-p"`. -/
def isPort (arg : StdString) : Bool := arg = .ofString "--port" ∨ arg = .ofString "-p"

/-- `arg == "--help" || arg == "-h"`. -/
def isHelp (arg : StdString) : Bool := arg = .ofString "--help" ∨ arg = .ofString "-h"

/-- The message for an argument that is no option. -/
def unknownArgument (arg : StdString) : StdString := .ofString "Unknown argument: " ++ arg

/-- The loop of `parse`, over the arguments that are left; an error is returned at once. -/
def parseLoop (opt : Options) : List StdString → Except Options Options
  | [] => .ok opt
  | [arg] =>
      -- no option with a value
      if isHelp arg then .ok { opt with help := true }
      else .error (setError opt (unknownArgument arg))
  | arg :: value :: rest =>
      if isMode arg then parseLoop { opt with mode := value } rest
      else if isIp arg then parseLoop { opt with ip := value } rest
      else if isPort arg then
        match stoi value with
        | some port => parseLoop { opt with port := port } rest
        | none => .error (setError opt (.ofString "Invalid --port value"))
      else if isHelp arg then parseLoop { opt with help := true } (value :: rest)
      else .error (setError opt (unknownArgument arg))

/-- `"sender"`. -/
def sender : StdString := .ofString "sender"

/-- `"receiver"`. -/
def receiver : StdString := .ofString "receiver"

/-- The end of `parse`. -/
def normalize (opt : Options) : Options :=
  if opt.help then opt
  else
    let opt := if opt.mode ≠ sender ∧ opt.mode ≠ receiver then
        setError opt (.ofString "--mode must be 'sender' or 'receiver'")
      else opt
    if opt.port ≤ 0 then { opt with port := 8080 } else opt

/-- `parse`, on Windows or elsewhere. -/
def parse (windows : Bool) (argv : List StdString) : Options :=
  if windows ∧ argv.length ≤ 1 then { (default : Options) with mode := receiver, port := 8080 }
  else
    match parseLoop default argv.tail with
    | .error opt => opt
    | .ok opt => normalize opt

/-! ## Reading a command line -/

/-- An option with its value, or the help flag, under one of its spellings. -/
inductive Item where
  | mode (flag value : StdString) (h : isMode flag = true)
  | ip (flag value : StdString) (h : isIp flag = true)
  | port (flag value : StdString) (n : Int32) (h : isPort flag = true) (hn : stoi value = some n)
  | help (flag : StdString) (h : isHelp flag = true)

namespace Item

/-- The arguments of an item. -/
def args : Item → List StdString
  | mode flag value _ => [flag, value]
  | ip flag value _ => [flag, value]
  | port flag value _ _ _ => [flag, value]
  | help flag _ => [flag]

/-- The mode that an item sets. -/
def mode? : Item → Option StdString
  | mode _ value _ => some value
  | _ => none

/-- The address that an item sets. -/
def ip? : Item → Option StdString
  | ip _ value _ => some value
  | _ => none

/-- The port that an item sets. -/
def port? : Item → Option Int32
  | port _ _ n _ _ => some n
  | _ => none

/-- Whether the item is the help flag. -/
def isHelp : Item → Bool
  | help _ _ => true
  | _ => false

end Item

/-- The last value that the items set, if any does. -/
def last {α : Type} (field : Item → Option α) (items : List Item) (unset : α) : α :=
  (items.filterMap field).getLast?.getD unset

/-- The arguments are those of the items, and behind them no item follows. -/
def Reading (args : List StdString) (items : List Item) (rest : List StdString) : Prop :=
  args = items.flatMap Item.args ++ rest ∧ ∀ item : Item, ¬ item.args <+: rest

/-- The options that the items set. -/
def ofItems (opt : Options) (items : List Item) : Options := { opt with
  mode := last Item.mode? items opt.mode
  ip := last Item.ip? items opt.ip
  port := last Item.port? items opt.port
  help := opt.help || items.any Item.isHelp }

/-- The message for the first argument that is not read. -/
def message : List StdString → StdString
  | arg :: _ :: _ => if isPort arg then .ofString "Invalid --port value" else unknownArgument arg
  | [arg] => unknownArgument arg
  | [] => []

/-- What the loop returns when it stops before `rest`. -/
def stopped (opt : Options) (rest : List StdString) : Except Options Options :=
  if rest = [] then .ok opt else .error (setError opt (message rest))

/-! ## The loop -/

variable {opt : Options} {items : List Item} {args rest : List StdString}

/-- A last value after one more item in front. -/
theorem last_cons {α : Type} (field : Item → Option α) (item : Item) (items : List Item)
    (unset : α) :
    last field (item :: items) unset = last field items ((field item).getD unset) := by
  unfold last
  cases hfield : field item with
  | none => rw [List.filterMap_cons_none hfield]; rfl
  | some value =>
    rw [List.filterMap_cons_some hfield, List.getLast?_cons]
    rfl

/-- Reading one more item in front. -/
theorem Reading.cons (item : Item) (h : Reading args items rest) :
    Reading (item.args ++ args) (item :: items) rest := by
  refine ⟨?_, h.2⟩
  rw [List.flatMap_cons, List.append_assoc, ← h.1]

@[simp]
theorem ofItems_nil (opt : Options) : ofItems opt [] = opt := by
  simp [ofItems, last]

/-- No item is read from nothing. -/
theorem reading_nil : Reading [] [] [] := by
  refine ⟨rfl, fun item hpre => ?_⟩
  cases item <;> exact absurd (List.prefix_nil.1 hpre) (List.cons_ne_nil _ _)

/-- The options set by one more item in front. -/
theorem ofItems_cons (item : Item) :
    ofItems opt (item :: items) = ofItems (ofItems opt [item]) items := by
  simp only [ofItems, last_cons, List.any_cons, List.any_nil, Bool.or_false, Bool.or_assoc]
  rfl

theorem ofItems_mode {flag value : StdString} (h : isMode flag = true) :
    ofItems opt [.mode flag value h] = { opt with mode := value } := by
  simp [ofItems, last, Item.mode?, Item.ip?, Item.port?, Item.isHelp]

theorem ofItems_ip {flag value : StdString} (h : isIp flag = true) :
    ofItems opt [.ip flag value h] = { opt with ip := value } := by
  simp [ofItems, last, Item.mode?, Item.ip?, Item.port?, Item.isHelp]

theorem ofItems_port {flag value : StdString} {n : Int32} (h : isPort flag = true)
    (hn : stoi value = some n) :
    ofItems opt [.port flag value n h hn] = { opt with port := n } := by
  simp [ofItems, last, Item.mode?, Item.ip?, Item.port?, Item.isHelp]

theorem ofItems_help {flag : StdString} (h : isHelp flag = true) :
    ofItems opt [.help flag h] = { opt with help := true } := by
  simp [ofItems, last, Item.mode?, Item.ip?, Item.port?, Item.isHelp]

/-- A spelling of the port is none of the help flag. -/
private theorem isHelp_of_isPort {arg : StdString} (h : isPort arg = true) :
    isHelp arg = false := by
  rcases of_decide_eq_true h with rfl | rfl <;> decide

/-- An item is at most as long as what it is read from, and starts with a flag. -/
private theorem not_prefix {arg : StdString} (hhelp : isHelp arg = false)
    (hvalue : ∀ value tail, rest = value :: tail →
      isMode arg = false ∧ isIp arg = false ∧ (isPort arg = true → stoi value = none))
    (item : Item) : ¬ item.args <+: arg :: rest := by
  intro hpre
  cases item with
  | mode flag value h =>
    obtain ⟨rfl, tail, htail⟩ := List.cons_prefix_cons.1 hpre
    rw [(hvalue value tail htail.symm).1] at h
    cases h
  | ip flag value h =>
    obtain ⟨rfl, tail, htail⟩ := List.cons_prefix_cons.1 hpre
    rw [(hvalue value tail htail.symm).2.1] at h
    cases h
  | port flag value n h hn =>
    obtain ⟨rfl, tail, htail⟩ := List.cons_prefix_cons.1 hpre
    rw [(hvalue value tail htail.symm).2.2 h] at hn
    cases hn
  | help flag h =>
    obtain ⟨rfl, -⟩ := List.cons_prefix_cons.1 hpre
    rw [hhelp] at h
    cases h

/-- The loop reads its arguments, each once and in their order, and returns what the items set, or
an error if it stops before the last argument. -/
theorem parseLoop_spec (opt : Options) (args : List StdString) : ∃ items rest,
    Reading args items rest ∧ parseLoop opt args = stopped (ofItems opt items) rest := by
  fun_induction parseLoop opt args with
  | case1 opt => exact ⟨[], [], reading_nil, by rw [ofItems_nil]; rfl⟩
  | case2 opt arg h =>
    -- a help flag at the end
    exact ⟨[.help arg h], [], reading_nil.cons (.help arg h), by rw [ofItems_help]; rfl⟩
  | case3 opt arg h =>
    -- an option without its value, or no option
    have hnone : ∀ item : Item, ¬ item.args <+: [arg] :=
      not_prefix (Bool.not_eq_true _ ▸ h) fun value tail hcons => by cases hcons
    exact ⟨[], [arg], ⟨rfl, hnone⟩, by rw [ofItems_nil]; rfl⟩
  -- the three options with their values
  | case4 opt arg value rest h ih =>
    obtain ⟨items, stop, hreading, heq⟩ := ih
    exact ⟨.mode arg value h :: items, stop, hreading.cons (.mode arg value h), by
      rw [heq, ofItems_cons, ofItems_mode]⟩
  | case5 opt arg value rest hm h ih =>
    obtain ⟨items, stop, hreading, heq⟩ := ih
    exact ⟨.ip arg value h :: items, stop, hreading.cons (.ip arg value h), by
      rw [heq, ofItems_cons, ofItems_ip]⟩
  | case6 opt arg value rest hm hi h n hn ih =>
    obtain ⟨items, stop, hreading, heq⟩ := ih
    exact ⟨.port arg value n h hn :: items, stop, hreading.cons (.port arg value n h hn), by
      rw [heq, ofItems_cons, ofItems_port]⟩
  | case7 opt arg value rest hm hi h hn =>
    -- a port that is no number
    have hnone : ∀ item : Item, ¬ item.args <+: arg :: value :: rest :=
      not_prefix (isHelp_of_isPort h) fun v tail hcons => by
        obtain ⟨rfl, rfl⟩ := List.cons.inj hcons
        exact ⟨Bool.not_eq_true _ ▸ hm, Bool.not_eq_true _ ▸ hi, fun _ => hn⟩
    refine ⟨[], arg :: value :: rest, ⟨rfl, hnone⟩, ?_⟩
    rw [ofItems_nil, stopped, if_neg (List.cons_ne_nil _ _), message, if_pos h]
  | case8 opt arg value rest hm hi hp h ih =>
    -- a help flag, after which more follows
    obtain ⟨items, stop, hreading, heq⟩ := ih
    exact ⟨.help arg h :: items, stop, hreading.cons (.help arg h), by
      rw [heq, ofItems_cons, ofItems_help]⟩
  | case9 opt arg value rest hm hi hp h =>
    -- no option
    have hnone : ∀ item : Item, ¬ item.args <+: arg :: value :: rest :=
      not_prefix (Bool.not_eq_true _ ▸ h) fun v tail hcons =>
        ⟨Bool.not_eq_true _ ▸ hm, Bool.not_eq_true _ ▸ hi, fun hport => absurd hport hp⟩
    refine ⟨[], arg :: value :: rest, ⟨rfl, hnone⟩, ?_⟩
    rw [ofItems_nil, stopped, if_neg (List.cons_ne_nil _ _), message, if_neg hp]

/-! ## The result -/

/-- What the caller relies on: valid options that do not ask for help can be used, and others come
with a message. -/
structure Accepted (o : Options) : Prop where
  mode : o.valid = true → o.help = false → o.mode = sender ∨ o.mode = receiver
  port : o.valid = true → o.help = false → 1 ≤ o.port.toInt ∧ o.port.toInt ≤ 65535
  ip : o.valid = true → o.help = false → o.mode = sender → o.ip ≠ []
  error : o.valid = false → o.error ≠ []

/-- The options are what the items set last. A port that is not positive is replaced at the end. -/
structure Follows (o : Options) (items : List Item) (rest : List StdString) : Prop where
  mode : o.mode = last Item.mode? items []
  ip : o.ip = last Item.ip? items []
  help : o.help = items.any Item.isHelp
  port : o.port =
    if rest = [] ∧ items.any Item.isHelp = false ∧ last Item.port? items 0 ≤ 0 then 8080
    else last Item.port? items 0

/-- The port can be used, and a sender has an address. -/
def Usable (items : List Item) : Prop :=
  (last Item.port? items 0).toInt ≤ 65535 ∧
    (last Item.mode? items [] = sender → last Item.ip? items [] ≠ [])

/-- The error for an argument that is not read has a text. -/
theorem message_ne_nil (h : rest ≠ []) : message rest ≠ [] := by
  have hunknown : ∀ arg, unknownArgument arg ≠ [] := by
    intro arg hnil
    exact absurd (List.append_eq_nil_iff.1 hnil).1 (by decide)
  cases rest with
  | nil => exact absurd rfl h
  | cons arg rest =>
    cases rest with
    | nil => exact hunknown arg
    | cons value rest =>
      rw [message]
      split
      · decide
      · exact hunknown arg

/-- The end of `parse` makes an error of a mode that is neither, and replaces a port that is not
positive. -/
theorem normalize_of_not_help (h : opt.help = false) :
    normalize opt =
      let o := if opt.mode = sender ∨ opt.mode = receiver then opt
        else setError opt (.ofString "--mode must be 'sender' or 'receiver'")
      { o with port := if opt.port ≤ 0 then 8080 else opt.port } := by
  unfold normalize
  rw [if_neg (by rw [h]; exact Bool.false_ne_true)]
  by_cases hmode : opt.mode = sender ∨ opt.mode = receiver
  · have hneither : ¬ (opt.mode ≠ sender ∧ opt.mode ≠ receiver) :=
      fun hne => hmode.elim hne.1 hne.2
    simp only [if_pos hmode, if_neg hneither]
    split <;> rfl
  · have hneither : opt.mode ≠ sender ∧ opt.mode ≠ receiver := not_or.1 hmode
    simp only [if_neg hmode, if_pos hneither, setError]
    split <;> rfl

/-- A port that was replaced if it was not positive is positive. -/
private theorem port_range (port : Int32) :
    (1 ≤ (if port ≤ 0 then (8080 : Int32) else port).toInt ∧
      (if port ≤ 0 then (8080 : Int32) else port).toInt ≤ 65535) ↔ port.toInt ≤ 65535 := by
  have hzero : (0 : Int32).toInt = 0 := rfl
  split
  next hport =>
    rw [Int32.le_iff_toInt_le, hzero] at hport
    exact iff_of_true (by decide) (by omega)
  next hport =>
    rw [Int32.le_iff_toInt_le, hzero] at hport
    omega

/-- The end of `parse` follows the items, and its options can be used if they can. -/
theorem normalize_spec (items : List Item) :
    Follows (normalize (ofItems default items)) items [] ∧
      (Accepted (normalize (ofItems default items)) ↔
        (items.any Item.isHelp = false →
          last Item.mode? items [] = sender ∨ last Item.mode? items [] = receiver →
          Usable items)) := by
  have hhelp : (ofItems default items).help = items.any Item.isHelp := rfl
  cases h : items.any Item.isHelp with
  | true =>
    -- the help flag leaves everything as it is
    have hnormal : normalize (ofItems default items) = ofItems default items :=
      if_pos (hhelp.trans h)
    have hno : (ofItems default items).help ≠ false := by rw [hhelp, h]; decide
    rw [hnormal]
    refine ⟨⟨rfl, rfl, rfl, ?_⟩, iff_of_true ⟨fun _ hn => absurd hn hno,
      fun _ hn => absurd hn hno, fun _ hn => absurd hn hno, fun hv => by cases hv⟩
        fun hn => by cases hn⟩
    rw [if_neg (by simp [h])]
    rfl
  | false =>
    rw [normalize_of_not_help (hhelp.trans h)]
    have hport := port_range (last Item.port? items 0)
    have hfollows : (if last Item.port? items 0 ≤ 0 then 8080 else last Item.port? items 0) =
        if ([] : List StdString) = [] ∧ items.any Item.isHelp = false ∧
          last Item.port? items 0 ≤ 0 then 8080 else last Item.port? items 0 := by
      simp [h]
    by_cases hmode : last Item.mode? items [] = sender ∨ last Item.mode? items [] = receiver
    · have hset : (ofItems default items).mode = sender ∨ (ofItems default items).mode = receiver :=
        hmode
      simp only [if_pos hset]
      refine ⟨⟨rfl, rfl, hhelp, hfollows⟩, ?_⟩
      -- valid and without help, so that all depends on the port and the address
      rw [imp_iff_right trivial, imp_iff_right hmode, Usable, ← hport]
      constructor
      · intro haccepted
        exact ⟨haccepted.port rfl (hhelp.trans h), haccepted.ip rfl (hhelp.trans h)⟩
      · rintro ⟨hrange, hip⟩
        exact ⟨fun _ _ => hmode, fun _ _ => hrange, fun _ _ => hip, fun hv => by cases hv⟩
    · -- another mode is an error, which has a text
      have hset : ¬ ((ofItems default items).mode = sender ∨
          (ofItems default items).mode = receiver) := hmode
      simp only [if_neg hset]
      have hmessage : StdString.ofString "--mode must be 'sender' or 'receiver'" ≠ [] := by decide
      exact ⟨⟨rfl, rfl, hhelp, hfollows⟩, iff_of_true ⟨(fun hv => by cases hv),
        (fun hv => by cases hv), (fun hv => by cases hv), fun _ => hmessage⟩
          fun _ hm => absurd hm hmode⟩

/-- A list of arguments that is read is empty only if nothing is read. -/
theorem reading_of_nil (h : Reading [] items rest) : items = [] ∧ rest = [] := by
  obtain ⟨hflat, hrest⟩ := List.append_eq_nil_iff.1 h.1.symm
  cases items with
  | nil => exact ⟨rfl, hrest⟩
  | cons item items => cases item <;> cases hflat

end Cli

open Cli in
/-- When an accepted command line can be used. Every argument vector is read as options with their
values and help flags, each argument once, up to its end or to the first argument where none
follows, and the last occurrence of an option wins. The result can be used if it is valid and does
not ask for help, and has a message if it is not valid, if and only if it is not the case that the
vector is read to its end, without a help flag and with `sender` or `receiver` as the last mode,
but the last port is above 65535 or a sender has no address. -/
theorem accepted_iff (windows : Bool) (argv : List StdString) : ∃ items rest,
    Reading argv.tail items rest ∧
      (¬ (windows = true ∧ argv.length ≤ 1) → Follows (parse windows argv) items rest) ∧
      (Accepted (parse windows argv) ↔
        (rest = [] → items.any Item.isHelp = false →
          last Item.mode? items [] = sender ∨ last Item.mode? items [] = receiver →
          Usable items)) := by
  obtain ⟨items, rest, hreading, hloop⟩ := parseLoop_spec default argv.tail
  refine ⟨items, rest, hreading, ?_⟩
  by_cases hdefault : windows = true ∧ argv.length ≤ 1
  · -- a receiver on the default port
    refine ⟨fun h => absurd hdefault h, ?_⟩
    rw [parse, if_pos hdefault]
    have hempty : argv.tail = [] := List.eq_nil_of_length_eq_zero (by
      rw [List.length_tail]
      omega)
    rw [hempty] at hreading
    obtain ⟨rfl, rfl⟩ := reading_of_nil hreading
    refine iff_of_true ⟨fun _ _ => Or.inr rfl, fun _ _ => by decide, fun _ _ hm => ?_,
      (fun hv => by cases hv)⟩ fun _ _ hm => ?_
    · exact absurd hm (by decide)
    · exact absurd hm (by decide)
  · rw [parse, if_neg hdefault, hloop, stopped]
    by_cases hrest : rest = []
    · subst hrest
      obtain ⟨hfollows, haccepted⟩ := normalize_spec items
      rw [if_pos rfl]
      exact ⟨fun _ => hfollows, haccepted.trans (imp_iff_right rfl).symm⟩
    · -- the error names what is not read
      rw [if_neg hrest]
      refine ⟨fun _ => ⟨rfl, rfl, rfl, ?_⟩, iff_of_true ⟨(fun hv => by cases hv),
        (fun hv => by cases hv), (fun hv => by cases hv), fun _ => message_ne_nil hrest⟩
          fun hnil => absurd hnil hrest⟩
      rw [if_neg fun hnil => hrest hnil.1]
      rfl

open Cli in
/-- A sender that is accepted without an address. -/
theorem sender_without_ip : ¬ ∀ (windows : Bool) (argv : List StdString),
    Accepted (parse windows argv) := by
  intro haccepted
  have hsender : (parse false [.ofString "keyleport", .ofString "-m", .ofString "sender"]) =
      ⟨sender, [], 8080, false, true, []⟩ := by
    decide
  have hip := (haccepted false [.ofString "keyleport", .ofString "-m", .ofString "sender"]).ip
  rw [hsender] at hip
  exact hip rfl rfl rfl rfl

end Keyleport
