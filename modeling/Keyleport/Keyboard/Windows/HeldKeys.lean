import Keyleport.Keyboard.Windows.Emitter
import Keyleport.Lib.PressTracker

/-!
# Keys held by the Windows emitter

The keys and buttons that are down on a Windows receiver, from the records injected there, against
those that were pressed last at the sender. Keys are passed on under their scan codes and buttons
under the flags of their records; no two keys and no two buttons share one.

* `WindowsEmitter.scanOf`, `WindowsEmitter.buttonOf`: under what a code is passed on.
* `WindowsEmitter.injected_spec`: the records of a list of presses and releases.
* `windows_held_follows`: what is held after any presses and releases.
-/

namespace Keyleport

namespace WindowsEmitter

/-- The buttons of the mouse. -/
inductive Button where
  | left
  | middle
  | right
  | x1
  | x2
deriving DecidableEq, Repr

/-- The scan code and the extended flag of a mapped key code. -/
def scanOf (code : UInt16) : Option (UInt16 × Bool) :=
  if (hidToWinScan code).1 = 0 then none else some (hidToWinScan code)

/-- The supported button codes. -/
def buttonCases : List (UInt16 × Button) :=
  [(1, .left), (2, .middle), (3, .right), (4, .x1), (5, .x2)]

/-- The button of a supported code. -/
def buttonOf (code : UInt16) : Option Button := buttonCases.lookup code

/-! ## Records -/

/-- The key of a record, by its scan code and extended flag, and whether it is pressed. -/
def keyRecord : WindowsInput → Option ((UInt16 × Bool) × Bool)
  | .keyboard _ wScan dwFlags =>
      some ((wScan, dwFlags &&& keyEventExtendedKey ≠ 0), dwFlags &&& keyEventKeyUp = 0)
  | .mouse _ _ _ _ => none

/-- The button of a record, and whether it is pressed. -/
def buttonRecord : WindowsInput → Option (Button × Bool)
  | .keyboard _ _ _ => none
  | .mouse _ _ mouseData dwFlags =>
      if dwFlags = mouseEventLeftDown then some (.left, true)
      else if dwFlags = mouseEventLeftUp then some (.left, false)
      else if dwFlags = mouseEventMiddleDown then some (.middle, true)
      else if dwFlags = mouseEventMiddleUp then some (.middle, false)
      else if dwFlags = mouseEventRightDown then some (.right, true)
      else if dwFlags = mouseEventRightUp then some (.right, false)
      else if dwFlags = mouseEventXDown then
        if mouseData = xButton1 then some (.x1, true)
        else if mouseData = xButton2 then some (.x2, true)
        else none
      else if dwFlags = mouseEventXUp then
        if mouseData = xButton1 then some (.x1, false)
        else if mouseData = xButton2 then some (.x2, false)
        else none
      else none

/-- The keys that records leave down. -/
def heldKeys (records : List WindowsInput) : Finset (UInt16 × Bool) :=
  PressTracker.held (records.filterMap keyRecord)

/-- The buttons that records leave down. -/
def heldButtons (records : List WindowsInput) : Finset Button :=
  PressTracker.held (records.filterMap buttonRecord)

/-- The records injected for a list of events, if every emission has an outcome. -/
def injected (events : List InputEvent) : Option (List WindowsInput) :=
  (events.mapM (emit true)).map fun outs => outs.flatMap Prod.snd

/-- A press or release of a key is passed on under its scan code, if it is mapped. -/
theorem emit_key (code : UInt16) (dx dy : Int32) (down : Bool) : ∃ records,
    emit true ⟨.key, if down then .down else .up, code, dx, dy⟩ = some (0, records) ∧
      records.filterMap keyRecord = PressTracker.rename scanOf [(code, down)] ∧
      records.filterMap buttonRecord = [] ∧ (scanOf code = none → records = []) := by
  have hemit : emit true ⟨.key, if down then .down else .up, code, dx, dy⟩ =
      some (emitKey true code down) := by
    cases down <;> rfl
  rcases hcode : hidToWinScan code with ⟨scan, extended⟩
  rw [hemit, emitKey, PressTracker.rename, List.filterMap_cons, scanOf, hcode]
  by_cases hscan : scan = 0
  · simp only [if_pos hscan]
    exact ⟨[], rfl, rfl, rfl, fun _ => rfl⟩
  · -- the two flags are read off the record
    simp only [if_neg hscan]
    refine ⟨_, rfl, ?_, rfl, fun hnone => by cases hnone⟩
    cases down <;> cases extended <;> rfl

/-- A press or release of a button is passed on, if its code is supported. -/
theorem emit_button (code : UInt16) (dx dy : Int32) (down : Bool) : ∃ records,
    emit true ⟨.mouse, if down then .down else .up, code, dx, dy⟩ = some (0, records) ∧
      records.filterMap keyRecord = [] ∧
      records.filterMap buttonRecord = PressTracker.rename buttonOf [(code, down)] ∧
      (buttonOf code = none → records = []) := by
  have hemit : emit true ⟨.mouse, if down then .down else .up, code, dx, dy⟩ =
      some (emitMouseButton true code down) := by
    cases down <;> rfl
  rw [hemit, emitMouseButton]
  cases hbutton : buttonOf code with
  | none =>
    -- no case of the switch
    have hcode := List.lookup_eq_none_iff.1 hbutton
    simp only [buttonCases, List.forall_mem_cons, bne_iff_ne] at hcode
    obtain ⟨h₁, h₂, h₃, h₄, h₅, -⟩ := hcode
    rw [if_neg h₁, if_neg h₂, if_neg h₃, if_neg h₄, if_neg h₅]
    refine ⟨[], rfl, rfl, ?_, fun _ => rfl⟩
    rw [← List.nil_append [(code, down)], PressTracker.rename_concat_of_none hbutton]
    rfl
  | some button =>
    have hmem := (PressTracker.mem_of_lookup hbutton)
    simp only [buttonCases, List.mem_cons, List.not_mem_nil, or_false, Prod.mk.injEq] at hmem
    rcases hmem with ⟨rfl, -⟩ | ⟨rfl, -⟩ | ⟨rfl, -⟩ | ⟨rfl, -⟩ | ⟨rfl, -⟩ <;>
      exact ⟨_, rfl, rfl, by cases down <;> rfl, fun hnone => by cases hnone⟩

/-- What a press or release is passed on as. -/
theorem emit_edge {ev : InputEvent} (h : ev.IsEdge) : ∃ records,
    emit true ev = some (0, records) ∧
      records.filterMap keyRecord = PressTracker.rename scanOf ev.keyEdge.toList ∧
      records.filterMap buttonRecord = PressTracker.rename buttonOf ev.buttonEdge.toList := by
  obtain ⟨code, dx, dy, down, rfl | rfl⟩ := h.cases
  · obtain ⟨records, hemit, hkeys, hbuttons, -⟩ := emit_key code dx dy down
    refine ⟨records, hemit, ?_, hbuttons⟩
    rw [hkeys]
    cases down <;> rfl
  · obtain ⟨records, hemit, hkeys, hbuttons, -⟩ := emit_button code dx dy down
    refine ⟨records, hemit, hkeys, ?_⟩
    rw [hbuttons]
    cases down <;> rfl

/-- A press or release without a name is not passed on. -/
theorem emit_unnamed {ev : InputEvent} (h : ev.IsEdge)
    (hkey : ev.type = .key → scanOf ev.code = none)
    (hbutton : ev.type = .mouse → buttonOf ev.code = none) : emit true ev = some (0, []) := by
  obtain ⟨code, dx, dy, down, rfl | rfl⟩ := h.cases
  · obtain ⟨records, hemit, -, -, hnone⟩ := emit_key code dx dy down
    rw [hemit, hnone (hkey rfl)]
  · obtain ⟨records, hemit, -, -, hnone⟩ := emit_button code dx dy down
    rw [hemit, hnone (hbutton rfl)]

/-- The records of presses and releases are these under other names. -/
theorem injected_spec {events : List InputEvent} (hevents : ∀ ev ∈ events, ev.IsEdge) :
    ∃ records, injected events = some records ∧
      records.filterMap keyRecord =
        PressTracker.rename scanOf (events.filterMap InputEvent.keyEdge) ∧
      records.filterMap buttonRecord =
        PressTracker.rename buttonOf (events.filterMap InputEvent.buttonEdge) := by
  induction events with
  | nil => exact ⟨[], rfl, rfl, rfl⟩
  | cons ev events ih =>
    rw [List.forall_mem_cons] at hevents
    obtain ⟨first, hemit, hkey, hbutton⟩ := emit_edge hevents.1
    obtain ⟨rest, hrest, hkeys, hbuttons⟩ := ih hevents.2
    obtain ⟨outs, houts, rfl⟩ := Option.map_eq_some_iff.1 hrest
    refine ⟨first ++ outs.flatMap Prod.snd, ?_, ?_, ?_⟩
    · rw [injected, List.mapM_cons, hemit, houts]
      rfl
    · rw [List.filterMap_append, hkey, hkeys, PressTracker.rename_filterMap_cons]
    · rw [List.filterMap_append, hbutton, hbuttons, PressTracker.rename_filterMap_cons]

/-! ## Names -/

/-- No scan code with its flag occurs twice in the table. -/
private theorem hidToWinCases_nodup : (hidToWinCases.map Prod.snd).Nodup := by
  decide +kernel

/-- No two mapped codes have one scan code and extended flag. -/
theorem scanOf_injective {code code' : UInt16} {key : UInt16 × Bool} (h : scanOf code = some key)
    (h' : scanOf code' = some key) : code = code' := by
  have hlookup : ∀ code, scanOf code = some key → hidToWinCases.lookup code = some key := by
    intro code h
    obtain ⟨hscan, hkey⟩ := Option.ite_none_left_eq_some.1 h
    rw [← Option.some.inj hkey]
    -- a code without a case has the scan code 0
    cases hcase : hidToWinCases.lookup code with
    | none =>
      rw [hidToWinScan, hcase] at hscan
      exact absurd rfl hscan
    | some found =>
      rw [hidToWinScan, hcase]
      rfl
  exact PressTracker.lookup_injective hidToWinCases_nodup (hlookup code h) (hlookup code' h')

/-- No two supported codes have one button. -/
theorem buttonOf_injective {code code' : UInt16} {button : Button}
    (h : buttonOf code = some button) (h' : buttonOf code' = some button) : code = code' :=
  PressTracker.lookup_injective (by decide) h h'

end WindowsEmitter

open WindowsEmitter in
/-- Held keys on a Windows receiver follow the sender. After any presses and releases of keys and
buttons with any codes, all of which are injected, the keys held are those under whose scan code
and flag a mapped code is passed on whose last event is a press, and the buttons held are those of
the codes 1 to 5 whose last event is a press. No two codes are passed on under one name, so a
release never releases another key or button, and a code without a name is not passed on. -/
theorem windows_held_follows {events : List InputEvent} (hevents : ∀ ev ∈ events, ev.IsEdge) :
    ∃ records, injected events = some records ∧
      (∀ key, key ∈ heldKeys records ↔ ∃ code, scanOf code = some key ∧
        PressTracker.last code (events.filterMap InputEvent.keyEdge) = some true) ∧
      (∀ button, button ∈ heldButtons records ↔ ∃ code, buttonOf code = some button ∧
        PressTracker.last code (events.filterMap InputEvent.buttonEdge) = some true) ∧
      (∀ code code' key, scanOf code = some key → scanOf code' = some key → code = code') ∧
      (∀ code code' button, buttonOf code = some button → buttonOf code' = some button →
        code = code') ∧
      ∀ ev : InputEvent, ev.IsEdge → (ev.type = .key → scanOf ev.code = none) →
        (ev.type = .mouse → buttonOf ev.code = none) → emit true ev = some (0, []) := by
  obtain ⟨records, hrecords, hkeys, hbuttons⟩ := injected_spec hevents
  have hscan := PressTracker.faithful_of_injective (fun _ _ _ => scanOf_injective)
    (events.filterMap InputEvent.keyEdge)
  have hbutton := PressTracker.faithful_of_injective (fun _ _ _ => buttonOf_injective)
    (events.filterMap InputEvent.buttonEdge)
  refine ⟨records, hrecords, fun key => ?_, fun button => ?_, fun _ _ _ => scanOf_injective,
    fun _ _ _ => buttonOf_injective, fun ev => emit_unnamed⟩
  · rw [heldKeys, hkeys, hscan.mem_held_rename_iff]
    simp only [PressTracker.mem_held_iff, and_comm]
  · rw [heldButtons, hbuttons, hbutton.mem_held_rename_iff]
    simp only [PressTracker.mem_held_iff, and_comm]

open WindowsEmitter in
/-- The control keys share a scan code; releasing the right one leaves the left one held. -/
theorem windows_held_follows_control : ∃ records,
    injected [⟨.key, .down, 224, 0, 0⟩, ⟨.key, .down, 228, 0, 0⟩, ⟨.mouse, .down, 4, 0, 0⟩,
      ⟨.key, .up, 228, 0, 0⟩] = some records ∧
      (0x1D, false) ∈ heldKeys records ∧ (0x1D, true) ∉ heldKeys records ∧
      Button.x1 ∈ heldButtons records := by
  have hevents : ∀ ev ∈ ([⟨.key, .down, 224, 0, 0⟩, ⟨.key, .down, 228, 0, 0⟩,
      ⟨.mouse, .down, 4, 0, 0⟩, ⟨.key, .up, 228, 0, 0⟩] : List InputEvent), ev.IsEdge := by
    decide
  obtain ⟨records, hrecords, hkeys, hbuttons, -⟩ := windows_held_follows hevents
  refine ⟨records, hrecords, (hkeys _).2 ⟨224, by decide, by decide⟩, fun hright => ?_,
    (hbuttons _).2 ⟨4, by decide, by decide⟩⟩
  obtain ⟨code, hcode, hlast⟩ := (hkeys _).1 hright
  obtain rfl : code = 228 := scanOf_injective hcode (by decide)
  exact absurd hlast (by decide)

end Keyleport
