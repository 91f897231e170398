import Keyleport.Keyboard.Windows.Emitter
import Keyleport.Lib.Json.RoundTrip
import Keyleport.Sender.Motion
import Mathlib.Data.List.Infix

/-!
# Scroll amounts as machine integers

Scrolls are summed as `int` at the sender and multiplied by `WHEEL_DELTA` as `int` at the receiver,
and neither end limits what comes in. An operation that leaves the range of `int` has no outcome in
the model, so arithmetic is exact where there is an outcome.

* `SenderFlow.pushAll_iff`: when a list of scrolls can be added up.
* `WindowsEmitter.emit_scroll_iff`: when a scroll can be injected.
* `scroll_exact_iff`: the two together.
* `scroll_overflows`: a decoded scroll whose wheel amount is no `int`.
-/

namespace Keyleport

/-- The value is one of `int`. -/
def IsInt (n : ℤ) : Prop := -2 ^ 31 ≤ n ∧ n < 2 ^ 31

instance (n : ℤ) : Decidable (IsInt n) := inferInstanceAs (Decidable (_ ∧ _))

theorem isInt_toInt (x : Int32) : IsInt x.toInt := ⟨x.le_toInt, x.toInt_lt⟩

/-- Both components are values of `int`. -/
def Motion.IsInt (m : Motion) : Prop := Keyleport.IsInt m.1 ∧ Keyleport.IsInt m.2

instance (m : Motion) : Decidable m.IsInt := inferInstanceAs (Decidable (_ ∧ _))

namespace MoveAggregator

theorem held_isInt (agg : MoveAggregator) : agg.held.IsInt :=
  ⟨isInt_toInt agg.aggDx, isInt_toInt agg.aggDy⟩

theorem addInt_isSome_iff {a b : Int32} :
    (∃ c, addInt a b = some c) ↔ IsInt (a.toInt + b.toInt) := by
  simp only [addInt, IsInt]
  split <;> simp_all

/-- An addition is defined exactly when both sums are in range. One without a delta changes
nothing, and its sums are what is held. -/
theorem add_isSome_iff {agg : MoveAggregator} {dx dy : Int32} :
    (∃ agg', agg.add dx dy = some agg') ↔ Motion.IsInt (agg.held + (dx.toInt, dy.toInt)) := by
  constructor
  · rintro ⟨agg', h⟩
    rw [← (add_held h).1]
    exact agg'.held_isInt
  · rintro ⟨hx, hy⟩
    obtain ⟨aggDx, hdx⟩ := addInt_isSome_iff.2 hx
    obtain ⟨aggDy, hdy⟩ := addInt_isSome_iff.2 hy
    rw [add, hdx, hdy]
    split
    · exact ⟨_, rfl⟩
    · exact ⟨_, rfl⟩

end MoveAggregator

namespace SenderFlow

variable {s s' : SenderFlow} {ev : InputEvent} {evs : List InputEvent}

/-- A running flow accepts a scroll exactly when it can be added. -/
theorem pushEvent_scroll_iff (hrun : s.running = true) (hscroll : isAggregated ev .scroll = true) :
    (∃ s', s.pushEvent ev = some s') ↔
      Motion.IsInt (s.scrollAgg.held + (ev.dx.toInt, ev.dy.toInt)) := by
  have hmove := isAggregated_of_ne hscroll (show InputEventAction.scroll ≠ .move by decide)
  rw [← MoveAggregator.add_isSome_iff]
  simp only [pushEvent, hrun, hmove, hscroll, Bool.not_true, Bool.false_eq_true, if_false, if_true]
  cases s.scrollAgg.add ev.dx ev.dy <;> simp

/-- What an accepted scroll does. -/
theorem pushEvent_scroll_spec (hrun : s.running = true)
    (hscroll : isAggregated ev .scroll = true) (h : s.pushEvent ev = some s') :
    s'.running = true ∧ s'.scrollAgg.held = s.scrollAgg.held + (ev.dx.toInt, ev.dy.toInt) := by
  have hmove := isAggregated_of_ne hscroll (show InputEventAction.scroll ≠ .move by decide)
  simp only [pushEvent, hrun, hmove, hscroll, Bool.not_true, Bool.false_eq_true, if_false,
    if_true] at h
  obtain ⟨agg, hagg, h⟩ := Option.bind_eq_some_iff.1 h
  obtain rfl := Option.some.inj h
  exact ⟨rfl, (MoveAggregator.add_held hagg).1⟩

/-- The scrolls pushed one after the other. -/
def pushAll (s : SenderFlow) (evs : List InputEvent) : Option SenderFlow :=
  evs.foldlM pushEvent s

theorem motion_cons (evs : List InputEvent) (h : isAggregated ev .scroll = true) :
    motion .scroll (ev :: evs) = (ev.dx.toInt, ev.dy.toInt) + motion .scroll evs := by
  simp [motion, h]

/-- The scrolls can be added up exactly when no partial sum leaves the range, and then the sum is
exact. -/
theorem pushAll_iff (hrun : s.running = true)
    (hscrolls : ∀ ev ∈ evs, isAggregated ev .scroll = true) :
    (∃ s', s.pushAll evs = some s' ∧
      s'.scrollAgg.held = s.scrollAgg.held + motion .scroll evs) ↔
      ∀ evs', evs' <+: evs → Motion.IsInt (s.scrollAgg.held + motion .scroll evs') := by
  induction evs generalizing s with
  | nil =>
    have hnone : motion .scroll [] = 0 := rfl
    constructor
    · rintro - evs' hpre
      rw [List.prefix_nil.1 hpre, hnone, add_zero]
      exact s.scrollAgg.held_isInt
    · intro _
      exact ⟨s, rfl, by rw [hnone, add_zero]⟩
  | cons ev evs ih =>
    obtain ⟨hscroll, hscrolls⟩ := List.forall_mem_cons.1 hscrolls
    constructor
    · -- a first part is empty, or starts with the first scroll
      rintro ⟨s', h, hheld⟩ evs' hpre
      obtain ⟨t, ht, h⟩ := Option.bind_eq_some_iff.1 h
      obtain ⟨hrun', hheld'⟩ := pushEvent_scroll_spec hrun hscroll ht
      rcases List.prefix_cons_iff.1 hpre with rfl | ⟨rest, rfl, hrest⟩
      · exact (add_zero s.scrollAgg.held).symm ▸ s.scrollAgg.held_isInt
      · rw [motion_cons _ hscroll, ← add_assoc, ← hheld']
        apply (ih hrun' hscrolls).1 ⟨s', h, ?_⟩ rest hrest
        rw [hheld, motion_cons _ hscroll, hheld', add_assoc]
    · intro hall
      have hfirst := hall [ev] (List.prefix_append [ev] evs)
      rw [motion_cons [] hscroll, show motion .scroll [] = 0 from rfl, add_zero] at hfirst
      obtain ⟨t, ht⟩ := (pushEvent_scroll_iff hrun hscroll).2 hfirst
      obtain ⟨hrun', hheld'⟩ := pushEvent_scroll_spec hrun hscroll ht
      -- what comes after the first is added to what is then held
      obtain ⟨s', h, hheld⟩ := (ih hrun' hscrolls).2 fun rest hpre => by
        rw [hheld', add_assoc, ← motion_cons _ hscroll]
        exact hall (ev :: rest) (List.prefix_cons_inj ev |>.2 hpre)
      refine ⟨s', Option.bind_eq_some_iff.2 ⟨t, ht, h⟩, ?_⟩
      rw [hheld, hheld', motion_cons _ hscroll, add_assoc]

end SenderFlow

namespace WindowsEmitter

/-- The amount that is scrolled: the vertical one if there is one. -/
def scrolled (e : InputEvent) : Int32 := if e.dy ≠ 0 then e.dy else e.dx

/-- The event is injected, and every mouse record holds exactly 120 times the amount. -/
def InjectsExactly (e : InputEvent) : Prop :=
  ∃ result inputs, emit true e = some (result, inputs) ∧
    ∀ dx dy mouseData dwFlags, WindowsInput.mouse dx dy mouseData dwFlags ∈ inputs →
      mouseData.toInt32.toInt = 120 * (scrolled e).toInt

theorem mulInt_isSome_iff {a b : Int32} :
    (∃ c, mulInt a b = some c) ↔ IsInt (a.toInt * b.toInt) := by
  simp only [mulInt, IsInt]
  split <;> simp_all

theorem mulInt_toInt {a b c : Int32} (h : mulInt a b = some c) :
    c.toInt = a.toInt * b.toInt := by
  obtain ⟨hrange, h⟩ := Option.ite_none_right_eq_some.1 h
  obtain rfl := Option.some.inj h
  rw [Int32.toInt_mul]
  exact Int.bmod_eq_of_le (by omega) (by omega)

/-- A wheel amount that is multiplied out is placed in one record. -/
private theorem wheel_iff {delta : Int32} (flags : UInt32) :
    (∃ result inputs, (do
        let amount ← mulInt delta wheelDelta
        return sendInput true (.mouse 0 0 amount.toUInt32 flags)) = some (result, inputs) ∧
      ∀ dx dy mouseData dwFlags, WindowsInput.mouse dx dy mouseData dwFlags ∈ inputs →
        mouseData.toInt32.toInt = 120 * delta.toInt) ↔ IsInt (120 * delta.toInt) := by
  have hdelta : wheelDelta.toInt = 120 := rfl
  constructor
  · rintro ⟨result, inputs, h, -⟩
    obtain ⟨amount, hamount, -⟩ := Option.bind_eq_some_iff.1 h
    rw [mul_comm, ← hdelta]
    exact mulInt_isSome_iff.1 ⟨amount, hamount⟩
  · intro hint
    rw [mul_comm, ← hdelta] at hint
    obtain ⟨amount, hamount⟩ := mulInt_isSome_iff.2 hint
    refine ⟨0, [.mouse 0 0 amount.toUInt32 flags], ?_, ?_⟩
    · rw [hamount]
      rfl
    · intro dx dy mouseData dwFlags hmem
      obtain ⟨-, -, rfl, -⟩ := WindowsInput.mouse.inj (List.mem_singleton.1 hmem)
      rw [mul_comm, ← hdelta, ← mulInt_toInt hamount]
      rfl

/-- A key is injected as keyboard records only. -/
private theorem keyboard_of_mem_emitKey (code : UInt16) (down : Bool) :
    ∀ input ∈ (emitKey true code down).2, ∃ wVk wScan dwFlags,
      input = WindowsInput.keyboard wVk wScan dwFlags := by
  unfold emitKey
  generalize hidToWinScan code = found
  obtain ⟨scan, extended⟩ := found
  by_cases hscan : scan = 0
  · simp [hscan]
  · simp [hscan, sendInput]

/-- A scroll is injected exactly when 120 times its amount is in range. Only a mouse event is
multiplied out. -/
theorem emit_scroll_iff {e : InputEvent} (hscroll : e.action = .scroll) :
    InjectsExactly e ↔ (e.type = .mouse → IsInt (120 * (scrolled e).toInt)) := by
  obtain ⟨type, action, code, dx, dy⟩ := e
  obtain rfl : action = .scroll := hscroll
  by_cases hmouse : type = .mouse
  · subst hmouse
    rw [imp_iff_right rfl]
    by_cases hdy : dy = 0
    · by_cases hdx : dx = 0
      · -- nothing is scrolled, and nothing is injected
        subst hdy hdx
        have hscrolled : scrolled ⟨.mouse, .scroll, code, 0, 0⟩ = 0 := rfl
        rw [hscrolled]
        exact iff_of_true ⟨0, [], rfl, by simp⟩ (by decide)
      · -- only the horizontal wheel
        have hemit : emit true ⟨.mouse, .scroll, code, dx, dy⟩ = emitMouseHWheel true dx := by
          subst hdy
          exact if_pos hdx
        have hscrolled : scrolled ⟨.mouse, .scroll, code, dx, dy⟩ = dx := if_neg (not_not.2 hdy)
        rw [InjectsExactly, hemit, hscrolled]
        exact wheel_iff mouseEventHWheel
    · -- a vertical amount hides the horizontal one
      have hemit : emit true ⟨.mouse, .scroll, code, dx, dy⟩ = emitMouseWheel true dy := if_pos hdy
      have hscrolled : scrolled ⟨.mouse, .scroll, code, dx, dy⟩ = dy := if_pos hdy
      rw [InjectsExactly, hemit, hscrolled]
      exact wheel_iff mouseEventWheel
  · refine iff_of_true ?_ fun h => absurd h hmouse
    -- what is injected for other events has no mouse record
    have hnone : ∃ result inputs, emit true ⟨type, .scroll, code, dx, dy⟩ = some (result, inputs) ∧
        ∀ input ∈ inputs, ∃ wVk wScan dwFlags, input = .keyboard wVk wScan dwFlags := by
      by_cases hkey : type = .key
      · subst hkey
        exact ⟨_, _, rfl, keyboard_of_mem_emitKey code false⟩
      · refine ⟨0, [], ?_, by simp⟩
        rw [emit, if_neg hkey, if_neg hmouse]
    obtain ⟨result, inputs, hemit, hinputs⟩ := hnone
    refine ⟨result, inputs, hemit, fun mouseDx mouseDy mouseData dwFlags hmem => ?_⟩
    obtain ⟨wVk, wScan, flags, heq⟩ := hinputs _ hmem
    cases heq

end WindowsEmitter

open SenderFlow in
/-- When scroll arithmetic is exact. Whatever scrolls a running flow accepts after a taking, they
are added up, without overflow and to their exact sum, if and only if the sums of all that were
accepted first are in the range of `int` on both axes; and any scroll is injected, without overflow
and with exactly 120 times its amount in the record, if and only if it is no mouse event or 120
times its amount is in the range of `int`. -/
theorem scroll_exact_iff {s : SenderFlow} {evs : List InputEvent} {e : InputEvent}
    (hrun : s.running = true) (htaken : s.scrollAgg.held = 0)
    (hscrolls : ∀ ev ∈ evs, isAggregated ev .scroll = true) (hscroll : e.action = .scroll) :
    ((∃ s', s.pushAll evs = some s' ∧ s'.scrollAgg.held = motion .scroll evs) ↔
      ∀ evs', evs' <+: evs → (motion .scroll evs').IsInt) ∧
    (WindowsEmitter.InjectsExactly e ↔
      (e.type = .mouse → IsInt (120 * (WindowsEmitter.scrolled e).toInt))) := by
  have hpush := pushAll_iff hrun hscrolls
  simp only [htaken, zero_add] at hpush
  exact ⟨hpush, WindowsEmitter.emit_scroll_iff hscroll⟩

open SenderFlow in
/-- Two scrolls up to the largest `int`, and a scroll of one notch to the left. -/
theorem scroll_exact_iff_largest :
    (∃ s', (init.start true).2.pushAll
        [⟨.mouse, .scroll, 0, 0, 1⟩, ⟨.mouse, .scroll, 0, -1, 2147483646⟩] = some s' ∧
      s'.scrollAgg.held = (-1, 2147483647)) ∧
    WindowsEmitter.InjectsExactly ⟨.mouse, .scroll, 0, -1, 0⟩ := by
  obtain ⟨hpush, hinject⟩ := @scroll_exact_iff (init.start true).2
    [⟨.mouse, .scroll, 0, 0, 1⟩, ⟨.mouse, .scroll, 0, -1, 2147483646⟩]
    ⟨.mouse, .scroll, 0, -1, 0⟩ rfl rfl (by decide) rfl
  refine ⟨hpush.2 fun evs' hpre => ?_, hinject.2 fun _ => by decide⟩
  have hall : ∀ evs' ∈ List.inits [(⟨.mouse, .scroll, 0, 0, 1⟩ : InputEvent),
      ⟨.mouse, .scroll, 0, -1, 2147483646⟩], (motion .scroll evs').IsInt := by
    decide
  exact hall evs' (List.mem_inits _ _ |>.2 hpre)

open SenderFlow in
/-- Two scrolls whose sum is no `int`, and a text that decodes to a scroll whose wheel amount is
none. -/
theorem scroll_overflows :
    (¬ ∀ (s : SenderFlow) (evs : List InputEvent), s.running = true → s.scrollAgg.held = 0 →
      (∀ ev ∈ evs, isAggregated ev .scroll = true) →
      ∃ s', s.pushAll evs = some s' ∧ s'.scrollAgg.held = motion .scroll evs) ∧
    ¬ ∀ (text : StdString) (e : InputEvent),
      InputEventJSONConverter.decode JsonText.nlohmann text = .ok e → e.action = .scroll →
      WindowsEmitter.InjectsExactly e := by
  constructor
  · intro hexact
    obtain ⟨s', hs', -⟩ := hexact (init.start true).2
      [⟨.mouse, .scroll, 0, 0, 2147483647⟩, ⟨.mouse, .scroll, 0, 0, 1⟩] rfl rfl (by decide)
    have hnone : (init.start true).2.pushAll
        [⟨.mouse, .scroll, 0, 0, 2147483647⟩, ⟨.mouse, .scroll, 0, 0, 1⟩] = none := by
      decide
    rw [hnone] at hs'
    cases hs'
  · intro hexact
    have hdecode : (InputEventJSONConverter.decode JsonText.nlohmann
        (.ofString "\x7b\"type\":1,\"action\":3,\"dy\":17895698\x7d")).toOption =
          some ⟨.mouse, .scroll, 0, 0, 17895698⟩ := by
      decide +kernel
    obtain ⟨result, inputs, hemit, -⟩ := hexact _ _ (Except.eq_ok_of_toOption hdecode) rfl
    have hnone : WindowsEmitter.emit true ⟨.mouse, .scroll, 0, 0, 17895698⟩ = none := by decide
    rw [hnone] at hemit
    cases hemit

end Keyleport
