import Keyleport.Keyboard.EventBatch

/-!
# The two decoders of events

A single event and the elements of a batch are the same objects, read by two functions. The one of
batches takes the `delta` of an older format for the vertical amount of a scroll that has none; the
one of single events, which reads what the receiver injects, does not know it.

* `EventBatch.LegacyScroll`: the scrolls of the older format.
* `decoders_agree_iff`: the decoders agree on everything else.
* `legacy_scroll_lost`: a scroll of the older format has no amount as a single event.
-/

namespace Keyleport

namespace EventBatch

/-- A scroll with a vertical amount in `delta` only. -/
def LegacyScroll (lib : Nlohmann) (je : Json) : Prop :=
  ∃ action delta, je.valueInt lib (.ofString "action") 0 = .ok action ∧
    action.toUInt32.toUInt8 = InputEventAction.scroll.val ∧
    je.valueInt lib (.ofString "dy") 0 = .ok 0 ∧
    je.valueInt lib (.ofString "delta") 0 = .ok delta ∧ delta ≠ 0

/-- The batch decodes to the events that its objects decode to one by one, in their order. -/
def DecodersAgree (lib : Nlohmann) (s : StdString) (xs : List Json) (text : Json → StdString) :
    Prop :=
  ∃ events, decode lib s = .ok ⟨events⟩ ∧
    ((xs.filter Json.isObject).map fun x => InputEventJSONConverter.decode lib (text x)) =
      events.map .ok

variable {lib : Nlohmann} {je : Json} {e : InputEvent}

/-- The action and the vertical amount of an event come from the members of these names. -/
theorem fields_of_ofJson (h : InputEventJSONConverter.ofJson lib je = .ok e) :
    (∃ action, je.valueInt lib (.ofString "action") 0 = .ok action ∧
      e.action.val = action.toUInt32.toUInt8) ∧
    je.valueInt lib (.ofString "dy") 0 = .ok e.dy := by
  obtain ⟨type, -, h⟩ := Except.bind_eq_ok_iff.1 h
  obtain ⟨action, haction, h⟩ := Except.bind_eq_ok_iff.1 h
  obtain ⟨code, -, h⟩ := Except.bind_eq_ok_iff.1 h
  obtain ⟨dx, -, h⟩ := Except.bind_eq_ok_iff.1 h
  obtain ⟨dy, hdy, h⟩ := Except.bind_eq_ok_iff.1 h
  obtain rfl := Except.ok.inj h
  exact ⟨⟨action, haction, rfl⟩, hdy⟩

/-- An object that is read as an event is a scroll of the older format exactly when the event
scrolls, but not vertically, and there is a `delta`. -/
theorem legacyScroll_iff (h : InputEventJSONConverter.ofJson lib je = .ok e) :
    LegacyScroll lib je ↔ (e.action = .scroll ∧ e.dy = 0) ∧
      ∃ delta, je.valueInt lib (.ofString "delta") 0 = .ok delta ∧ delta ≠ 0 := by
  obtain ⟨⟨action, haction, hval⟩, hdy⟩ := fields_of_ofJson h
  constructor
  · rintro ⟨action', delta, haction', hscroll, hdy', hdelta, hne⟩
    obtain rfl := Except.ok.inj (haction.symm.trans haction')
    obtain hzero := Except.ok.inj (hdy.symm.trans hdy')
    refine ⟨⟨?_, hzero⟩, delta, hdelta, hne⟩
    exact congrArg InputEventAction.mk (hval.trans hscroll)
  · rintro ⟨⟨hscroll, hzero⟩, delta, hdelta, hne⟩
    refine ⟨action, delta, haction, ?_, hzero ▸ hdy, hdelta, hne⟩
    rw [← hval, hscroll]

/-- On one object the decoders agree unless it is a scroll of the older format. -/
theorem ofJson_eq_decodeEvent_iff (h : decodeEvent lib je = .ok e) :
    InputEventJSONConverter.ofJson lib je = decodeEvent lib je ↔ ¬ LegacyScroll lib je := by
  have hread := h
  rw [decodeEvent_eq, Except.bind_eq_ok_iff] at hread
  obtain ⟨e₀, hofJson, hdelta⟩ := hread
  rw [hofJson, h, legacyScroll_iff hofJson, Except.ok.injEq]
  unfold withDelta at hdelta
  split at hdelta
  next hzero =>
    -- the batch has read `delta`, which is the same only if it is zero
    obtain ⟨delta, hvalue, hdelta⟩ := Except.bind_eq_ok_iff.1 hdelta
    obtain rfl := Except.ok.inj hdelta
    constructor
    · rintro heq ⟨-, delta', hvalue', hne⟩
      obtain rfl := Except.ok.inj (hvalue.symm.trans hvalue')
      exact hne ((congrArg InputEvent.dy heq).symm.trans hzero.2)
    · intro hnot
      have hdelta : delta = 0 := by
        by_contra hne
        exact hnot ⟨hzero, delta, hvalue, hne⟩
      rw [hdelta, ← hzero.2]
  next hother =>
    -- `delta` is not looked at
    obtain rfl := Except.ok.inj hdelta
    exact iff_of_true rfl fun hlegacy => hother hlegacy.1

/-- The object of a scroll with one more member. -/
def scrollObject (key : String) (n : ℤ) : Json :=
  .object [(.ofString "action", .integer 3), (.ofString key, .integer n)]

theorem scrollObject_wellFormed {key : String} {n : ℤ}
    (hkeys : StdString.ofString "action" < StdString.ofString key)
    (hkey : (StdString.ofString key).ValidUtf8) (hn : -2 ^ 63 ≤ n ∧ n < 2 ^ 64) :
    (scrollObject key n).Canonical ∧ (scrollObject key n).ValidUtf8 := by
  have haction : (StdString.ofString "action").ValidUtf8 := by decide
  constructor
  · refine .object (by simpa using hkeys) ?_
    simp only [List.forall_mem_cons]
    exact ⟨.integer (by decide) (by decide), .integer hn.1 hn.2, by simp⟩
  · refine .object (by simpa using ⟨haction, hkey⟩) ?_
    simp only [List.forall_mem_cons]
    exact ⟨.integer _, .integer _, by simp⟩

/-- Every list of values that can be written has a batch and texts of its elements. -/
theorem exists_texts (hlib : lib.Lawful) (xs : List Json)
    (hxs : ∀ x ∈ xs, x.Canonical ∧ x.ValidUtf8) : ∃ (s : StdString) (text : Json → StdString),
    lib.parseObject s = some (.object [(.ofString "events", .array xs)]) ∧
      ∀ x ∈ xs, lib.parse (text x) = some x := by
  have hcanonical : Json.Canonical (.object [(.ofString "events", .array xs)]) :=
    .object (List.pairwise_singleton _ _)
      (List.forall_mem_singleton.2 (.array fun x hx => (hxs x hx).1))
  have hkey : StdString.ValidUtf8 (.ofString "events") := by decide
  have hutf8 : Json.ValidUtf8 (.object [(.ofString "events", .array xs)]) :=
    .object (List.forall_mem_singleton.2 hkey)
      (List.forall_mem_singleton.2 (.array fun x hx => (hxs x hx).2))
  obtain ⟨s, hs⟩ := hlib.dump_ok_iff.2 hutf8
  refine ⟨s, fun x => (lib.dump x).toOption.getD [], hlib.parseObject_dump hcanonical hs,
    fun x hx => ?_⟩
  obtain ⟨t, ht⟩ := hlib.dump_ok_iff.2 (hxs x hx).2
  show lib.parse ((lib.dump x).toOption.getD []) = some x
  rw [ht]
  exact hlib.parse_dump (hxs x hx).1 ht

end EventBatch

open EventBatch in
/-- When the two decoders agree. If the elements of an events array can be read, the batch decodes
to exactly the events that the texts of its objects decode to, in their order, if and only if no
object is a scroll of the older format: one whose `dy` reads as zero and whose `delta` does not.
A number that is not an integer reads as whatever the platform casts it to. -/
theorem decoders_agree_iff {lib : Nlohmann} {s : StdString} {j : Json} {xs : List Json}
    {text : Json → StdString} (hparse : lib.parseObject s = some j)
    (hevents : j.find? (.ofString "events") = some (.array xs))
    (htext : ∀ x ∈ xs, x.isObject = true → lib.parse (text x) = some x)
    (hreturns : ∃ b, decode lib s = .ok b) :
    DecodersAgree lib s xs text ↔ ∀ x ∈ xs, x.isObject = true → ¬ LegacyScroll lib x := by
  obtain ⟨b, hb⟩ := hreturns
  have hxs : eventsArray j = xs := by rw [eventsArray, hevents]
  have hbatch := decodeEvents_ok_iff.1 (hxs ▸ (decode_of_parseObject hparse).1 hb)
  -- one by one, an object is read from its text
  have hsingle : ((xs.filter Json.isObject).map fun x =>
      InputEventJSONConverter.decode lib (text x)) =
        (xs.filter Json.isObject).map (InputEventJSONConverter.ofJson lib) := by
    apply List.map_congr_left
    intro x hx
    obtain ⟨hmem, hobject⟩ := List.mem_filter.1 hx
    have hone : lib.parseObject (text x) = some x := by
      rw [Nlohmann.parseObject, htext x hmem hobject, Option.filter_some, if_pos hobject]
    rw [InputEventJSONConverter.decode, hone]
  have hagree : DecodersAgree lib s xs text ↔ (xs.filter Json.isObject).map
      (InputEventJSONConverter.ofJson lib) =
        (xs.filter Json.isObject).map (decodeEvent lib) := by
    rw [DecodersAgree, hsingle, hbatch]
    constructor
    · rintro ⟨events, hdecode, heq⟩
      obtain rfl := Except.ok.inj (hb.symm.trans hdecode)
      exact heq
    · exact fun heq => ⟨b.events, hb, heq⟩
  rw [hagree, List.map_inj_left]
  -- every object is read by the batch
  have hone : ∀ x ∈ xs, x.isObject = true →
      (InputEventJSONConverter.ofJson lib x = decodeEvent lib x ↔ ¬ LegacyScroll lib x) := by
    intro x hmem hobject
    have hx : decodeEvent lib x ∈ b.events.map Except.ok := by
      rw [← hbatch]
      exact List.mem_map_of_mem (List.mem_filter.2 ⟨hmem, hobject⟩)
    obtain ⟨e, -, he⟩ := List.mem_map.1 hx
    exact ofJson_eq_decodeEvent_iff he.symm
  constructor
  · intro heq x hmem hobject
    exact (hone x hmem hobject).1 (heq x (List.mem_filter.2 ⟨hmem, hobject⟩))
  · intro hnone x hx
    obtain ⟨hmem, hobject⟩ := List.mem_filter.1 hx
    exact (hone x hmem hobject).2 (hnone x hmem hobject)

open EventBatch in
/-- A horizontal scroll and an element that is no object. -/
theorem decoders_agree_iff_horizontal : ∃ s text,
    DecodersAgree JsonText.nlohmann s [scrollObject "dx" 1, .null] text := by
  obtain ⟨s, text, hparse, htext⟩ := exists_texts JsonText.lawful
    [scrollObject "dx" 1, .null] (by
      simp only [List.forall_mem_cons]
      exact ⟨scrollObject_wellFormed (by decide) (by decide) (by decide),
        ⟨.null, .null⟩, by simp⟩)
  refine ⟨s, text, (decoders_agree_iff hparse rfl (fun x hx _ => htext x hx)
    ⟨⟨[⟨.key, .scroll, 0, 1, 0⟩]⟩, (decode_of_parseObject hparse).2 rfl⟩).2 ?_⟩
  simp only [List.forall_mem_cons]
  refine ⟨?_, by simp [Json.isObject], by simp⟩
  -- the scroll has no `delta`, which then reads as zero
  rintro - ⟨action, delta, -, -, -, hdelta, hne⟩
  exact hne (Except.ok.inj hdelta).symm

open EventBatch in
/-- A scroll of the older format loses its amount when it is read as a single event. -/
theorem legacy_scroll_lost : ¬ ∀ (s : StdString) (j : Json) (xs : List Json)
    (text : Json → StdString), JsonText.nlohmann.parseObject s = some j →
    j.find? (.ofString "events") = some (.array xs) →
    (∀ x ∈ xs, x.isObject = true → JsonText.nlohmann.parse (text x) = some x) →
    (∃ b, decode JsonText.nlohmann s = .ok b) → DecodersAgree JsonText.nlohmann s xs text := by
  intro hagree
  obtain ⟨s, text, hparse, htext⟩ := exists_texts JsonText.lawful
    [scrollObject "delta" 5]
    (List.forall_mem_singleton.2
      (scrollObject_wellFormed (by decide) (by decide) (by decide)))
  have hbatch : decode JsonText.nlohmann s = .ok ⟨[⟨.key, .scroll, 0, 0, 5⟩]⟩ :=
    (decode_of_parseObject hparse).2 rfl
  obtain ⟨events, hevents, hsingle⟩ :=
    hagree s _ _ text hparse rfl (fun x hx _ => htext x hx) ⟨_, hbatch⟩
  obtain rfl := EventBatch.mk.inj (Except.ok.inj (hbatch.symm.trans hevents))
  have hone : JsonText.nlohmann.parseObject (text (scrollObject "delta" 5)) =
      some (scrollObject "delta" 5) := by
    rw [Nlohmann.parseObject, htext _ (List.mem_singleton.2 rfl)]
    rfl
  have hzero : InputEventJSONConverter.decode JsonText.nlohmann (text (scrollObject "delta" 5)) =
      .ok ⟨.key, .scroll, 0, 0, 0⟩ := by
    rw [InputEventJSONConverter.decode, hone]
    rfl
  have hfive : InputEventJSONConverter.decode JsonText.nlohmann (text (scrollObject "delta" 5)) =
      .ok ⟨.key, .scroll, 0, 0, 5⟩ := (List.cons.inj hsingle).1
  exact absurd (Except.ok.inj (hzero.symm.trans hfive)) (by decide)

end Keyleport
