import Keyleport.Keyboard.InputEvent
import Keyleport.Lib.Json.RoundTrip

/-!
# Event batches

`keyboard/event_batch.cpp`: a list of events as one text. The elements are the objects of
`InputEventJSONConverter`, but they are read by a decoder of their own, which also knows the
`delta` of an older format.

* `EventBatch.decodeEvent_eq`: how the two decoders differ.
* `EventBatch.decodeEvents_ok_iff`: the elements are read one by one.
* `eventBatch_roundTrip`: what is encoded is decoded.
-/

namespace Keyleport

/-- `EventBatch`. -/
structure EventBatch where
  events : List InputEvent
deriving DecidableEq, Repr

namespace EventBatch

/-- The JSON object of a batch. -/
def toJson (b : EventBatch) : Json :=
  .ofPairs [(.ofString "events", .array (b.events.map InputEventJSONConverter.toJson))]

/-- `EventBatch::encode`. -/
def encode (lib : Nlohmann) (b : EventBatch) : Except TypeError StdString := lib.dump b.toJson

/-- The event of an element that is an object. -/
def decodeEvent (lib : Nlohmann) (je : Json) : Except TypeError InputEvent := do
  let type ← je.valueInt lib (.ofString "type") 0
  let action ← je.valueInt lib (.ofString "action") 0
  let code ← je.valueInt lib (.ofString "code") 0
  let dx ← je.valueInt lib (.ofString "dx") 0
  let dy ← je.valueInt lib (.ofString "dy") 0
  let e : InputEvent :=
    ⟨⟨type.toUInt32.toUInt8⟩, ⟨action.toUInt32.toUInt8⟩, code.toUInt32.toUInt16, dx, dy⟩
  -- the older format has the vertical scroll in `delta`
  if e.action = .scroll ∧ e.dy = 0 then
    let delta ← je.valueInt lib (.ofString "delta") 0
    return { e with dy := delta }
  else return e

/-- The loop over the elements; those that are no objects are skipped. -/
def decodeEvents (lib : Nlohmann) : List Json → Except TypeError (List InputEvent)
  | [] => .ok []
  | je :: rest =>
      if je.isObject then do
        let e ← decodeEvent lib je
        let events ← decodeEvents lib rest
        return e :: events
      else decodeEvents lib rest

/-- The elements of the `events` of an object, none if it is no array. -/
def eventsArray (j : Json) : List Json :=
  match j.find? (.ofString "events") with
  | some (.array xs) => xs
  | _ => []

/-- `EventBatch::decode`. -/
def decode (lib : Nlohmann) (s : StdString) : Except TypeError EventBatch :=
  match lib.parseObject s with
  | none => .ok ⟨[]⟩
  | some j => do
      let events ← decodeEvents lib (eventsArray j)
      return ⟨events⟩

/-! ## Elements -/

variable {lib : Nlohmann} {xs : List Json}

theorem decodeEvents_cons_of_isObject {je : Json} (hje : je.isObject = true) (rest : List Json)
    (events : List InputEvent) :
    decodeEvents lib (je :: rest) = .ok events ↔ ∃ e tail, decodeEvent lib je = .ok e ∧
      decodeEvents lib rest = .ok tail ∧ events = e :: tail := by
  rw [decodeEvents, if_pos hje, Except.bind_eq_ok_iff]
  constructor
  · rintro ⟨e, he, h⟩
    obtain ⟨tail, htail, h⟩ := Except.bind_eq_ok_iff.1 h
    exact ⟨e, tail, he, htail, (Except.ok.inj h).symm⟩
  · rintro ⟨e, tail, he, htail, rfl⟩
    exact ⟨e, he, Except.bind_eq_ok_iff.2 ⟨tail, htail, rfl⟩⟩

/-- What the older format makes of an event that was read from its own fields. -/
def withDelta (lib : Nlohmann) (je : Json) (e : InputEvent) : Except TypeError InputEvent :=
  if e.action = .scroll ∧ e.dy = 0 then do
    let delta ← je.valueInt lib (.ofString "delta") 0
    return { e with dy := delta }
  else return e

/-- The two decoders read the same five fields in the same way. -/
theorem decodeEvent_eq (je : Json) :
    decodeEvent lib je = InputEventJSONConverter.ofJson lib je >>= withDelta lib je := by
  simp only [decodeEvent, InputEventJSONConverter.ofJson, bind_assoc, pure_bind]
  rfl

/-- The loop returns the events of the elements that are objects, in their order. -/
theorem decodeEvents_ok_iff {events : List InputEvent} : decodeEvents lib xs = .ok events ↔
    (xs.filter Json.isObject).map (decodeEvent lib) = events.map .ok := by
  induction xs generalizing events with
  | nil =>
    rw [decodeEvents, List.filter_nil, List.map_nil, Except.ok.injEq, eq_comm, eq_comm (a := [])]
    exact List.map_eq_nil_iff.symm
  | cons je rest ih =>
    cases hje : je.isObject with
    | false => rw [decodeEvents, hje, List.filter_cons_of_neg (by simp [hje])]; exact ih
    | true =>
      rw [decodeEvents_cons_of_isObject hje, List.filter_cons_of_pos hje, List.map_cons]
      constructor
      · rintro ⟨e, tail, he, htail, rfl⟩
        rw [List.map_cons, he, ih.1 htail]
      · intro h
        obtain ⟨e, tail, rfl, he, htail⟩ := List.map_eq_cons_iff.1 h.symm
        exact ⟨e, tail, he.symm, ih.2 htail.symm, rfl⟩

/-- What the decoder returns for the text of an object. -/
theorem decode_of_parseObject {s : StdString} {j : Json} (hparse : lib.parseObject s = some j)
    {b : EventBatch} :
    decode lib s = .ok b ↔ decodeEvents lib (eventsArray j) = .ok b.events := by
  rw [decode, hparse]
  constructor
  · intro h
    obtain ⟨events, hevents, h⟩ := Except.bind_eq_ok_iff.1 h
    obtain rfl := Except.ok.inj h
    exact hevents
  · intro h
    exact Except.bind_eq_ok_iff.2 ⟨b.events, h, rfl⟩

/-! ## Encoding and decoding a batch -/

theorem canonical_toJson (b : EventBatch) : b.toJson.Canonical := by
  have helems : Json.Canonical (.array (b.events.map InputEventJSONConverter.toJson)) := by
    refine .array fun x hx => ?_
    obtain ⟨e, -, rfl⟩ := List.mem_map.1 hx
    exact InputEventJSONConverter.canonical_toJson e
  exact .object (List.pairwise_singleton _ _) (List.forall_mem_singleton.2 helems)

theorem validUtf8_toJson (b : EventBatch) : b.toJson.ValidUtf8 := by
  have helems : Json.ValidUtf8 (.array (b.events.map InputEventJSONConverter.toJson)) := by
    refine .array fun x hx => ?_
    obtain ⟨e, -, rfl⟩ := List.mem_map.1 hx
    exact InputEventJSONConverter.validUtf8_toJson e
  have hkey : StdString.ValidUtf8 (.ofString "events") := by decide
  exact .object (List.forall_mem_singleton.2 hkey) (List.forall_mem_singleton.2 helems)

theorem eventsArray_toJson (b : EventBatch) :
    eventsArray b.toJson = b.events.map InputEventJSONConverter.toJson := rfl

/-- The object of an event has no `delta`, so the older format changes nothing. -/
theorem decodeEvent_toJson (e : InputEvent) :
    decodeEvent lib (InputEventJSONConverter.toJson e) = .ok e := by
  have hdelta : (InputEventJSONConverter.toJson e).valueInt lib (.ofString "delta") 0 =
      .ok 0 := rfl
  rw [decodeEvent_eq, InputEventJSONConverter.ofJson_toJson]
  change withDelta lib _ e = .ok e
  rw [withDelta, hdelta]
  split
  next hzero =>
    -- `dy` is set to the zero that it is
    obtain ⟨type, action, code, dx, dy⟩ := e
    obtain rfl : dy = 0 := hzero.2
    rfl
  next => rfl

end EventBatch

open EventBatch in
/-- Event batches round-trip. Every batch, of any length and with any events, is encoded to a text
that decodes to the same events in the same order. -/
theorem eventBatch_roundTrip {lib : Nlohmann} (hlib : lib.Lawful) (b : EventBatch) :
    ∃ s, b.encode lib = .ok s ∧ decode lib s = .ok b := by
  obtain ⟨s, hs⟩ := hlib.dump_ok_iff.2 b.validUtf8_toJson
  have hparse : lib.parseObject s = some b.toJson := hlib.parseObject_dump b.canonical_toJson hs
  refine ⟨s, hs, (decode_of_parseObject hparse).2 (decodeEvents_ok_iff.2 ?_)⟩
  -- no element is skipped
  have hobjects : (eventsArray b.toJson).filter Json.isObject = eventsArray b.toJson := by
    rw [eventsArray_toJson, List.filter_eq_self]
    intro x hx
    obtain ⟨e, -, rfl⟩ := List.mem_map.1 hx
    rfl
  rw [hobjects, eventsArray_toJson, List.map_map]
  exact List.map_congr_left fun e _ => decodeEvent_toJson e

open EventBatch in
/-- A batch of a key and of two scrolls without a vertical amount. -/
theorem eventBatch_roundTrip_scroll : ∃ s,
    encode JsonText.nlohmann ⟨[⟨.key, .down, 4, 0, 0⟩, ⟨.mouse, .scroll, 0, -3, 0⟩, default]⟩ =
        .ok s ∧
      decode JsonText.nlohmann s =
        .ok ⟨[⟨.key, .down, 4, 0, 0⟩, ⟨.mouse, .scroll, 0, -3, 0⟩, default]⟩ :=
  eventBatch_roundTrip JsonText.lawful _

end Keyleport
