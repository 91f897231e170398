import Keyleport.Session.Device
import Mathlib.Data.Option.Basic

/-!
# Exceptions of the message chain

The services thread has no handler, so an exception that leaves the `on_message` callback of the
communication service ends the program. Of the three decoders the callback may reach, two guard
every read with a test of the member's type. The third, that of input events, reads its fields
with `value`, which throws on a member that does not convert.

* `message_returns_iff`: for every state and message, exactly when the callback returns.
* `message_throws`: an event field that is a string ends a receiver.
-/

namespace Keyleport

namespace Session

variable {lib : Nlohmann} {s : Session}

/-- The home scene's callback never throws. -/
theorem homeOnPackage_ok (lib : Nlohmann) (package : TypedPackage) (s : Session) :
    ∃ s', homeOnPackage lib package s = .ok s' := by
  rw [homeOnPackage]
  split
  next =>
    obtain ⟨p, hp⟩ := BecomeReceiverPackage.decode_ok lib package.payload
    rw [hp]
    simp only [bind, Except.bind]
    split
    · exact ⟨_, rfl⟩
    · exact ⟨_, rfl⟩
  next => exact ⟨s, rfl⟩

/-- The receiver scene's callback throws exactly when it decodes an event that does not read. -/
theorem receiverOnPackage_ok_iff {emitter : Bool} {package : TypedPackage} :
    (∃ s', receiverOnPackage lib emitter package s = .ok s') ↔
      (emitter = true → KeyboardInputPackage.is package = true →
        ∃ e, InputEventJSONConverter.decode lib package.payload = .ok e) := by
  rw [receiverOnPackage]
  split
  next h =>
    obtain ⟨hemitter, his⟩ := Bool.and_eq_true_iff.1 h
    simp only [hemitter, his, forall_const, KeyboardInputPackage.decode]
    cases InputEventJSONConverter.decode lib package.payload with
    | error e => simp [bind, Except.bind]
    | ok e => simp [bind, Except.bind, pure, Except.pure]
  next h =>
    refine ⟨fun _ hemitter his => absurd ?_ h, fun _ => ⟨s, rfl⟩⟩
    rw [hemitter, his]
    rfl

/-- Emitting a package throws exactly when a receiver scene with an emitter is subscribed and
the package is an input event that does not read. -/
theorem emit_ok_iff {package : TypedPackage} :
    (∃ s', s.onPackage.emit (invoke lib package) s = .ok s') ↔
      (PackageCallback.receiverScene true ∈ s.onPackage.callbacks →
        KeyboardInputPackage.is package = true →
        ∃ e, InputEventJSONConverter.decode lib package.payload = .ok e) := by
  have hok (cb : PackageCallback) (t : Session) : (∃ t', invoke lib package cb t = .ok t') ↔
      (cb = .receiverScene true → KeyboardInputPackage.is package = true →
        ∃ e, InputEventJSONConverter.decode lib package.payload = .ok e) := by
    cases cb with
    | homeScene => simpa [invoke] using homeOnPackage_ok lib package t
    | receiverScene emitter => simpa [invoke] using receiverOnPackage_ok_iff
  rw [EventEmitter.emit_ok_iff hok]
  constructor
  · intro h hmem
    exact h _ hmem rfl
  · rintro h cb hmem rfl
    exact h hmem

/-- The callback returns exactly when it ignores the message or emitting its package returns. -/
theorem onMessage_ok_iff {msg : Message} : (∃ s', onMessage lib s msg = .ok s') ↔
    (s.ignores msg = false → ∀ package, TypedPackage.decode lib msg.payload = .ok package →
      ∃ s', s.onPackage.emit (invoke lib { package with metaMessage := msg }) s = .ok s') := by
  cases hign : s.ignores msg with
  | true => simp [onMessage_of_ignores hign]
  | false =>
    obtain ⟨package, hpackage⟩ := TypedPackage.decode_ok lib msg.payload
    rw [onMessage, hign, hpackage]
    simp [bind, Except.bind]

end Session

open Session in
/-- When a message brings a device down. In every state, the callback returns for a message if
and only if one of these holds: the message is not from the pinned peer; no receiver scene with
an emitter is subscribed; the payload is not the object of an input event; or every field of the
event that is present converts to an `int`. In the other two decoders a member of a wrong type
is read as empty. -/
theorem message_returns_iff (lib : Nlohmann) (s : Session) (msg : Message) :
    ((∃ s', onMessage lib s msg = .ok s') ↔
      (s.ignores msg = false → PackageCallback.receiverScene true ∈ s.onPackage.callbacks →
        ∀ outer, lib.parseObject msg.payload = some outer →
          outer.stringMember (.ofString "__typename") = KeyboardInputPackage.typename →
          ∀ inner, lib.parseObject (outer.stringMember (.ofString "payload")) = some inner →
            ∀ key ∈ InputEventJSONConverter.fields, ∀ v, inner.find? key = some v →
              v.isArithmetic)) ∧
    ∀ text j, lib.parseObject text = some j →
      TypedPackage.decode lib text = .ok ⟨j.stringMember (.ofString "__typename"),
        j.stringMember (.ofString "payload"), default⟩ ∧
      BecomeReceiverPackage.decode lib text = .ok ⟨j.stringMember (.ofString "device_id")⟩ := by
  refine ⟨?_, fun text j h => ⟨TypedPackage.decode_of_parseObject h,
    BecomeReceiverPackage.decode_of_parseObject h⟩⟩
  rw [onMessage_ok_iff]
  refine imp_congr_right fun _ => ?_
  simp only [emit_ok_iff, ← InputEventJSONConverter.decode_ok_iff]
  cases houter : lib.parseObject msg.payload with
  | none =>
    -- a package without a type name is no input event
    have hname : KeyboardInputPackage.typename ≠ [] := by decide
    simp [TypedPackage.decode, houter, KeyboardInputPackage.is, default, hname.symm]
  | some outer =>
    simp only [TypedPackage.decode_of_parseObject houter, Except.ok.injEq, forall_eq',
      Option.some.injEq, KeyboardInputPackage.is, decide_eq_true_eq]

open Session in
/-- A receiver that accepted `10.0.0.2` throws on an event of `10.0.0.2` whose type is a
string. -/
theorem message_throws : ¬ ∀ ls s msg,
    (machine JsonText.nlohmann ⟨.ofString "a", true⟩).run init ls = some s →
    s.ignores msg = false → ∃ s', onMessage JsonText.nlohmann s msg = .ok s' := by
  intro hreturns
  have hrun : ∃ s ∈ (machine JsonText.nlohmann ⟨.ofString "a", true⟩).run init
      [.setAvailableDevices [⟨false, .ofString "b", .ofString "10.0.0.2", []⟩],
        .message ⟨⟨.ofString "10.0.0.2"⟩, .self, .ofString
          "\x7b\"__typename\":\"become_receiver\",\"payload\":\"\"\x7d"⟩,
        .runUiTask],
      let msg : Message := ⟨⟨.ofString "10.0.0.2"⟩, .self, .ofString
        "\x7b\"__typename\":\"keyboard_input\",\"payload\":\"\x7b\\\"type\\\":\\\"x\\\"\x7d\"\x7d"⟩
      s.ignores msg = false ∧ (onMessage JsonText.nlohmann s msg).toOption = none := by
    decide +kernel
  obtain ⟨s, hs, hign, hthrows⟩ := hrun
  obtain ⟨s', hs'⟩ := hreturns _ s _ hs hign
  rw [hs'] at hthrows
  cases hthrows

end Keyleport
