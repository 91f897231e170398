import Keyleport.Keyboard.Windows.Emitter
import Keyleport.Sender.Motion
import Mathlib.Data.List.Infix
import Mathlib.Tactic.Ring

/-!
# Scrolling on a Windows receiver

The scrolls pushed between two takings of `scroll_loop` become one event with both deltas, and
the Windows emitter injects one wheel record for it: a vertical one if `dy` is not zero, and a
horizontal one otherwise. The other axis of an event that scrolls on both is dropped.

* `SenderFlow.injected_spec`: what is injected over the groups that a list of scrolls is cut into.
* `SenderFlow.Cut.run`: every run of the flow cuts the scrolls pushed into such groups.
* `coalesced_scroll_iff`: vertical scrolling is exact; when horizontal scrolling is.
* `diagonal_scroll_dropped`: a horizontal and a vertical scroll in one group.
-/

namespace Keyleport

namespace SenderFlow

/-- The deltas of a scroll, horizontal and vertical. -/
abbrev Delta := Int32 × Int32

/-- The exact horizontal sum. -/
def totalDx (deltas : List Delta) : ℤ := (deltas.map fun d => d.1.toInt).sum

/-- The exact vertical sum. -/
def totalDy (deltas : List Delta) : ℤ := (deltas.map fun d => d.2.toInt).sum

/-- The additions of a list of deltas. -/
def addAll (agg : MoveAggregator) (deltas : List Delta) : Option MoveAggregator :=
  deltas.foldlM (fun agg d => agg.add d.1 d.2) agg

/-- The packages sent after one taking of `scroll_loop`, with the deltas added since the last. -/
def takeGroup (group : List Delta) : Option (List InputEvent) := do
  let agg ← addAll .new group
  let (worker, agg, _) ← loopStep .scroll true agg .take
  let (_, _, sent) ← loopStep .scroll true agg worker
  return sent.map SentEvent.event

/-- What the emitter injects for the packages of one group. -/
def injectGroup (group : List Delta) : Option (List WindowsInput) := do
  let events ← takeGroup group
  let emitted ← events.mapM (WindowsEmitter.emit true)
  return emitted.flatMap Prod.snd

/-- What the emitter injects over all groups. -/
def injected (groups : List (List Delta)) : Option (List WindowsInput) := do
  let inputs ← groups.mapM injectGroup
  return inputs.flatten

/-- An amount that times 120 is an `int`. -/
def FitsWheel (amount : ℤ) : Prop := -2 ^ 31 ≤ amount * 120 ∧ amount * 120 < 2 ^ 31

instance (amount : ℤ) : Decidable (FitsWheel amount) := inferInstanceAs (Decidable (_ ∧ _))

/-- All sums, taken from the start of a group, times 120 are within the range of `int`. -/
def Fits (group : List Delta) : Prop :=
  ∀ deltas, deltas <+: group → FitsWheel (totalDx deltas) ∧ FitsWheel (totalDy deltas)

instance (group : List Delta) : Decidable (Fits group) :=
  decidable_of_iff
    (∀ deltas ∈ group.inits, FitsWheel (totalDx deltas) ∧ FitsWheel (totalDy deltas))
    (forall_congr' fun _ => by rw [List.mem_inits])

/-! ## One group -/

/-- An addition whose sums are within the range of `int` is defined. -/
theorem add_eq_some {agg : MoveAggregator} {d : Delta}
    (hx : FitsWheel (agg.aggDx.toInt + d.1.toInt)) (hy : FitsWheel (agg.aggDy.toInt + d.2.toInt)) :
    ∃ agg', agg.add d.1 d.2 = some agg' := by
  have haddDx : MoveAggregator.addInt agg.aggDx d.1 = some (agg.aggDx + d.1) := by
    obtain ⟨hlo, hhi⟩ := hx
    exact if_pos ⟨by omega, by omega⟩
  have haddDy : MoveAggregator.addInt agg.aggDy d.2 = some (agg.aggDy + d.2) := by
    obtain ⟨hlo, hhi⟩ := hy
    exact if_pos ⟨by omega, by omega⟩
  rw [MoveAggregator.add, haddDx, haddDy]
  split
  · exact ⟨_, rfl⟩
  · exact ⟨_, rfl⟩

/-- The additions of a group are defined, and the aggregator then holds its sums. -/
theorem addAll_spec {group : List Delta} {agg : MoveAggregator}
    (hfits : ∀ deltas, deltas <+: group → FitsWheel (agg.aggDx.toInt + totalDx deltas) ∧
      FitsWheel (agg.aggDy.toInt + totalDy deltas)) :
    ∃ agg', addAll agg group = some agg' ∧
      agg'.aggDx.toInt = agg.aggDx.toInt + totalDx group ∧
      agg'.aggDy.toInt = agg.aggDy.toInt + totalDy group := by
  induction group generalizing agg with
  | nil => exact ⟨agg, rfl, (add_zero _).symm, (add_zero _).symm⟩
  | cons d group ih =>
    -- the first addition stays in range, and the rest is added to what is then held
    have hfirst := hfits [d] (List.prefix_append [d] group)
    simp only [totalDx, totalDy, List.map_cons, List.map_nil, List.sum_cons, List.sum_nil,
      add_zero] at hfirst
    obtain ⟨agg₁, hadd⟩ := add_eq_some hfirst.1 hfirst.2
    have hheld := (MoveAggregator.add_held hadd).1
    have hdx : agg₁.aggDx.toInt = agg.aggDx.toInt + d.1.toInt := congrArg Prod.fst hheld
    have hdy : agg₁.aggDy.toInt = agg.aggDy.toInt + d.2.toInt := congrArg Prod.snd hheld
    obtain ⟨agg', hagg', hx, hy⟩ := @ih agg₁ fun deltas hdeltas => by
      have hnext := hfits (d :: deltas) (List.prefix_cons_inj d |>.2 hdeltas)
      simp only [totalDx, totalDy, List.map_cons, List.sum_cons, ← add_assoc] at hnext
      rwa [hdx, hdy]
    refine ⟨agg', ?_, ?_, ?_⟩
    · rw [addAll, List.foldlM_cons, hadd]
      exact hagg'
    · rw [hx, hdx, totalDx, totalDx, List.map_cons, List.sum_cons, add_assoc]
    · rw [hy, hdy, totalDy, totalDy, List.map_cons, List.sum_cons, add_assoc]

/-- What is sent after the taking of a group. -/
theorem takeGroup_of_addAll {group : List Delta} {agg : MoveAggregator}
    (h : addAll .new group = some agg) :
    takeGroup group = some (if agg.aggDx = 0 ∧ agg.aggDy = 0 then []
      else [⟨.mouse, .scroll, 0, agg.aggDx, agg.aggDy⟩]) := by
  rw [takeGroup, h]
  simp only [loopStep, MoveAggregator.take, Option.bind_eq_bind, Option.bind_some]
  split <;> rfl

/-- A group is sent as one event with its sums, or as none if both are zero. -/
theorem takeGroup_spec {group : List Delta} (hfits : Fits group) : ∃ dx dy : Int32,
    dx.toInt = totalDx group ∧ dy.toInt = totalDy group ∧
    takeGroup group = some (if dx = 0 ∧ dy = 0 then [] else [⟨.mouse, .scroll, 0, dx, dy⟩]) := by
  obtain ⟨agg, hagg, hdx, hdy⟩ := @addAll_spec group .new fun deltas hdeltas => by
    simpa [MoveAggregator.new] using hfits deltas hdeltas
  exact ⟨agg.aggDx, agg.aggDy, by simpa [MoveAggregator.new] using hdx,
    by simpa [MoveAggregator.new] using hdy, takeGroup_of_addAll hagg⟩

/-- The horizontal sum of a group that the emitter injects: all of it, if the group does not
scroll vertically. -/
def keptDx (group : List Delta) : ℤ := if totalDy group = 0 then totalDx group else 0

/-- A group is injected with its vertical sum, and its horizontal one if it has no vertical one. -/
theorem injectGroup_spec {group : List Delta} (hfits : Fits group) :
    ∃ inputs, injectGroup group = some inputs ∧
      WindowsEmitter.wheelTotal inputs = totalDy group * 120 ∧
      WindowsEmitter.hWheelTotal inputs = keptDx group * 120 := by
  obtain ⟨dx, dy, hdx, hdy, htake⟩ := takeGroup_spec hfits
  have hgroup := hfits group List.prefix_rfl
  rw [← hdx, ← hdy] at hgroup
  have hkept : keptDx group * 120 = if dy = 0 then dx.toInt * 120 else 0 := by
    rw [keptDx, ← hdx, ← hdy]
    by_cases hzero : dy = 0
    · rw [if_pos hzero, if_pos (by rw [hzero]; rfl)]
    · have hne : dy.toInt ≠ 0 := fun h => hzero (Int32.toInt_inj.1 h)
      rw [if_neg hzero, if_neg hne, zero_mul]
  rw [injectGroup, htake, hkept, ← hdy]
  by_cases hzero : dx = 0 ∧ dy = 0
  · -- no package, and nothing is injected
    rw [if_pos hzero, hzero.1, hzero.2]
    exact ⟨[], rfl, rfl, rfl⟩
  · obtain ⟨inputs, hemit, hv, hh⟩ :=
      @WindowsEmitter.emit_scroll 0 dx dy hgroup.1 hgroup.2
    rw [if_neg hzero]
    refine ⟨inputs, ?_, hv, hh⟩
    simp [hemit]

/-! ## All groups -/

theorem injected_cons (group : List Delta) (groups : List (List Delta)) :
    injected (group :: groups) = (injectGroup group).bind fun inputs =>
      (injected groups).map fun rest => inputs ++ rest := by
  rw [injected, List.mapM_cons]
  cases injectGroup group with
  | none => rfl
  | some inputs =>
    rw [injected]
    cases groups.mapM injectGroup <;> rfl

/-- Over any cut into groups, the vertical sum is injected, and of the horizontal one what the
groups without a vertical one have. -/
theorem injected_spec {groups : List (List Delta)} (hfits : ∀ group ∈ groups, Fits group) :
    ∃ inputs, injected groups = some inputs ∧
      WindowsEmitter.wheelTotal inputs = totalDy groups.flatten * 120 ∧
      WindowsEmitter.hWheelTotal inputs = (groups.map keptDx).sum * 120 := by
  induction groups with
  | nil => exact ⟨[], rfl, rfl, rfl⟩
  | cons group groups ih =>
    obtain ⟨hgroup, hgroups⟩ := List.forall_mem_cons.1 hfits
    obtain ⟨inputs, hinputs, hv, hh⟩ := injectGroup_spec hgroup
    obtain ⟨rest, hrest, hv', hh'⟩ := ih hgroups
    refine ⟨inputs ++ rest, ?_, ?_, ?_⟩
    · rw [injected_cons, hinputs, hrest]
      rfl
    · rw [WindowsEmitter.wheelTotal_append, hv, hv', ← add_mul, totalDy, totalDy, totalDy,
        List.flatten_cons, List.map_append, List.sum_append]
    · rw [WindowsEmitter.hWheelTotal_append, hh, hh', ← add_mul, List.map_cons, List.sum_cons]

/-- What the groups with a vertical sum have horizontally is dropped. -/
theorem totalDx_flatten (groups : List (List Delta)) : totalDx groups.flatten =
    (groups.map keptDx).sum +
      ((groups.filter fun group => totalDy group ≠ 0).map totalDx).sum := by
  induction groups with
  | nil => rfl
  | cons group groups ih =>
    have hsplit : totalDx (group :: groups).flatten = totalDx group + totalDx groups.flatten := by
      rw [totalDx, List.flatten_cons, List.map_append, List.sum_append]
      rfl
    rw [hsplit, ih, List.map_cons, List.sum_cons, List.filter_cons]
    by_cases hzero : totalDy group = 0
    · simp [keptDx, hzero]
      ring
    · simp [keptDx, hzero]
      ring

/-! ## Runs of the flow -/

variable {s s' : SenderFlow} {groups : List (List Delta)} {taken rest : List Delta}

/-- The scrolls pushed, oldest first. -/
def pushedScrolls (s : SenderFlow) : List Delta :=
  (s.pushed.filter fun ev => isAggregated ev .scroll).map fun ev => (ev.dx, ev.dy)

/-- The scrolls sent, oldest first. -/
def sentScrolls (s : SenderFlow) : List InputEvent :=
  s.unreliable.filter fun ev => isAggregated ev .scroll

/-- The deltas that add up to what a thread has taken and not sent. -/
def Taken : Option Worker → List Delta → Prop
  | some (.send dx dy), taken => addAll .new taken = some ⟨true, dx, dy⟩
  | _, taken => taken = []

/-- The scrolls pushed are the groups that were sent, what `scroll_loop` has taken, and what its
aggregator holds. -/
structure Cut (groups : List (List Delta)) (taken rest : List Delta) (s : SenderFlow) : Prop where
  pushed : s.pushedScrolls = groups.flatten ++ taken ++ rest
  sent : ∃ events, groups.mapM takeGroup = some events ∧ s.sentScrolls = events.flatten
  taken : Taken s.scrollThread taken
  rest : addAll .new rest = some { s.scrollAgg with running := true }

/-- An addition does not depend on the flag. -/
theorem add_running {agg agg' : MoveAggregator} {dx dy : Int32} (h : agg.add dx dy = some agg') :
    MoveAggregator.add { agg with running := true } dx dy =
      some { agg' with running := true } := by
  simp only [MoveAggregator.add] at h ⊢
  split at h
  next hzero =>
    obtain rfl := Option.some.inj h
    rw [if_pos hzero]
  next hzero =>
    obtain ⟨aggDx, hdx, h⟩ := Option.bind_eq_some_iff.1 h
    obtain ⟨aggDy, hdy, h⟩ := Option.bind_eq_some_iff.1 h
    obtain rfl := Option.some.inj h
    rw [if_neg hzero, hdx, hdy]
    rfl

theorem addAll_concat {agg agg' : MoveAggregator} {deltas : List Delta} (d : Delta)
    (h : addAll agg deltas = some agg') : addAll agg (deltas ++ [d]) = agg'.add d.1 d.2 := by
  rw [addAll, List.foldlM_append, ← addAll, h]
  simp

/-- A cut depends on the scrolls pushed and sent, the thread and the sums only. -/
theorem Cut.congr (hcut : Cut groups taken rest s) (hpushed : s'.pushedScrolls = s.pushedScrolls)
    (hsent : s'.sentScrolls = s.sentScrolls) (htaken : Taken s'.scrollThread taken)
    (hagg : { s'.scrollAgg with running := true } = { s.scrollAgg with running := true }) :
    Cut groups taken rest s' :=
  ⟨hpushed.trans hcut.pushed, by rw [hsent]; exact hcut.sent, htaken, hagg ▸ hcut.rest⟩

private theorem Cut.push {ev : InputEvent} (hcut : Cut groups taken rest s)
    (h : s.pushEvent ev = some s') : ∃ rest', Cut groups taken rest' s' := by
  rcases pushEvent_cases h with ⟨-, rfl⟩ | ⟨hmove, agg, -, rfl⟩ | ⟨hscroll, agg, hagg, rfl⟩ |
    ⟨-, hscroll, rfl⟩
  · exact ⟨rest, hcut⟩
  · have hscroll := isAggregated_of_ne hmove (show InputEventAction.move ≠ .scroll by decide)
    refine ⟨rest, hcut.congr ?_ rfl hcut.taken rfl⟩
    simp [pushedScrolls, hscroll]
  · -- the scroll is added to what the aggregator holds
    refine ⟨rest ++ [(ev.dx, ev.dy)], ?_, hcut.sent, hcut.taken, ?_⟩
    · rw [← List.append_assoc, ← hcut.pushed]
      simp [pushedScrolls, hscroll]
    · rw [addAll_concat _ hcut.rest]
      exact add_running hagg
  · refine ⟨rest, hcut.congr ?_ ?_ hcut.taken rfl⟩
    · simp [pushedScrolls, hscroll]
    · simp only [sentScrolls, unreliable]
      cases s.communicationService <;> simp

private theorem Cut.scrollLoop (hI : Invariant s) (hcut : Cut groups taken rest s)
    (h : s.scrollLoop = some s') : ∃ groups' taken' rest', Cut groups' taken' rest' s' := by
  obtain ⟨worker, hworker, h⟩ := Option.bind_eq_some_iff.1 h
  obtain ⟨⟨worker', agg', sent⟩, hloop, h⟩ := Option.bind_eq_some_iff.1 h
  obtain rfl := Option.some.inj h
  have htaken := hcut.taken
  rw [hworker] at htaken
  rw [hI.communicationService_of_thread (Or.inr hworker)] at hloop
  cases worker with
  | test =>
    obtain ⟨rfl, rfl, rfl⟩ : _ ∧ _ ∧ _ := by simpa [loopStep] using hloop
    refine ⟨groups, taken, rest, hcut.congr rfl ?_ ?_ rfl⟩
    · simp [sentScrolls, unreliable]
    · cases s.scrollAgg.running <;> exact htaken
  | take =>
    -- what the aggregator held is taken
    obtain ⟨rfl, rfl, rfl⟩ : _ ∧ _ ∧ _ := by simpa [loopStep] using hloop
    obtain rfl : taken = [] := htaken
    obtain ⟨events, hevents, hsent⟩ := hcut.sent
    refine ⟨groups, rest, [], ?_, ⟨events, hevents, ?_⟩, hcut.rest, rfl⟩
    · simpa [pushedScrolls] using hcut.pushed
    · simpa [sentScrolls, unreliable] using hsent
  | send dx dy =>
    -- what was taken is sent as one group
    obtain ⟨rfl, rfl, rfl⟩ : _ ∧ _ ∧ _ := by simpa [loopStep] using hloop
    obtain ⟨events, hevents, hsent⟩ := hcut.sent
    refine ⟨groups ++ [taken], [], rest, ?_, ?_, rfl, hcut.rest⟩
    · simpa [pushedScrolls] using hcut.pushed
    · refine ⟨events ++ [if dx = 0 ∧ dy = 0 then [] else [⟨.mouse, .scroll, 0, dx, dy⟩]], ?_, ?_⟩
      · rw [List.mapM_append, hevents]
        simp [takeGroup_of_addAll htaken]
      · rw [List.flatten_append, ← hsent]
        simp only [sentScrolls, unreliable]
        split <;> simp [isAggregated]
  | finished => cases hloop

private theorem Cut.step {l : Step} (hI : Invariant s) (hcut : Cut groups taken rest s)
    (h : step s l = some s') : ∃ groups' taken' rest', Cut groups' taken' rest' s' := by
  cases l with
  | start service =>
    obtain ⟨hnone, h⟩ := Option.ite_none_right_eq_some.1 h
    obtain rfl := Option.some.inj h
    have htaken : taken = [] := by
      have htaken := hcut.taken
      rwa [hnone.2.1] at htaken
    cases service with
    | true => exact ⟨groups, taken, rest, hcut.congr rfl rfl htaken rfl⟩
    | false => exact ⟨groups, taken, rest, hcut.congr rfl rfl hcut.taken rfl⟩
  | push ev =>
    obtain ⟨-, h⟩ := Option.ite_none_left_eq_some.1 h
    obtain ⟨rest', hcut'⟩ := hcut.push h
    exact ⟨groups, taken, rest', hcut'⟩
  | moveLoop =>
    obtain ⟨worker, hworker, h⟩ := Option.bind_eq_some_iff.1 h
    obtain ⟨⟨worker', agg', sent⟩, hloop, h⟩ := Option.bind_eq_some_iff.1 h
    obtain rfl := Option.some.inj h
    rw [hI.communicationService_of_thread (Or.inl hworker)] at hloop
    obtain ⟨hall, -⟩ := loopStep_spec hloop
    refine ⟨groups, taken, rest, hcut.congr rfl ?_ hcut.taken rfl⟩
    -- no move is a scroll
    have hnone : (sent.map SentEvent.event).filter (fun ev => isAggregated ev .scroll) = [] := by
      rw [List.filter_eq_nil_iff]
      intro ev hev
      obtain ⟨e, he, rfl⟩ := List.mem_map.1 hev
      rw [isAggregated_of_ne (hall e he).2 (by decide)]
      exact Bool.false_ne_true
    rw [sentScrolls, unreliable, unreliable_append hall, List.filter_append, hnone,
      List.append_nil]
    rfl
  | scrollLoop => exact hcut.scrollLoop hI h
  | stop =>
    obtain ⟨-, h⟩ := Option.ite_none_left_eq_some.1 h
    obtain rfl := Option.some.inj h
    rw [SenderFlow.stop]
    split <;> exact ⟨groups, taken, rest, hcut.congr rfl rfl hcut.taken rfl⟩
  | stopJoined =>
    obtain ⟨hjoin, h⟩ := Option.ite_none_right_eq_some.1 h
    obtain rfl := Option.some.inj h
    have htaken : taken = [] := by
      have htaken := hcut.taken
      rwa [hjoin.2.2] at htaken
    exact ⟨groups, taken, rest, hcut.congr rfl rfl htaken rfl⟩

/-- In every reachable state the takings of `scroll_loop` have cut the scrolls pushed into
groups, and the scrolls sent are what the takings made of them. -/
theorem Cut.run {ls : List Step} (h : machine.run init ls = some s) :
    ∃ groups taken rest, Cut groups taken rest s := by
  refine Machine.run_induction (M := machine)
    (motive := fun _ s => ∃ groups taken rest, Cut groups taken rest s) ?_ ?_ h
  · exact ⟨[], [], [], rfl, ⟨[], rfl, rfl⟩, rfl, rfl⟩
  · intro ls t l t' ht ⟨groups, taken, rest, hcut⟩ hstep
    exact hcut.step (Invariant.run ht) hstep

/-- What is injected over the groups of a cut is what the emitter injects for the scrolls sent. -/
theorem Cut.injected (hcut : Cut groups taken rest s) : injected groups =
    (s.sentScrolls.mapM (WindowsEmitter.emit true)).map fun emitted =>
      emitted.flatMap Prod.snd := by
  obtain ⟨events, hevents, hsent⟩ := hcut.sent
  rw [hsent]
  clear hcut hsent
  induction groups generalizing events with
  | nil =>
    obtain rfl := Option.some.inj hevents
    rfl
  | cons group groups ih =>
    rw [List.mapM_cons] at hevents
    obtain ⟨first, hfirst, hevents⟩ := Option.bind_eq_some_iff.1 hevents
    obtain ⟨others, hothers, hevents⟩ := Option.bind_eq_some_iff.1 hevents
    obtain rfl := Option.some.inj hevents
    rw [injected_cons, ih others hothers, injectGroup, hfirst, List.flatten_cons,
      List.mapM_append]
    simp only [Option.bind_eq_bind, Option.bind_some]
    cases first.mapM (WindowsEmitter.emit true) with
    | none => rfl
    | some emitted => cases others.flatten.mapM (WindowsEmitter.emit true) <;> simp

end SenderFlow

open SenderFlow in
/-- Coalescing and scrolling on Windows. Whatever scrolls are pushed and however the takings of
`scroll_loop` cut them into groups, if all sums times 120 are in the range of `int`: what the
emitter injects is defined, its vertical amount is 120 times the sum of all `dy`, and its
horizontal amount is 120 times the sum of all `dx` if and only if the horizontal sums of the
groups with a vertical sum other than zero add up to zero. -/
theorem coalesced_scroll_iff {groups : List (List Delta)} (hfits : ∀ group ∈ groups, Fits group) :
    ∃ inputs, injected groups = some inputs ∧
      WindowsEmitter.wheelTotal inputs = 120 * totalDy groups.flatten ∧
      (WindowsEmitter.hWheelTotal inputs = 120 * totalDx groups.flatten ↔
        ((groups.filter fun group => totalDy group ≠ 0).map totalDx).sum = 0) := by
  obtain ⟨inputs, hinputs, hv, hh⟩ := injected_spec hfits
  refine ⟨inputs, hinputs, hv.trans (mul_comm _ _), ?_⟩
  rw [hh, totalDx_flatten]
  omega

open SenderFlow in
/-- A vertical scroll, and then two horizontal ones in one group, are injected exactly. -/
theorem coalesced_scroll_iff_separate : ∃ inputs,
    injected [[(0, 2)], [(3, 0), (1, 0)]] = some inputs ∧
      WindowsEmitter.wheelTotal inputs = 240 ∧ WindowsEmitter.hWheelTotal inputs = 480 := by
  have hfits : ∀ group ∈ [[((0 : Int32), (2 : Int32))], [(3, 0), (1, 0)]], Fits group := by
    decide
  obtain ⟨inputs, hinputs, hv, hh⟩ := coalesced_scroll_iff hfits
  exact ⟨inputs, hinputs, hv, hh.2 (by decide)⟩

open SenderFlow in
/-- A horizontal and a vertical scroll in one group: the horizontal one is dropped. -/
theorem diagonal_scroll_dropped : ¬ ∀ groups : List (List Delta),
    (∀ group ∈ groups, Fits group) → ∃ inputs, injected groups = some inputs ∧
      WindowsEmitter.wheelTotal inputs = 120 * totalDy groups.flatten ∧
      WindowsEmitter.hWheelTotal inputs = 120 * totalDx groups.flatten := by
  intro hexact
  obtain ⟨inputs, hinputs, -, hh⟩ := hexact [[(1, 0), (0, 1)]] (by decide)
  have hdropped : ∃ inputs ∈ injected [[(1, 0), (0, 1)]],
      WindowsEmitter.hWheelTotal inputs ≠ 120 * totalDx [[(1, 0), (0, 1)]].flatten := by
    decide
  obtain ⟨inputs', hinputs', hne⟩ := hdropped
  obtain rfl : inputs = inputs' := Option.some.inj (hinputs.symm.trans hinputs')
  exact hne hh

end Keyleport
