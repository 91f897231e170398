import Keyleport.Lib.Machine
import Keyleport.Utils.EventEmitter

/-!
# Emission and re-entrant calls

A program over one event emitter whose callbacks call it again. `emit` copies the callbacks under
the lock and invokes the copies without it, so a callback may subscribe, unsubscribe, clear the
list or emit, which puts one emission inside another. What the callbacks do is not given: between
the start of a callback and its return there may be any calls.

* `Emission.machine`: the calls, nested as a stack, one callback at a time.
* `Emission.Ids`: the ids issued so far.
* `Emission.Delivers`: what an emission has invoked, and has yet to invoke.
* `Emission.ownSteps_add_left_le`: how many steps an emission can take.
* `emission_reentrant`: an emission invokes the callbacks of its snapshot, and ends.
-/

namespace Keyleport

/-- A call of `emit` in progress. -/
structure EmitFrame (C : Type) where
  /-- Which emission it is. -/
  index : ℕ
  /-- What is left of `snapshot`. -/
  remaining : List (Option C)
  /-- Whether one of its callbacks is running. -/
  inCallback : Bool
deriving DecidableEq, Repr

/-- An emitter and the emissions in progress. -/
structure Emission (C : Type) where
  emitter : EventEmitter C
  /-- The emissions in progress, innermost first. -/
  frames : List (EmitFrame C)
  /-- The emissions started. -/
  emissions : ℕ
  /-- The callbacks invoked, each with its emission, oldest first. -/
  invoked : List (ℕ × C)
  /-- The ids that `subscribe` has returned, oldest first. -/
  issued : List UInt64
deriving DecidableEq, Repr

namespace Emission

variable {C : Type}

/-- A new emitter. -/
def start : Emission C := ⟨.empty, [], 0, [], []⟩

/-- The steps of a program over an emitter. -/
inductive Step (C : Type) where
  /-- The program, or a callback that is running, changes the subscribers. -/
  | call (call : EventEmitter.Call C)
  /-- The program, or a callback that is running, calls `emit`: the snapshot is taken. -/
  | emit
  /-- The innermost emission comes to the next callback of its snapshot. -/
  | next
  /-- The callback of the innermost emission returns. -/
  | returns
  /-- The innermost emission has come to the end of its snapshot, and `emit` returns. -/
  | finish
deriving DecidableEq, Repr

/-- The program can call the emitter: outside `emit`, or in a callback. -/
def canCall (s : Emission C) : Bool :=
  match s.frames with
  | [] => true
  | frame :: _ => frame.inCallback

/-- The id that a call returns, if it is a subscription. -/
def drawn (e : EventEmitter C) : EventEmitter.Call C → List UInt64
  | .subscribe cb => [(e.subscribe cb).1]
  | .unsubscribe _ | .clearSubscribers => []

/-- The `snapshot` of `emit`. -/
def snapshot (e : EventEmitter C) : List (Option C) :=
  e.subscribers.map SubscriptionEntry.callback

/-- One step. -/
def step (s : Emission C) : Step C → Option (Emission C)
  | .call call =>
      if s.canCall then some { s with
        emitter := s.emitter.apply call
        issued := s.issued ++ drawn s.emitter call }
      else none
  | .emit =>
      -- the copy is taken under the lock, and later changes of the list do not reach it
      if s.canCall then some { s with
        frames := ⟨s.emissions, snapshot s.emitter, false⟩ :: s.frames
        emissions := s.emissions + 1 }
      else none
  | .next =>
      match s.frames with
      -- an empty function is passed over
      | ⟨index, none :: remaining, false⟩ :: outer =>
          some { s with frames := ⟨index, remaining, false⟩ :: outer }
      | ⟨index, some cb :: remaining, false⟩ :: outer =>
          some { s with
            frames := ⟨index, remaining, true⟩ :: outer
            invoked := s.invoked ++ [(index, cb)] }
      | _ => none
  | .returns =>
      match s.frames with
      | ⟨index, remaining, true⟩ :: outer =>
          some { s with frames := ⟨index, remaining, false⟩ :: outer }
      | _ => none
  | .finish =>
      match s.frames with
      | ⟨_, [], false⟩ :: outer => some { s with frames := outer }
      | _ => none

/-- Programs over an emitter, as a machine. -/
def machine (C : Type) : Machine (Emission C) (Step C) := ⟨step⟩

/-- The callbacks an emission has invoked. -/
def invokedBy (s : Emission C) (index : ℕ) : List C :=
  (s.invoked.filter fun e => e.1 = index).map Prod.snd

/-- The non-empty callbacks an emission has yet to come to; none once it has returned. -/
def remainingOf (s : Emission C) (index : ℕ) : List C :=
  (s.frames.filter fun frame => frame.index = index).flatMap fun frame =>
    frame.remaining.filterMap id

/-- A step that subscribes. -/
def Step.isSubscribe : Step C → Bool
  | .call c => c.isSubscribe
  | .emit | .next | .returns | .finish => false

/-- A step of the innermost emission: its loop goes on, its callback returns, or it returns. -/
def Step.isOwn : Step C → Bool
  | .next | .returns | .finish => true
  | .call _ | .emit => false

/-- Whether a step is one of an emission's own. -/
def moves (s : Emission C) (index : ℕ) (l : Step C) : Bool :=
  l.isOwn && s.frames.head?.any fun frame => frame.index = index

/-- How many of several steps are an emission's own. -/
def ownSteps (index : ℕ) : Emission C → List (Step C) → ℕ
  | _, [] => 0
  | s, l :: ls =>
      (if s.moves index l then 1 else 0) +
        match step s l with
        | some s' => ownSteps index s' ls
        | none => 0

/-! ## What the steps do -/

variable {s s' : Emission C}

theorem step_call {call : EventEmitter.Call C} (h : step s (.call call) = some s') :
    s' = { s with
      emitter := s.emitter.apply call
      issued := s.issued ++ drawn s.emitter call } := by
  simp only [step] at h
  split at h
  next => exact (Option.some.inj h).symm
  next => cases h

theorem step_emit (h : step s .emit = some s') :
    s' = { s with
      frames := ⟨s.emissions, snapshot s.emitter, false⟩ :: s.frames
      emissions := s.emissions + 1 } := by
  simp only [step] at h
  split at h
  next => exact (Option.some.inj h).symm
  next => cases h

theorem step_next (h : step s .next = some s') : ∃ index fn remaining outer,
    s.frames = ⟨index, fn :: remaining, false⟩ :: outer ∧
      (fn = none ∧ s' = { s with frames := ⟨index, remaining, false⟩ :: outer } ∨
        ∃ cb, fn = some cb ∧ s' = { s with
          frames := ⟨index, remaining, true⟩ :: outer
          invoked := s.invoked ++ [(index, cb)] }) := by
  simp only [step] at h
  split at h
  next index remaining outer hframes =>
    exact ⟨index, none, remaining, outer, hframes, Or.inl ⟨rfl, (Option.some.inj h).symm⟩⟩
  next index cb remaining outer hframes =>
    exact ⟨index, some cb, remaining, outer, hframes,
      Or.inr ⟨cb, rfl, (Option.some.inj h).symm⟩⟩
  next => cases h

theorem step_returns (h : step s .returns = some s') : ∃ index remaining outer,
    s.frames = ⟨index, remaining, true⟩ :: outer ∧
      s' = { s with frames := ⟨index, remaining, false⟩ :: outer } := by
  simp only [step] at h
  split at h
  next index remaining outer hframes =>
    exact ⟨index, remaining, outer, hframes, (Option.some.inj h).symm⟩
  next => cases h

theorem step_finish (h : step s .finish = some s') : ∃ index outer,
    s.frames = ⟨index, [], false⟩ :: outer ∧ s' = { s with frames := outer } := by
  simp only [step] at h
  split at h
  next index outer hframes => exact ⟨index, outer, hframes, (Option.some.inj h).symm⟩
  next => cases h

/-- Only a call changes the emitter or issues an id. -/
theorem step_emitter {l : Step C} (hl : ∀ c, l ≠ .call c) (h : step s l = some s') :
    s'.emitter = s.emitter ∧ s'.issued = s.issued := by
  cases l with
  | call c => exact absurd rfl (hl c)
  | emit =>
    obtain rfl := step_emit h
    exact ⟨rfl, rfl⟩
  | next =>
    obtain ⟨index, fn, remaining, outer, -, ⟨-, rfl⟩ | ⟨cb, -, rfl⟩⟩ := step_next h
    · exact ⟨rfl, rfl⟩
    · exact ⟨rfl, rfl⟩
  | returns =>
    obtain ⟨index, remaining, outer, -, rfl⟩ := step_returns h
    exact ⟨rfl, rfl⟩
  | finish =>
    obtain ⟨index, outer, -, rfl⟩ := step_finish h
    exact ⟨rfl, rfl⟩

/-! ## The ids -/

/-- After `n` subscriptions the ids `1` to `n` are issued, in this order. -/
structure Ids (n : ℕ) (s : Emission C) : Prop where
  issued : s.issued.map UInt64.toNat = List.range' 1 n
  emitter : s.emitter.Issued n

/-- A step issues the next id, if it subscribes. -/
theorem Ids.step {n : ℕ} {l : Step C} (hI : Ids n s) (h : step s l = some s')
    (hn : n + (if l.isSubscribe then 1 else 0) < 2 ^ 64) :
    Ids (n + if l.isSubscribe then 1 else 0) s' := by
  obtain ⟨hissued, hemitter⟩ := hI
  cases l with
  | call c =>
    obtain rfl := step_call h
    refine ⟨?_, hemitter.apply c hn⟩
    show (s.issued ++ drawn s.emitter c).map UInt64.toNat = _
    rw [List.map_append, hissued]
    -- only a subscription adds to the ids issued
    cases c with
    | subscribe cb =>
      show _ ++ [(s.emitter.subscribe cb).1.toNat] = List.range' 1 (n + 1)
      rw [(hemitter.subscribe hn cb).1, List.range'_concat, Nat.one_mul, Nat.add_comm]
    | unsubscribe id => exact List.append_nil _
    | clearSubscribers => exact List.append_nil _
  | emit | next | returns | finish =>
    obtain ⟨hsame, hissued'⟩ := step_emitter (fun c hc => by cases hc) h
    exact ⟨hissued' ▸ hissued, hsame ▸ hemitter⟩

/-- The account of the ids after every run with fewer than `2 ^ 64` subscriptions. -/
theorem Ids.of_run {ls : List (Step C)} (h : (machine C).run start ls = some s)
    (hls : ls.countP Step.isSubscribe < 2 ^ 64) : Ids (ls.countP Step.isSubscribe) s := by
  apply Machine.run_induction (M := machine C) (motive := fun ls s =>
    ls.countP Step.isSubscribe < 2 ^ 64 → Ids (ls.countP Step.isSubscribe) s) _ _ h hls
  · intro _
    exact ⟨rfl, EventEmitter.Issued.empty⟩
  · intro ls t l t' _ ih ht hn
    rw [List.countP_append, List.countP_singleton] at hn ⊢
    exact (ih (Nat.lt_of_le_of_lt (Nat.le_add_right _ _) hn)).step ht hn

/-! ## Delivery -/

/-- What an emission has yet to come to, when the innermost one is known. -/
theorem remainingOf_of_frames {frame : EmitFrame C} {outer : List (EmitFrame C)}
    (hframes : s.frames = frame :: outer) (index : ℕ) :
    s.remainingOf index =
      (if frame.index = index then frame.remaining.filterMap id else []) ++
        remainingOf { s with frames := outer } index := by
  unfold remainingOf
  rw [hframes]
  by_cases hindex : frame.index = index
  · rw [List.filter_cons_of_pos (by simpa using hindex), List.flatMap_cons, if_pos hindex]
  · rw [List.filter_cons_of_neg (by simpa using hindex), if_neg hindex, List.nil_append]

/-- What an emission has invoked, when the last callback invoked is known. -/
theorem invokedBy_of_invoked {i : ℕ} {cb : C} (hinvoked : s'.invoked = s.invoked ++ [(i, cb)])
    (index : ℕ) : s'.invokedBy index = s.invokedBy index ++ if i = index then [cb] else [] := by
  unfold invokedBy
  rw [hinvoked, List.filter_append, List.map_append]
  by_cases hindex : i = index
  · rw [if_pos hindex, List.filter_cons_of_pos (by simpa using hindex)]
    rfl
  · rw [if_neg hindex, List.filter_cons_of_neg (by simpa using hindex)]
    rfl

/-- The emissions in progress and those logged have been started, an inner one after an outer
one. -/
structure Started (s : Emission C) : Prop where
  frames : ∀ frame ∈ s.frames, frame.index < s.emissions
  nested : (s.frames.map EmitFrame.index).Pairwise (· > ·)
  invoked : ∀ e ∈ s.invoked, e.1 < s.emissions

theorem Started.step {l : Step C} (hI : Started s) (h : step s l = some s') : Started s' := by
  obtain ⟨hframes, hnested, hinvoked⟩ := hI
  cases l with
  | call c =>
    obtain rfl := step_call h
    exact ⟨hframes, hnested, hinvoked⟩
  | emit =>
    obtain rfl := step_emit h
    refine ⟨List.forall_mem_cons.2 ⟨Nat.lt_succ_self _, fun frame hframe => ?_⟩,
      List.pairwise_cons.2 ⟨fun i hi => ?_, hnested⟩, fun e he => ?_⟩
    · exact Nat.lt_succ_of_lt (hframes frame hframe)
    · obtain ⟨frame, hframe, rfl⟩ := List.mem_map.1 hi
      exact hframes frame hframe
    · exact Nat.lt_succ_of_lt (hinvoked e he)
  | next =>
    obtain ⟨index, fn, remaining, outer, heq, hs'⟩ := step_next h
    rw [heq, List.forall_mem_cons] at hframes
    rw [heq] at hnested
    obtain ⟨-, rfl⟩ | ⟨cb, -, rfl⟩ := hs'
    · exact ⟨List.forall_mem_cons.2 hframes, hnested, hinvoked⟩
    · refine ⟨List.forall_mem_cons.2 hframes, hnested, List.forall_mem_append.2 ⟨hinvoked, ?_⟩⟩
      exact List.forall_mem_singleton.2 hframes.1
  | returns =>
    obtain ⟨index, remaining, outer, heq, rfl⟩ := step_returns h
    rw [heq, List.forall_mem_cons] at hframes
    rw [heq] at hnested
    exact ⟨List.forall_mem_cons.2 hframes, hnested, hinvoked⟩
  | finish =>
    obtain ⟨index, outer, heq, rfl⟩ := step_finish h
    rw [heq, List.forall_mem_cons] at hframes
    rw [heq] at hnested
    exact ⟨hframes.2, hnested.of_cons, hinvoked⟩

theorem Started.of_run {ls : List (Step C)} (h : (machine C).run start ls = some s) : Started s :=
  Machine.run_invariant (M := machine C) (fun _ _ _ hI hstep => hI.step hstep)
    ⟨fun _ hframe => absurd hframe List.not_mem_nil, List.Pairwise.nil,
      fun _ he => absurd he List.not_mem_nil⟩ h

/-- An emission that is started has invoked a first part of `callbacks`, and has the rest to come
to. -/
structure Delivers (index : ℕ) (callbacks : List C) (s : Emission C) : Prop where
  started : index < s.emissions
  delivered : s.invokedBy index ++ s.remainingOf index = callbacks

/-- A new emission has all callbacks to come to. -/
theorem Delivers.of_emit (hI : Started s) (h : step s .emit = some s') :
    Delivers s.emissions s.emitter.callbacks s' := by
  obtain rfl := step_emit h
  refine ⟨Nat.lt_succ_self _, ?_⟩
  -- the index is new, so nothing is logged and nothing is in progress under it
  have hinvoked : s.invoked.filter (fun e => e.1 = s.emissions) = [] := by
    rw [List.filter_eq_nil_iff]
    intro e he
    simpa using (hI.invoked e he).ne
  have hframes : s.frames.filter (fun frame => frame.index = s.emissions) = [] := by
    rw [List.filter_eq_nil_iff]
    intro frame hframe
    simpa using (hI.frames frame hframe).ne
  rw [remainingOf_of_frames rfl, if_pos rfl]
  unfold invokedBy remainingOf
  rw [hinvoked, hframes, snapshot, List.filterMap_map]
  exact List.append_nil _

/-- Every step keeps what an emission delivers: a call does not touch the snapshots, a new emission
is another one, and a callback moves from those to come to those invoked. -/
theorem Delivers.step {index : ℕ} {callbacks : List C} {l : Step C}
    (hI : Delivers index callbacks s) (h : step s l = some s') :
    Delivers index callbacks s' := by
  obtain ⟨hstarted, hdelivered⟩ := hI
  cases l with
  | call c =>
    obtain rfl := step_call h
    exact ⟨hstarted, hdelivered⟩
  | emit =>
    obtain rfl := step_emit h
    refine ⟨Nat.lt_succ_of_lt hstarted, ?_⟩
    -- the snapshot of the emission inside is not ours
    rw [remainingOf_of_frames rfl, if_neg hstarted.ne']
    exact hdelivered
  | next =>
    obtain ⟨i, fn, remaining, outer, heq, hs'⟩ := step_next h
    rw [remainingOf_of_frames heq] at hdelivered
    obtain ⟨rfl, rfl⟩ | ⟨cb, rfl, rfl⟩ := hs'
    · refine ⟨hstarted, ?_⟩
      rw [remainingOf_of_frames rfl]
      exact hdelivered
    · refine ⟨hstarted, ?_⟩
      rw [remainingOf_of_frames rfl, invokedBy_of_invoked rfl, List.append_assoc]
      by_cases hindex : i = index
      · -- the callback was the first to come to, and is now the last invoked
        rw [if_pos hindex] at hdelivered
        rw [if_pos hindex, if_pos hindex]
        exact hdelivered
      · rw [if_neg hindex] at hdelivered
        rw [if_neg hindex, if_neg hindex]
        exact hdelivered
  | returns =>
    obtain ⟨i, remaining, outer, heq, rfl⟩ := step_returns h
    rw [remainingOf_of_frames heq] at hdelivered
    refine ⟨hstarted, ?_⟩
    rw [remainingOf_of_frames rfl]
    exact hdelivered
  | finish =>
    obtain ⟨i, outer, heq, rfl⟩ := step_finish h
    rw [remainingOf_of_frames heq] at hdelivered
    refine ⟨hstarted, ?_⟩
    -- nothing was left to come to
    rw [List.filterMap_nil, ite_self] at hdelivered
    exact hdelivered

/-- An emission delivers the callbacks of the state it started in, after every further run. -/
theorem Delivers.of_run {earlier inside : List (Step C)} {before : Emission C}
    (hbefore : (machine C).run start earlier = some before)
    (h : (machine C).run start (earlier ++ .emit :: inside) = some s) :
    Delivers before.emissions before.emitter.callbacks s := by
  rw [Machine.run_append, hbefore, Option.bind_some, Machine.run_cons] at h
  obtain ⟨t, ht, hrun⟩ := Option.bind_eq_some_iff.1 h
  exact Machine.run_invariant (M := machine C) (fun _ _ _ hI hstep => hI.step hstep)
    (Delivers.of_emit (.of_run hbefore) ht) hrun

/-- An emission that is no longer in progress has nothing to come to. -/
theorem Delivers.invokedBy_eq {index : ℕ} {callbacks : List C} (hI : Delivers index callbacks s)
    (hreturned : ∀ frame ∈ s.frames, frame.index ≠ index) : s.invokedBy index = callbacks := by
  have hnone : s.frames.filter (fun frame => frame.index = index) = [] := by
    rw [List.filter_eq_nil_iff]
    intro frame hframe
    simpa using hreturned frame hframe
  have hall := hI.delivered
  rw [remainingOf, hnone] at hall
  exact (List.append_nil _).symm.trans hall

/-! ## The end of an emission -/

/-- The steps that a call of `emit` has left at most: two for each callback, and its return. -/
def leftIn (frame : EmitFrame C) : ℕ :=
  2 * frame.remaining.length + (if frame.inCallback then 1 else 0) + 1

/-- The steps that an emission has left at most; none once it has returned. -/
def left (s : Emission C) (index : ℕ) : ℕ :=
  s.frames.foldr (fun frame n => (if frame.index = index then leftIn frame else 0) + n) 0

theorem left_of_frames {frame : EmitFrame C} {outer : List (EmitFrame C)}
    (hframes : s.frames = frame :: outer) (index : ℕ) :
    s.left index =
      (if frame.index = index then leftIn frame else 0) +
        left { s with frames := outer } index := by
  rw [left, hframes]
  rfl

/-- An emission that is not in progress has nothing left. -/
theorem left_eq_zero {index : ℕ} (h : ∀ frame ∈ s.frames, frame.index ≠ index) :
    s.left index = 0 := by
  unfold left
  generalize s.frames = frames at h
  induction frames with
  | nil => rfl
  | cons frame frames ih =>
    obtain ⟨hne, hframes⟩ := List.forall_mem_cons.1 h
    rw [List.foldr_cons, if_neg hne, ih hframes]

theorem moves_of_frames {frame : EmitFrame C} {outer : List (EmitFrame C)} {l : Step C}
    (hframes : s.frames = frame :: outer) (hl : l.isOwn = true) (index : ℕ) :
    s.moves index l = decide (frame.index = index) := by
  rw [moves, hl, hframes]
  rfl

/-- An own step leaves fewer, and no other step leaves more. -/
theorem left_step {index : ℕ} {l : Step C} (hindex : index < s.emissions)
    (h : step s l = some s') :
    (if s.moves index l then 1 else 0) + s'.left index ≤ s.left index ∧ index < s'.emissions := by
  cases l with
  | call c =>
    obtain rfl := step_call h
    exact ⟨Nat.le_of_eq (Nat.zero_add _), hindex⟩
  | emit =>
    -- the emission inside is another one
    obtain rfl := step_emit h
    refine ⟨?_, Nat.lt_succ_of_lt hindex⟩
    rw [left_of_frames rfl, if_neg hindex.ne']
    simp [moves, Step.isOwn, left]
  | next =>
    obtain ⟨i, fn, remaining, outer, heq, hs'⟩ := step_next h
    rw [left_of_frames heq, moves_of_frames heq rfl]
    obtain ⟨-, rfl⟩ | ⟨cb, -, rfl⟩ := hs'
    · refine ⟨?_, hindex⟩
      rw [left_of_frames rfl]
      by_cases hi : i = index
      · simp [hi, leftIn, left]
        omega
      · simp [hi, left]
    · refine ⟨?_, hindex⟩
      rw [left_of_frames rfl]
      by_cases hi : i = index
      · simp [hi, leftIn, left]
        omega
      · simp [hi, left]
  | returns =>
    obtain ⟨i, remaining, outer, heq, rfl⟩ := step_returns h
    rw [left_of_frames heq, moves_of_frames heq rfl]
    refine ⟨?_, hindex⟩
    rw [left_of_frames rfl]
    by_cases hi : i = index
    · simp [hi, leftIn, left]
      omega
    · simp [hi, left]
  | finish =>
    obtain ⟨i, outer, heq, rfl⟩ := step_finish h
    rw [left_of_frames heq, moves_of_frames heq rfl]
    refine ⟨?_, hindex⟩
    by_cases hi : i = index
    · simp [hi, leftIn, left]
    · simp [hi, left]

/-- Whatever is done meanwhile, an emission takes no more steps of its own than it has left. -/
theorem ownSteps_add_left_le {index : ℕ} {ls : List (Step C)} (hindex : index < s.emissions)
    (h : (machine C).run s ls = some s') : ownSteps index s ls + s'.left index ≤ s.left index := by
  induction ls generalizing s with
  | nil =>
    obtain rfl := Option.some.inj h
    exact Nat.le_of_eq (Nat.zero_add _)
  | cons l ls ih =>
    obtain ⟨t, ht, hrun⟩ := Option.bind_eq_some_iff.1 h
    have ht : step s l = some t := ht
    obtain ⟨hleft, hindex'⟩ := left_step hindex ht
    have hrest := ih hindex' hrun
    simp only [ownSteps, ht]
    omega

/-- A new emission has its snapshot to go through. -/
theorem left_emit (hI : Started s) (h : step s .emit = some s') :
    s'.left s.emissions = 2 * s.emitter.subscribers.length + 1 := by
  obtain rfl := step_emit h
  have hnone : s.left s.emissions = 0 :=
    left_eq_zero fun frame hframe => (hI.frames frame hframe).ne
  rw [left_of_frames rfl, if_pos rfl]
  refine (congrArg _ hnone).trans ?_
  simp [leftIn, snapshot]

/-- The innermost emission can go on while no callback of it runs. -/
theorem exists_step_of_frames {frame : EmitFrame C} {outer : List (EmitFrame C)}
    (hframes : s.frames = frame :: outer) (hidle : frame.inCallback = false) :
    ∃ l s', (l = .next ∨ l = .finish) ∧ step s l = some s' := by
  obtain ⟨index, remaining, inCallback⟩ := frame
  obtain rfl : inCallback = false := hidle
  cases remaining with
  | nil => exact ⟨.finish, _, Or.inr rfl, by simp only [step, hframes]; rfl⟩
  | cons fn remaining =>
    cases fn with
    | none => exact ⟨.next, _, Or.inl rfl, by simp only [step, hframes]; rfl⟩
    | some cb => exact ⟨.next, _, Or.inl rfl, by simp only [step, hframes]; rfl⟩

/-- The innermost emission comes to its end if its callbacks return. -/
theorem exists_run_of_frames {frame : EmitFrame C} {outer : List (EmitFrame C)}
    (hframes : s.frames = frame :: outer) :
    ∃ own t, (∀ l ∈ own, Step.isOwn l = true) ∧ (machine C).run s own = some t ∧
      t.frames = outer := by
  obtain ⟨index, remaining, inCallback⟩ := frame
  -- a callback that runs returns first
  suffices hidle : ∀ s : Emission C, s.frames = ⟨index, remaining, false⟩ :: outer →
      ∃ own t, (∀ l ∈ own, Step.isOwn l = true) ∧ (machine C).run s own = some t ∧
        t.frames = outer by
    cases inCallback with
    | false => exact hidle s hframes
    | true =>
      have hreturn : (machine C).step s .returns =
          some { s with frames := ⟨index, remaining, false⟩ :: outer } := by
        simp only [machine, step, hframes]
      obtain ⟨own, t, hown, hrun, ht⟩ :=
        hidle { s with frames := ⟨index, remaining, false⟩ :: outer } rfl
      exact ⟨.returns :: own, t, List.forall_mem_cons.2 ⟨rfl, hown⟩,
        Option.bind_eq_some_iff.2 ⟨_, hreturn, hrun⟩, ht⟩
  clear hframes
  induction remaining with
  | nil =>
    intro s hs
    have hfinish : (machine C).step s .finish = some { s with frames := outer } := by
      simp only [machine, step, hs]
    exact ⟨[.finish], _, by simp [Step.isOwn], Option.bind_eq_some_iff.2 ⟨_, hfinish, rfl⟩, rfl⟩
  | cons fn remaining ih =>
    intro s hs
    cases fn with
    | none =>
      have hnext : (machine C).step s .next =
          some { s with frames := ⟨index, remaining, false⟩ :: outer } := by
        simp only [machine, step, hs]
      obtain ⟨own, t, hown, hrun, ht⟩ :=
        ih { s with frames := ⟨index, remaining, false⟩ :: outer } rfl
      exact ⟨.next :: own, t, List.forall_mem_cons.2 ⟨rfl, hown⟩,
        Option.bind_eq_some_iff.2 ⟨_, hnext, hrun⟩, ht⟩
    | some cb =>
      have hnext : (machine C).step s .next = some { s with
          frames := ⟨index, remaining, true⟩ :: outer
          invoked := s.invoked ++ [(index, cb)] } := by
        simp only [machine, step, hs]
      obtain ⟨own, t, hown, hrun, ht⟩ := ih { s with
        frames := ⟨index, remaining, false⟩ :: outer
        invoked := s.invoked ++ [(index, cb)] } rfl
      refine ⟨.next :: .returns :: own, t, ?_, ?_, ht⟩
      · exact List.forall_mem_cons.2 ⟨rfl, List.forall_mem_cons.2 ⟨rfl, hown⟩⟩
      · exact Option.bind_eq_some_iff.2 ⟨_, hnext, Option.bind_eq_some_iff.2 ⟨_, rfl, hrun⟩⟩

/-- So does every emission in progress, after those inside it. -/
theorem exists_run_of_append {inner outer : List (EmitFrame C)}
    (hframes : s.frames = inner ++ outer) :
    ∃ own t, (∀ l ∈ own, Step.isOwn l = true) ∧ (machine C).run s own = some t ∧
      t.frames = outer := by
  induction inner generalizing s with
  | nil => exact ⟨[], s, by simp, rfl, hframes⟩
  | cons frame inner ih =>
    obtain ⟨own, t, hown, hrun, ht⟩ := exists_run_of_frames hframes
    obtain ⟨own', t', hown', hrun', ht'⟩ := ih ht
    refine ⟨own ++ own', t', List.forall_mem_append.2 ⟨hown, hown'⟩, ?_, ht'⟩
    rw [Machine.run_append, hrun]
    exact hrun'

end Emission

/-! ## The main result -/

open Emission

/-- Emission is immune to re-entrant changes. Callbacks are arbitrary programs over the emitter,
nested emissions included. After every run from a new emitter with fewer than `2 ^ 64`
subscriptions the ids of the subscribers are increasing and at most `next_id_`, no id has been
issued twice, and `unsubscribe` removes exactly the entry with the id and keeps the order of the
others. And whatever is done after an emission has taken its snapshot, those of the callbacks
subscribed then that are not empty are the callbacks it has invoked, followed by those it has yet
to come to; when it has returned, they are those it has invoked, once each and in order.

It does return. The innermost emission can go on while no callback of it runs, and an emission
takes at most two steps for each subscriber of its snapshot and one more, whatever its callbacks do
meanwhile. So if the callbacks return, each emission in progress ends, with its snapshot invoked. -/
theorem emission_reentrant {C : Type} {ls : List (Emission.Step C)} {s : Emission C}
    (h : (machine C).run start ls = some s) :
    (ls.countP Step.isSubscribe < 2 ^ 64 →
      (s.emitter.subscribers.map SubscriptionEntry.id).Pairwise (· < ·) ∧
        (∀ e ∈ s.emitter.subscribers, e.id ≤ s.emitter.nextId) ∧
        s.issued.Nodup ∧
        ∀ id, (s.emitter.unsubscribe id).subscribers =
          s.emitter.subscribers.filter fun e => e.id ≠ id) ∧
      (∀ frame outer, s.frames = frame :: outer → frame.inCallback = false →
        ∃ l s', (l = .next ∨ l = .finish) ∧ step s l = some s') ∧
      ∀ earlier inside before, ls = earlier ++ .emit :: inside →
        (machine C).run start earlier = some before →
        s.invokedBy before.emissions ++ s.remainingOf before.emissions =
            before.emitter.callbacks ∧
          ((∀ frame ∈ s.frames, frame.index ≠ before.emissions) →
            s.invokedBy before.emissions = before.emitter.callbacks) ∧
          ownSteps before.emissions before (.emit :: inside) ≤
            2 * before.emitter.subscribers.length + 1 ∧
          ∀ inner frame outer, s.frames = inner ++ frame :: outer →
            frame.index = before.emissions →
            ∃ own t, (∀ l ∈ own, Step.isOwn l = true) ∧ (machine C).run s own = some t ∧
              t.frames = outer ∧ t.invokedBy before.emissions = before.emitter.callbacks := by
  refine ⟨fun hls => ?_, fun frame outer => exists_step_of_frames, ?_⟩
  · -- the ids issued are the numbers from 1 on
    obtain ⟨hissued, hemitter⟩ := Ids.of_run h hls
    refine ⟨hemitter.increasing, hemitter.le_nextId, ?_, hemitter.unsubscribe_subscribers⟩
    apply List.Nodup.of_map UInt64.toNat
    rw [hissued]
    exact List.nodup_range'
  · rintro earlier inside before rfl hbefore
    have hdelivers := Delivers.of_run hbefore h
    refine ⟨hdelivers.delivered, hdelivers.invokedBy_eq, ?_, ?_⟩
    · rw [Machine.run_append, hbefore, Option.bind_some, Machine.run_cons] at h
      obtain ⟨t, ht, hrun⟩ := Option.bind_eq_some_iff.1 h
      have ht : step before .emit = some t := ht
      have hown := ownSteps_add_left_le (Delivers.of_emit (.of_run hbefore) ht).started hrun
      rw [left_emit (.of_run hbefore) ht] at hown
      -- taking the snapshot is not yet a step of the emission
      simp only [ownSteps, ht, moves, Step.isOwn, Bool.false_and, Bool.false_eq_true, if_false]
      omega
    · intro inner frame outer hframes hindex
      have hinner : s.frames = (inner ++ [frame]) ++ outer := by rw [hframes, List.append_cons]
      obtain ⟨own, t, hown, hrun, ht⟩ := exists_run_of_append hinner
      have hall : (machine C).run start (earlier ++ .emit :: (inside ++ own)) = some t := by
        rw [← List.cons_append, ← List.append_assoc, Machine.run_append, h]
        exact hrun
      refine ⟨own, t, hown, hrun, ht, (Delivers.of_run hbefore hall).invokedBy_eq ?_⟩
      -- the emissions outside were started before
      intro frame' hframe' heq
      have hnested := (Started.of_run h).nested
      rw [hframes, List.map_append, List.map_cons, List.pairwise_append,
        List.pairwise_cons] at hnested
      have hlt := hnested.2.1.1 frame'.index (List.mem_map_of_mem (ht ▸ hframe'))
      rw [heq, hindex] at hlt
      exact absurd hlt (Nat.lt_irrefl _)

/-- Callbacks 5 and 6 are subscribed and there is an emission. Callback 5 unsubscribes both,
subscribes 7 and emits again. -/
def Emission.unsubscribed : List (Emission.Step ℕ) :=
  [.call (.subscribe (some 5)), .call (.subscribe (some 6))] ++
    .emit :: [.next, .call (.unsubscribe 1), .call (.unsubscribe 2),
      .call (.subscribe (some 7)), .emit, .next, .returns, .finish, .returns, .next, .returns,
      .finish]

/-- After this run callback 6 was invoked all the same, after the emission inside. -/
theorem emission_reentrant_unsubscribed : ∃ s,
    (machine ℕ).run start Emission.unsubscribed = some s ∧
      s.invoked = [(0, 5), (1, 7), (0, 6)] ∧ s.invokedBy 0 = [5, 6] := by
  have hrun : ∃ s ∈ (machine ℕ).run start Emission.unsubscribed,
      s.invoked = [(0, 5), (1, 7), (0, 6)] ∧ s.frames = [] := by
    decide
  obtain ⟨s, hs, hinvoked, hframes⟩ := hrun
  have hbefore : (machine ℕ).run start
      [.call (.subscribe (some 5)), .call (.subscribe (some 6))] =
        some ⟨⟨[⟨1, some 5⟩, ⟨2, some 6⟩], 2⟩, [], 0, [], [1, 2]⟩ := by
    decide
  obtain ⟨-, -, hemission⟩ := emission_reentrant hs
  obtain ⟨-, hreturned, -⟩ := hemission _ _ _ rfl hbefore
  refine ⟨s, hs, hinvoked, hreturned ?_⟩
  rw [hframes]
  simp

end Keyleport
