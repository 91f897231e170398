import Keyleport.Lib.Machine
import Mathlib.Data.Fin.Basic
import Mathlib.Data.List.Nodup

/-!
# Tasks for the UI thread

`gui/framework/ui_dispatch.cpp`: any thread posts a task, and the UI thread runs what was posted
when the window calls `process_ui_tasks` in a frame. The queue is locked for a push and for the
test and the pop of one iteration; the task itself runs without the lock, and may post further
tasks, as other threads may at any time.

* `UiDispatch.machine`: posts, and the UI thread one locked section or one call at a time.
* `UiDispatch.InOrder`: the tasks posted are those started, the one taken, and the queue.
* `UiThread.toStart`, `UiThread.fuel`: the tasks and the steps that a call has left.
* `uiTasks_in_order`: every task is run once, in order, and every call returns.
-/

namespace Keyleport

/-- `kMaxPerFrame`: the iterations of one call. -/
def kMaxPerFrame : ℕ := 8

/-- Where the UI thread is. -/
inductive UiThread (T : Type) where
  /-- Outside `process_ui_tasks`. -/
  | idle
  /-- At the test of the `for` loop. -/
  | loop (i : Fin (kMaxPerFrame + 1))
  /-- In an iteration, with the function it has taken from the queue. -/
  | taken (i : Fin kMaxPerFrame) (fn : Option T)
  /-- In an iteration, while its task runs. -/
  | running (i : Fin kMaxPerFrame)
deriving DecidableEq, Repr

/-- The queue and the UI thread. A task is a value of an arbitrary type `T`, and an empty
`std::function` is `none`. -/
structure UiDispatch (T : Type) where
  /-- `q()`. -/
  queue : List (Option T)
  thread : UiThread T
  /-- The tasks started, oldest first. -/
  started : List T
deriving DecidableEq, Repr

/-- The steps of a program with tasks. -/
inductive UiStep (T : Type) where
  /-- `post_to_ui` on any thread. -/
  | post (fn : Option T)
  /-- The window calls `process_ui_tasks`. -/
  | process
  /-- The UI thread tests the loop and takes a function under the lock, or leaves the loop. -/
  | iterate
  /-- It calls the function, if it is not empty. -/
  | call
  /-- The task returns. -/
  | returns
  /-- The task throws, which leaves `process_ui_tasks` as well. -/
  | throws
deriving DecidableEq, Repr

/-- The function taken from the queue and not called yet, if any. -/
def UiThread.inHand {T : Type} : UiThread T → List (Option T)
  | .taken _ fn => [fn]
  | _ => []

/-- How many tasks the UI thread may still start in the call of `process_ui_tasks`. -/
def UiThread.toStart {T : Type} : UiThread T → ℕ
  | .idle => 0
  | .loop i => kMaxPerFrame - i
  | .taken i _ => kMaxPerFrame - i
  | .running i => kMaxPerFrame - 1 - i

/-- How many steps the UI thread may still take in the call: three for each task, and the one
that leaves the loop. -/
def UiThread.fuel {T : Type} : UiThread T → ℕ
  | .idle => 0
  | .loop i => 3 * (kMaxPerFrame - i) + 1
  | .taken i _ => 3 * (kMaxPerFrame - i)
  | .running i => 3 * (kMaxPerFrame - i) - 1

/-- The task that a step posts. -/
def UiStep.posted {T : Type} : UiStep T → Option T
  | .post fn => fn
  | _ => none

/-- A step of the UI thread inside `process_ui_tasks`. -/
def UiStep.isFrame {T : Type} : UiStep T → Bool
  | .post _ | .process => false
  | .iterate | .call | .returns | .throws => true

namespace UiDispatch

variable {T : Type}

/-- Nothing is posted. -/
def start : UiDispatch T := ⟨[], .idle, []⟩

/-- `post_to_ui`. -/
def postToUi (s : UiDispatch T) (fn : Option T) : UiDispatch T :=
  match fn with
  -- an empty function is dropped before the lock is taken
  | none => s
  | some _ => { s with queue := s.queue ++ [fn] }

/-- The locked section of an iteration. -/
def takeFront (s : UiDispatch T) (i : Fin kMaxPerFrame) : UiDispatch T :=
  match s.queue with
  -- `break`, and the call returns
  | [] => { s with thread := .idle }
  | fn :: queue => { s with queue := queue, thread := .taken i fn }

/-- One step. -/
def step (s : UiDispatch T) : UiStep T → Option (UiDispatch T)
  | .post fn => some (s.postToUi fn)
  | .process =>
      match s.thread with
      | .idle => some { s with thread := .loop 0 }
      | _ => none
  | .iterate =>
      match s.thread with
      | .loop i => some (if h : i.val < kMaxPerFrame then s.takeFront ⟨i.val, h⟩
          else { s with thread := .idle })
      | _ => none
  | .call =>
      match s.thread with
      | .taken i none => some { s with thread := .loop i.succ }
      -- the task runs without the lock, so posts may come between this step and its return
      | .taken i (some task) =>
          some { s with thread := .running i, started := s.started ++ [task] }
      | _ => none
  | .returns =>
      match s.thread with
      | .running i => some { s with thread := .loop i.succ }
      | _ => none
  | .throws =>
      match s.thread with
      | .running _ => some { s with thread := .idle }
      | _ => none

/-- Programs with tasks, as a machine. -/
def machine (T : Type) : Machine (UiDispatch T) (UiStep T) := ⟨step⟩

/-! ## What the steps do -/

variable {s s' : UiDispatch T}

theorem step_process (h : step s .process = some s') :
    s.thread = .idle ∧ s' = { s with thread := .loop 0 } := by
  simp only [step] at h
  split at h
  next hthread => exact ⟨hthread, (Option.some.inj h).symm⟩
  next => cases h

theorem step_iterate (h : step s .iterate = some s') : ∃ i, s.thread = .loop i ∧
    (s' = { s with thread := .idle } ∨
      ∃ (hi : i.val < kMaxPerFrame) (fn : Option T) (queue : List (Option T)),
        s.queue = fn :: queue ∧ s' = { s with queue := queue, thread := .taken ⟨i, hi⟩ fn }) := by
  simp only [step] at h
  split at h
  next i hthread =>
    refine ⟨i, hthread, ?_⟩
    rw [← Option.some.inj h]
    split
    next hi =>
      unfold takeFront
      cases hqueue : s.queue with
      | nil => exact Or.inl rfl
      | cons fn queue => exact Or.inr ⟨hi, fn, queue, rfl, rfl⟩
    next => exact Or.inl rfl
  next => cases h

theorem step_call (h : step s .call = some s') : ∃ i fn, s.thread = .taken i fn ∧
    (fn = none ∧ s' = { s with thread := .loop i.succ } ∨
      ∃ task, fn = some task ∧
        s' = { s with thread := .running i, started := s.started ++ [task] }) := by
  simp only [step] at h
  split at h
  next i hthread => exact ⟨i, none, hthread, Or.inl ⟨rfl, (Option.some.inj h).symm⟩⟩
  next i task hthread =>
    exact ⟨i, some task, hthread, Or.inr ⟨task, rfl, (Option.some.inj h).symm⟩⟩
  next => cases h

theorem step_returns (h : step s .returns = some s') :
    ∃ i, s.thread = .running i ∧ s' = { s with thread := .loop i.succ } := by
  simp only [step] at h
  split at h
  next i hthread => exact ⟨i, hthread, (Option.some.inj h).symm⟩
  next => cases h

theorem step_throws (h : step s .throws = some s') :
    ∃ i, s.thread = .running i ∧ s' = { s with thread := .idle } := by
  simp only [step] at h
  split at h
  next i hthread => exact ⟨i, hthread, (Option.some.inj h).symm⟩
  next => cases h

/-! ## Order -/

/-- The tasks posted are, in this order, those started, the one taken, and those in the queue. -/
def InOrder (posted : List T) (s : UiDispatch T) : Prop :=
  posted.map some = s.started.map some ++ s.thread.inHand ++ s.queue

/-- No empty function gets into the hands of the UI thread. -/
theorem InOrder.fn_ne_none {posted : List T} {i : Fin kMaxPerFrame} {fn : Option T}
    (hI : InOrder posted s) (hthread : s.thread = .taken i fn) : fn ≠ none := by
  have hmem : fn ∈ posted.map some := by
    rw [hI, hthread]
    simp [UiThread.inHand]
  obtain ⟨task, -, rfl⟩ := List.mem_map.1 hmem
  exact Option.some_ne_none task

/-- Each step keeps the order, with the task that it posts at the end. -/
theorem InOrder.step {posted : List T} {l : UiStep T} (hI : InOrder posted s)
    (h : step s l = some s') : InOrder (posted ++ l.posted.toList) s' := by
  cases l with
  | post fn =>
    obtain rfl := Option.some.inj h
    cases fn with
    | none =>
      rw [UiStep.posted, Option.toList_none, List.append_nil]
      exact hI
    | some task =>
      show (posted ++ [task]).map some = _ ++ _ ++ (s.queue ++ [some task])
      rw [List.map_append, hI, List.append_assoc]
      rfl
  | process =>
    obtain ⟨hthread, rfl⟩ := step_process h
    simpa [InOrder, UiStep.posted, hthread, UiThread.inHand] using hI
  | iterate =>
    obtain ⟨i, hthread, rfl | ⟨hi, fn, queue, hqueue, rfl⟩⟩ := step_iterate h
    · simpa [InOrder, UiStep.posted, hthread, UiThread.inHand] using hI
    · -- the front of the queue moves into the hand, which was empty
      simpa [InOrder, UiStep.posted, hthread, hqueue, UiThread.inHand] using hI
  | call =>
    obtain ⟨i, fn, hthread, ⟨hfn, -⟩ | ⟨task, rfl, rfl⟩⟩ := step_call h
    · exact absurd hfn (hI.fn_ne_none hthread)
    · -- the task moves from the hand to those started
      simpa [InOrder, UiStep.posted, hthread, UiThread.inHand] using hI
  | returns =>
    obtain ⟨i, hthread, rfl⟩ := step_returns h
    simpa [InOrder, UiStep.posted, hthread, UiThread.inHand] using hI
  | throws =>
    obtain ⟨i, hthread, rfl⟩ := step_throws h
    simpa [InOrder, UiStep.posted, hthread, UiThread.inHand] using hI

/-- The order holds in every reachable state. -/
theorem InOrder.of_run {ls : List (UiStep T)} (h : (machine T).run start ls = some s) :
    InOrder (ls.filterMap UiStep.posted) s := by
  apply Machine.run_induction (motive := fun ls s => InOrder (ls.filterMap UiStep.posted) s) _ _ h
  · exact List.map_nil
  · intro ls t l t' _ hI ht
    have hposted : [l].filterMap UiStep.posted = l.posted.toList := by
      cases hl : l.posted with
      | none => exact List.filterMap_cons_none hl
      | some task => exact List.filterMap_cons_some hl
    rw [List.filterMap_append, hposted]
    exact hI.step ht

/-! ## One call -/

/-- Inside a call of `process_ui_tasks` the tasks started are those from before and at most as many
more as the call could start. -/
structure Bounded (before : UiDispatch T) (n : ℕ) (s : UiDispatch T) : Prop where
  started : before.started <+: s.started
  length : s.started.length + s.thread.toStart ≤ before.started.length + n

/-- Inside a call, a step that starts a task has one less to start. -/
theorem Bounded.step {before : UiDispatch T} {n : ℕ} {l : UiStep T} (hI : Bounded before n s)
    (hl : l ≠ .process) (h : step s l = some s') : Bounded before n s' := by
  obtain ⟨hstarted, hlength⟩ := hI
  cases l with
  | post fn =>
    obtain rfl := Option.some.inj h
    cases fn with
    | none => exact ⟨hstarted, hlength⟩
    | some task => exact ⟨hstarted, hlength⟩
  | process => exact absurd rfl hl
  | iterate =>
    obtain ⟨i, hthread, rfl | ⟨hi, fn, queue, hqueue, rfl⟩⟩ := step_iterate h
    · exact ⟨hstarted, (Nat.le_add_right _ _).trans hlength⟩
    · rw [hthread] at hlength
      exact ⟨hstarted, hlength⟩
  | call =>
    obtain ⟨i, fn, hthread, ⟨-, rfl⟩ | ⟨task, rfl, rfl⟩⟩ := step_call h
    · refine ⟨hstarted, ?_⟩
      simp only [hthread, UiThread.toStart, Fin.val_succ] at hlength ⊢
      omega
    · -- one more is started, and one less is to start
      refine ⟨hstarted.trans (List.prefix_append _ _), ?_⟩
      simp only [hthread, UiThread.toStart, List.length_append, List.length_singleton]
        at hlength ⊢
      omega
  | returns =>
    obtain ⟨i, hthread, rfl⟩ := step_returns h
    refine ⟨hstarted, ?_⟩
    simp only [hthread, UiThread.toStart, Fin.val_succ] at hlength ⊢
    omega
  | throws =>
    obtain ⟨i, hthread, rfl⟩ := step_throws h
    -- a call that ends early has started fewer
    exact ⟨hstarted, (Nat.le_add_right _ _).trans hlength⟩

/-- A step of the UI thread inside a call uses up fuel, and a post does not add any. -/
theorem fuel_step {l : UiStep T} (hl : l ≠ .process) (h : step s l = some s') :
    (if l.isFrame then 1 else 0) + s'.thread.fuel ≤ s.thread.fuel := by
  cases l with
  | post fn =>
    obtain rfl := Option.some.inj h
    cases fn with
    | none => exact (Nat.zero_add _).le
    | some task => exact (Nat.zero_add _).le
  | process => exact absurd rfl hl
  | iterate =>
    obtain ⟨i, hthread, rfl | ⟨hi, fn, queue, hqueue, rfl⟩⟩ := step_iterate h
    · simp only [hthread, UiThread.fuel, UiStep.isFrame, if_true]
      omega
    · simp only [hthread, UiThread.fuel, UiStep.isFrame, if_true]
      omega
  | call =>
    obtain ⟨i, fn, hthread, ⟨-, rfl⟩ | ⟨task, rfl, rfl⟩⟩ := step_call h
    · simp only [hthread, UiThread.fuel, UiStep.isFrame, if_true, Fin.val_succ]
      omega
    · simp only [hthread, UiThread.fuel, UiStep.isFrame, if_true]
      omega
  | returns =>
    obtain ⟨i, hthread, rfl⟩ := step_returns h
    simp only [hthread, UiThread.fuel, UiStep.isFrame, if_true, Fin.val_succ]
    omega
  | throws =>
    obtain ⟨i, hthread, rfl⟩ := step_throws h
    simp only [hthread, UiThread.fuel, UiStep.isFrame, if_true]
    omega

/-- An iteration that is left takes the front of the queue. -/
theorem step_iterate_cons {i : Fin (kMaxPerFrame + 1)} (hi : i.val < kMaxPerFrame)
    {fn : Option T} {queue : List (Option T)} (hthread : s.thread = .loop i)
    (hqueue : s.queue = fn :: queue) :
    step s .iterate = some { s with queue := queue, thread := .taken ⟨i, hi⟩ fn } := by
  rw [step, hthread]
  simp only [dif_pos hi, takeFront, hqueue]

/-- Inside a call, the UI thread can always go on. -/
theorem exists_frame_step (hthread : s.thread ≠ .idle) :
    ∃ l : UiStep T, l.isFrame = true ∧ ∃ s', step s l = some s' := by
  cases hs : s.thread with
  | idle => exact absurd hs hthread
  | loop i => exact ⟨.iterate, rfl, _, by rw [step, hs]⟩
  | taken i fn =>
    -- the test of an empty function and the call are one step
    refine ⟨.call, rfl, ?_⟩
    cases fn with
    | none => exact ⟨_, by rw [step, hs]⟩
    | some task => exact ⟨_, by rw [step, hs]⟩
  | running i => exact ⟨.returns, rfl, _, by rw [step, hs]⟩

end UiDispatch

/-! ## The main result -/

open UiDispatch

/-- UI tasks are run once, in order, and few in each frame. After every interleaving of posts from
any threads, the running task included, with the steps of the UI thread, the tasks posted are
exactly those started, the one taken and not started, and the queue, in this order; so each is
started at most once, and none is lost. A call of `process_ui_tasks` that has an iteration left
takes the front of the queue and starts it. It starts at most `kMaxPerFrame` tasks, and it returns:
it has a bounded number of steps, however many tasks are posted meanwhile, and as long as it has
not returned it can make a step. -/
theorem uiTasks_in_order {T : Type} {ls : List (UiStep T)} {s : UiDispatch T}
    (h : (machine T).run start ls = some s) :
    (ls.filterMap UiStep.posted).map some = s.started.map some ++ s.thread.inHand ++ s.queue ∧
      ((ls.filterMap UiStep.posted).Nodup → s.started.Nodup) ∧
      (∀ earlier inside before, ls = earlier ++ .process :: inside → .process ∉ inside →
        (machine T).run start earlier = some before →
        before.started <+: s.started ∧
          s.started.length ≤ before.started.length + kMaxPerFrame ∧
          inside.countP UiStep.isFrame ≤ 3 * kMaxPerFrame + 1) ∧
      (∀ (i : Fin (kMaxPerFrame + 1)) (hi : i.val < kMaxPerFrame) (fn : Option T)
        (queue : List (Option T)), s.thread = .loop i → s.queue = fn :: queue →
        step s .iterate = some { s with queue := queue, thread := .taken ⟨i, hi⟩ fn }) ∧
      (∀ i task, s.thread = .taken i (some task) →
        step s .call = some { s with thread := .running i, started := s.started ++ [task] }) ∧
      (s.thread ≠ .idle → ∃ l : UiStep T, l.isFrame = true ∧ ∃ s', step s l = some s') := by
  have horder : InOrder (ls.filterMap UiStep.posted) s := InOrder.of_run h
  refine ⟨horder, fun hposted => ?_, ?_, fun i hi fn queue => step_iterate_cons hi,
    fun i task hthread => by rw [step, hthread], exists_frame_step⟩
  · -- the tasks started are a first part of those posted
    have hall : ((ls.filterMap UiStep.posted).map some).Nodup :=
      hposted.map fun _ _ => Option.some.inj
    rw [horder, List.append_assoc] at hall
    exact List.Nodup.of_map some (List.nodup_append.1 hall).1
  · rintro earlier inside before rfl hinside hbefore
    rw [Machine.run_append, hbefore, Option.bind_some, Machine.run_cons] at h
    obtain ⟨t, ht, hrun⟩ := Option.bind_eq_some_iff.1 h
    obtain ⟨-, rfl⟩ := step_process ht
    -- no other call starts inside, so each step is a post or uses up fuel
    have hlabels : ∀ l ∈ inside, l ≠ .process := fun l hl heq => hinside (heq ▸ hl)
    have hentered : Bounded before kMaxPerFrame { before with thread := .loop 0 } :=
      ⟨List.prefix_rfl, le_rfl⟩
    have hbounded : Bounded before kMaxPerFrame s :=
      Machine.run_invariant_of_forall (M := machine T)
        (fun _ _ _ hl hI hstep => hI.step hl hstep) hlabels hentered hrun
    have hfuel := Machine.run_countP_add_le (fun _ _ _ => fuel_step) hlabels hrun
    refine ⟨hbounded.started, ?_, (Nat.le_add_right _ _).trans hfuel⟩
    exact (Nat.le_add_right _ _).trans hbounded.length

/-- A task posts itself again while it runs, and returns; the same call takes it once more. -/
def UiDispatch.reposting : List (UiStep ℕ) :=
  [.post (some 1), .post none, .process, .iterate, .call, .post (some 1), .returns, .iterate]

/-- A task that posts itself again while it runs is started again by the same call. -/
theorem uiTasks_in_order_reposted : ∃ s, (machine ℕ).run start reposting = some s ∧
    (reposting.filterMap UiStep.posted).map some =
      s.started.map some ++ s.thread.inHand ++ s.queue ∧
    ∃ s', step s .call = some s' ∧ s'.started = [1, 1] := by
  have hrun : ∃ s, (machine ℕ).run start reposting = some s ∧
      s.thread = .taken ⟨1, by decide⟩ (some 1) ∧ s.started = [1] := ⟨_, rfl, rfl, rfl⟩
  obtain ⟨s, hs, hthread, hstarted⟩ := hrun
  obtain ⟨horder, -, -, -, hcall, -⟩ := uiTasks_in_order hs
  refine ⟨s, hs, horder, _, hcall _ _ hthread, ?_⟩
  rw [hstarted]
  rfl

end Keyleport
