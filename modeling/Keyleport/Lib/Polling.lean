import Keyleport.Lib.Machine
import Mathlib.Data.List.Infix

/-!
# Bounded polls of a queue

A loop that takes items from the front of a queue until a budget is used up. Some items count
against the budget and some are free, and some end the poll although the budget is not used up.
Items arrive between the polls.

* `Polling.poll_append`: a poll takes items from the front, in order.
* `Polling.le_load_of_poll`: a poll that leaves something behind has used up its budget or met an
  item that ends it.
* `Polling.prefix_taken`: how many polls an item waits for at most, whatever arrives behind it.
* `Polling.made_of_run`: polls that take one item at a time, with other things happening in between,
  are the polls at once, made where they end.
* `Polling.turns_append`: over every interleaving of arrivals and such polls, each item is taken
  once and in order of arrival.
-/

namespace Polling

/-- What an item does to the poll that takes it. -/
inductive Turn where
  /-- It counts against the budget. -/
  | counted
  /-- It is free. -/
  | free
  /-- It ends the poll. -/
  | last
deriving DecidableEq, Repr

variable {α : Type*} (turn : α → Turn)

/-- A poll with a budget: the items it takes, and those it leaves. -/
def poll : ℕ → List α → List α × List α
  | 0, queue => ([], queue)
  | _ + 1, [] => ([], [])
  | budget + 1, a :: queue =>
      match turn a with
      | .counted =>
          let (taken, rest) := poll budget queue
          (a :: taken, rest)
      | .free =>
          let (taken, rest) := poll (budget + 1) queue
          (a :: taken, rest)
      | .last => ([a], queue)

/-- The items of a list that count. -/
def counted (items : List α) : ℕ := items.countP fun a => turn a = .counted

/-- The part of a number of budgets that the items use up: an item that ends a poll uses up what
is left of its budget. -/
def load (budget : ℕ) (items : List α) : ℕ :=
  counted turn items + budget * items.countP fun a => turn a = .last

variable {turn} {budget : ℕ} {queue : List α}

theorem load_append (items items' : List α) :
    load turn budget (items ++ items') = load turn budget items + load turn budget items' := by
  simp only [load, counted, List.countP_append, Nat.mul_add]
  omega

theorem load_cons_of_counted {a : α} (ha : turn a = .counted) (items : List α) :
    load turn budget (a :: items) = load turn budget items + 1 := by
  simp only [load, counted, List.countP_cons, ha, decide_true, if_true, reduceCtorEq, decide_false,
    Bool.false_eq_true, if_false, Nat.add_zero]
  omega

theorem load_cons_of_free {a : α} (ha : turn a = .free) (items : List α) :
    load turn budget (a :: items) = load turn budget items := by
  simp [load, counted, ha]

theorem load_singleton_of_last {a : α} (ha : turn a = .last) :
    load turn budget [a] = budget := by
  simp [load, counted, ha]

/-! ## One poll -/

/-- A poll takes from the front and leaves the rest. -/
theorem poll_append (turn : α → Turn) (budget : ℕ) (queue : List α) :
    (poll turn budget queue).1 ++ (poll turn budget queue).2 = queue := by
  induction queue generalizing budget with
  | nil => cases budget <;> rfl
  | cons a queue ih =>
    cases budget with
    | zero => rfl
    | succ budget =>
      rw [poll]
      cases turn a with
      | counted => exact congrArg (a :: ·) (ih budget)
      | free => exact congrArg (a :: ·) (ih (budget + 1))
      | last => rfl

/-- What a poll leaves is the queue without what it takes. -/
theorem poll_snd (turn : α → Turn) (budget : ℕ) (queue : List α) :
    (poll turn budget queue).2 = queue.drop (poll turn budget queue).1.length := by
  have happ := poll_append turn budget queue
  generalize poll turn budget queue = p at happ ⊢
  rw [← happ, List.drop_left]

/-- A poll takes no more items that count than its budget. -/
theorem counted_poll_le (turn : α → Turn) (budget : ℕ) (queue : List α) :
    counted turn (poll turn budget queue).1 ≤ budget := by
  induction queue generalizing budget with
  | nil => cases budget <;> exact Nat.zero_le _
  | cons a queue ih =>
    cases budget with
    | zero => exact Nat.zero_le _
    | succ budget =>
      rw [poll]
      cases ha : turn a with
      | counted =>
        have hrest := ih budget
        simp only [counted, List.countP_cons, ha, decide_true, if_true]
        exact Nat.succ_le_succ hrest
      | free =>
        have hrest := ih (budget + 1)
        simpa [counted, ha] using hrest
      | last => simp [counted, ha]

/-- A poll that leaves something behind has used up its budget: by what counted, or because an
item ended it. -/
theorem le_load_of_poll (hrest : (poll turn budget queue).2 ≠ []) :
    budget ≤ load turn budget (poll turn budget queue).1 := by
  -- inside the loop the budget that is left is at most the whole
  suffices h : ∀ left ≤ budget, (poll turn left queue).2 ≠ [] →
      left ≤ load turn budget (poll turn left queue).1 from h budget le_rfl hrest
  clear hrest
  intro left hleft hrest
  induction queue generalizing left with
  | nil => cases left <;> exact absurd rfl hrest
  | cons a queue ih =>
    cases left with
    | zero => exact Nat.zero_le _
    | succ left =>
      rw [poll] at hrest ⊢
      cases ha : turn a with
      | counted =>
        simp only [ha] at hrest ⊢
        rw [load_cons_of_counted ha]
        exact Nat.succ_le_succ (ih left (Nat.le_of_succ_le hleft) hrest)
      | free =>
        simp only [ha] at hrest ⊢
        rw [load_cons_of_free ha]
        exact ih (left + 1) hleft hrest
      | last =>
        rw [load_singleton_of_last ha]
        exact hleft

/-! ## Arrivals and polls -/

/-- A queue and everything that the polls have taken from it, oldest first. -/
structure Queue (α : Type*) where
  taken : List α
  pending : List α
deriving DecidableEq, Repr

/-- What happens to a queue. -/
inductive Event (α : Type*) where
  | arrive (a : α)
  | poll
deriving DecidableEq, Repr

/-- The item that arrives. -/
def Event.arrival? : Event α → Option α
  | arrive a => some a
  | poll => none

/-- Whether an event is a poll. -/
def Event.isPoll : Event α → Bool
  | arrive _ => false
  | poll => true

/-- A queue after an event. -/
def step (turn : α → Turn) (budget : ℕ) (s : Queue α) : Event α → Queue α
  | .arrive a => { s with pending := s.pending ++ [a] }
  | .poll =>
      let (taken, rest) := poll turn budget s.pending
      ⟨s.taken ++ taken, rest⟩

/-- A queue after several events. -/
def after (turn : α → Turn) (budget : ℕ) (s : Queue α) (events : List (Event α)) : Queue α :=
  events.foldl (step turn budget) s

@[simp]
theorem after_nil (s : Queue α) : after turn budget s [] = s := rfl

@[simp]
theorem after_cons (s : Queue α) (event : Event α) (events : List (Event α)) :
    after turn budget s (event :: events) =
      after turn budget (step turn budget s event) events := rfl

theorem after_append (s : Queue α) (events events' : List (Event α)) :
    after turn budget s (events ++ events') =
      after turn budget (after turn budget s events) events' :=
  List.foldl_append

theorem step_poll (s : Queue α) : step turn budget s .poll =
    ⟨s.taken ++ (poll turn budget s.pending).1, (poll turn budget s.pending).2⟩ := rfl

/-- What was taken stays taken. -/
theorem taken_prefix_after (s : Queue α) (events : List (Event α)) :
    s.taken <+: (after turn budget s events).taken := by
  induction events generalizing s with
  | nil => exact List.prefix_rfl
  | cons event events ih =>
    refine List.IsPrefix.trans ?_ (ih _)
    cases event with
    | arrive a => exact List.prefix_rfl
    | poll => exact List.prefix_append _ _

/-- An item is taken, with all those before it, after so many polls that their budgets exceed the
load of those before it, whatever arrives meanwhile. -/
theorem prefix_taken {before rest : List α} {a : α} {s : Queue α} {events : List (Event α)}
    (hs : s.pending = before ++ a :: rest)
    (hpolls : load turn budget before < budget * events.countP Event.isPoll) :
    s.taken ++ before ++ [a] <+: (after turn budget s events).taken := by
  induction events generalizing s before rest with
  | nil => exact absurd hpolls (Nat.not_lt_zero _)
  | cons event events ih =>
    cases event with
    | arrive b =>
      -- an arrival goes behind the item
      have hs' : (step turn budget s (.arrive b)).pending = before ++ a :: (rest ++ [b]) := by
        rw [step, hs, List.append_assoc, List.cons_append]
      exact ih hs' hpolls
    | poll =>
      rcases hpoll : poll turn budget s.pending with ⟨t, r⟩
      have hstep : step turn budget s .poll = ⟨s.taken ++ t, r⟩ := by rw [step_poll, hpoll]
      have happ : t ++ r = before ++ [a] ++ rest := by
        have happ := poll_append turn budget s.pending
        rwa [hpoll, hs, List.append_cons] at happ
      rw [after_cons, hstep]
      -- the poll takes the item, or stops before it
      have hreach : before ++ [a] <+: t ∨ t <+: before := by
        rcases List.prefix_or_prefix_of_prefix ⟨rest, rfl⟩ ⟨r, happ⟩ with h | h
        · exact Or.inl h
        · rcases List.prefix_concat_iff.1 h with rfl | h
          · exact Or.inl List.prefix_rfl
          · exact Or.inr h
      rcases hreach with ⟨more, rfl⟩ | ⟨before', rfl⟩
      · refine List.IsPrefix.trans ?_ (taken_prefix_after _ _)
        rw [List.append_assoc s.taken]
        exact (List.prefix_append_right_inj _).2 (List.prefix_append _ _)
      · -- it leaves the item behind, so it has used up its budget
        rw [List.append_assoc, List.append_assoc, List.append_cancel_left_eq] at happ
        have hne : (poll turn budget s.pending).2 ≠ [] := by
          rw [hpoll, happ]
          exact List.append_ne_nil_of_right_ne_nil _ (List.cons_ne_nil _ _)
        have hload : budget ≤ load turn budget t := by
          simpa only [hpoll] using le_load_of_poll hne
        have hs' : (⟨s.taken ++ t, r⟩ : Queue α).pending = before' ++ a :: rest := by
          rw [happ]
          rfl
        rw [load_append, List.countP_cons_of_pos rfl, Nat.mul_add, Nat.mul_one] at hpolls
        rw [← List.append_assoc s.taken]
        exact ih hs' (by omega)

/-! ## Polls that take one item at a time -/

/-- A queue that is polled one item at a time, with what is left of the budget in a poll. Items
arrive also during a poll. -/
structure Turns (α : Type*) where
  taken : List α
  pending : List α
  left : Option ℕ
deriving DecidableEq, Repr

/-- What happens to such a queue. -/
inductive TurnEvent (α : Type*) where
  | arrive (a : α)
  /-- A poll begins. -/
  | start
  /-- A poll takes an item or ends. -/
  | take
deriving DecidableEq, Repr

/-- The item that arrives. -/
def TurnEvent.arrival? : TurnEvent α → Option α
  | arrive a => some a
  | start | take => none

/-- Whether an event begins a poll. -/
def TurnEvent.isStart : TurnEvent α → Bool
  | start => true
  | arrive _ | take => false

/-- What is left of a budget after an item. -/
def leftAfter (n : ℕ) : Turn → Option ℕ
  | .counted => some n
  | .free => some (n + 1)
  | .last => none

/-- One event. A poll ends when its budget is used up, the queue is empty, or an item ends it. -/
def Turns.step (turn : α → Turn) (budget : ℕ) (s : Turns α) : TurnEvent α → Option (Turns α)
  | .arrive a => some { s with pending := s.pending ++ [a] }
  | .start => if s.left = none then some { s with left := some budget } else none
  | .take =>
      match s.left, s.pending with
      | none, _ => none
      | some 0, _ | some (_ + 1), [] => some { s with left := none }
      | some (n + 1), a :: rest => some ⟨s.taken ++ [a], rest, leftAfter n (turn a)⟩

/-- Such a queue as a machine. -/
def Turns.machine (turn : α → Turn) (budget : ℕ) : Machine (Turns α) (TurnEvent α) :=
  ⟨Turns.step turn budget⟩

/-- How many polls go on. -/
def Turns.polls (s : Turns α) : ℕ := s.left.toList.length

/-- The queue `q` has made the polls of `s` that have ended, each where it ended. In a poll that
goes on, a poll of the items taken and anything behind them takes the same items first. -/
def Made (turn : α → Turn) (budget : ℕ) (q : Queue α) (s : Turns α) : Prop :=
  match s.left with
  | none => q = ⟨s.taken, s.pending⟩
  | some n => ∃ inPoll, s.taken = q.taken ++ inPoll ∧ q.pending = inPoll ++ s.pending ∧
      ∀ rest, poll turn budget (inPoll ++ rest) =
        (inPoll ++ (poll turn n rest).1, (poll turn n rest).2)

/-- A poll that ends has taken what it has taken. -/
theorem Made.ends {q : Queue α} {s : Turns α} {n : ℕ} (h : Made turn budget q s)
    (hleft : s.left = some n) (hend : poll turn n s.pending = ([], s.pending)) :
    Made turn budget (step turn budget q .poll) { s with left := none } := by
  rw [Made, hleft] at h
  obtain ⟨inPoll, htaken, hpending, hpoll⟩ := h
  have hq := hpoll s.pending
  rw [hend, List.append_nil] at hq
  rw [Made, step_poll, hpending, hq, htaken]

/-- A poll takes one item more. -/
theorem Made.takes {q : Queue α} {s : Turns α} {n : ℕ} {a : α} {rest : List α}
    (h : Made turn budget q s) (hleft : s.left = some (n + 1)) (hpending : s.pending = a :: rest) :
    ∃ events : List (Event α), Made turn budget (after turn budget q events)
        ⟨s.taken ++ [a], rest, leftAfter n (turn a)⟩ ∧
      events.filterMap Event.arrival? = [] ∧
      events.countP Event.isPoll + (leftAfter n (turn a)).toList.length = 1 := by
  rw [Made, hleft] at h
  obtain ⟨inPoll, htaken, hqpending, hpoll⟩ := h
  rw [hpending] at hqpending
  have hqpending' : q.pending = (inPoll ++ [a]) ++ rest := by
    rw [hqpending, List.append_cons]
  cases ha : turn a with
  | last =>
    -- the poll ends with this item
    refine ⟨[.poll], ?_, rfl, rfl⟩
    have hq : poll turn budget q.pending = (inPoll ++ [a], rest) := by
      rw [hqpending, hpoll, poll, ha]
    rw [after_cons, after_nil, step_poll, hq]
    simp only [Made, leftAfter, htaken, List.append_assoc]
  | counted =>
    -- the poll goes on, and has taken one item more
    refine ⟨[], ⟨inPoll ++ [a], ?_, hqpending', fun more => ?_⟩, rfl, rfl⟩
    · rw [htaken, List.append_assoc]
      rfl
    · rw [← List.append_cons, hpoll, poll, ha, List.append_assoc]
      rfl
  | free =>
    -- so it does here, with the budget it had
    refine ⟨[], ⟨inPoll ++ [a], ?_, hqpending', fun more => ?_⟩, rfl, rfl⟩
    · rw [htaken, List.append_assoc]
      rfl
    · rw [← List.append_cons, hpoll, poll, ha, List.append_assoc]
      rfl

/-- An event of the queue that is polled one item at a time is an event of the queue or none, and a
poll where one ends. -/
theorem Made.step {q : Queue α} {s s' : Turns α} {event : TurnEvent α}
    (h : Made turn budget q s) (hs : s.step turn budget event = some s') :
    ∃ events, Made turn budget (after turn budget q events) s' ∧
      events.filterMap Event.arrival? = [event].filterMap TurnEvent.arrival? ∧
      events.countP Event.isPoll + s'.polls = [event].countP TurnEvent.isStart + s.polls := by
  cases event with
  | arrive a =>
    obtain rfl := Option.some.inj hs
    refine ⟨[.arrive a], ?_, rfl, rfl⟩
    cases hleft : s.left with
    | none =>
      simp only [Made, hleft] at h ⊢
      rw [h]
      rfl
    | some n =>
      simp only [Made, hleft] at h ⊢
      obtain ⟨inPoll, htaken, hpending, hpoll⟩ := h
      refine ⟨inPoll, htaken, ?_, hpoll⟩
      rw [after_cons, after_nil, Polling.step, hpending, List.append_assoc]
  | start =>
    simp only [Turns.step] at hs
    split at hs
    next hleft =>
      -- nothing is taken yet
      obtain rfl := Option.some.inj hs
      rw [Made, hleft] at h
      refine ⟨[], ⟨[], ?_, ?_, fun rest => rfl⟩, rfl, ?_⟩
      · rw [after_nil, h, List.append_nil]
      · rw [after_nil, h]
        rfl
      · simp [Turns.polls, hleft, TurnEvent.isStart]
    next => cases hs
  | take =>
    simp only [Turns.step] at hs
    split at hs
    -- the budget is used up
    next => cases hs
    next hleft =>
      obtain rfl := Option.some.inj hs
      refine ⟨[.poll], h.ends hleft (by cases s.pending <;> rfl), rfl, ?_⟩
      -- the queue is empty
      simp [Turns.polls, hleft, TurnEvent.isStart, Event.isPoll]
    next hleft hpending =>
      obtain rfl := Option.some.inj hs
      refine ⟨[.poll], h.ends hleft (by rw [hpending]; rfl), rfl, ?_⟩
      simp [Turns.polls, hleft, TurnEvent.isStart, Event.isPoll]
    next hleft hpending =>
      obtain rfl := Option.some.inj hs
      obtain ⟨events, hmade, harrivals, hpolls⟩ := h.takes hleft hpending
      refine ⟨events, hmade, harrivals, ?_⟩
      rw [Turns.polls, hpolls]
      simp [Turns.polls, hleft, TurnEvent.isStart]

/-- A run of the queue that is polled one item at a time makes the polls that have ended at once. -/
theorem made_of_run {q : Queue α} {s : Turns α} {events : List (TurnEvent α)}
    (h : (Turns.machine turn budget).run ⟨q.taken, q.pending, none⟩ events = some s) :
    ∃ made, Made turn budget (after turn budget q made) s ∧
      made.filterMap Event.arrival? = events.filterMap TurnEvent.arrival? ∧
      made.countP Event.isPoll + s.polls = events.countP TurnEvent.isStart := by
  refine Machine.run_induction (motive := fun events s => ∃ made,
    Made turn budget (after turn budget q made) s ∧
      made.filterMap Event.arrival? = events.filterMap TurnEvent.arrival? ∧
      made.countP Event.isPoll + s.polls = events.countP TurnEvent.isStart)
    ⟨[], by simp [Made], rfl, rfl⟩ ?_ h
  intro events s event s' _ ⟨made, hmade, harrivals, hpolls⟩ hs
  obtain ⟨more, hmade', harrivals', hpolls'⟩ := hmade.step hs
  refine ⟨made ++ more, ?_, ?_, ?_⟩
  · rw [after_append]
    exact hmade'
  · rw [List.filterMap_append, List.filterMap_append, harrivals, harrivals']
  · rw [List.countP_append, List.countP_append]
    omega

/-- What polls of one item at a time have taken is what was taken at once, and more. -/
theorem Made.prefix {q : Queue α} {s : Turns α} (h : Made turn budget q s) :
    q.taken <+: s.taken := by
  cases hleft : s.left with
  | none =>
    rw [Made, hleft] at h
    rw [h]
  | some n =>
    rw [Made, hleft] at h
    obtain ⟨inPoll, htaken, -⟩ := h
    exact ⟨inPoll, htaken.symm⟩

/-- Each item is taken at most once, and in order of arrival. -/
theorem turns_append {s₀ s : Turns α} {events : List (TurnEvent α)}
    (h : (Turns.machine turn budget).run s₀ events = some s) :
    s.taken ++ s.pending = s₀.taken ++ s₀.pending ++ events.filterMap TurnEvent.arrival? := by
  refine Machine.run_induction (motive := fun events s => s.taken ++ s.pending =
    s₀.taken ++ s₀.pending ++ events.filterMap TurnEvent.arrival?) (by simp) ?_ h
  intro events s event s' _ ih hs
  rw [List.filterMap_append, ← List.append_assoc, ← ih]
  cases event with
  | arrive a =>
    obtain rfl := Option.some.inj hs
    exact (List.append_assoc _ _ _).symm
  | start =>
    -- the beginning of a poll moves nothing
    obtain ⟨-, hs⟩ := Option.ite_none_right_eq_some.1 hs
    obtain rfl := Option.some.inj hs
    exact (List.append_nil _).symm
  | take =>
    change Turns.step turn budget s .take = some s' at hs
    simp only [Turns.step] at hs
    split at hs
    next => cases hs
    next =>
      obtain rfl := Option.some.inj hs
      exact (List.append_nil _).symm
    next =>
      obtain rfl := Option.some.inj hs
      exact (List.append_nil _).symm
    next a rest hleft hpending =>
      obtain rfl := Option.some.inj hs
      rw [hpending]
      simp [TurnEvent.arrival?]

/-- An item is taken, with all those before it, after so many polls have ended that their budgets
exceed the load of those before it. -/
theorem prefix_taken_turns {before rest : List α} {a : α} {q : Queue α} {s : Turns α}
    {events : List (TurnEvent α)} (hq : q.pending = before ++ a :: rest)
    (hpolls : load turn budget before + budget * s.polls <
      budget * events.countP TurnEvent.isStart)
    (h : (Turns.machine turn budget).run ⟨q.taken, q.pending, none⟩ events = some s) :
    q.taken ++ before ++ [a] <+: s.taken := by
  obtain ⟨made, hmade, -, hcount⟩ := made_of_run h
  refine (prefix_taken hq ?_).trans hmade.prefix
  rw [← hcount, Nat.mul_add] at hpolls
  omega

end Polling
