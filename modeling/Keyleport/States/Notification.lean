import Keyleport.States.Atom
import Mathlib.Data.List.Infix

/-!
# The last notification

What the listeners of an atom have been told once every call of `set` has returned. The store and
the snapshot of a call are two critical sections and the callbacks run outside both, so a
notification may be overtaken: a listener that is told the current value may be told an older one
afterwards, by a notification that was already under way when the current value was stored.

* `SharedAtom.Owed`: a notification under way has a listener yet to come to.
* `SharedAtom.Since`: what holds of all steps after the last store.
* `SharedAtom.Reaches`: the call that stored last has told a listener, or is still to tell it.
* `last_notification`: what a listener was told last.
* `overtaken_notification`: it may be an older value.
-/

namespace Keyleport

namespace SharedAtom

variable {ι T C : Type}

/-- A notification under way has yet to invoke the listener with an id, with its value. -/
def Owed (s : SharedAtom ι T C) (id : UInt64) (v : T) : Prop :=
  ∃ call remaining, s.calls call = some (.notifying remaining v) ∧
    ∃ l ∈ remaining, l.id = id

/-- What holds after a store of `v` in the state `before` as long as no other value is stored,
with the invocations `told` since: the value is `v`, and every listener that was invoked, or is to
be invoked by a notification under way, gets `v` or what it was owed in `before`. -/
structure Since (before : SharedAtom ι T C) (v : T) (told : List (UInt64 × T))
    (s : SharedAtom ι T C) : Prop where
  stored : s.atom.stored = some v
  notifying : ∀ call remaining w, s.calls call = some (.notifying remaining w) →
    ∀ l ∈ remaining, w = v ∨ Owed before l.id w
  invoked : s.invoked = before.invoked ++ told
  values : ∀ e ∈ told, e.2 = v ∨ Owed before e.1 e.2

/-- The call has told the listener `v`, or is still to tell it. -/
def Reaches (call : ι) (v : T) (told : List (UInt64 × T)) (l : Listener C)
    (s : SharedAtom ι T C) : Prop :=
  (l.id, v) ∈ told ∨ s.calls call = some .stored ∨
    ∃ remaining, s.calls call = some (.notifying remaining v) ∧ l ∈ remaining

/-- A step that stores no value. -/
def Step.StoresNothing (l : Step ι T C) : Prop := ∀ call v, l ≠ .set call v

variable {before s s' : SharedAtom ι T C} {v : T} {told : List (UInt64 × T)}

/-- A step that leaves the value and the invocations alone keeps the account if the notifications
under way have the value, or were under way before. -/
theorem Since.of_calls (hI : Since before v told s) (hstored : s'.atom.stored = s.atom.stored)
    (hinvoked : s'.invoked = s.invoked)
    (hcalls : ∀ call remaining w, s'.calls call = some (.notifying remaining w) → w = v ∨
      s.calls call = some (.notifying remaining w)) : Since before v told s' := by
  refine ⟨hstored.trans hI.stored, fun call remaining w hcall l hl => ?_,
    hinvoked.trans hI.invoked, hI.values⟩
  rcases hcalls call remaining w hcall with heq | hcall
  · exact Or.inl heq
  · exact hI.notifying call remaining w hcall l hl

/-- A call that does not move still reaches the listener. -/
theorem Reaches.of_calls {call : ι} {l : Listener C} (hR : Reaches call v told l s)
    (hcall : s'.calls call = s.calls call) (new : List (UInt64 × T)) :
    Reaches call v (told ++ new) l s' := by
  rcases hR with htold | hpending
  · exact Or.inl (List.mem_append_left _ htold)
  · rw [Reaches, hcall]
    exact Or.inr hpending

/-- A notification that reaches the listener has told it, or has yet to come to it. -/
theorem Reaches.of_notifying {call : ι} {l : Listener C} {remaining : List (Listener C)} {w : T}
    (hR : Reaches call v told l s) (hcall : s.calls call = some (.notifying remaining w)) :
    (l.id, v) ∈ told ∨ w = v ∧ l ∈ remaining := by
  rcases hR with htold | hstored | ⟨remaining', hremaining, hmem⟩
  · exact Or.inl htold
  · rw [hcall] at hstored
    cases hstored
  · rw [hcall] at hremaining
    cases hremaining
    exact Or.inr ⟨rfl, hmem⟩

variable [DecidableEq ι]

/-- A notification under way after one call has moved is that call, or was under way before. -/
private theorem notifying_update {calls : ι → Option (SetCall T C)} {call call' : ι}
    {x : Option (SetCall T C)} {remaining : List (Listener C)} {w : T}
    (h : Function.update calls call x call' = some (.notifying remaining w)) :
    x = some (.notifying remaining w) ∨ calls call' = some (.notifying remaining w) := by
  by_cases hc : call' = call
  · subst hc
    rw [Function.update_self] at h
    exact Or.inl h
  · rw [Function.update_of_ne hc] at h
    exact Or.inr h

/-- A store starts the account of its value. -/
theorem Since.of_set {call : ι} (h : step s (.set call v) = some s') : Since s v [] s' := by
  obtain ⟨-, rfl⟩ := step_set h
  refine ⟨rfl, fun call' remaining w hcall l hl => Or.inr ?_, (List.append_nil _).symm, nofun⟩
  rcases notifying_update hcall with hstored | hcall
  · cases hstored
  · exact ⟨call', remaining, hcall, l, hl, rfl⟩

/-- The call that stores will come to every listener. -/
theorem Reaches.of_set {call : ι} (h : step s (.set call v) = some s') (l : Listener C) :
    Reaches call v [] l s' := by
  obtain ⟨-, rfl⟩ := step_set h
  exact Or.inr (Or.inl (Function.update_self _ _ _))

/-- A snapshot has the value stored last, and every listener. -/
private theorem Since.snapshot {moved : ι} (hI : Since before v told s)
    (h : step s (.snapshot moved) = some s') : Since before v told s' ∧
      s'.calls = Function.update s.calls moved (some (.notifying s.atom.listeners v)) := by
  obtain ⟨-, rfl⟩ := step_snapshot h
  rw [Atom.snapshot, hI.stored, Option.map_some, Option.map_some]
  refine ⟨hI.of_calls rfl rfl fun call remaining w hcall => ?_, rfl⟩
  apply (notifying_update hcall).imp_left
  intro htaken
  cases htaken
  rfl

/-- An invocation is of `v`, or was owed before. -/
private theorem Since.invoke {moved : ι} {listener : Listener C} {remaining : List (Listener C)}
    {w : T} (hI : Since before v told s)
    (hmoved : s.calls moved = some (.notifying (listener :: remaining) w))
    (hcalls : s'.calls = Function.update s.calls moved (some (.notifying remaining w)))
    (hstored : s'.atom = s.atom)
    (hinvoked : s'.invoked = s.invoked ++ if listener.cb.isSome then [(listener.id, w)] else []) :
    Since before v (told ++ if listener.cb.isSome then [(listener.id, w)] else []) s' := by
  have howed := hI.notifying moved _ w hmoved
  refine ⟨hstored ▸ hI.stored, fun call remaining' w' hcall => ?_, ?_, fun e he => ?_⟩
  · rw [hcalls] at hcall
    rcases notifying_update hcall with htail | hcall
    · cases htail
      exact fun l hl => howed l (List.mem_cons_of_mem _ hl)
    · exact hI.notifying call remaining' w' hcall
  · rw [hinvoked, hI.invoked, List.append_assoc]
  · rcases List.mem_append.1 he with he | he
    · exact hI.values e he
    · obtain ⟨-, he⟩ := List.mem_ite_nil_right.1 he
      obtain rfl := List.mem_singleton.1 he
      exact howed listener List.mem_cons_self

/-- Every step that stores nothing keeps the account, and a call that reaches a listener with a
callback goes on to reach it. -/
theorem Since.step {l : Step ι T C} (hI : Since before v told s) (hl : l.StoresNothing)
    (h : step s l = some s') : ∃ new, Since before v (told ++ new) s' ∧
      ∀ call, ∀ listener ∈ s.atom.listeners, listener.cb.isSome →
        Reaches call v told listener s → Reaches call v (told ++ new) listener s' := by
  have hframe : s'.atom.stored = s.atom.stored → s'.calls = s.calls → s'.invoked = s.invoked →
      ∃ new, Since before v (told ++ new) s' ∧
      ∀ call, ∀ listener ∈ s.atom.listeners, listener.cb.isSome →
        Reaches call v told listener s → Reaches call v (told ++ new) listener s' := by
    intro hstored hcalls hinvoked
    refine ⟨[], ?_, fun call listener _ _ hR => hR.of_calls (congrFun hcalls call) []⟩
    rw [List.append_nil]
    exact hI.of_calls hstored hinvoked fun call remaining w hcall => Or.inr (hcalls ▸ hcall)
  cases l with
  | set call w => exact absurd rfl (hl call w)
  | snapshot moved =>
    obtain ⟨hI', hcalls⟩ := hI.snapshot h
    refine ⟨[], (List.append_nil told).symm ▸ hI', fun call listener hlistener _ hR => ?_⟩
    by_cases hc : call = moved
    · subst hc
      refine Or.inr (Or.inr ⟨_, ?_, hlistener⟩)
      rw [hcalls, Function.update_self]
    · exact hR.of_calls (hcalls ▸ Function.update_of_ne hc _ _) []
  | invoke moved =>
    obtain ⟨invoked, remaining, w, hmoved, rfl⟩ := step_invoke h
    refine ⟨_, hI.invoke hmoved rfl rfl rfl, fun call listener _ hcb hR => ?_⟩
    by_cases hc : call = moved
    · subst hc
      rcases hR.of_notifying hmoved with htold | ⟨rfl, hmem⟩
      · exact Or.inl (List.mem_append_left _ htold)
      · -- the listener is invoked now, or is still among the rest
        rcases List.mem_cons.1 hmem with rfl | hmem
        · exact Or.inl (List.mem_append_right _ (by simp [hcb]))
        · exact Or.inr (Or.inr ⟨remaining, Function.update_self _ _ _, hmem⟩)
    · exact hR.of_calls (Function.update_of_ne hc _ _) _
  | finish moved =>
    obtain ⟨w, hmoved, rfl⟩ := step_finish h
    refine ⟨[], ?_, fun call listener _ _ hR => ?_⟩
    · rw [List.append_nil]
      refine hI.of_calls rfl rfl fun call remaining w hcall => Or.inr ?_
      exact (notifying_update hcall).resolve_left nofun
    · by_cases hc : call = moved
      · -- a call that returns has no listener left to come to
        subst hc
        rcases hR.of_notifying hmoved with htold | ⟨-, hmem⟩
        · exact Or.inl (List.mem_append_left _ htold)
        · cases hmem
      · exact hR.of_calls (Function.update_of_ne hc _ _) []
  | subscribe cb =>
    obtain rfl := Option.some.inj h
    exact hframe rfl rfl rfl
  | unsubscribe id =>
    obtain rfl := Option.some.inj h
    exact hframe rfl rfl rfl
  | clearListeners =>
    obtain rfl := Option.some.inj h
    exact hframe rfl rfl rfl

/-! ## Runs -/

/-- The listener is subscribed in every state of a run from `s`, after its first step `l`. -/
def StaysSubscribed (s : SharedAtom ι T C) (l : Step ι T C) (ls : List (Step ι T C))
    (listener : Listener C) : Prop :=
  ∀ ls' t, ls' <+: ls → (machine ι T C).run s (l :: ls') = some t → listener ∈ t.atom.listeners

/-- After a run that stores a value, there is the account of the one stored last. -/
theorem Since.run {s₀ : SharedAtom ι T C} {ls : List (Step ι T C)}
    (h : (machine ι T C).run s₀ ls = some s) (hset : ∃ call v, Step.set call v ∈ ls) :
    ∃ pre before call v post told, ls = pre ++ .set call v :: post ∧
      (∀ l ∈ post, l.StoresNothing) ∧
      (machine ι T C).run s₀ pre = some before ∧ Since before v told s ∧
      ∀ listener, listener.cb.isSome → StaysSubscribed before (.set call v) post listener →
        Reaches call v told listener s := by
  revert hset
  refine Machine.run_induction (motive := fun ls s => (∃ call v, Step.set call v ∈ ls) →
    ∃ pre before call v post told, ls = pre ++ .set call v :: post ∧
      (∀ l ∈ post, l.StoresNothing) ∧
      (machine ι T C).run s₀ pre = some before ∧ Since before v told s ∧
      ∀ listener, listener.cb.isSome → StaysSubscribed before (.set call v) post listener →
        Reaches call v told listener s) (fun hset => ?_) (fun ls s l s' hs ih hstep hset => ?_) h
  · obtain ⟨call, v, hmem⟩ := hset
    cases hmem
  · by_cases hl : l.StoresNothing
    · have hset : ∃ call v, Step.set call v ∈ ls := by
        obtain ⟨call, v, hmem⟩ := hset
        refine ⟨call, v, (List.mem_append.1 hmem).resolve_right fun hmem => ?_⟩
        exact hl call v (List.mem_singleton.1 hmem).symm
      obtain ⟨pre, before, call, v, post, told, rfl, hpost, hpre, hI, hreach⟩ := ih hset
      obtain ⟨new, hI', hreach'⟩ := hI.step hl hstep
      refine ⟨pre, before, call, v, post ++ [l], told ++ new, by simp, ?_, hpre, hI',
        fun listener hcb hstays => ?_⟩
      · exact List.forall_mem_append.2 ⟨hpost, List.forall_mem_singleton.2 hl⟩
      -- the listener is still there before this step
      have hs : (machine ι T C).run before (.set call v :: post) = some s := by
        rw [Machine.run_append, hpre] at hs
        exact hs
      exact hreach' call listener (hstays post s (List.prefix_append _ _) hs) hcb
        (hreach listener hcb fun ls' t hls' => hstays ls' t (hls'.trans (List.prefix_append _ _)))
    · -- this step stores a value
      simp only [Step.StoresNothing, not_forall, not_not] at hl
      obtain ⟨call, v, rfl⟩ := hl
      exact ⟨ls, s, call, v, [], [], rfl, List.forall_mem_nil _, hs, .of_set hstep,
        fun listener _ _ => .of_set hstep listener⟩

end SharedAtom

open SharedAtom in
/-- What a listener was told last. Take any run of calls of `set` on an atom, with any listeners,
after which no call is in progress and a value has been stored. The last store of the run is of the
value. Every listener with a callback that has stayed subscribed since that store has been told the
value since then. The last thing it was told is the value, or what a notification that was already
under way when the value was stored still had to tell it. -/
theorem last_notification {ι T C : Type} [DecidableEq ι] [Inhabited T] {a : Atom T C}
    {s : SharedAtom ι T C} {ls : List (SharedAtom.Step ι T C)}
    (h : (machine ι T C).run (start a) ls = some s) (hquiet : s.Quiescent)
    (hset : ∃ call v, Step.set call v ∈ ls) :
    ∃ pre before call post, ls = pre ++ .set call s.atom.value :: post ∧
      (∀ l ∈ post, l.StoresNothing) ∧
      (machine ι T C).run (start a) pre = some before ∧
      ∀ listener, listener.cb.isSome →
        StaysSubscribed before (.set call s.atom.value) post listener →
        (∃ told, s.invoked = before.invoked ++ told ∧ (listener.id, s.atom.value) ∈ told) ∧
        ∃ w, s.lastInvoked listener.id = some w ∧
          (w = s.atom.value ∨ Owed before listener.id w) := by
  obtain ⟨pre, before, call, v, post, told, hls, hpost, hpre, hI, hreach⟩ := Since.run h hset
  have hvalue : s.atom.value = v := by rw [Atom.value, hI.stored, Option.getD_some]
  rw [hvalue]
  refine ⟨pre, before, call, post, hls, hpost, hpre, fun listener hcb hstays => ?_⟩
  have htold : (listener.id, v) ∈ told := by
    -- the call that stored the value has returned
    rcases hreach listener hcb hstays with htold | hstored | ⟨remaining, hremaining, -⟩
    · exact htold
    · rw [hquiet] at hstored
      cases hstored
    · rw [hquiet] at hremaining
      cases hremaining
  refine ⟨⟨told, hI.invoked, htold⟩, ?_⟩
  -- so the last invocation of the listener is one of those since the store
  have hne : told.filter (fun e => e.1 = listener.id) ≠ [] :=
    List.ne_nil_of_mem (List.mem_filter.2 ⟨htold, decide_eq_true rfl⟩)
  obtain ⟨e, he⟩ := Option.ne_none_iff_exists'.1 (mt List.getLast?_eq_none_iff.1 hne)
  refine ⟨e.2, ?_, ?_⟩
  · rw [lastInvoked, hI.invoked, List.filter_append, List.getLast?_append, he]
    rfl
  · obtain ⟨hmem, hid⟩ := List.mem_filter.1 (List.mem_of_getLast? he)
    exact of_decide_eq_true hid ▸ hI.values e hmem

/-- An atom with one listener. -/
def Atom.oneListener : Atom ℕ Unit := (Atom.new.subscribe (some ())).2

/-- Two calls of `set`. The second one stores its value while the first is about to invoke the
listener, and returns before the first does. -/
def SharedAtom.overtaken : List (SharedAtom.Step Bool ℕ Unit) :=
  [.set false 1, .snapshot false, .set true 2, .snapshot true, .invoke true, .finish true,
    .invoke false, .finish false]

open SharedAtom in
/-- The listener stays subscribed in this run. -/
private theorem SharedAtom.subscribed_overtaken : ∀ ls' t, ls' <+: overtaken →
    (machine Bool ℕ Unit).run (start Atom.oneListener) ls' = some t →
      ⟨1, some ()⟩ ∈ t.atom.listeners := by
  have hall : ∀ ls' ∈ overtaken.inits,
      ∀ t ∈ (machine Bool ℕ Unit).run (start Atom.oneListener) ls',
        ⟨1, some ()⟩ ∈ t.atom.listeners := by
    decide +kernel
  exact fun ls' t hpre ht => hall ls' ((List.mem_inits _ _).2 hpre) t ht

open SharedAtom in
/-- After this run the listener has been told 2, and then 1. -/
theorem last_notification_overtaken : ∃ s : SharedAtom Bool ℕ Unit,
    (machine Bool ℕ Unit).run (start Atom.oneListener) overtaken = some s ∧
      s.atom.value = 2 ∧ (1, 2) ∈ s.invoked ∧ ∃ w, s.lastInvoked 1 = some w := by
  have hrun : ∃ s ∈ (machine Bool ℕ Unit).run (start Atom.oneListener) overtaken,
      s.atom.value = 2 ∧ ∀ call, s.calls call = none := by
    decide +kernel
  obtain ⟨s, hs, hvalue, hquiet⟩ := hrun
  have hs : (machine Bool ℕ Unit).run (start Atom.oneListener) overtaken = some s := hs
  obtain ⟨pre, before, call, post, hls, -, hpre, htold⟩ :=
    last_notification hs hquiet ⟨true, 2, by simp [overtaken]⟩
  obtain ⟨⟨told, hinvoked, hmem⟩, w, hlast, -⟩ := htold ⟨1, some ()⟩ rfl fun ls' t hls' ht => by
    refine subscribed_overtaken (pre ++ .set call s.atom.value :: ls') t ?_ ?_
    · rw [hls, List.prefix_append_right_inj, List.cons_prefix_cons]
      exact ⟨rfl, hls'⟩
    · rw [Machine.run_append, hpre]
      exact ht
  refine ⟨s, hs, hvalue, ?_, w, hlast⟩
  rw [hinvoked, ← hvalue]
  exact List.mem_append_right _ hmem

open SharedAtom in
/-- What a listener was told last is not always the value. -/
theorem overtaken_notification : ¬ ∀ (a : Atom ℕ Unit) (ls : List (SharedAtom.Step Bool ℕ Unit))
    (s : SharedAtom Bool ℕ Unit), (machine Bool ℕ Unit).run (start a) ls = some s →
    s.Quiescent → (∃ call v, Step.set call v ∈ ls) → ∀ listener : Listener Unit,
    listener.cb.isSome → (∀ ls' t, ls' <+: ls →
      (machine Bool ℕ Unit).run (start a) ls' = some t → listener ∈ t.atom.listeners) →
    s.lastInvoked listener.id = some s.atom.value := by
  intro hcurrent
  have hrun : ∃ s ∈ (machine Bool ℕ Unit).run (start Atom.oneListener) overtaken,
      (∀ call, s.calls call = none) ∧ s.lastInvoked 1 ≠ some s.atom.value := by
    decide +kernel
  obtain ⟨s, hs, hquiet, hne⟩ := hrun
  exact hne (hcurrent Atom.oneListener overtaken s hs hquiet ⟨true, 2, by simp [overtaken]⟩
    ⟨1, some ()⟩ rfl subscribed_overtaken)

end Keyleport
