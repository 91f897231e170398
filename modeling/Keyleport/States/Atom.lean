import Keyleport.Lib.Machine
import Mathlib.Logic.Function.Basic

/-!
# Atoms

`states/atom.h`: a value with listeners. `set` stores the value under the lock; `notify_` takes a
snapshot of the listeners and of the value under the lock again, and invokes the callbacks without
it. Calls of `set` from several threads interleave at these three places, so the steps of the
machine are one store, one snapshot, one iteration of the loop over the callbacks, and the return.
-/

namespace Keyleport

/-- `Atom::Listener`. An empty `std::function` is `none`. -/
structure Listener (C : Type) where
  id : UInt64
  cb : Option C
deriving DecidableEq, Repr

/-- `states::Atom`. -/
structure Atom (T C : Type) where
  /-- `value_`, `none` until a value is set. -/
  stored : Option T
  listeners : List (Listener C)
  nextId : UInt64
deriving DecidableEq, Repr

namespace Atom

variable {T C : Type}

/-- `Atom()`. -/
def new : Atom T C := ⟨none, [], 0⟩

/-- `value`. -/
def value [Inhabited T] (a : Atom T C) : T := a.stored.getD default

/-- The store of `set`. -/
def setStored (a : Atom T C) (v : T) : Atom T C := { a with stored := some v }

/-- The snapshot of `notify_`, `none` if no value is set. -/
def snapshot (a : Atom T C) : Option (List (Listener C) × T) :=
  a.stored.map fun v => (a.listeners, v)

/-- `subscribe`: the new id and the atom with the listener at the end. -/
def subscribe (a : Atom T C) (cb : Option C) : UInt64 × Atom T C :=
  let id := a.nextId + 1
  (id, { a with listeners := a.listeners ++ [⟨id, cb⟩], nextId := id })

/-- `unsubscribe`: erase the first listener with the id. -/
def unsubscribe (a : Atom T C) (id : UInt64) : Atom T C :=
  { a with listeners := a.listeners.eraseP fun l => l.id = id }

/-- `clear_listeners`. -/
def clearListeners (a : Atom T C) : Atom T C := { a with listeners := [] }

end Atom

/-! ## The machine -/

/-- Where a call of `set` is. -/
inductive SetCall (T C : Type) where
  /-- After the store, before the snapshot. -/
  | stored
  /-- In the loop of `notify_`, with the listeners it has yet to come to. -/
  | notifying (remaining : List (Listener C)) (snapshot : T)
deriving DecidableEq, Repr

/-- An atom and the calls of `set` on it, named by `ι`. -/
structure SharedAtom (ι T C : Type) where
  atom : Atom T C
  /-- The calls in progress. -/
  calls : ι → Option (SetCall T C)
  /-- The listeners invoked, by their ids, and with which value, oldest first. -/
  invoked : List (UInt64 × T)

namespace SharedAtom

variable {ι T C : Type}

/-- An atom without calls. -/
def start (a : Atom T C) : SharedAtom ι T C := ⟨a, fun _ => none, []⟩

/-- The steps of a program that shares an atom. -/
inductive Step (ι T : Type) (C : Type) where
  /-- A call of `set` starts, and stores its value. -/
  | set (call : ι) (v : T)
  /-- The call takes the snapshot. -/
  | snapshot (call : ι)
  /-- The call invokes the next listener of its snapshot, if it has a callback. -/
  | invoke (call : ι)
  /-- The call returns. -/
  | finish (call : ι)
  | subscribe (cb : Option C)
  | unsubscribe (id : UInt64)
  | clearListeners

variable [DecidableEq ι]

/-- One step. -/
def step (s : SharedAtom ι T C) : Step ι T C → Option (SharedAtom ι T C)
  | .set call v =>
      match s.calls call with
      | none => some { s with
          atom := s.atom.setStored v
          calls := Function.update s.calls call (some .stored) }
      | some _ => none
  | .snapshot call =>
      match s.calls call with
      | some .stored => some { s with
          -- without a value `notify_` returns at once
          calls := Function.update s.calls call
            (s.atom.snapshot.map fun taken => .notifying taken.1 taken.2) }
      | _ => none
  | .invoke call =>
      match s.calls call with
      | some (.notifying (l :: remaining) v) => some { s with
          calls := Function.update s.calls call (some (.notifying remaining v))
          invoked := s.invoked ++ if l.cb.isSome then [(l.id, v)] else [] }
      | _ => none
  | .finish call =>
      match s.calls call with
      | some (.notifying [] _) => some { s with calls := Function.update s.calls call none }
      | _ => none
  | .subscribe cb => some { s with atom := (s.atom.subscribe cb).2 }
  | .unsubscribe id => some { s with atom := s.atom.unsubscribe id }
  | .clearListeners => some { s with atom := s.atom.clearListeners }

/-- Programs that share an atom, as a machine. -/
def machine (ι T C : Type) [DecidableEq ι] : Machine (SharedAtom ι T C) (Step ι T C) := ⟨step⟩

/-! ## What the steps do -/

variable {s s' : SharedAtom ι T C} {call : ι}

theorem step_set {v : T} (h : step s (.set call v) = some s') :
    s.calls call = none ∧ s' = { s with
      atom := s.atom.setStored v
      calls := Function.update s.calls call (some .stored) } := by
  simp only [step] at h
  split at h
  next hcall => exact ⟨hcall, (Option.some.inj h).symm⟩
  next => cases h

theorem step_snapshot (h : step s (.snapshot call) = some s') :
    s.calls call = some .stored ∧ s' = { s with
      calls := Function.update s.calls call
        (s.atom.snapshot.map fun taken => .notifying taken.1 taken.2) } := by
  simp only [step] at h
  split at h
  next hcall => exact ⟨hcall, (Option.some.inj h).symm⟩
  next => cases h

theorem step_invoke (h : step s (.invoke call) = some s') : ∃ l remaining v,
    s.calls call = some (.notifying (l :: remaining) v) ∧ s' = { s with
      calls := Function.update s.calls call (some (.notifying remaining v))
      invoked := s.invoked ++ if l.cb.isSome then [(l.id, v)] else [] } := by
  simp only [step] at h
  split at h
  next l remaining v hcall => exact ⟨l, remaining, v, hcall, (Option.some.inj h).symm⟩
  next => cases h

theorem step_finish (h : step s (.finish call) = some s') : ∃ v,
    s.calls call = some (.notifying [] v) ∧
      s' = { s with calls := Function.update s.calls call none } := by
  simp only [step] at h
  split at h
  next v hcall => exact ⟨v, hcall, (Option.some.inj h).symm⟩
  next => cases h

/-- No call of `set` is in progress. -/
def Quiescent (s : SharedAtom ι T C) : Prop := ∀ call, s.calls call = none

/-- The last value the listener with an id was invoked with. -/
def lastInvoked (s : SharedAtom ι T C) (id : UInt64) : Option T :=
  ((s.invoked.filter fun e => e.1 = id).getLast?).map Prod.snd

end SharedAtom

end Keyleport
