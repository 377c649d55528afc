import ActorMachine.Proofs.Native.Actions
import ActorMachine.Proofs.Store.Cycles

set_option autoImplicit false

/-!
Steps that end.

A step of a native ends when it gives a result or faults, and the one thing that does not end is a
walk along a circular list. A native ends when each of its steps does. Main statement: an operation
on values ends if its arguments have no circles, `DataOp.ends_run`.
-/

namespace ActorMachine

namespace Argument

variable {σ α β : Type} {state : σ}

/-- A result or a fault. -/
def Settled (outcome : Outcome α) : Prop := outcome ≠ .error .endless

/-- From the given state, the step gives a result or faults. -/
def EndsAt (state : σ) (act : Action σ α) : Prop := Settled (act.run state).1

/-- From every state, the step gives a result or faults. -/
def Ends (act : Action σ α) : Prop := ∀ state, EndsAt state act

theorem settled_faulting (cause : Fault) : Settled (faulting cause : Outcome α) := nofun

/-- Whether a failure is a fault does not depend on what a result would be. -/
theorem Settled.error {failure : Failure} (settled : Settled (.error failure : Outcome α)) :
    Settled (.error failure : Outcome β) := by
  intro endless
  cases endless
  exact settled rfl

theorem ends_pure (a : α) : Ends (pure a : Action σ α) := fun _ => nofun

theorem ends_ofOutcome {outcome : Outcome α} (settled : Settled outcome) :
    Ends (ofOutcome outcome : Action σ α) :=
  fun _ => settled

theorem ends_refuse (cause : Fault) : Ends (refuse cause : Action σ α) := fun _ => nofun

theorem ends_missing (expected : Nat) (args : List Value) :
    Ends (missing expected args : Action σ α) :=
  ends_refuse _

theorem ends_get : Ends (get : Action σ σ) := fun _ => nofun

theorem ends_modify (f : σ → σ) : Ends (modify f : Action σ Unit) := fun _ => nofun

theorem EndsAt.bind {act : Action σ α} {next : α → Action σ β} (first : EndsAt state act)
    (rest : ∀ a after, act.run state = (.ok a, after) → EndsAt after (next a)) :
    EndsAt state (act >>= next) := by
  unfold EndsAt
  rw [run_bind]
  cases done : act.run state with
  | mk outcome after =>
      cases outcome with
      | ok a => exact rest a after done
      | error failure =>
          have settled : Settled (act.run state).1 := first
          rw [done] at settled
          exact settled.error

theorem Ends.bind {act : Action σ α} {next : α → Action σ β} (first : Ends act)
    (rest : ∀ a, Ends (next a)) : Ends (act >>= next) :=
  fun state => (first state).bind fun a after _ => rest a after

/-- Steps after an argument was taken. -/
theorem endsAt_ofOutcome_bind {outcome : Outcome α} {next : α → Action σ β}
    (settled : Settled outcome) (rest : ∀ a, outcome = .ok a → EndsAt state (next a)) :
    EndsAt state (ofOutcome outcome >>= next) := by
  cases outcome with
  | ok a => exact rest a rfl
  | error failure => exact settled.error

/-- Steps after a look at the state. -/
theorem endsAt_get_bind {next : σ → Action σ β} (rest : EndsAt state (next state)) :
    EndsAt state (get >>= next : Action σ β) :=
  rest

/-! ### Arguments -/

theorem settled_number (who : String) (v : Value) : Settled (number who v) := by
  cases v <;> nofun

theorem settled_string (who : String) (v : Value) : Settled (string who v) := by
  cases v <;> nofun

theorem settled_symbol (who : String) (v : Value) : Settled (symbol who v) := by
  cases v <;> nofun

theorem settled_pair (who : String) (v : Value) : Settled (pair who v) := by
  cases v <;> nofun

theorem settled_cell (who : String) (v : Value) : Settled (cell who v) := by
  cases v <;> nofun

theorem settled_array (who : String) (v : Value) : Settled (array who v) := by
  cases v <;> nofun

theorem settled_process (who : String) (v : Value) : Settled (process who v) := by
  cases v <;> nofun

theorem settled_function (who : String) (v : Value) : Settled (function who v) := by
  cases v <;> nofun

theorem settled_index (who : String) (v : Value) : Settled (index who v) := by
  unfold index
  cases v with
  | number x =>
      dsimp only [number]
      split
      · nofun
      · exact settled_faulting _
  | _ => nofun

end Argument

open Argument

/-- The walk along a list without circles ends. -/
theorem Store.Acyclic.settled_elements {store : Store} {v : Value} (acyclic : store.Acyclic v) :
    Settled (store.elements v) :=
  fun endless => acyclic.spine_ne_circular ((store.elements_spine v).2.2.1 endless)

namespace DataOp

theorem settled_arrayLengthOf (who : String) (v : Value) : Settled (arrayLengthOf who v) := by
  unfold arrayLengthOf
  have settled := settled_index who v
  generalize index who v = outcome at settled
  cases outcome with
  | error failure => exact settled.error
  | ok n =>
      dsimp only
      split
      · nofun
      · exact settled_faulting _

theorem settled_joinStrings (who out : String) (items : List Value) :
    Settled (joinStrings who out items) := by
  induction items generalizing out with
  | nil => nofun
  | cons v rest ih =>
      unfold joinStrings
      cases v with
      | string text => exact ih _
      | _ => exact settled_faulting _

theorem settled_ofWire {α : Type} (outcome : Except WireFault α) : Settled (ofWire outcome) := by
  cases outcome <;> nofun

theorem ends_alloc {α : Type} (f : Store → α × Store) : Ends (alloc f) := fun _ => nofun

theorem ends_change (f : Store → Store) : Ends (change f) := fun _ => nofun

/-- An operation on values ends: only `concat` walks a list, its argument. -/
theorem ends_run {store : Store} (op : DataOp) {args : List Value}
    (acyclic : ∀ v ∈ args, store.Acyclic v) : EndsAt store (op.run args) := by
  unfold run
  split
  · exact (ends_ofOutcome (settled_symbol _ _)).bind (fun _ => ends_pure _) store
  · exact ends_alloc _ store
  · exact (ends_ofOutcome (settled_pair _ _)).bind
      (fun _ => ends_get.bind fun _ => ends_pure _) store
  · exact (ends_ofOutcome (settled_pair _ _)).bind
      (fun _ => ends_get.bind fun _ => ends_pure _) store
  · exact (ends_ofOutcome (settled_pair _ _)).bind
      (fun _ => (ends_change _).bind fun _ => ends_pure _) store
  · exact (ends_ofOutcome (settled_pair _ _)).bind
      (fun _ => (ends_change _).bind fun _ => ends_pure _) store
  · exact ends_alloc _ store
  · exact (ends_ofOutcome (settled_cell _ _)).bind
      (fun _ => ends_get.bind fun _ => ends_pure _) store
  · exact (ends_ofOutcome (settled_cell _ _)).bind
      (fun _ => (ends_change _).bind fun _ => ends_pure _) store
  · exact (ends_ofOutcome (settled_arrayLengthOf _ _)).bind (fun _ => ends_alloc _) store
  · exact (ends_ofOutcome (settled_array _ _)).bind
      (fun _ => ends_get.bind fun _ => ends_pure _) store
  · refine (ends_ofOutcome (settled_index _ _)).bind (fun i =>
      (ends_ofOutcome (settled_array _ _)).bind fun ref => ends_get.bind fun found => ?_) store
    split
    · exact ends_pure _
    · exact ends_refuse _
  · refine (ends_ofOutcome (settled_index _ _)).bind (fun i =>
      (ends_ofOutcome (settled_array _ _)).bind fun ref => ends_get.bind fun found => ?_) store
    dsimp only
    split
    · exact (ends_change _).bind fun _ => ends_pure _
    · exact ends_refuse _
  · exact (ends_ofOutcome (settled_arrayLengthOf _ _)).bind (fun _ =>
      (ends_ofOutcome (settled_array _ _)).bind fun _ =>
        (ends_change _).bind fun _ => ends_pure _) store
  · -- The list is walked in the store in which the operation starts.
    have settled := (acyclic _ List.mem_cons_self).settled_elements
    exact endsAt_get_bind (endsAt_ofOutcome_bind settled fun items _ =>
      (ends_ofOutcome (settled_joinStrings _ _ _)).bind (fun _ => ends_pure _) store)
  · exact (ends_ofOutcome (settled_string _ _)).bind (fun _ =>
      (ends_ofOutcome (settled_string _ _)).bind fun _ => ends_pure _) store
  · refine (ends_ofOutcome (settled_string _ _)).bind (fun text =>
      (ends_ofOutcome (settled_index _ _)).bind fun i => ?_) store
    split
    · exact ends_pure _
    · exact ends_refuse _
  · exact (ends_ofOutcome (settled_string _ _)).bind (fun _ => ends_pure _) store
  · exact (ends_ofOutcome (settled_string _ _)).bind (fun _ =>
      (ends_ofOutcome (settled_number _ _)).bind fun _ =>
        (ends_ofOutcome (settled_number _ _)).bind fun _ => ends_pure _) store
  · refine (ends_ofOutcome (settled_string _ _)).bind (fun text => ?_) store
    split
    · exact ends_pure _
    · exact ends_pure _
  · exact (ends_ofOutcome (settled_number _ _)).bind (fun _ => ends_pure _) store
  · exact (ends_ofOutcome (settled_string _ _)).bind (fun _ => ends_pure _) store
  · exact (ends_ofOutcome (settled_string _ _)).bind (fun _ => ends_refuse _) store
  · split
    · exact ends_alloc _ store
    · exact ends_alloc _ store
    · exact ends_refuse _ store
  · exact (ends_ofOutcome (settled_string _ _)).bind (fun _ =>
      (ends_ofOutcome (settled_ofWire _)).bind fun _ => ends_alloc _) store
  · exact ends_get.bind (fun _ =>
      (ends_ofOutcome (settled_ofWire _)).bind fun _ => ends_pure _) store
  · exact (ends_ofOutcome (settled_number _ _)).bind (fun _ => ends_pure _) store
  · exact ends_missing _ _ store

end DataOp

end ActorMachine
