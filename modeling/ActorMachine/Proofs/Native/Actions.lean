import ActorMachine.Native.Data
import ActorMachine.Proofs.Store.Tags
import Mathlib.Order.Defs.Unbundled

set_option autoImplicit false

/-!
What natives can change, told step by step.

A native is a sequence of small steps, each of which can fail. `Keeps` relates the states before and
after, so that a native keeps to a relation when each of its steps does. Natives on values keep the
first parts of pairs, all but the one that is there to overwrite them, and they keep frames.
-/

namespace ActorMachine

namespace Argument

variable {σ α β : Type}

/-- The state that a step leaves, also when it fails, is related to the one that it found. -/
def Keeps (related : σ → σ → Prop) (act : Action σ α) : Prop :=
  ∀ state, related state (act.run state).2

variable {related : σ → σ → Prop} [IsPreorder σ related]

theorem keeps_pure (a : α) : Keeps related (pure a : Action σ α) :=
  fun state => refl_of related state

theorem keeps_ofOutcome (outcome : Outcome α) : Keeps related (ofOutcome outcome : Action σ α) :=
  fun state => refl_of related state

theorem keeps_refuse (cause : Fault) : Keeps related (refuse cause : Action σ α) :=
  keeps_ofOutcome _

theorem keeps_missing (expected : Nat) (args : List Value) :
    Keeps related (missing expected args : Action σ α) :=
  keeps_refuse _

theorem keeps_get : Keeps related (get : Action σ σ) := fun state => refl_of related state

/-- A step that succeeded is followed by the rest, and one that failed is the last. -/
theorem run_bind (act : Action σ α) (next : α → Action σ β) (state : σ) :
    (act >>= next).run state =
      match act.run state with
      | (.ok a, after) => (next a).run after
      | (.error failure, after) => (.error failure, after) := by
  rw [ExceptT.run_bind]
  simp only [bind, StateT.bind]
  rcases act.run state with ⟨outcome, after⟩
  cases outcome with
  | ok a => rfl
  | error failure => rfl

theorem Keeps.bind {act : Action σ α} {next : α → Action σ β} (first : Keeps related act)
    (rest : ∀ a, Keeps related (next a)) : Keeps related (act >>= next) := by
  intro state
  have before := first state
  rw [run_bind]
  cases done : act.run state with
  | mk outcome after =>
      rw [done] at before
      cases outcome with
      | ok a => exact trans_of related before (rest a after)
      | error failure => exact before

/-- Steps after an argument was taken. -/
theorem keeps_ofOutcome_bind {outcome : Outcome α} {next : α → Action σ β}
    (rest : ∀ a, outcome = .ok a → Keeps related (next a)) :
    Keeps related (ofOutcome outcome >>= next) := by
  cases outcome with
  | ok a => exact rest a rfl
  | error failure => exact fun state => refl_of related state

omit [IsPreorder σ related] in
/-- Steps after a look at the state. -/
theorem keeps_get_bind {next : σ → Action σ β}
    (rest : ∀ state, related state ((next state).run state).2) :
    Keeps related (get >>= next : Action σ β) :=
  rest

end Argument

open Argument

namespace DataOp

instance : IsPreorder Store Store.KeepsCarsAndFrames where
  refl := fun store => ⟨.refl store, rfl⟩
  trans := fun _ _ _ left right =>
    ⟨left.cars.trans right.cars, right.frames_eq.trans left.frames_eq⟩

variable {α : Type}

theorem keeps_alloc {f : Store → α × Store}
    (kept : ∀ store : Store, store.KeepsCarsAndFrames (f store).2) :
    Keeps Store.KeepsCarsAndFrames (alloc f) :=
  kept

theorem keeps_change {f : Store → Store}
    (same : ∀ store, (f store).pairs = store.pairs ∧ (f store).frames = store.frames) :
    Keeps Store.KeepsCarsAndFrames (change f) :=
  fun store => ⟨Store.keepsCars_of_pairs_eq (same store).1, (same store).2⟩

/-- The pair that an operation overwrites the first part of. -/
def overwrites? : DataOp → List Value → Option Ref
  | .setCar, [.pair ref, _] => some ref
  | _, _ => none

/-- Operations on values keep the first parts of pairs, all but the one that overwrites one, and all
frames. -/
theorem keeps_run {op : DataOp} {args : List Value} (harmless : op.overwrites? args = none) :
    Keeps Store.KeepsCarsAndFrames (op.run args) := by
  unfold run
  split
  · exact (keeps_ofOutcome _).bind fun _ => keeps_pure _
  · exact keeps_alloc fun store => (store.grows_cons _ _).keepsCarsAndFrames
  · exact (keeps_ofOutcome _).bind fun _ => keeps_get.bind fun _ => keeps_pure _
  · exact (keeps_ofOutcome _).bind fun _ => keeps_get.bind fun _ => keeps_pure _
  · rename_i v x
    -- Only a pair can be overwritten; any other argument is refused.
    cases v with
    | pair ref => cases harmless
    | _ => exact fun store => ⟨.refl store, rfl⟩
  · refine (keeps_ofOutcome _).bind fun ref => Keeps.bind ?_ fun _ => keeps_pure _
    exact fun store => ⟨store.keepsCars_setCdr ref _, rfl⟩
  · exact keeps_alloc fun store => ⟨Store.keepsCars_of_pairs_eq rfl, rfl⟩
  · exact (keeps_ofOutcome _).bind fun _ => keeps_get.bind fun _ => keeps_pure _
  · exact (keeps_ofOutcome _).bind fun _ =>
      (keeps_change fun _ => ⟨by rfl, by rfl⟩).bind fun _ => keeps_pure _
  · exact (keeps_ofOutcome _).bind fun _ =>
      keeps_alloc fun store => ⟨Store.keepsCars_of_pairs_eq rfl, rfl⟩
  · exact (keeps_ofOutcome _).bind fun _ => keeps_get.bind fun _ => keeps_pure _
  · refine (keeps_ofOutcome _).bind fun i => (keeps_ofOutcome _).bind fun ref =>
      keeps_get.bind fun store => ?_
    split
    · exact keeps_pure _
    · exact keeps_refuse _
  · refine (keeps_ofOutcome _).bind fun i => (keeps_ofOutcome _).bind fun ref =>
      keeps_get.bind fun store => ?_
    dsimp only
    split
    · exact (keeps_change fun _ => ⟨by rfl, by rfl⟩).bind fun _ => keeps_pure _
    · exact keeps_refuse _
  · exact (keeps_ofOutcome _).bind fun _ => (keeps_ofOutcome _).bind fun _ =>
      (keeps_change fun _ => ⟨by rfl, by rfl⟩).bind fun _ => keeps_pure _
  · exact keeps_get.bind fun _ => (keeps_ofOutcome _).bind fun _ =>
      (keeps_ofOutcome _).bind fun _ => keeps_pure _
  · exact (keeps_ofOutcome _).bind fun _ => (keeps_ofOutcome _).bind fun _ => keeps_pure _
  · refine (keeps_ofOutcome _).bind fun text => (keeps_ofOutcome _).bind fun i => ?_
    split
    · exact keeps_pure _
    · exact keeps_refuse _
  · exact (keeps_ofOutcome _).bind fun _ => keeps_pure _
  · exact (keeps_ofOutcome _).bind fun _ => (keeps_ofOutcome _).bind fun _ =>
      (keeps_ofOutcome _).bind fun _ => keeps_pure _
  · refine (keeps_ofOutcome _).bind fun text => ?_
    split
    · exact keeps_pure _
    · exact keeps_pure _
  · exact (keeps_ofOutcome _).bind fun _ => keeps_pure _
  · exact (keeps_ofOutcome _).bind fun _ => keeps_pure _
  · exact (keeps_ofOutcome _).bind fun _ => keeps_refuse _
  · split
    · exact keeps_alloc fun store => (Store.allocates_unlink _ store).keepsCarsAndFrames
    · exact keeps_alloc fun store => (Store.allocates_unlink _ store).keepsCarsAndFrames
    · exact keeps_refuse _
  · exact (keeps_ofOutcome _).bind fun _ => (keeps_ofOutcome _).bind fun _ =>
      keeps_alloc fun store => (store.grows_load _).keepsCarsAndFrames
  · exact keeps_get.bind fun _ => (keeps_ofOutcome _).bind fun _ => keeps_pure _
  · exact (keeps_ofOutcome _).bind fun _ => keeps_pure _
  · exact keeps_missing _ _

end DataOp

end ActorMachine
