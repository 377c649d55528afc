import ActorMachine.Proofs.Code.Interning
import ActorMachine.Proofs.Engine.Reachable
import Mathlib

set_option autoImplicit false

/-!
What linking and loading leave of an engine.

Linking and loading work on the memory alone: data are put into the store, and names get slots. A
payload that cannot be loaded starts nothing, so after a failed boot the engine is as it was up to
that. Main statement: `bindings_undisturbed`.
-/

namespace ActorMachine.Engine

/-- Nothing of an engine changes but its memory: the store grows, and names get slots. -/
structure Prepares (before after : Engine) : Prop where
  elsewhere : after =
    { before with scheduler := { before.scheduler with memory := after.scheduler.memory } }
  store : before.store.Grows after.store
  globals : before.globals.Interns after.globals

namespace Prepares

theorem refl (engine : Engine) : engine.Prepares engine :=
  ⟨rfl, .refl engine.store, .refl engine.globals⟩

theorem trans {first middle last : Engine} (left : first.Prepares middle)
    (right : middle.Prepares last) : first.Prepares last where
  elsewhere := by
    rw [right.elsewhere, left.elsewhere]
  store := left.store.trans right.store
  globals := left.globals.trans right.globals

end Prepares

theorem prepares_onStore {α : Type} (engine : Engine) (f : Store → α × Store)
    (grows : engine.store.Grows (f engine.store).2) : engine.Prepares (engine.onStore f).2 :=
  ⟨rfl, grows, .refl engine.globals⟩

theorem prepares_linkFunction (engine : Engine) (listing : Value) :
    engine.Prepares (engine.linkFunction listing).2 :=
  ⟨rfl, ⟨Nat.le_refl _, fun _ _ => rfl, rfl, rfl, rfl⟩,
    interns_link engine.natives engine.store engine.globals listing⟩

theorem prepares_linkAll (engine : Engine) (linked : List Template) (units : List Value) :
    engine.Prepares (engine.linkAll linked units).2 := by
  induction units generalizing engine linked with
  | nil => exact .refl engine
  | cons unit rest ih =>
      have first := engine.prepares_linkFunction unit
      unfold linkAll
      cases done : engine.linkFunction unit with
      | mk outcome middle =>
          rw [done] at first
          cases outcome with
          | error failure => exact first
          | ok template => exact first.trans (ih middle (template :: linked))

theorem grows_chain (rest : Template) (units : List Template) (store : Store) :
    store.Grows (chain rest units store).2 := by
  induction units generalizing rest store with
  | nil => exact .refl store
  | cons unit units ih =>
      have stamped : store.Grows (store.newTemplate (sequenceCode unit rest)).2 :=
        ⟨Nat.le_refl _, fun _ _ => rfl, rfl, rfl, rfl⟩
      exact stamped.trans (ih _ _)

theorem prepares_load (engine : Engine) (units : List Value) :
    engine.Prepares (engine.load units).2 := by
  have linked := engine.prepares_linkAll [] units
  unfold load
  cases done : engine.linkAll [] units with
  | mk outcome middle =>
      rw [done] at linked
      match outcome with
      | .error failure => exact linked
      | .ok [] => exact linked
      | .ok (last :: units) =>
          exact linked.trans (middle.prepares_onStore _ (grows_chain last units _))

theorem prepares_loadPayload (engine : Engine) (payload : String) :
    engine.Prepares (engine.loadPayload payload).2 := by
  unfold loadPayload
  cases Wire.readPayload payload with
  | error fault => exact .refl engine
  | ok data =>
      have stored := engine.prepares_onStore (fun store => store.loadAll data)
        (engine.store.grows_loadAll data)
      exact stored.trans (prepares_load _ _)

/-- A boot fails if the payload cannot be loaded, and leaves what loading left. -/
theorem loadPayload_of_boot {engine after : Engine} {fuel : Nat} {payload : String}
    {failure : Failure} (booted : engine.boot fuel payload = .ok (.error failure, after)) :
    engine.loadPayload payload = (.error failure, after) := by
  unfold boot at booted
  split at booted
  · rename_i loaded
    cases booted
    exact loaded
  · obtain ⟨launched, _, same⟩ := map_eq_ok booted
    cases same

/-- Linking a listing, whether it succeeds or fails, changes the table of globals only by giving
slots to names: every name keeps its slot and its value, and the names with a value are the same. A
boot that fails changes no more of the table, and of the engine it changes nothing but the memory,
in which all that was stored is left as it was. -/
theorem bindings_undisturbed (engine : Engine) :
    (∀ listing : Value, engine.globals.Interns (engine.linkFunction listing).2.globals) ∧
    ∀ (fuel : Nat) (payload : String) (failure : Failure) (after : Engine),
      engine.boot fuel payload = .ok (.error failure, after) →
        engine.globals.Interns after.globals ∧ engine.store.Grows after.store ∧
        after = { engine with
          scheduler := { engine.scheduler with memory := after.scheduler.memory } } := by
  constructor
  · exact fun listing => (engine.prepares_linkFunction listing).globals
  · intro fuel payload failure after booted
    have prepares := engine.prepares_loadPayload payload
    rw [loadPayload_of_boot booted] at prepares
    exact ⟨prepares.globals, prepares.store, prepares.elsewhere⟩

/-- Two units, of which the second has an unknown instruction. -/
def halfPayload : String :=
  "[[\"code\", [\"GVAR\", \"x\"]], [\"code\", [\"GVAR\", \"y\"], [\"NOPE\"]]]"

/-- An engine in which only `x` has a value. -/
def oneGlobal : Engine :=
  { scheduler := { memory := { globals := (Globals.define {} "x" (.symbol "here")).2 } } }

/-- Both names were met before linking failed, and only the one that was new got a slot. -/
theorem bindings_undisturbed_half :
    ∃ after, oneGlobal.boot 0 halfPayload =
        .ok (.error (.fault (.malformed .unknownInstruction "(NOPE)")), after) ∧
      after.globals.lookup? "y" = some 1 ∧ after.globals.value? "x" = some (.symbol "here") ∧
      after.globals.definedNames = ["x"] ∧ after.scheduler.processes = {} ∧
      after.rearm = .idle := by
  have booted : oneGlobal.boot 0 halfPayload =
      .ok (.error (.fault (.malformed .unknownInstruction "(NOPE)")),
        (oneGlobal.loadPayload halfPayload).2) := by cbv
  have noted : (oneGlobal.loadPayload halfPayload).2.globals.lookup? "y" = some 1 := by cbv
  obtain ⟨interns, _, elsewhere⟩ := (bindings_undisturbed oneGlobal).2 0 halfPayload _ _ booted
  have value : oneGlobal.globals.value? "x" = some (.symbol "here") := by cbv
  have names : oneGlobal.globals.definedNames = ["x"] := by cbv
  refine ⟨_, booted, noted, (interns.value_eq "x").trans value,
    interns.definedNames_eq.trans names, ?_, ?_⟩
  · rw [elsewhere]
    rfl
  · rw [elsewhere]
    rfl

end ActorMachine.Engine
