import ActorMachine.Engine.Burst

set_option autoImplicit false

/-!
Loading: units of code as one function that runs them first to last.

Every unit but the last is called by a wrapper that drops its value and goes on to the rest, so the
value of the whole is that of the last unit.
-/

namespace ActorMachine.Engine

/-- The code that calls `unit`, drops its value and goes on with `rest`. -/
def sequenceCode (unit rest : Template) : Array Instruction :=
  #[.args 0, .save ⟨"L0", 4⟩, .function unit, .call (.fixed 0), .pop, .function rest,
    .call (.fixed 0)]

/-- Links units in order. -/
def linkAll (linked : List Template) : List Value → Engine → Outcome (List Template) × Engine
  | [], engine => (.ok linked, engine)
  | unit :: rest, engine =>
      match engine.linkFunction unit with
      | (.ok template, engine) => linkAll (template :: linked) rest engine
      | (.error failure, engine) => (.error failure, engine)

/-- Puts units, last one first, in front of a chain. -/
def chain (rest : Template) : List Template → Store → Template × Store
  | [], store => (rest, store)
  | unit :: units, store =>
      let (rest, store) := store.newTemplate (sequenceCode unit rest)
      chain rest units store

/-- One function for all units. -/
def load (units : List Value) (engine : Engine) : Outcome Template × Engine :=
  match linkAll [] units engine with
  | (.error failure, engine) => (.error failure, engine)
  | (.ok [], engine) => (faulting (.wire .emptyPayload), engine)
  | (.ok (last :: units), engine) =>
      let (template, engine) := engine.onStore (chain last units)
      (.ok template, engine)

/-- The function that a payload spells. -/
def loadPayload (payload : String) (engine : Engine) : Outcome Template × Engine :=
  match Wire.readPayload payload with
  | .error fault => (faulting (.wire fault), engine)
  | .ok data =>
      let (units, engine) := engine.onStore fun store => store.loadAll data
      engine.load units

/-- Starts the first process from a payload. A payload that cannot be loaded starts nothing. -/
def boot (fuel : Nat) (payload : String) (engine : Engine) :
    Except Unfinished (Outcome ProcessId × Engine) :=
  match engine.loadPayload payload with
  | (.error failure, engine) => .ok (.error failure, engine)
  | (.ok template, engine) =>
      let (f, engine) := engine.newFunction template
      (engine.launch fuel f).map fun (pid, engine) => (.ok pid, engine)

end ActorMachine.Engine
