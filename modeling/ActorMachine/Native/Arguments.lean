import ActorMachine.Store

set_option autoImplicit false

/-! The arguments of natives: each is asked for by kind, in the name of the native that asks. -/

namespace ActorMachine.Argument

/-- A step of a native that can fail and changes a state of type `σ`. -/
abbrev Action (σ : Type) := ExceptT Failure (StateM σ)

/-- The outcome of a computation that does not look at the state. -/
@[inline] def ofOutcome {σ α : Type} (outcome : Outcome α) : Action σ α := ExceptT.mk (pure outcome)

/-- Fails with a fault. -/
@[inline] def refuse {σ α : Type} (cause : Fault) : Action σ α := ofOutcome (faulting cause)

/-- Too few slots for the arguments. -/
def missing {σ α : Type} (expected : Nat) (args : List Value) : Action σ α :=
  refuse (.wrongCount expected args.length)

def number (who : String) : Value → Outcome Number
  | .number x => .ok x
  | _ => faulting (.wrongKind who "number")

def string (who : String) : Value → Outcome String
  | .string text => .ok text
  | _ => faulting (.wrongKind who "string")

def symbol (who : String) : Value → Outcome String
  | .symbol name => .ok name
  | _ => faulting (.wrongKind who "symbol")

def pair (who : String) : Value → Outcome Ref
  | .pair ref => .ok ref
  | _ => faulting (.wrongKind who "pair")

def cell (who : String) : Value → Outcome Ref
  | .cell ref => .ok ref
  | _ => faulting (.wrongKind who "cell")

def array (who : String) : Value → Outcome Ref
  | .array ref => .ok ref
  | _ => faulting (.wrongKind who "array")

def process (who : String) : Value → Outcome ProcessId
  | .process pid => .ok pid
  | _ => faulting (.wrongKind who "process")

def function (who : String) : Value → Outcome Closure
  | .function f => .ok f
  | _ => faulting (.wrongKind who "function")

/-- A number that is an index. -/
def index (who : String) (v : Value) : Outcome Nat :=
  match number who v with
  | .error failure => .error failure
  | .ok x =>
      match x.index? with
      | some n => .ok n
      | none => faulting (.outOfBounds who)

end ActorMachine.Argument
