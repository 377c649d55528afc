import ActorMachine.Code
import ActorMachine.Interner

set_option autoImplicit false

/-!
Global names and their values.

A name gets a slot when it is first used and keeps it: its number in the interner. Code refers to
globals by slot, so it sees whatever the name is bound to now. A slot can be empty: before the first
definition and after the name was undefined.
-/

namespace ActorMachine

/-- An empty interner needs no slots. -/
theorem Interner.size_empty {I : Type} [Interner I] :
    (#[] : Array (Option Value)).size = (texts (empty : I)).length :=
  (congrArg List.length texts_empty).symm

/-- Names with their numbers, and a slot for each of them. -/
structure Globals (I : Type := Names) [Interner I] where
  interner : I := Interner.empty
  slots : Array (Option Value) := #[]
  sized : slots.size = (Interner.texts interner).length := by
    exact Interner.size_empty

namespace Globals

variable {I : Type} [Interner I]

/-- The slot of a name that was used before. -/
def lookup? (globals : Globals I) (name : String) : Option Slot :=
  Interner.find? globals.interner name

/-- Makes empty slots up to the given one, if it is not there. -/
def reach (slots : Array (Option Value)) (slot : Slot) : Array (Option Value) :=
  if slots.size ≤ slot then slots ++ Array.replicate (slot + 1 - slots.size) none else slots

theorem size_reach (globals : Globals I) (name : String) :
    (reach globals.slots (Interner.intern globals.interner name).1).size =
      (Interner.texts (Interner.intern globals.interner name).2).length := by
  have sized := globals.sized
  unfold reach
  by_cases used : name ∈ Interner.texts globals.interner
  · rw [Interner.intern_of_mem _ _ used]
    have inside := List.idxOf_lt_length_iff.2 used
    rw [if_neg (by omega)]
    exact sized
  · obtain ⟨isLast, added⟩ := Interner.intern_of_new _ _ used
    rw [isLast, added, if_pos (by omega)]
    simp only [Array.size_append, Array.size_replicate, List.length_append, List.length_singleton]
    omega

/-- The slot of a name, a new one at its first use. -/
def intern (globals : Globals I) (name : String) : Slot × Globals I :=
  let noted := Interner.intern globals.interner name
  (noted.1, ⟨noted.2, reach globals.slots noted.1, globals.size_reach name⟩)

/-- The name that has a slot. -/
def nameAt (globals : Globals I) (slot : Slot) : String :=
  (Interner.text? globals.interner slot).getD "?"

def valueAt? (globals : Globals I) (slot : Slot) : Option Value := globals.slots[slot]?.join

/-- Fills or empties a slot. -/
def put (globals : Globals I) (slot : Slot) (value : Option Value) : Globals I where
  interner := globals.interner
  slots := globals.slots.setIfInBounds slot value
  sized := by rw [Array.size_setIfInBounds, globals.sized]

/-- The value in a slot. -/
def get (globals : Globals I) (slot : Slot) : Except Fault Value :=
  match globals.valueAt? slot with
  | some v => .ok v
  | none => .error (.unbound (globals.nameAt slot))

/-- Whether a slot has a value. -/
def isBoundAt (globals : Globals I) (slot : Slot) : Bool := (globals.valueAt? slot).isSome

/-- Changes the value in a slot that has one. -/
def set (globals : Globals I) (slot : Slot) (v : Value) : Except Fault (Globals I) :=
  if globals.isBoundAt slot then .ok (globals.put slot (some v))
  else .error (.unbound (globals.nameAt slot))

def value? (globals : Globals I) (name : String) : Option Value :=
  (globals.lookup? name).bind globals.valueAt?

def isDefined (globals : Globals I) (name : String) : Bool := (globals.value? name).isSome

/-- Binds a name, replacing any value it has. -/
def define (globals : Globals I) (name : String) (v : Value) : Slot × Globals I :=
  let (slot, globals) := globals.intern name
  (slot, globals.put slot (some v))

/-- Binds a name without a value to its own symbol; answers whether it had none. -/
def defineSelf (globals : Globals I) (name : String) : Bool × Globals I :=
  if globals.isDefined name then (false, globals)
  else (true, (globals.define name (.symbol name)).2)

/-- Takes the value of a name away. The name keeps its slot. -/
def undefine (globals : Globals I) (name : String) : Globals I :=
  match globals.lookup? name with
  | some slot => globals.put slot none
  | none => globals

/-- The names that have a value, in the order of first use. -/
def definedNames (globals : Globals I) : List String :=
  ((Interner.texts globals.interner).zipIdx.filter
    fun (_, slot) => (globals.valueAt? slot).isSome).map (·.1)

end Globals

end ActorMachine
