import ActorMachine.Code
import ActorMachine.Datum

set_option autoImplicit false

/-!
The store: what values refer to.

Pairs, frames, cells and arrays are entries of the store, so a value that refers to one can be
shared and the entry changed under all who share it. Entries are never taken out again. Reading a
place that was never given out yields nil, and writing there changes nothing.
-/

namespace ActorMachine

structure Store where
  pairs : Array (Value × Value) := #[]
  frames : Array (Array Value) := #[]
  cells : Array Value := #[]
  arrays : Array (Array Value) := #[]
  /-- How many identities were given out to templates and functions. -/
  stamps : Nat := 0
  deriving Inhabited

namespace Store

/-! ### Identities -/

/-- A stamp that was not given out before. -/
def freshStamp (store : Store) : Nat × Store :=
  (store.stamps, { store with stamps := store.stamps + 1 })

/-- A template with the given code and an identity of its own. -/
def newTemplate (store : Store) (code : Array Instruction) : Template × Store :=
  let (stamp, store) := store.freshStamp
  (⟨.linked stamp, code⟩, store)

/-- A function with an identity of its own. -/
def newFunction (store : Store) (template : Template) (env : Env) : Closure × Store :=
  let (stamp, store) := store.freshStamp
  (⟨stamp, template, env⟩, store)

/-- A function without an environment over the given code. -/
def newProcedure (store : Store) (code : Array Instruction) : Closure × Store :=
  let (template, store) := store.newTemplate code
  store.newFunction template []

/-! ### Pairs and lists -/

def pairAt (store : Store) (ref : Ref) : Value × Value := store.pairs.getD ref (.nil, .nil)

/-- Whether a value does not lead out of the store. -/
def isHeld (store : Store) : Value → Bool
  | .pair ref => ref < store.pairs.size
  | _ => true

def carAt (store : Store) (ref : Ref) : Value := (store.pairAt ref).1

def cdrAt (store : Store) (ref : Ref) : Value := (store.pairAt ref).2

/-- The first part of a pair; nothing else has one. -/
def car? (store : Store) : Value → Option Value
  | .pair ref => some (store.carAt ref)
  | _ => none

/-- The second part of a pair; nothing else has one. -/
def cdr? (store : Store) : Value → Option Value
  | .pair ref => some (store.cdrAt ref)
  | _ => none

def cons (store : Store) (head tail : Value) : Value × Store :=
  let ref := store.pairs.size
  (.pair ref, { store with pairs := store.pairs.push (head, tail) })

def setCar (store : Store) (ref : Ref) (v : Value) : Store :=
  { store with pairs := store.pairs.modify ref fun pair => (v, pair.2) }

def setCdr (store : Store) (ref : Ref) (v : Value) : Store :=
  { store with pairs := store.pairs.modify ref fun pair => (pair.1, v) }

/-- The items in order, ending in `tail`; `items` is given last item first. -/
def consReversed (store : Store) (tail : Value) : List Value → Value × Store
  | [] => (tail, store)
  | item :: items =>
      let (rest, store) := store.cons item tail
      store.consReversed rest items

/-- A proper list. -/
def list (store : Store) (items : List Value) : Value × Store :=
  store.consReversed .nil items.reverse

/-- What following the second parts of pairs from a value comes to. -/
inductive Spine where
  | proper (items : List Value)
  | improper
  | circular

/-- Follows at most `fuel` pairs; `seen` holds the items before, last one first. -/
def spineFrom (store : Store) : Nat → List Value → Value → Spine
  | _, seen, .nil => .proper seen.reverse
  | 0, _, .pair _ => .circular
  | fuel + 1, seen, .pair ref => store.spineFrom fuel (store.carAt ref :: seen) (store.cdrAt ref)
  | _, _, _ => .improper

/-- The items of a list. A walk over more pairs than there are has met one of them twice, so it is
circular. -/
def spine (store : Store) (v : Value) : Spine := store.spineFrom store.pairs.size [] v

/-- The items of a proper list. The walk along a circular one never ends. -/
def elements (store : Store) (v : Value) : Outcome (List Value) :=
  match store.spine v with
  | .proper items => .ok items
  | .improper => faulting (.wrongKind "list" "proper list")
  | .circular => .error .endless

/-! ### Frames -/

def newFrame (store : Store) (slots : Array Value) : Ref × Store :=
  let ref := store.frames.size
  (ref, { store with frames := store.frames.push slots })

/-- The slots of a frame. -/
def frameAt (store : Store) (ref : Ref) : Array Value := store.frames.getD ref #[]

/-- The slots of the frame `depth` frames out. -/
def frame? (store : Store) (env : Env) (depth : Nat) : Option (Array Value) :=
  env[depth]?.map store.frameAt

def getLocal? (store : Store) (env : Env) (depth index : Nat) : Option Value :=
  match env[depth]? with
  | some ref => (store.frameAt ref)[index]?
  | none => none

/-- Whether there is such a slot. -/
def hasLocal (store : Store) (env : Env) (depth index : Nat) : Bool :=
  match env[depth]? with
  | some ref => index < (store.frameAt ref).size
  | none => false

/-- Changes a slot that there is; frames never grow. -/
def setLocal (store : Store) (env : Env) (depth index : Nat) (v : Value) : Store :=
  match env[depth]? with
  | some ref =>
      { store with frames := store.frames.modify ref fun slots => slots.setIfInBounds index v }
  | none => store

/-! ### Cells and arrays -/

def newCell (store : Store) (v : Value) : Value × Store :=
  let ref := store.cells.size
  (.cell ref, { store with cells := store.cells.push v })

def cellAt (store : Store) (ref : Ref) : Value := store.cells.getD ref .nil

def setCell (store : Store) (ref : Ref) (v : Value) : Store :=
  { store with cells := store.cells.setIfInBounds ref v }

def newArray (store : Store) (slots : Array Value) : Value × Store :=
  let ref := store.arrays.size
  (.array ref, { store with arrays := store.arrays.push slots })

def arrayAt (store : Store) (ref : Ref) : Array Value := store.arrays.getD ref #[]

def setArraySlot (store : Store) (ref : Ref) (index : Nat) (v : Value) : Store :=
  { store with arrays := store.arrays.modify ref fun slots => slots.setIfInBounds index v }

/-- Cuts an array to `length` slots or fills it up with nil. -/
def resizeArray (store : Store) (ref : Ref) (length : Nat) : Store :=
  { store with
    arrays := store.arrays.modify ref fun slots =>
      slots.take length ++ Array.replicate (length - slots.size) .nil }

/-! ### Data -/

mutual

/-- Puts a datum into the store. -/
def load (store : Store) : Datum → Value × Store
  | .nil => (.nil, store)
  | .symbol name => (.symbol name, store)
  | .number x => (.number x, store)
  | .string text => (.string text, store)
  | .cons head tail =>
      let (first, store) := store.load head
      store.loadRest [first] tail

/-- Puts the rest of a list into the store, behind the items in `seen`, which are last one first. -/
def loadRest (store : Store) (seen : List Value) : Datum → Value × Store
  | .cons head tail =>
      let (item, store) := store.load head
      store.loadRest (item :: seen) tail
  | .nil => store.consReversed .nil seen
  | .symbol name => store.consReversed (.symbol name) seen
  | .number x => store.consReversed (.number x) seen
  | .string text => store.consReversed (.string text) seen

end

/-- Puts data into the store. -/
def loadAll (store : Store) : List Datum → List Value × Store
  | [] => ([], store)
  | datum :: rest =>
      let (v, store) := store.load datum
      let (values, store) := store.loadAll rest
      (v :: values, store)

/-! ### Equality -/

/-- Whether two values are equal as data, looking at most `fuel` pairs deep: lists element by
element, all else as `Value.same` has it. -/
def equalWithin (store : Store) : Nat → Value → Value → Option Bool
  | 0, .pair a, .pair b => if a = b then some true else none
  | fuel + 1, .pair a, .pair b =>
      if a = b then some true
      else
        match store.equalWithin fuel (store.carAt a) (store.carAt b) with
        | some true => store.equalWithin fuel (store.cdrAt a) (store.cdrAt b)
        | other => other
  | _, a, b => some (a.same b)

/-- Whether two values are equal as data; there is no answer for circular ones. -/
def equal? (store : Store) (a b : Value) : Option Bool :=
  store.equalWithin store.pairs.size a b

end Store

end ActorMachine
