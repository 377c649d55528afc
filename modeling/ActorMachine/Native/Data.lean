import ActorMachine.Code.Listing
import ActorMachine.Native.Arguments
import ActorMachine.Store.Wire

set_option autoImplicit false

/-! What the natives on values compute. They change nothing but the store. -/

namespace ActorMachine

open Argument

/-- The most slots of an array. -/
def maxArrayLength : Nat := 1048576

/-- Whether `part` occurs in `text`. -/
def occursIn (part : List Char) : List Char → Bool
  | [] => part.isEmpty
  | c :: rest => part.isPrefixOf (c :: rest) || occursIn part rest

/-- The characters of a text from one position to before another, whichever comes first. -/
def slice (text : List Char) (a z : Nat) : List Char :=
  (text.drop (min a z)).take (max a z - min a z)

/-- The number that a text spells in decimal, or in hexadecimal after `0x`. Nothing spells zero. -/
def parseNumber? (text : List Char) : Option Number :=
  match Text.trim text with
  | [] => some (Number.ofNat 0)
  | '0' :: 'x' :: digits | '0' :: 'X' :: digits => (Number.readHexWord? digits).map Number.ofNat
  | decimal => (Number.readNumber? decimal).filter (!·.isNaN)

def ArithmeticOp.who : ArithmeticOp → String
  | .add => "+"
  | .sub => "-"
  | .mul => "*"
  | .div => "/"

def ArithmeticOp.apply : ArithmeticOp → Number → Number → Number
  | .add, a, b => a + b
  | .sub, a, b => a - b
  | .mul, a, b => a * b
  | .div, a, b => a / b

def CompareOp.who : CompareOp → String
  | .lt => "<"
  | .gt => ">"
  | .le => "<="
  | .ge => ">="

def CompareOp.apply : CompareOp → Number → Number → Bool
  | .lt, a, b => a.below b
  | .gt, a, b => b.below a
  | .le, a, b => a.atMost b
  | .ge, a, b => b.atMost a

namespace DataOp

/-- An allocation as a step of a native. -/
@[inline] def alloc {α : Type} (f : Store → α × Store) : Action Store α :=
  ExceptT.mk fun store =>
    let (a, store) := f store
    (.ok a, store)

/-- A change of the store as a step of a native. -/
@[inline] def change (f : Store → Store) : Action Store Unit :=
  alloc fun store => ((), f store)

/-- An array length. -/
def arrayLengthOf (who : String) (v : Value) : Outcome Nat :=
  match index who v with
  | .error failure => .error failure
  | .ok n => if n ≤ maxArrayLength then .ok n else faulting (.outOfBounds who)

/-- The texts of strings, one after the other. -/
def joinStrings (who : String) (out : String) : List Value → Outcome String
  | [] => .ok out
  | v :: rest =>
      match string who v with
      | .ok text => joinStrings who (out ++ text) rest
      | .error failure => .error failure

/-- Lifts a failure on the wire. -/
def ofWire {α : Type} : Except WireFault α → Outcome α
  | .ok a => .ok a
  | .error fault => faulting (.wire fault)

/-- Carries out an operation on values. -/
def run (op : DataOp) (args : List Value) : Action Store Value :=
  match op, args with
  | .symbolName, [v] => do
      let name ← ofOutcome (symbol "symbolname" v)
      pure (.string name)
  | .cons, [head, tail] => alloc fun store => store.cons head tail
  | .car, [v] => do
      let ref ← ofOutcome (pair "car" v)
      pure ((← get).carAt ref)
  | .cdr, [v] => do
      let ref ← ofOutcome (pair "cdr" v)
      pure ((← get).cdrAt ref)
  | .setCar, [v, x] => do
      let ref ← ofOutcome (pair "setcar" v)
      change fun store => store.setCar ref x
      pure x
  | .setCdr, [v, x] => do
      let ref ← ofOutcome (pair "setcdr" v)
      change fun store => store.setCdr ref x
      pure x
  | .cellNew, [x] => alloc fun store => store.newCell x
  | .cellGet, [v] => do
      let ref ← ofOutcome (cell "cellget" v)
      pure ((← get).cellAt ref)
  | .cellPut, [v, x] => do
      let ref ← ofOutcome (cell "cellput" v)
      change fun store => store.setCell ref x
      pure x
  | .arrayNew, [n] => do
      let n ← ofOutcome (arrayLengthOf "arraynew" n)
      alloc fun store => store.newArray (Array.replicate n .nil)
  | .arrayLength, [v] => do
      let ref ← ofOutcome (array "arraylength" v)
      pure (.ofNat ((← get).arrayAt ref).size)
  | .arrayGet, [v, i] => do
      let i ← ofOutcome (index "arrayget" i)
      let ref ← ofOutcome (array "arrayget" v)
      match ((← get).arrayAt ref)[i]? with
      | some x => pure x
      | none => refuse (.outOfBounds "arrayget")
  | .arrayPut, [v, i, x] => do
      let i ← ofOutcome (index "arrayput" i)
      let ref ← ofOutcome (array "arrayput" v)
      let size := ((← get).arrayAt ref).size
      if i < size then
        change fun store => store.setArraySlot ref i x
        pure v
      else refuse (.outOfBounds "arrayput")
  | .arrayResize, [v, n] => do
      let n ← ofOutcome (arrayLengthOf "arrayresize" n)
      let ref ← ofOutcome (array "arrayresize" v)
      change fun store => store.resizeArray ref n
      pure v
  | .concat, [strings] => do
      let items ← ofOutcome ((← get).elements strings)
      let text ← ofOutcome (joinStrings "strcat" "" items)
      pure (.string text)
  | .isSubstring, [part, whole] => do
      let part ← ofOutcome (string "substringp" part)
      let whole ← ofOutcome (string "substringp" whole)
      pure (.ofBool (occursIn part.toList whole.toList))
  | .charAt, [text, i] => do
      let text ← ofOutcome (string "sref" text)
      let i ← ofOutcome (index "sref" i)
      match text.toList[i]? with
      | some c => pure (.string (String.singleton c))
      | none => refuse (.outOfBounds "sref")
  | .textLength, [text] => do
      let text ← ofOutcome (string "slength" text)
      pure (.ofNat text.length)
  | .substring, [text, a, z] => do
      let text ← ofOutcome (string "substring" text)
      let a ← ofOutcome (number "substring" a)
      let z ← ofOutcome (number "substring" z)
      let chars := text.toList
      let bound := chars.length
      pure (.string (String.ofList (slice chars (a.clamp bound) (z.clamp bound))))
  | .readNumber, [text] => do
      let text ← ofOutcome (string "atoi" text)
      match parseNumber? text.toList with
      | some x => pure (.number x)
      | none => pure .nil
  | .showNumber, [v] => do
      let x ← ofOutcome (number "itoa" v)
      pure (.string (x.text))
  | .intern, [text] => do
      let name ← ofOutcome (string "intern" text)
      pure (.symbol name)
  | .throw, [text] => do
      let text ← ofOutcome (string "throw" text)
      refuse (.thrown text)
  | .unlink, [v] =>
      match v with
      | .template t => alloc (Store.unlink t)
      | .function f => alloc (Store.unlink f.template)
      | _ => refuse (.wrongKind "unboxfn" "function")
  | .fromWire, [text] => do
      let text ← ofOutcome (string "fromjson" text)
      let datum ← ofOutcome (ofWire (Wire.readDatum text))
      alloc fun store => store.load datum
  | .toWire, [v] => do
      let text ← ofOutcome (ofWire ((← get).toWireText v))
      pure (.string text)
  | .floor, [v] => do
      let x ← ofOutcome (number "floor" v)
      pure (.number (x.floor))
  | _, args => missing (args.length + 1) args

end DataOp

end ActorMachine
