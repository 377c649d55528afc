import ActorMachine.Text.Blank

set_option autoImplicit false

/-!
Natives: the operations that guest code reaches through `PRIM`.

A `Native` is a name, a number of parameters and an `Operation`. Operations are data, grouped by
what they act on, so what a native can touch is read off its group.
-/

namespace ActorMachine

/-- The kinds of values. -/
inductive Kind where
  | nil
  | symbol
  | number
  | string
  | pair
  | template
  | function
  | cell
  | array
  | process
  deriving DecidableEq, Repr

def Kind.name : Kind → String
  | .nil => "nil"
  | .symbol => "symbol"
  | .number => "number"
  | .string => "string"
  | .pair => "pair"
  | .template => "template"
  | .function => "function"
  | .cell => "cell"
  | .array => "array"
  | .process => "process"

/-- The number of parameters of a native. -/
inductive Arity where
  | exact (n : Nat)
  /-- `n` parameters and a list of all further arguments. -/
  | atLeast (n : Nat)
  deriving DecidableEq, Repr

namespace Arity

/-- Reads a parameter list such as `a b` or `method url . args`: a point before the last name makes
that name the one for all further arguments. -/
def ofParams (params : String) : Arity :=
  match (Text.words params.toList).reverse with
  | _ :: ['.'] :: fixed => .atLeast fixed.length
  | names => .exact names.length

/-- The number of slots in the frame of a call. -/
def frameLength : Arity → Nat
  | .exact n => n
  | .atLeast n => n + 1

end Arity

inductive ArithmeticOp where
  | add | sub | mul | div

inductive CompareOp where
  | lt | gt | le | ge

/-- Operations on values and on what they refer to. -/
inductive DataOp where
  | symbolName
  | cons | car | cdr | setCar | setCdr
  | cellNew | cellGet | cellPut
  | arrayNew | arrayLength | arrayGet | arrayPut | arrayResize
  | concat | isSubstring | charAt | textLength | substring
  | readNumber | showNumber | intern | throw
  | unlink | fromWire | toWire
  | floor

/-- Operations on global names. -/
inductive NameOp where
  | define | undefine
  | mark | unmark | isMarked
  | value | names
  | link

/-- Operations on processes. -/
inductive ProcessOp where
  | snapshot
  | spawn | spawnLinked
  | link | unlink | trapExits
  | send | self | list | kill
  | cycles

/-- Operations on the host. -/
inductive HostOp where
  | log | now | random | http | resource | offerEvaluation

/-- What a native does. -/
inductive Operation where
  | arithmetic (op : ArithmeticOp)
  | compare (op : CompareOp)
  /-- Whether two values are the same, or with `negated` whether they are not. -/
  | same (negated : Bool)
  | isKind (kind : Kind)
  | data (op : DataOp)
  | name (op : NameOp)
  | process (op : ProcessOp)
  | host (op : HostOp)
  /-- Hands the host the answer to an evaluation request. -/
  | answer (request : Nat)
  /-- A function that the host added; they are numbered as they are added. -/
  | registered (index : Nat)

/-- An operation under a name. -/
structure Native where
  name : String
  arity : Arity
  operation : Operation

/-- The natives of the engine in the order in which they are bound. -/
def engineNatives : List Native :=
  let native (name params : String) (operation : Operation) : Native :=
    ⟨name, Arity.ofParams params, operation⟩
  [ native "+" "a b" (.arithmetic .add),
    native "-" "a b" (.arithmetic .sub),
    native "*" "a b" (.arithmetic .mul),
    native "/" "a b" (.arithmetic .div),
    native "<" "a b" (.compare .lt),
    native ">" "a b" (.compare .gt),
    native "<=" "a b" (.compare .le),
    native ">=" "a b" (.compare .ge),
    native "=" "a b" (.same false),
    native "!=" "a b" (.same true),
    native "numberp" "x" (.isKind .number),
    native "symbolp" "x" (.isKind .symbol),
    native "consp" "x" (.isKind .pair),
    native "templatep" "x" (.isKind .template),
    native "functionp" "x" (.isKind .function),
    native "stringp" "x" (.isKind .string),
    native "processp" "x" (.isKind .process),
    native "cellp" "x" (.isKind .cell),
    native "arrayp" "x" (.isKind .array),
    native "symbolname" "sym" (.data .symbolName),
    native "cons" "a b" (.data .cons),
    native "car" "c" (.data .car),
    native "cdr" "c" (.data .cdr),
    native "setcar" "c x" (.data .setCar),
    native "setcdr" "c x" (.data .setCdr),
    native "cellnew" "x" (.data .cellNew),
    native "cellget" "c" (.data .cellGet),
    native "cellput" "c x" (.data .cellPut),
    native "arraynew" "n" (.data .arrayNew),
    native "arraylength" "arr" (.data .arrayLength),
    native "arrayget" "arr i" (.data .arrayGet),
    native "arrayput" "arr i x" (.data .arrayPut),
    native "arrayresize" "arr n" (.data .arrayResize),
    native "def" "sym" (.name .define),
    native "undef" "sym" (.name .undefine),
    native "mac" "sym" (.name .mark),
    native "unmac" "sym" (.name .unmark),
    native "macrop" "name" (.name .isMarked),
    native "global" "name" (.name .value),
    native "globals" "" (.name .names),
    native "strcat" ". strings" (.data .concat),
    native "substringp" "sub str" (.data .isSubstring),
    native "sref" "s i" (.data .charAt),
    native "slength" "s" (.data .textLength),
    native "substring" "s a z" (.data .substring),
    native "atoi" "a" (.data .readNumber),
    native "itoa" "i" (.data .showNumber),
    native "intern" "s" (.data .intern),
    native "throw" "x" (.data .throw),
    native "boxfn" "alist" (.name .link),
    native "unboxfn" "f" (.data .unlink),
    native "fromjson" "s" (.data .fromWire),
    native "tojson" "x" (.data .toWire),
    native "log" "msg" (.host .log),
    native "snapshot" "p" (.process .snapshot),
    native "spawn" "f" (.process .spawn),
    native "spawnlink" "f" (.process .spawnLinked),
    native "link" "p" (.process .link),
    native "unlink" "p" (.process .unlink),
    native "trapexits" "" (.process .trapExits),
    native "sendmsg" "p msg" (.process .send),
    native "self" "" (.process .self),
    native "procs" "" (.process .list),
    native "kill" "p" (.process .kill),
    native "cyclecount" "" (.process .cycles),
    native "now" "" (.host .now),
    native "rand" "" (.host .random),
    native "floor" "n" (.data .floor),
    native "http" "method url . args" (.host .http),
    native "doc" ". req" (.host .resource),
    native "giveup" "p" (.host .offerEvaluation) ]

/-- The natives that listings can name, the latest one first. -/
structure NativeTable where
  entries : List Native := engineNatives.reverse

namespace NativeTable

/-- The native that has the name now. -/
def find? (table : NativeTable) (name : String) : Option Native :=
  table.entries.find? (·.name == name)

/-- Adds a native, which hides an earlier one of the same name. -/
def insert (table : NativeTable) (native : Native) : NativeTable :=
  ⟨native :: table.entries⟩

end NativeTable

end ActorMachine
