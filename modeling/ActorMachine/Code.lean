import ActorMachine.Code.Native
import ActorMachine.Fault
import ActorMachine.Number.Arithmetic

set_option autoImplicit false

/-!
Values and the code that works on them.

Values refer to pairs, frames, cells and arrays by their place in a store. Code is immutable and
part of the values that hold it: a template is a sequence of instructions, and an instruction may
hold further templates. A template carries an identity, so that two templates with the same
instructions can be told apart.
-/

namespace ActorMachine

/-- A place in a store. -/
abbrev Ref := Nat

/-- A place in a table of globals. -/
abbrev Slot := Nat

/-- The frames that code can reach, innermost first. -/
abbrev Env := List Ref

/-- What tells templates apart. -/
inductive CodeId where
  | linked (stamp : Nat)
  /-- The code to which the outermost function of a process returns. -/
  | epilogue (owner : ProcessId)
  deriving DecidableEq, Repr

/-- A jump target with its name in listings. -/
structure Label where
  name : String
  pc : Nat
  deriving DecidableEq, Repr

/-- A local variable: a slot of a frame counted from the innermost one. -/
structure Local where
  depth : Nat
  index : Nat
  /-- The name in listings. -/
  name : Option String
  deriving DecidableEq, Repr

/-- A global with the slot that its name has. -/
structure Global where
  name : String
  slot : Slot
  deriving DecidableEq, Repr

/-- Where a call finds its arguments. -/
inductive CallArgs where
  /-- So many values on the stack. -/
  | fixed (n : Nat)
  /-- The elements of the list on top of the stack. -/
  | spread
  deriving DecidableEq, Repr

mutual

inductive Value where
  | nil
  | symbol (name : String)
  | number (x : Number)
  | string (text : String)
  | pair (ref : Ref)
  | template (code : Template)
  | function (f : Closure)
  | cell (ref : Ref)
  | array (ref : Ref)
  | process (pid : ProcessId)

/-- Code without an environment. -/
structure Template where
  id : CodeId
  code : Array Instruction

/-- A template in the environment in which it was made into a function. -/
structure Closure where
  stamp : Nat
  template : Template
  env : Env

inductive Instruction where
  | args (n : Nat)
  | argsRest (n : Nat)
  | loadLocal (v : Local)
  | storeLocal (v : Local)
  | loadGlobal (g : Global)
  | storeGlobal (g : Global)
  | pop
  | const (v : Value)
  | jump (label : Label)
  | jumpIfNil (label : Label)
  | jumpUnlessNil (label : Label)
  | save (label : Label)
  | ret
  | call (args : CallArgs)
  | function (f : Template)
  | native (n : Native)
  | halt
  | receive (table : ReceiveTable)

/-- What a waiting process accepts: messages by their tag, and a timeout. -/
structure ReceiveTable where
  receivers : List Receiver
  timeout : Option Timeout

structure Receiver where
  tag : String
  entry : Template

structure Timeout where
  ms : Number
  entry : Template

end

namespace Value

instance : Inhabited Value := ⟨.nil⟩

def kind : Value → Kind
  | .nil => .nil
  | .symbol _ => .symbol
  | .number _ => .number
  | .string _ => .string
  | .pair _ => .pair
  | .template _ => .template
  | .function _ => .function
  | .cell _ => .cell
  | .array _ => .array
  | .process _ => .process

/-- Nil is false and all else is true. -/
def isNil : Value → Bool
  | .nil => true
  | _ => false

/-- The truth values that natives answer. -/
def ofBool (b : Bool) : Value := if b then .symbol "t" else .nil

def ofNat (n : Nat) : Value := .number (Number.ofNat n)

def symbol? : Value → Option String
  | .symbol name => some name
  | _ => none

def isSymbol (v : Value) (name : String) : Bool := v.symbol? == some name

/-- A natural that fits an index. -/
def index? : Value → Option Nat
  | .number x => x.index?
  | _ => none

/-- Whether two values are the same: symbols, numbers and strings by content, all else by what it
refers to. -/
def same : Value → Value → Bool
  | .nil, .nil => true
  | .symbol a, .symbol b => a == b
  | .number a, .number b => a.sameValue b
  | .string a, .string b => a == b
  | .pair a, .pair b => a == b
  | .template a, .template b => a.id == b.id
  | .function f, .function g => f.stamp == g.stamp
  | .cell a, .cell b => a == b
  | .array a, .array b => a == b
  | .process a, .process b => a == b
  | _, _ => false

end Value

/-- The entry for a tag; the first of several counts. -/
def ReceiveTable.entry? (table : ReceiveTable) (tag : String) : Option Template :=
  (table.receivers.find? (·.tag == tag)).map (·.entry)

/-- The table of a process that has not waited yet. -/
def ReceiveTable.empty : ReceiveTable := ⟨[], none⟩

instance : Inhabited Template := ⟨⟨.linked 0, #[]⟩⟩

instance : Inhabited Closure := ⟨⟨0, default, []⟩⟩

namespace Template

def length (t : Template) : Nat := t.code.size

/-- What the outermost function of a process returns to: the process ends with reason `normal`. -/
def epilogue (owner : ProcessId) : Template :=
  ⟨.epilogue owner, #[.pop, .const (.symbol "normal"), .halt]⟩

end Template

/-- The operations of instructions. -/
inductive Opcode where
  | args | argsRest
  | loadLocal | storeLocal | loadGlobal | storeGlobal
  | pop | const
  | jump | jumpIfNil | jumpUnlessNil | save | ret
  | call | function | native | halt | receive
  deriving DecidableEq, Repr

namespace Opcode

/-- The name of an operation in listings. -/
def name : Opcode → String
  | .args => "ARGS"
  | .argsRest => "ARGSD"
  | .loadLocal => "LVAR"
  | .storeLocal => "LSET"
  | .loadGlobal => "GVAR"
  | .storeGlobal => "GSET"
  | .pop => "POP"
  | .const => "CONST"
  | .jump => "JUMP"
  | .jumpIfNil => "FJUMP"
  | .jumpUnlessNil => "TJUMP"
  | .save => "SAVE"
  | .ret => "RETURN"
  | .call => "CALLJ"
  | .function => "FN"
  | .native => "PRIM"
  | .halt => "HALT"
  | .receive => "RECV"

def all : List Opcode :=
  [.args, .argsRest, .loadLocal, .storeLocal, .loadGlobal, .storeGlobal, .pop, .const, .jump,
    .jumpIfNil, .jumpUnlessNil, .save, .ret, .call, .function, .native, .halt, .receive]

/-- The operation with a name. -/
def ofName? (name : String) : Option Opcode := all.find? (·.name == name)

theorem ofName?_name (opcode : Opcode) : ofName? opcode.name = some opcode := by
  cases opcode <;> rfl

end Opcode

/-- The operation of an instruction. -/
def Instruction.opcode : Instruction → Opcode
  | .args _ => .args
  | .argsRest _ => .argsRest
  | .loadLocal _ => .loadLocal
  | .storeLocal _ => .storeLocal
  | .loadGlobal _ => .loadGlobal
  | .storeGlobal _ => .storeGlobal
  | .pop => .pop
  | .const _ => .const
  | .jump _ => .jump
  | .jumpIfNil _ => .jumpIfNil
  | .jumpUnlessNil _ => .jumpUnlessNil
  | .save _ => .save
  | .ret => .ret
  | .call _ => .call
  | .function _ => .function
  | .native _ => .native
  | .halt => .halt
  | .receive _ => .receive

/-- The code of the function under which a native is bound. -/
def Native.entryCode (native : Native) : Array Instruction :=
  let args := match native.arity with
    | .exact n => Instruction.args n
    | .atLeast n => Instruction.argsRest n
  #[args, .native native, .ret]

/-- The code of `exit`, which ends the calling process with its argument as the reason. -/
def exitCode : Array Instruction :=
  #[.args 1, .loadLocal ⟨0, 0, some "reason"⟩, .halt]

/-- The code of `apply`, which calls its first argument with the elements of its second. -/
def applyCode : Array Instruction :=
  #[.args 2, .loadLocal ⟨0, 1, some "args"⟩, .loadLocal ⟨0, 0, some "f"⟩, .call .spread]

end ActorMachine
