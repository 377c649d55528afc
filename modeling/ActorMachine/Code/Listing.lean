import ActorMachine.Store.Printer

set_option autoImplicit false

/-!
Code as data.

A template unlinks to the listing `((code (instruction ...)))` and an instruction to
`(OPCODE operand ...)`. Constants stay the values that they are. `expand` replaces the templates and
functions in a value by their listings, so that snapshots print readably.
-/

namespace ActorMachine

/-- The symbol that names an operation. -/
def Value.opcode (opcode : Opcode) : Value := .symbol opcode.name

namespace Store

/-- A list in the store that the computation goes on with. -/
def allocList (items : List Value) : StateM Store Value := fun store => store.list items

/-- Opcode and operands of an instruction on local variables. -/
def localListing (opcode : Opcode) (v : Local) : List Value :=
  [.opcode opcode, .ofNat v.depth, .ofNat v.index] ++ (v.name.map Value.symbol).toList

/-- Opcode and operands of a jump. -/
def jumpListing (opcode : Opcode) (label : Label) : List Value :=
  [.opcode opcode, .symbol label.name, .ofNat label.pc]

mutual

/-- The listing of a template. -/
def unlink : Template → StateM Store Value
  | ⟨_, code⟩ => do
      let body ← unlinkCode code
      let entry ← allocList [.symbol "code", body]
      allocList [entry]
termination_by structural template => template

def unlinkCode : Array Instruction → StateM Store Value
  | ⟨instructions⟩ => unlinkAll [] instructions
termination_by structural code => code

/-- The listings of instructions behind those in `seen`, which are last one first. -/
def unlinkAll (seen : List Value) : List Instruction → StateM Store Value
  | [] => allocList seen.reverse
  | instruction :: rest => do
      let found ← unlinkInstruction instruction
      unlinkAll (found :: seen) rest
termination_by structural instructions => instructions

/-- The listing of an instruction. -/
def unlinkInstruction : Instruction → StateM Store Value
  | .args n => allocList [.opcode .args, .ofNat n]
  | .argsRest n => allocList [.opcode .argsRest, .ofNat n]
  | .loadLocal v => allocList (localListing .loadLocal v)
  | .storeLocal v => allocList (localListing .storeLocal v)
  | .loadGlobal g => allocList [.opcode .loadGlobal, .symbol g.name]
  | .storeGlobal g => allocList [.opcode .storeGlobal, .symbol g.name]
  | .pop => allocList [.opcode .pop]
  | .const v => allocList [.opcode .const, v]
  | .jump label => allocList (jumpListing .jump label)
  | .jumpIfNil label => allocList (jumpListing .jumpIfNil label)
  | .jumpUnlessNil label => allocList (jumpListing .jumpUnlessNil label)
  | .save label => allocList (jumpListing .save label)
  | .ret => allocList [.opcode .ret]
  | .call (.fixed n) => allocList [.opcode .call, .ofNat n]
  | .call .spread => allocList [.opcode .call, .number (-1)]
  | .function f => do
      let listing ← unlink f
      allocList [.opcode .function, listing]
  | .native n => allocList [.opcode .native, .symbol n.name]
  | .halt => allocList [.opcode .halt]
  | .receive table => unlinkTable table
termination_by structural instruction => instruction

def unlinkTable : ReceiveTable → StateM Store Value
  | ⟨receivers, timeout⟩ => do
      let receivers ← unlinkReceivers [] receivers
      let timeout ← unlinkTimeout? timeout
      allocList [.opcode .receive, receivers, timeout]
termination_by structural table => table

def unlinkReceivers (seen : List Value) : List Receiver → StateM Store Value
  | [] => allocList seen.reverse
  | receiver :: rest => do
      let found ← unlinkReceiver receiver
      unlinkReceivers (found :: seen) rest
termination_by structural receivers => receivers

def unlinkReceiver : Receiver → StateM Store Value
  | ⟨tag, entry⟩ => do
      let listing ← unlink entry
      allocList [.symbol tag, listing]
termination_by structural receiver => receiver

def unlinkTimeout? : Option Timeout → StateM Store Value
  | none => pure .nil
  | some timeout => unlinkTimeout timeout
termination_by structural timeout => timeout

def unlinkTimeout : Timeout → StateM Store Value
  | ⟨ms, entry⟩ => do
      let listing ← unlink entry
      allocList [.number ms, listing]
termination_by structural timeout => timeout

end

/-- The frames of an environment as lists of their slots, innermost first. -/
def unlinkEnv (env : Env) : StateM Store Value := do
  let frames ← env.mapM fun ref => do
    let slots := (← get).frameAt ref
    allocList slots.toList
  allocList frames

/-- Copies a value with every template and function in it replaced by its listing, down to `depth`
steps from a pair to one of its parts. -/
def expandWithin : Nat → Value → StateM Store Value
  | 0, v => pure v
  | _ + 1, .template t => unlink t
  | _ + 1, .function f => unlink f.template
  | depth + 1, .pair ref => do
      let (head, tail) := (← get).pairAt ref
      let head ← expandWithin depth head
      let tail ← expandWithin depth tail
      fun store => store.cons head tail
  | _ + 1, v => pure v

/-- A value with its code as listings. -/
def expand (v : Value) : StateM Store Value := expandWithin maxDepth v

/-- The text of a value with its code as listings. -/
def renderExpanded (store : Store) (v : Value) : String :=
  let (v, store) := (expand v).run store
  store.render v

end Store

/-- A number in at least four places. -/
def padPc (pc : Nat) : String :=
  let digits := toString pc
  String.ofList (List.replicate (4 - digits.length) ' ') ++ digits

/-- One numbered line per instruction, behind `out`. -/
def disassembleFrom (out : String) (pc : Nat) (store : Store) : List Instruction → String
  | [] => out
  | instruction :: rest =>
      let (listing, store) := (Store.unlinkInstruction instruction).run store
      disassembleFrom (out ++ padPc pc ++ " " ++ store.render listing ++ "\n") (pc + 1) store rest

/-- The code of a template, one numbered line per instruction. -/
def Template.disassemble (t : Template) (store : Store) : String :=
  disassembleFrom "" 0 store t.code.toList

end ActorMachine
