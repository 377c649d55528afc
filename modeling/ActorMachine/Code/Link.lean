import ActorMachine.Globals
import ActorMachine.Store.Printer

set_option autoImplicit false

/-!
Linking: from a listing to code.

A function is listed as `((code (instruction ...)))` or short as `(code instruction ...)`; a live
template or function stands for itself. Linking gives every global its slot and every native its
operation. Names that were given a slot keep it when linking fails later on.
-/

namespace ActorMachine.Link

/-- What linking changes. -/
structure State where
  globals : Globals
  stamps : Nat

/-- A step of linking: it can fail, and it changes the state also when it fails. -/
abbrev LinkM := ExceptT Failure (StateM State)

/-- Fails with a fault. -/
def reject {α : Type} (fault : Fault) : LinkM α := throw (.fault fault)

/-- What linking looks up and leaves as it is. -/
structure Source where
  store : Store
  natives : NativeTable

namespace Source

/-- Fails over a part of a listing. -/
def malformed {α : Type} (source : Source) (what : Malformation) (x : Value) : LinkM α :=
  reject (.malformed what (source.store.render x))

def index (source : Source) (x : Value) : LinkM Nat :=
  match x.index? with
  | some n => pure n
  | none => source.malformed .notIndex x

def name (source : Source) (x : Value) : LinkM String :=
  match x.symbol? with
  | some name => pure name
  | none => source.malformed .notSymbol x

/-- The items of a proper list; `improper` is what an improper one comes to. -/
def itemsOr (source : Source) (x : Value) (improper : LinkM (List Value)) : LinkM (List Value) :=
  match source.store.spine x with
  | .proper items => pure items
  | .improper => improper
  | .circular => throw .endless

/-- The items of a proper list. -/
def items (source : Source) (x : Value) : LinkM (List Value) :=
  source.itemsOr x (reject (.wrongKind "list" "proper list"))

def isCode (source : Source) (x : Value) : Bool :=
  match source.store.car? x with
  | some head => head.isSymbol "code"
  | none => false

/-- The instruction listings of a function listing. -/
def codeOf (source : Source) (x : Value) : LinkM (List Value) := do
  if source.isCode x then source.items ((source.store.cdr? x).getD .nil)
  else
    let slots ← source.itemsOr x (source.malformed .functionNotList x)
    match slots.find? source.isCode with
    | none => source.malformed .noCode x
    | some slot =>
        match ← source.items slot with
        | [_, code] => source.items code
        | _ => source.malformed .badCode slot

def localVariable (source : Source) (depth index : Value) (name : Option Value) : LinkM Local := do
  let depth ← source.index depth
  let index ← source.index index
  match name with
  | none => pure ⟨depth, index, none⟩
  | some name => pure ⟨depth, index, some (← source.name name)⟩

/-- A global with its slot, a new one at the first use of the name. -/
def global (source : Source) (x : Value) : LinkM Global := do
  let name ← source.name x
  let slot ← modifyGet fun state =>
    let (slot, globals) := state.globals.intern name
    (slot, { state with globals })
  pure ⟨name, slot⟩

/-- The target of the jump `x`; one without a name is named for its position. -/
def label (source : Source) (x : Value) (operands : List Value) : LinkM Label := do
  match operands with
  | [name, pc] =>
      let name ← source.name name
      pure ⟨name, ← source.index pc⟩
  | [pc] =>
      let pc ← source.index pc
      pure ⟨"L" ++ toString pc, pc⟩
  | _ => source.malformed .badJump x

def native (source : Source) (x : Value) : LinkM Native := do
  let name ← source.name x
  match source.natives.find? name with
  | some native => pure native
  | none => reject (.unknownNative name)

/-- An entry of a receive table; `function` links the code in it. -/
def receiver (source : Source) (function : Value → LinkM Template) (x : Value) :
    LinkM Receiver := do
  match ← source.items x with
  | [tag, f] =>
      let tag ← source.name tag
      pure ⟨tag, ← function f⟩
  | _ => source.malformed .badReceiver x

def timeout (source : Source) (function : Value → LinkM Template) (x : Value) :
    LinkM (Option Timeout) := do
  match x with
  | .nil => pure none
  | _ =>
      match ← source.items x with
      | [.number ms, f] =>
          if ms.isFinite && Number.atMost 0 ms then pure (some ⟨ms, ← function f⟩)
          else source.malformed .badTimeout x
      | _ => source.malformed .badTimeout x

def receiveTable (source : Source) (function : Value → LinkM Template) (receivers : Value)
    (timeout : Value) : LinkM ReceiveTable := do
  let receivers ← (← source.items receivers).mapM (source.receiver function)
  pure ⟨receivers, ← source.timeout function timeout⟩

/-- The instruction `x` with the given opcode and operands. -/
def operation (source : Source) (function : Value → LinkM Template) (x : Value) (opcode : Opcode)
    (operands : List Value) : LinkM Instruction := do
  match opcode, operands with
  | .args, [n] => pure (.args (← source.index n))
  | .argsRest, [n] => pure (.argsRest (← source.index n))
  | .loadLocal, [i, j] => pure (.loadLocal (← source.localVariable i j none))
  | .loadLocal, [i, j, name] => pure (.loadLocal (← source.localVariable i j (some name)))
  | .storeLocal, [i, j] => pure (.storeLocal (← source.localVariable i j none))
  | .storeLocal, [i, j, name] => pure (.storeLocal (← source.localVariable i j (some name)))
  | .loadGlobal, [name] => pure (.loadGlobal (← source.global name))
  | .storeGlobal, [name] => pure (.storeGlobal (← source.global name))
  | .pop, [] => pure .pop
  | .const, [v] => pure (.const v)
  | .jump, operands => pure (.jump (← source.label x operands))
  | .jumpIfNil, operands => pure (.jumpIfNil (← source.label x operands))
  | .jumpUnlessNil, operands => pure (.jumpUnlessNil (← source.label x operands))
  | .save, operands => pure (.save (← source.label x operands))
  | .ret, [] => pure .ret
  | .call, [n] =>
      match n with
      | .number x =>
          if x.sameValue (-1) then pure (.call .spread)
          else pure (.call (.fixed (← source.index n)))
      | _ => pure (.call (.fixed (← source.index n)))
  | .function, [f] => pure (.function (← function f))
  | .native, [name] => pure (.native (← source.native name))
  | .halt, [] => pure .halt
  | .receive, [receivers] => pure (.receive (← source.receiveTable function receivers .nil))
  | .receive, [receivers, timeout] =>
      pure (.receive (← source.receiveTable function receivers timeout))
  | _, _ => source.malformed .unknownInstruction x

/-- Links an instruction; `function` links the functions in it. -/
def instruction (source : Source) (function : Value → LinkM Template) (x : Value) :
    LinkM Instruction := do
  match ← source.itemsOr x (source.malformed .instructionNotList x) with
  | [] => source.malformed .emptyInstruction x
  | opcode :: operands =>
      match opcode.symbol? with
      | none => source.malformed .opcodeNotSymbol x
      | some name =>
          match Opcode.ofName? name with
          | some opcode => source.operation function x opcode operands
          | none => source.malformed .unknownInstruction x

/-- A template with an identity of its own. -/
def template (code : List Instruction) : LinkM Template := do
  let stamp ← modifyGet fun state => (state.stamps, { state with stamps := state.stamps + 1 })
  pure ⟨.linked stamp, code.toArray⟩

/-- Links a function in which at most `depth` functions enclose each other. A listing that is deeper
than the store has pairs contains itself, and linking it never ends. -/
def function (source : Source) : Nat → Value → LinkM Template
  | _, .template t => pure t
  | _, .function f => pure f.template
  | 0, _ => throw .endless
  | depth + 1, x => do
      let code ← source.codeOf x
      template (← code.mapM (source.instruction (source.function depth)))

end Source

end ActorMachine.Link

namespace ActorMachine

/-- Links a function listing. The table of globals has the names that were met, and the store the
identities that were given out, also when linking fails. -/
def link (natives : NativeTable) (store : Store) (globals : Globals) (listing : Value) :
    Outcome Template × Store × Globals :=
  let source : Link.Source := ⟨store, natives⟩
  let (result, state) :=
    (source.function (store.pairs.size + 1) listing).run ⟨globals, store.stamps⟩
  (result, { store with stamps := state.stamps }, state.globals)

end ActorMachine
