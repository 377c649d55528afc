import ActorMachine.Code.Listing
import ActorMachine.Globals

set_option autoImplicit false

/-!
The machine: the execution state of one process.

A machine executes instructions until its quota is spent, or until an instruction needs what only
the scheduler or the host can give: a native, a message, or the end of the process. It then stops
with what it needs, and can be run again. Machines share a memory, the store and the globals.
-/

namespace ActorMachine

/-- What all processes share. -/
structure Memory where
  store : Store := {}
  globals : Globals := {}
  deriving Inhabited

inductive Status where
  | running
  /-- In `RECV`, until a message that is accepted or the timeout arrives. -/
  | waiting
  | halted
  deriving DecidableEq, Repr

/-- Where a `RETURN` goes on. -/
structure Return where
  template : Template
  env : Env
  pc : Nat

structure Machine where
  template : Template
  pc : Nat
  env : Env
  /-- The operands, top first. -/
  stack : List Value
  /-- The saved returns, latest first. -/
  returns : List Return
  /-- The number of arguments of the latest call. -/
  nargs : Nat
  status : Status

/-- Why an instruction stops the machine. -/
inductive Stop where
  | fault (cause : Fault)
  /-- An instruction walks a circular list and never ends. -/
  | endless
  /-- The process ends with this reason. -/
  | halt (reason : Value)
  /-- The machine waits for what the table accepts. -/
  | receive (table : ReceiveTable)
  /-- The native is to be called with the slots of the innermost frame and its result pushed. -/
  | native (n : Native) (args : List Value)

/-- The outcome of one instruction: it stops the machine, or the next one can follow. -/
structure Execution where
  machine : Machine
  memory : Memory
  stop : Option Stop

/-- Why a run of a machine ends. -/
inductive RunEnd where
  /-- The quota is spent. -/
  | quota
  /-- The machine was not running. -/
  | notRunning
  | stopped (stop : Stop)

/-- The outcome of running a machine. -/
structure RunReport where
  executed : Nat
  machine : Machine
  memory : Memory
  ending : RunEnd

namespace Machine

/-- A machine about to enter a function without arguments. -/
def start (owner : ProcessId) (f : Closure) : Machine where
  template := f.template
  pc := 0
  env := f.env
  stack := []
  returns := [⟨.epilogue owner, [], 0⟩]
  nargs := 0
  status := .running

def halt (m : Machine) : Machine := { m with status := .halted }

def push (m : Machine) (v : Value) : Machine := { m with stack := v :: m.stack }

/-- The top `n` values of a stack in the order in which they were pushed, in front of `taken`, and
the stack without them. -/
def takeTop? : Nat → List Value → List Value → Option (List Value × List Value)
  | 0, taken, stack => some (taken, stack)
  | n + 1, taken, v :: stack => takeTop? n (v :: taken) stack
  | _ + 1, _, [] => none

/-- The machine goes on. -/
@[inline] def goOn (m : Machine) (memory : Memory) : Execution := ⟨m, memory, none⟩

/-- The machine faults. -/
@[inline] def fail (m : Machine) (memory : Memory) (cause : Fault) : Execution :=
  ⟨m, memory, some (.fault cause)⟩

/-- Puts a frame in front of the environment. -/
def enterFrame (m : Machine) (store : Store) (globals : Globals) (slots : List Value) : Execution :=
  let (ref, store) := store.newFrame slots.toArray
  goOn { m with env := ref :: m.env } ⟨store, globals⟩

/-- Enters a function or template with `n` arguments on the stack. -/
def enter (m : Machine) (store : Store) (globals : Globals) (callee : Value) (n : Nat) :
    Execution :=
  let m := { m with nargs := n }
  match callee with
  | .function f => goOn { m with template := f.template, env := f.env, pc := 0 } ⟨store, globals⟩
  | .template t => goOn { m with template := t, env := [], pc := 0 } ⟨store, globals⟩
  | other =>
      let shown := store.render other
      fail m ⟨store, globals⟩ (.notCallable shown)

/-- The name under which a local variable is out of bounds. -/
def localName (opcode : Opcode) (v : Local) : String :=
  opcode.name ++ " " ++ toString v.depth ++ " " ++ toString v.index

/-- Carries out an instruction. -/
def execute (m : Machine) (instruction : Instruction) : Memory → Execution
  | ⟨store, globals⟩ =>
    match instruction with
    | .args n =>
        if m.nargs ≠ n then fail m ⟨store, globals⟩ (.wrongCount n m.nargs)
        else
          match takeTop? n [] m.stack with
          | none => fail m ⟨store, globals⟩ .stackUnderflow
          | some (slots, stack) => enterFrame { m with stack } store globals slots
    | .argsRest n =>
        if m.nargs < n then fail m ⟨store, globals⟩ (.tooFew n m.nargs)
        else
          match takeTop? (m.nargs - n) [] m.stack with
          | none => fail m ⟨store, globals⟩ .stackUnderflow
          | some (extra, stack) =>
              let (rest, store) := store.list extra
              match takeTop? n [rest] stack with
              | none => fail { m with stack } ⟨store, globals⟩ .stackUnderflow
              | some (slots, stack) => enterFrame { m with stack } store globals slots
    | .loadLocal v =>
        match store.getLocal? m.env v.depth v.index with
        | some x => goOn (m.push x) ⟨store, globals⟩
        | none => fail m ⟨store, globals⟩ (.outOfBounds (localName .loadLocal v))
    | .storeLocal v =>
        match m.stack with
        | [] => fail m ⟨store, globals⟩ .stackUnderflow
        | x :: _ =>
            if store.hasLocal m.env v.depth v.index then
              goOn m ⟨store.setLocal m.env v.depth v.index x, globals⟩
            else fail m ⟨store, globals⟩ (.outOfBounds (localName .storeLocal v))
    | .loadGlobal g =>
        match globals.get g.slot with
        | .ok x => goOn (m.push x) ⟨store, globals⟩
        | .error cause => fail m ⟨store, globals⟩ cause
    | .storeGlobal g =>
        match m.stack with
        | [] => fail m ⟨store, globals⟩ .stackUnderflow
        | x :: _ =>
            if globals.isBoundAt g.slot then goOn m ⟨store, globals.put g.slot (some x)⟩
            else
              let name := globals.nameAt g.slot
              fail m ⟨store, globals⟩ (.unbound name)
    | .pop =>
        match m.stack with
        | [] => fail m ⟨store, globals⟩ .stackUnderflow
        | _ :: stack => goOn { m with stack } ⟨store, globals⟩
    | .const x => goOn (m.push x) ⟨store, globals⟩
    | .jump label => goOn { m with pc := label.pc } ⟨store, globals⟩
    | .jumpIfNil label =>
        match m.stack with
        | [] => fail m ⟨store, globals⟩ .stackUnderflow
        | x :: stack =>
            goOn { m with stack, pc := if x.isNil then label.pc else m.pc } ⟨store, globals⟩
    | .jumpUnlessNil label =>
        match m.stack with
        | [] => fail m ⟨store, globals⟩ .stackUnderflow
        | x :: stack =>
            goOn { m with stack, pc := if x.isNil then m.pc else label.pc } ⟨store, globals⟩
    | .save label =>
        goOn { m with returns := ⟨m.template, m.env, label.pc⟩ :: m.returns } ⟨store, globals⟩
    | .ret =>
        match m.returns with
        | [] => fail m ⟨store, globals⟩ .stackUnderflow
        | back :: returns =>
            goOn { m with template := back.template, env := back.env, pc := back.pc, returns }
              ⟨store, globals⟩
    | .call (.fixed n) =>
        match m.stack with
        | [] => fail m ⟨store, globals⟩ .stackUnderflow
        | callee :: stack => enter { m with stack } store globals callee n
    | .call .spread =>
        match m.stack with
        | [] => fail m ⟨store, globals⟩ .stackUnderflow
        | [_] => fail { m with stack := [] } ⟨store, globals⟩ .stackUnderflow
        | callee :: args :: stack =>
            match store.spine args with
            | .proper items =>
                enter { m with stack := items.reverse ++ stack } store globals callee items.length
            | .improper =>
                fail { m with stack } ⟨store, globals⟩
                  (.wrongKind "apply" "a proper list of arguments")
            | .circular => ⟨{ m with stack }, ⟨store, globals⟩, some .endless⟩
    | .function t =>
        let (f, store) := store.newFunction t m.env
        goOn (m.push (.function f)) ⟨store, globals⟩
    | .native n =>
        let args := match m.env with
          | [] => []
          | frame :: _ => (store.frameAt frame).toList
        ⟨m, ⟨store, globals⟩, some (.native n args)⟩
    | .halt =>
        match m.stack with
        | [] => fail m ⟨store, globals⟩ .stackUnderflow
        | reason :: _ => ⟨{ m with status := .halted }, ⟨store, globals⟩, some (.halt reason)⟩
    | .receive table =>
        ⟨{ m with status := .waiting }, ⟨store, globals⟩, some (.receive table)⟩

/-- Carries out the next instruction. -/
def step (m : Machine) (memory : Memory) : Execution :=
  match m.template.code[m.pc]? with
  | none => fail m memory (.offTheEnd m.pc)
  | some instruction => execute { m with pc := m.pc + 1 } instruction memory

/-- Runs a machine for at most `quota` further instructions after `executed` ones. -/
def runFrom (executed : Nat) : Nat → Machine → Memory → RunReport
  | 0, m, memory =>
      ⟨executed, m, memory, if m.status = .running then .quota else .notRunning⟩
  | quota + 1, m, memory =>
      if m.status = .running then
        match m.step memory with
        | ⟨m, memory, none⟩ => runFrom (executed + 1) quota m memory
        | ⟨m, memory, some stop⟩ => ⟨executed + 1, m, memory, .stopped stop⟩
      else ⟨executed, m, memory, .notRunning⟩

/-- Runs a machine for at most `quota` instructions. -/
def run (m : Machine) (quota : Nat) (memory : Memory) : RunReport := runFrom 0 quota m memory

/-- A waiting machine goes on at `entry` with the elements of `args` as arguments. The environment
stays as it was. -/
def resume (m : Machine) (store : Store) (entry : Template) (args : Value) : Outcome Machine :=
  if m.status = .waiting then
    match store.elements args with
    | .ok items =>
        .ok { m with
          template := entry
          pc := 0
          stack := items.reverse ++ m.stack
          nargs := items.length
          status := .running }
    | .error failure => .error failure
  else faulting .notWaiting

/-- A saved return as a list. -/
def returnListing (back : Return) : StateM Store Value := do
  let env ← Store.unlinkEnv back.env
  Store.allocList [.symbol "ret", .ofNat back.pc, .template back.template, env]

/-- What a machine is doing: one `(ret pc f env)` per saved return, latest first, then
`(proc p) (env frames) (f template) (pc n)`. -/
def snapshot (m : Machine) (pid : ProcessId) : StateM Store Value := do
  let process ← Store.allocList [.symbol "proc", .process pid]
  let frames ← Store.unlinkEnv m.env
  let env ← Store.allocList [.symbol "env", frames]
  let f ← Store.allocList [.symbol "f", .template m.template]
  let pc ← Store.allocList [.symbol "pc", .ofNat m.pc]
  let current ← Store.allocList [process, env, f, pc]
  m.returns.reverse.foldlM (fun rest back => do
    let record ← returnListing back
    fun store => store.cons record rest) current

end Machine

end ActorMachine
