import ActorMachine.Code.Link
import ActorMachine.Datum.Reader
import ActorMachine.Host.Function
import ActorMachine.Native.Data
import ActorMachine.Scheduler

set_option autoImplicit false

/-!
The engine: the scheduler and the host in one value, with the natives and all that is configured.

Two engines share nothing. The host drives an engine in bursts and is told by a `Rearm` when to call
again.
-/

namespace ActorMachine

structure Config where
  /-- The most instructions in a slice. -/
  quota : Nat := 100
  /-- The time that a burst may take, in milliseconds. -/
  burstMs : Number := 20
  /-- The most timers and tasks in a burst. -/
  taskLimit : Option Nat := some 10000
  deriving Inhabited

/-- When the host should call again. -/
inductive Rearm where
  /-- Soon: there is work. -/
  | yield
  /-- At this time. -/
  | alarm (deadline : Number)
  /-- When it has a message. -/
  | idle
  deriving Inhabited

structure Engine where
  config : Config := {}
  natives : NativeTable := {}
  /-- The functions that the host added to the natives. -/
  functions : Array HostFunction := #[]
  /-- The names that guest code marked. -/
  marked : List String := []
  scheduler : Scheduler := {}
  host : Host := {}
  /-- The number of instructions that were executed. -/
  cycles : Nat := 0
  /-- What the latest burst came to. -/
  rearm : Rearm := .idle
  /-- The number of evaluation requests. -/
  requests : Nat := 0

namespace Engine

/-! ### Parts of an engine -/

/-- Computes with the scheduler and puts the changed scheduler back. -/
@[inline] def onScheduler {α : Type} (f : Scheduler → α × Scheduler) : Engine → α × Engine
  | ⟨config, natives, functions, marked, scheduler, host, cycles, rearm, requests⟩ =>
      let (a, scheduler) := f scheduler
      (a, ⟨config, natives, functions, marked, scheduler, host, cycles, rearm, requests⟩)

/-- Computes with the memory and puts the changed memory back. -/
@[inline] def onMemory {α : Type} (f : Memory → α × Memory) : Engine → α × Engine :=
  onScheduler (Scheduler.onMemory f)

/-- Computes with the store and puts the changed store back. -/
@[inline] def onStore {α : Type} (f : Store → α × Store) : Engine → α × Engine :=
  onScheduler (Scheduler.onStore f)

/-- Changes the scheduler in a way that may have no result. -/
@[inline] def tryScheduler (f : Scheduler → Option Scheduler) : Engine → Option Engine
  | ⟨config, natives, functions, marked, scheduler, host, cycles, rearm, requests⟩ =>
      match f scheduler with
      | some scheduler =>
          some ⟨config, natives, functions, marked, scheduler, host, cycles, rearm, requests⟩
      | none => none

/-- Changes the scheduler. -/
@[inline] def mapScheduler (f : Scheduler → Scheduler) (engine : Engine) : Engine :=
  { engine with scheduler := f engine.scheduler }

/-- Changes the host. -/
@[inline] def mapHost (f : Host → Host) (engine : Engine) : Engine :=
  { engine with host := f engine.host }

def store (engine : Engine) : Store := engine.scheduler.memory.store

def globals (engine : Engine) : Globals := engine.scheduler.memory.globals

def find? (engine : Engine) (pid : ProcessId) : Option Process := engine.scheduler.find? pid

/-! ### Globals and code -/

/-- The value of a global. -/
def global? (engine : Engine) (name : String) : Option Value := engine.globals.value? name

def defineGlobal (engine : Engine) (name : String) (v : Value) : Engine :=
  (engine.onMemory fun ⟨store, globals⟩ => ((), ⟨store, (globals.define name v).2⟩)).2

/-- Binds a name to a function over the given code. -/
def bindProcedure (memory : Memory) (name : String) (code : Array Instruction) : Memory :=
  match memory with
  | ⟨store, globals⟩ =>
      let (f, store) := store.newProcedure code
      ⟨store, (globals.define name (.function f)).2⟩

/-- The memory in which every native of the engine is bound, and `exit` and `apply`. -/
def initialMemory : Memory :=
  let memory := engineNatives.foldl (fun memory native =>
    bindProcedure memory native.name native.entryCode) {}
  bindProcedure (bindProcedure memory "exit" exitCode) "apply" applyCode

/-- An engine in which nothing happened yet. -/
def create (config : Config) : Engine := { config, scheduler := { memory := initialMemory } }

/-- Adds a native of the host and binds it. -/
def register (engine : Engine) (name params : String) (f : HostFunction) : Engine :=
  let native : Native := ⟨name, Arity.ofParams params, .registered engine.functions.size⟩
  let engine := { engine with
    natives := engine.natives.insert native
    functions := engine.functions.push f }
  (engine.onMemory fun memory => ((), bindProcedure memory name native.entryCode)).2

/-- Links a function listing. -/
def linkFunction (listing : Value) (engine : Engine) : Outcome Template × Engine :=
  let natives := engine.natives
  engine.onMemory fun ⟨store, globals⟩ =>
    let (result, store, globals) := link natives store globals listing
    (result, ⟨store, globals⟩)

/-- Reads listing text and links it. -/
def assemble (text : String) (engine : Engine) : Outcome Template × Engine :=
  match Datum.read text with
  | .error error => (faulting (.unreadable error), engine)
  | .ok datum =>
      let (listing, engine) := engine.onStore fun store => store.load datum
      engine.linkFunction listing

/-- A function without an environment. -/
def newFunction (template : Template) (engine : Engine) : Closure × Engine :=
  engine.onStore fun store => store.newFunction template []

/-! ### Processes -/

/-- Makes a process and queues it. -/
def spawn (f : Closure) (engine : Engine) : ProcessId × Engine :=
  engine.onScheduler fun s => s.spawn f

/-- Ends a process over a fault. -/
def dieOf (engine : Engine) (pid : ProcessId) (cause : Fault) : Engine :=
  engine.mapScheduler fun s => s.dieOf pid cause

end Engine

end ActorMachine
