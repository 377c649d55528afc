import ActorMachine.Engine.Native

set_option autoImplicit false

/-!
Bursts: how an engine runs.

A slice runs one process for a quota of instructions. A burst takes timers that are due and tasks,
one at a time, until its time or its number of tasks is spent or there is nothing left to do. A
burst has no result when a process walks a circular list, or when it is not limited and goes on for
longer than the caller is willing to wait.
-/

namespace ActorMachine

/-- Why there is no result. -/
inductive Unfinished where
  /-- A list that is walked is circular. -/
  | endless
  /-- More would have to be done than the caller waits for. -/
  | outOfFuel

namespace Engine

/-! ### Slices -/

/-- What an instruction of a slice comes to. -/
inductive Progress where
  /-- The slice can go on. -/
  | more (engine : Engine)
  /-- The slice is over. -/
  | over (engine : Engine)
  | endless

/-- The machine of a process carries out an instruction. -/
def stepMachine (engine : Engine) (pid : ProcessId) (p : Process) : Option Stop × Engine :=
  let (stop, engine) := engine.onScheduler fun
    | ⟨memory, processes, queue, heap, current, armed, journal⟩ =>
        let ⟨machine, memory, stop⟩ := p.machine.step memory
        let processes := processes.put pid { p with machine }
        (stop, ⟨memory, processes, queue, heap, current, armed, journal⟩)
  (stop, { engine with cycles := engine.cycles + 1 })

/-- A process starts to wait. -/
def install (engine : Engine) (pid : ProcessId) (table : ReceiveTable) : Engine :=
  let now := engine.host.clock
  engine.mapScheduler fun s =>
    let s := s.update pid fun p => { p with receivers := table }
    match table.timeout with
    | some timeout => s.addTimeout pid (now + timeout.ms) timeout.entry
    | none => s

/-- A native is called and its result pushed, if the caller still runs. -/
def callFor (engine : Engine) (pid : ProcessId) (native : Native) (args : List Value) : Progress :=
  match (native.call pid args).run engine with
  | (.ok v, engine) =>
      match engine.find? pid with
      | some p =>
          if p.status = .running then
            .more (engine.mapScheduler fun s => s.put pid { p with machine := p.machine.push v })
          else .over engine
      | none => .over engine
  | (.error (.fault cause), engine) => .over (engine.dieOf pid cause)
  | (.error .endless, _) => .endless

/-- One instruction of a process. -/
def advance (engine : Engine) (pid : ProcessId) : Progress :=
  match engine.find? pid with
  | none => .over engine
  | some p =>
      if p.status = .running then
        match engine.stepMachine pid p with
        | (none, engine) => .more engine
        | (some (.fault cause), engine) => .over (engine.dieOf pid cause)
        | (some .endless, _) => .endless
        | (some (.halt reason), engine) => .over (engine.mapScheduler fun s => s.die pid reason)
        | (some (.receive table), engine) => .over (engine.install pid table)
        | (some (.native native args), engine) => engine.callFor pid native args
      else .over engine

/-- At most `quota` instructions of a process. -/
def slice (pid : ProcessId) : Nat → Engine → Option Engine
  | 0, engine => some engine
  | quota + 1, engine =>
      match engine.advance pid with
      | .more engine => slice pid quota engine
      | .over engine => some engine
      | .endless => none

/-- Lets a process run for a slice, and then queues it again or lets it wait. -/
def execute (engine : Engine) (pid : ProcessId) : Option Engine :=
  if engine.scheduler.isLive pid then
    match slice pid engine.config.quota (engine.mapScheduler fun s => s.beginSlice pid) with
    | none => none
    | some engine => engine.tryScheduler fun s => s.endSlice pid
  else some engine

/-! ### Bursts -/

/-- What a turn of a burst comes to. -/
inductive Turn where
  /-- There was nothing to do. -/
  | idle (engine : Engine)
  | next (engine : Engine)
  | endless

/-- The turn that leads to an engine, if there is one. -/
def Turn.ofOption : Option Engine → Turn
  | some engine => .next engine
  | none => .endless

/-- Fires the next timer if it is due, and otherwise does the next task. -/
def turn (engine : Engine) : Turn :=
  match engine.scheduler.popDue? engine.host.clock with
  | (some timer, s) =>
      .ofOption ({ engine with scheduler := s }.tryScheduler fun s => s.expire timer)
  | (none, s) =>
      match s.popTask? with
      | none => .idle { engine with scheduler := s }
      | some (.run pid, s) => .ofOption ({ engine with scheduler := s }.execute pid)
      | some (.deliver pid message, s) =>
          .ofOption ({ engine with scheduler := s }.tryScheduler fun s => s.deliver pid message)

/-- Whether the time of a burst that started at `start` is spent. -/
def isSpent (engine : Engine) (start : Number) : Bool :=
  engine.config.burstMs.atMost (engine.host.clock - start)

/-- At most `limit` turns. Answers whether the burst ended before the limit. -/
def turns (start : Number) : Nat → Engine → Option (Bool × Engine)
  | 0, engine => some (false, engine)
  | limit + 1, engine =>
      if engine.isSpent start then some (true, engine)
      else
        match engine.turn with
        | .idle engine => some (true, engine)
        | .next engine => turns start limit engine
        | .endless => none

/-- When the host should call again. -/
def nextRearm (s : Scheduler) : Rearm × Scheduler :=
  if s.queue.isEmpty then
    match s.nextDeadline with
    | (some deadline, s) => (.alarm deadline, s)
    | (none, s) => (.idle, s)
  else (.yield, s)

/-- The end of a burst. -/
def settle (engine : Engine) : Engine :=
  let (rearm, scheduler) := nextRearm engine.scheduler
  { engine with rearm, scheduler }

/-- One burst. A burst without a limit on its tasks is given up after `fuel` of them. -/
def run (fuel : Nat) (engine : Engine) : Except Unfinished Engine :=
  let start := engine.host.clock
  let engine := { engine with rearm := .yield }
  match engine.config.taskLimit with
  | some limit =>
      match turns start limit engine with
      | some (_, engine) => .ok engine.settle
      | none => .error .endless
  | none =>
      match turns start fuel engine with
      | some (true, engine) => .ok engine.settle
      | some (false, _) => .error .outOfFuel
      | none => .error .endless

/-- Bursts until there is no task left, at most `bursts` of them. -/
def runUntilIdle (fuel : Nat) : Nat → Engine → Except Unfinished Engine
  | 0, _ => .error .outOfFuel
  | bursts + 1, engine =>
      match run fuel engine with
      | .error why => .error why
      | .ok engine =>
          match engine.rearm with
          | .yield => runUntilIdle fuel bursts engine
          | _ => .ok engine

/-! ### Calls of the host -/

/-- Makes a process and runs a burst. -/
def launch (fuel : Nat) (f : Closure) (engine : Engine) : Except Unfinished (ProcessId × Engine) :=
  let (pid, engine) := engine.spawn f
  (run fuel engine).map (pid, ·)

/-- Sends a message, and runs a burst unless the host calls soon anyway. Answers whether it ran one.
-/
def addMessage (fuel : Nat) (pid : ProcessId) (message : Value) (engine : Engine) :
    Except Unfinished (Bool × Engine) :=
  let engine := engine.mapScheduler fun s => s.send pid message
  match engine.rearm with
  | .yield => .ok (false, engine)
  | _ => (run fuel engine).map (true, ·)

/-- Sends a message with the given parts. -/
def addList (fuel : Nat) (pid : ProcessId) (parts : List Value) (engine : Engine) :
    Except Unfinished (Bool × Engine) :=
  let (message, engine) := engine.onStore fun store => store.list parts
  engine.addMessage fuel pid message

/-- Tells a process of what a user did. -/
def postEvent (fuel : Nat) (pid : ProcessId) (event : UserEvent) (engine : Engine) :
    Except Unfinished (Bool × Engine) :=
  engine.addList fuel pid event.message

/-- Tells a process of the answer to its request: `(response status)`, with the body if there is
one. -/
def postResponse (fuel : Nat) (pid : ProcessId) (status : Nat) (body : Option String)
    (engine : Engine) : Except Unfinished (Bool × Engine) :=
  engine.addList fuel pid ([.symbol "response", .ofNat status] ++ (body.map Value.string).toList)

/-- Asks a process to evaluate a text: it gets `(eval text callback)`, and what it calls back with
is the answer to the request. -/
def requestEvaluation (fuel : Nat) (pid : ProcessId) (text : String) (engine : Engine) :
    Except Unfinished (Nat × Bool × Engine) :=
  let request := engine.requests + 1
  let callback : Native := ⟨"eval-callback", .exact 1, .answer request⟩
  let (f, engine) := { engine with requests := request }.onStore fun store =>
    store.newProcedure callback.entryCode
  (engine.addList fuel pid [.symbol "eval", .string text, .function f]).map (request, ·)

end Engine

end ActorMachine
