import ActorMachine.Engine

set_option autoImplicit false

/-!
What natives do.

Every native gets the number of the calling process and the slots of its frame. Natives on values
change only the store, natives on names only the globals and the marks, natives on processes only
the scheduler, and natives on the host only the host.
-/

namespace ActorMachine

open Argument

/-- A step of a native on the engine. -/
abbrev EngineM := Action Engine

namespace EngineM

/-- A step on the store. -/
@[inline] def onStore {α : Type} (act : Action Store α) : EngineM α :=
  ExceptT.mk fun engine => engine.onStore act.run

/-- A step on the scheduler that cannot fail. -/
@[inline] def onScheduler {α : Type} (f : Scheduler → α × Scheduler) : EngineM α :=
  ExceptT.mk fun engine =>
    let (a, engine) := engine.onScheduler f
    (.ok a, engine)

/-- A change of the scheduler. -/
@[inline] def changeScheduler (f : Scheduler → Scheduler) : EngineM Unit :=
  onScheduler fun s => ((), f s)

/-- A change of the host. -/
@[inline] def changeHost (f : Host → Host) : EngineM Unit :=
  ExceptT.mk fun engine => (.ok (), engine.mapHost f)

/-- A step on the globals. -/
@[inline] def onGlobals {α : Type} (f : Globals → α × Globals) : EngineM α :=
  onScheduler <| Scheduler.onMemory fun ⟨store, globals⟩ =>
    let (a, globals) := f globals
    (a, ⟨store, globals⟩)

/-- The items of a list. -/
def elements (v : Value) : EngineM (List Value) := do
  let engine ← get
  ofOutcome (engine.store.elements v)

end EngineM

open EngineM

/-- Carries out an operation on names. -/
def NameOp.run (op : NameOp) (args : List Value) : EngineM Value :=
  match op, args with
  | .define, [v] => do
      let name ← ofOutcome (symbol "def" v)
      onGlobals fun globals => (v, (globals.defineSelf name).2)
  | .undefine, [v] => do
      let name ← ofOutcome (symbol "undef" v)
      onGlobals fun globals => (v, globals.undefine name)
  | .mark, [v] => do
      let name ← ofOutcome (symbol "mac" v)
      modify fun engine => { engine with marked := name :: engine.marked.filter (· ≠ name) }
      pure v
  | .unmark, [v] => do
      let name ← ofOutcome (symbol "unmac" v)
      modify fun engine => { engine with marked := engine.marked.filter (· ≠ name) }
      pure v
  | .isMarked, [v] => do
      let name ← ofOutcome (symbol "macrop" v)
      pure (.ofBool ((← get).marked.contains name))
  | .value, [v] => do
      let name ← ofOutcome (symbol "global" v)
      match (← get).global? name with
      | some x => pure x
      | none => refuse (.unbound name)
  | .names, [] => do
      let names := (← get).globals.definedNames.reverse.map Value.symbol
      onScheduler <| Scheduler.onStore fun store => store.list names
  | .link, [v] => do
      let template ← ExceptT.mk (Engine.linkFunction v)
      pure (.template template)
  | _, args => missing (args.length + 1) args

/-- Carries out an operation on processes for the process `me`. -/
def ProcessOp.run (op : ProcessOp) (me : ProcessId) (args : List Value) : EngineM Value :=
  match op, args with
  | .snapshot, [v] => do
      let pid ← ofOutcome (process "snapshot" v)
      match (← get).find? pid with
      | none => refuse (.noSuchProcess pid)
      | some p => onScheduler (Scheduler.onStore (p.machine.snapshot pid))
  | .spawn, [v] => do
      let f ← ofOutcome (function "spawn" v)
      let pid ← onScheduler fun s => s.spawn f
      pure (.process pid)
  | .spawnLinked, [v] => do
      let f ← ofOutcome (function "spawnlink" v)
      let child ← onScheduler fun s => s.spawn f
      linkTo child me
      pure (.process child)
  | .link, [v] => do
      let peer ← ofOutcome (process "link" v)
      linkTo me peer
      pure .nil
  | .unlink, [v] => do
      let peer ← ofOutcome (process "unlink" v)
      changeScheduler fun s => s.unlink me peer
      pure .nil
  | .trapExits, [] => do
      changeScheduler fun s => s.update me fun p => { p with trapsExits := true }
      pure .nil
  | .send, [v, message] => do
      let receiver ← ofOutcome (process "sendmsg" v)
      let ref ← ofOutcome (pair "sendmsg" message)
      let tag := (← get).store.carAt ref
      let _ ← ofOutcome (symbol "sendmsg" tag)
      changeScheduler fun s => s.send receiver message
      pure .nil
  | .self, [] => pure (.process me)
  | .list, [] => do
      let pids := (← get).scheduler.processes.pids.map Value.process
      onScheduler <| Scheduler.onStore fun store => store.list pids
  | .kill, [v] => do
      let pid ← ofOutcome (process "kill" v)
      changeScheduler fun s => s.kill pid
      pure .nil
  | .cycles, [] => do pure (.ofNat (← get).cycles)
  | _, args => missing (args.length + 1) args
where
  /-- Links two processes, or fails. -/
  linkTo (a b : ProcessId) : EngineM Unit := do
    match ← onScheduler fun s => s.link a b with
    | .ok _ => pure ()
    | .error cause => refuse cause

/-- The request that `http` stands for. -/
def httpRequest (method url : String) (rest : List Value) : Outcome HttpRequest :=
  let body := match rest with
    | [v] => string "http" v
    | _ => faulting (.refused .netArguments)
  if method = "get" then
    if rest.isEmpty then .ok (.get url) else faulting (.refused .netArguments)
  else if method = "post" then body.map (.post url)
  else if method = "put" then body.map (.put url)
  else faulting (.refused .netMethod)

/-- The request with the given method on a part of a node. -/
def resourceRequest (method part : String) (body : Option Value) : Outcome ResourceRequest :=
  let text := match body with
    | some v => string "doc" v
    | none => faulting (.wrongKind "doc" "string body")
  let event := match body with
    | some v => symbol "doc" v
    | none => faulting (.wrongKind "doc" "event symbol")
  if method = "get" ∧ part = "value" then .ok .get
  else if method = "put" ∧ part = "value" then text.map .put
  else if method = "post" ∧ part = "value" then text.map .append
  else if method = "post" ∧ part = "listeners" then event.map .listen
  else if method = "get" ∨ method = "put" ∨ method = "post" then faulting (.refused .docAttribute)
  else faulting (.refused .docMethod)

/-- Carries out a request `(method (node part) body)`. -/
def requestResource (me : ProcessId) (method resource : Value) (body : Option Value) :
    EngineM Value := do
  let method ← ofOutcome (symbol "doc" method)
  match ← elements resource with
  | [node, part] =>
      let node ← ofOutcome (symbol "doc" node)
      let part ← ofOutcome (symbol "doc" part)
      let request ← ofOutcome (resourceRequest method part body)
      match (← get).host.resource me node request with
      | .error cause => refuse cause
      | .ok (answer, host) =>
          modify fun engine => { engine with host }
          match answer with
          | some text => pure (.string text)
          | none => pure .nil
  | _ => refuse (.wrongKind "doc" "(node attribute) resource")

/-- Carries out an operation on the host for the process `me`. -/
def HostOp.run (op : HostOp) (me : ProcessId) (args : List Value) : EngineM Value :=
  match op, args with
  | .log, [v] => do
      let line ← ofOutcome (string "log" v)
      changeHost fun host => host.writeLog line
      pure .nil
  | .now, [] => do pure (.number (← get).host.clock)
  | .random, [] => do
      let (x, host) := (← get).host.draw
      modify fun engine => { engine with host }
      pure (.number x)
  | .http, [method, url, rest] => do
      let method ← ofOutcome (symbol "http" method)
      let url ← ofOutcome (string "http" url)
      let rest ← elements rest
      let request ← ofOutcome (httpRequest method url rest)
      changeHost fun host => host.request me request
      pure .nil
  | .resource, [request] => do
      match ← elements request with
      | [method, target] => requestResource me method target none
      | [method, target, body] => requestResource me method target (some body)
      | _ => refuse (.refused .docRequest)
  | .offerEvaluation, [v] => do
      let pid ← ofOutcome (process "giveup" v)
      changeHost fun host => host.addEvaluator pid
      pure .nil
  | _, args => missing (args.length + 1) args

/-- Carries out what a function of the host does. It is called from within a burst, so what it
starts or sends waits for its turn. -/
def HostAction.run : HostAction → EngineM Value
  | .done (.ok v) => pure v
  | .done (.error cause) => refuse cause
  | .look next => do
      let engine ← get
      (next engine.scheduler.memory engine.scheduler.processes engine.host).run
  | .changeHost f next => do
      EngineM.changeHost f
      next.run
  | .list items next => do
      let v ← onScheduler (Scheduler.onStore fun store => store.list items)
      (next v).run
  | .define name v next => do
      onGlobals fun globals => ((), (globals.define name v).2)
      next.run
  | .spawn f next => do
      let pid ← onScheduler fun s => s.spawn f
      (next pid).run
  | .send receiver message next => do
      changeScheduler fun s => if s.store.isHeld message then s.send receiver message else s
      next.run

/-- Carries out the function that the host added under a number. -/
def callRegistered (index : Nat) (me : ProcessId) (args : List Value) : EngineM Value := do
  match (← get).functions[index]? with
  | some f => (f me args).run
  | none => missing (args.length + 1) args

/-- Carries out an operation for the process `me`. -/
def Operation.run (operation : Operation) (me : ProcessId) (args : List Value) : EngineM Value :=
  match operation, args with
  | .arithmetic op, [a, b] => do
      let a ← ofOutcome (number op.who a)
      let b ← ofOutcome (number op.who b)
      pure (.number (op.apply a b))
  | .compare op, [a, b] => do
      let a ← ofOutcome (number op.who a)
      let b ← ofOutcome (number op.who b)
      pure (.ofBool (op.apply a b))
  | .same negated, [a, b] => pure (.ofBool (a.same b != negated))
  | .isKind kind, [v] => pure (.ofBool (v.kind = kind))
  | .data op, args => onStore (op.run args)
  | .name op, args => op.run args
  | .process op, args => op.run me args
  | .host op, args => op.run me args
  | .answer request, [v] => do
      let text ← ofOutcome (string "eval callback" v)
      changeHost fun host => host.answer request text
      pure .nil
  | .registered index, args => callRegistered index me args
  | _, args => missing (args.length + 1) args

/-- Calls a native. The slots have to be as many as its parameters ask for. -/
def Native.call (native : Native) (me : ProcessId) (args : List Value) : EngineM Value :=
  if args.length = native.arity.frameLength then native.operation.run me args
  else refuse (.wrongCount native.arity.frameLength args.length)

end ActorMachine
