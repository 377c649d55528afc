import ActorMachine.Store

set_option autoImplicit false

/-!
The host: the world outside the processes.

This host keeps everything in memory. Its clock stands still unless it is moved, its random numbers
come from a sequence that it is given, and what processes ask of it is kept to be looked at.
Requests that take time are answered later, by a message.
-/

namespace ActorMachine

/-- A request to a node. -/
inductive ResourceRequest where
  | get
  | put (text : String)
  | append (text : String)
  /-- Asks for events on the node. -/
  | listen (event : String)

inductive HttpRequest where
  | get (url : String)
  | post (url body : String)
  | put (url body : String)

/-- A process that asked for events on a node. -/
structure Listener where
  node : String
  event : String
  pid : ProcessId

/-- What a user does. -/
inductive UserEvent where
  | keyUp (code : Nat)
  | keyDown (code : Nat)
  | click (id : String)
  | change (id value : String)

/-- The parts of the message that tells of an event. -/
def UserEvent.message : UserEvent → List Value
  | .keyUp code => [.symbol "keyup", .ofNat code]
  | .keyDown code => [.symbol "keydown", .ofNat code]
  | .click id => [.symbol "click", .symbol id]
  | .change id value => [.symbol "change", .symbol id, .string value]

structure Host where
  /-- The time in milliseconds. -/
  clock : Number := 0
  /-- The random numbers, all from zero to below one in a host that is set up well. -/
  random : Nat → Number := fun _ => 0
  /-- How many random numbers were drawn. -/
  drawn : Nat := 0
  /-- What was logged, oldest first. -/
  log : Array String := #[]
  /-- The texts of the nodes. -/
  nodes : List (String × String) := [("body", "")]
  listeners : Array Listener := #[]
  /-- Requests that were not answered yet, oldest first. -/
  http : Array (ProcessId × HttpRequest) := #[]
  /-- The processes that evaluate for the host. -/
  evaluators : Array ProcessId := #[]
  /-- The answers to evaluation requests. -/
  answers : Array (Nat × String) := #[]
  deriving Inhabited

namespace Host

/-- The next random number. -/
def draw (host : Host) : Number × Host :=
  (host.random host.drawn, { host with drawn := host.drawn + 1 })

def writeLog (host : Host) (line : String) : Host := { host with log := host.log.push line }

def setClock (host : Host) (ms : Number) : Host := { host with clock := ms }

def advance (host : Host) (ms : Number) : Host := { host with clock := ms + host.clock }

def node? (host : Host) (node : String) : Option String := host.nodes.lookup node

/-- Sets the text of a node. -/
def setNode (host : Host) (node text : String) : Host :=
  { host with nodes := (node, text) :: host.nodes.filter (·.1 ≠ node) }

/-- Serves a request; reading a node answers its text. -/
def resource (host : Host) (pid : ProcessId) (node : String) (request : ResourceRequest) :
    Except Fault (Option String × Host) :=
  match host.node? node with
  | none => .error (.refused (.docNode node))
  | some text =>
      match request with
      | .get => .ok (some text, host)
      | .put fresh => .ok (none, host.setNode node fresh)
      | .append more => .ok (none, host.setNode node (text ++ more))
      | .listen event =>
          .ok (none, { host with listeners := host.listeners.push ⟨node, event, pid⟩ })

def request (host : Host) (pid : ProcessId) (http : HttpRequest) : Host :=
  { host with http := host.http.push (pid, http) }

/-- The requests to be answered, which are then no longer kept. -/
def takeHttp (host : Host) : Array (ProcessId × HttpRequest) × Host :=
  (host.http, { host with http := #[] })

def addEvaluator (host : Host) (pid : ProcessId) : Host :=
  { host with evaluators := host.evaluators.push pid }

def answer (host : Host) (request : Nat) (text : String) : Host :=
  { host with answers := host.answers.push (request, text) }

end Host

end ActorMachine
