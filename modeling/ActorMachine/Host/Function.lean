import ActorMachine.Host
import ActorMachine.Process.Table

set_option autoImplicit false

/-!
The functions that a host adds to the natives.

A function of the host is called for a process within its slice. It is any program over the calls
that an engine has for its host: it looks at what is there, changes the host, makes lists, defines
globals, starts processes and sends messages. None of these reaches into the machine of a process.
-/

namespace ActorMachine

/-- A run of a function of the host. -/
inductive HostAction where
  | done (result : Except Fault Value)
  /-- Looks at the memory, the processes and the host. -/
  | look (next : Memory → ProcessTable → Host → HostAction)
  | changeHost (f : Host → Host) (next : HostAction)
  /-- Makes a list. -/
  | list (items : List Value) (next : Value → HostAction)
  | define (name : String) (v : Value) (next : HostAction)
  | spawn (f : Closure) (next : ProcessId → HostAction)
  /-- Sends a message. There is none that leads out of the store. -/
  | send (receiver : ProcessId) (message : Value) (next : HostAction)

/-- What a function of the host does for the process that calls it and the slots of its frame. -/
abbrev HostFunction := ProcessId → List Value → HostAction

end ActorMachine
