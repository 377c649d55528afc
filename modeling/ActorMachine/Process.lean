import ActorMachine.Fifo
import ActorMachine.Machine
import ActorMachine.Timer

set_option autoImplicit false

/-!
A process: a machine with its mail, its links and the timeout it waits for.

Mail is taken selectively. While a process waits, its mailbox is searched for the first message
whose tag its receive table has an entry for. Messages before it are set aside, and handed back when
the process goes on.
-/

namespace ActorMachine

/-- The timeout of the latest `RECV`. -/
structure PendingTimeout where
  id : Nat
  entry : Template
  /-- The flag of the timer. -/
  canceled : Flag

structure Process where
  machine : Machine
  receivers : ReceiveTable := .empty
  /-- Messages that were set aside, oldest first. -/
  saved : Fifo Value := {}
  mailbox : Fifo Value := {}
  links : List ProcessId := []
  trapsExits : Bool := false
  timeout : Option PendingTimeout := none

/-- What a look at the mail comes to. -/
inductive MailCheck where
  /-- No message is accepted. -/
  | nothing (setAside : List Value)
  /-- The process goes on with `message`, and `handedBack` is to be delivered again. -/
  | resumed (message : Value) (setAside handedBack : List Value)
  /-- `message` is accepted, but its arguments cannot be passed. -/
  | failed (message : Value) (setAside : List Value) (why : Failure)

/-- The entry for a message: a message is a pair with a symbol, its tag, in front. -/
def ReceiveTable.accepts? (table : ReceiveTable) (store : Store) (message : Value) :
    Option Template :=
  match store.car? message with
  | some (.symbol tag) => table.entry? tag
  | _ => none

/-- A mailbox divided at the first message that is accepted. -/
structure Found where
  skipped : List Value
  message : Value
  entry : Template
  rest : List Value

namespace Process

/-- A process about to enter a function. -/
def start (pid : ProcessId) (f : Closure) : Process where
  machine := .start pid f

def status (p : Process) : Status := p.machine.status

def addLink (p : Process) (peer : ProcessId) : Process :=
  if peer ∈ p.links then p else { p with links := p.links ++ [peer] }

def removeLink (p : Process) (peer : ProcessId) : Process :=
  { p with links := p.links.filter (· ≠ peer) }

def deliver (p : Process) (message : Value) : Process :=
  { p with mailbox := p.mailbox.push message }

/-- Divides messages at the first one that `table` accepts; `skipped` holds those before, last one
first. -/
def findFrom? (store : Store) (table : ReceiveTable) (skipped : List Value) :
    List Value → Option Found
  | [] => none
  | message :: rest =>
      match table.accepts? store message with
      | some entry => some ⟨skipped.reverse, message, entry, rest⟩
      | none => findFrom? store table (message :: skipped) rest

/-- Looks at the mail of a process. A process that does not wait has nothing to look for. -/
def checkMail (p : Process) (store : Store) : MailCheck × Process :=
  if p.status = .waiting then
    let messages := p.mailbox.toList
    match findFrom? store p.receivers [] messages with
    | none => (.nothing messages, { p with mailbox := .empty, saved := p.saved.pushAll messages })
    | some found =>
        let handedBack := p.saved.toList ++ found.skipped
        let cleared := { p with mailbox := .ofList found.rest, saved := .empty, timeout := none }
        match p.machine.resume store found.entry ((store.cdr? found.message).getD .nil) with
        | .ok machine =>
            (.resumed found.message found.skipped handedBack, { cleared with machine })
        | .error why => (.failed found.message found.skipped why, cleared)
  else (.nothing [], p)

end Process

end ActorMachine
