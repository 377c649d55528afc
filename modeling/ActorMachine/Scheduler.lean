import ActorMachine.Process.Table

set_option autoImplicit false

/-!
The scheduler: the processes, the memory they share, and what is due to happen to them.

Work is a queue of tasks, and timers wait in a heap beside it. A timer that was cancelled is skipped
when it comes to the top. Everything that happens to a process is entered in a journal, which
nothing else depends on.
-/

namespace ActorMachine

inductive Task where
  /-- Let a process run for one slice. -/
  | run (pid : ProcessId)
  /-- Put a message into the mailbox of a process. -/
  | deliver (pid : ProcessId) (message : Value)

/-- What happens to processes. -/
inductive Event where
  | spawned (pid : ProcessId)
  /-- A slice begins. -/
  | sliced (pid : ProcessId)
  | sent (pid : ProcessId) (message : Value)
  /-- A waiting process does not accept the message now. -/
  | setAside (pid : ProcessId) (message : Value)
  | resumed (pid : ProcessId) (message : Value)
  | timedOut (pid : ProcessId) (timer : Nat)
  /-- A process ends; the text is that of the reason at that moment. -/
  | died (pid : ProcessId) (reason : Value) (text : String)

structure Scheduler where
  memory : Memory := {}
  processes : ProcessTable := {}
  queue : Fifo Task := {}
  heap : TimerHeap := {}
  /-- The process whose slice, delivery or timeout came latest. -/
  current : Option ProcessId := none
  /-- How many timers were armed. -/
  armed : Nat := 0
  /-- What happened, latest first. -/
  journal : List Event := []
  deriving Inhabited

namespace Scheduler

/-! ### Parts of a scheduler -/

/-- Computes with the memory and puts the changed memory back. -/
@[inline] def onMemory {α : Type} (f : Memory → α × Memory) : Scheduler → α × Scheduler
  | ⟨memory, processes, queue, heap, current, armed, journal⟩ =>
      let (a, memory) := f memory
      (a, ⟨memory, processes, queue, heap, current, armed, journal⟩)

/-- Computes with the store and puts the changed store back. -/
@[inline] def onStore {α : Type} (f : Store → α × Store) : Scheduler → α × Scheduler :=
  onMemory fun ⟨store, globals⟩ =>
    let (a, store) := f store
    (a, ⟨store, globals⟩)

def store (s : Scheduler) : Store := s.memory.store

def find? (s : Scheduler) (pid : ProcessId) : Option Process := s.processes.find? pid

def isLive (s : Scheduler) (pid : ProcessId) : Bool := s.processes.isLive pid

def put (s : Scheduler) (pid : ProcessId) (p : Process) : Scheduler :=
  { s with processes := s.processes.put pid p }

/-- Changes a process if it is live. -/
def update (s : Scheduler) (pid : ProcessId) (f : Process → Process) : Scheduler :=
  match s.find? pid with
  | some p => s.put pid (f p)
  | none => s

def record (s : Scheduler) (event : Event) : Scheduler := { s with journal := event :: s.journal }

/-- Enters that messages were set aside. -/
def recordSetAside (s : Scheduler) (pid : ProcessId) (messages : List Value) : Scheduler :=
  messages.foldl (fun s message => s.record (.setAside pid message)) s

/-! ### Tasks -/

def pushTask (s : Scheduler) (task : Task) : Scheduler := { s with queue := s.queue.push task }

def popTask? (s : Scheduler) : Option (Task × Scheduler) :=
  match s.queue.pop? with
  | some (task, queue) => some (task, { s with queue })
  | none => none

/-- Queues a slice of a process. -/
def enqueue (s : Scheduler) (pid : ProcessId) : Scheduler := s.pushTask (.run pid)

/-- Queues messages that were delivered before. -/
def redeliver (s : Scheduler) (pid : ProcessId) (messages : List Value) : Scheduler :=
  { s with queue := s.queue.pushAll (messages.map (.deliver pid)) }

/-- Sends a message. Whether the receiver is alive matters only when it is delivered. -/
def send (s : Scheduler) (pid : ProcessId) (message : Value) : Scheduler :=
  (s.pushTask (.deliver pid message)).record (.sent pid message)

/-- Makes a process that will enter a function, and queues it. -/
def spawn (s : Scheduler) (f : Closure) : ProcessId × Scheduler :=
  let pid := s.processes.nextPid
  let s := { s with processes := s.processes.add (.start pid f) }
  (pid, (s.enqueue pid).record (.spawned pid))

/-! ### Timers -/

/-- Cancels the timeout that a process waits for: its timer stays in the heap. -/
def dropTimeout (s : Scheduler) (timeout : Option PendingTimeout) : Scheduler :=
  { s with heap := timeout.elim s.heap fun timeout => s.heap.cancel timeout.canceled }

/-- Arms a timer for a live process in place of the one that it waits for. -/
def addTimeout (s : Scheduler) (pid : ProcessId) (deadline : Number) (entry : Template) :
    Scheduler :=
  match s.find? pid with
  | none => s
  | some p =>
      let id := s.armed + 1
      let s := s.dropTimeout p.timeout
      let (canceled, heap) := s.heap.push deadline id pid
      { s with
        armed := id
        heap
        processes := s.processes.put pid { p with timeout := some ⟨id, entry, canceled⟩ } }

/-- Throws away the cancelled timers on top of the heap. -/
def prune (s : Scheduler) : Scheduler := { s with heap := s.heap.prune }

/-- The deadline of the next timer that is not cancelled. -/
def nextDeadline (s : Scheduler) : Option Number × Scheduler :=
  let s := s.prune
  (s.heap.top?.map (·.deadline), s)

/-- Takes the next timer if its deadline has passed. -/
def popDue? (s : Scheduler) (now : Number) : Option Timer × Scheduler :=
  match s.nextDeadline with
  | (none, s) => (none, s)
  | (some deadline, s) =>
      if deadline.atMost now then
        match s.heap.pop? with
        | some (timer, heap) => (some timer, { s with heap })
        | none => (none, s)
      else (none, s)

/-! ### Links -/

/-- Links two live processes; a process is not linked to itself. -/
def link (s : Scheduler) (a b : ProcessId) : Except Fault Unit × Scheduler :=
  if a = b then (.ok (), s)
  else if s.isLive a && s.isLive b then
    (.ok (), (s.update a (·.addLink b)).update b (·.addLink a))
  else (.error .deadPeer, s)

def unlink (s : Scheduler) (a b : ProcessId) : Scheduler :=
  (s.update a (·.removeLink b)).update b (·.removeLink a)

/-! ### Ends of processes -/

/-- A process that ends, with the links that are still to be followed. -/
structure Dying where
  pid : ProcessId
  reason : Value
  machine : Machine
  /-- What it was doing, once someone was told. -/
  snapshot : Option Value
  links : List ProcessId

/-- Takes the process `p`, which has the number `pid`, out of the table. -/
def beginDeath (s : Scheduler) (pid : ProcessId) (p : Process) (reason : Value) :
    Dying × Scheduler :=
  let text := s.store.render reason
  let s := { s with processes := s.processes.erase pid }
  (⟨pid, reason, p.machine.halt, none, p.links⟩,
    (s.dropTimeout p.timeout).record (.died pid reason text))

/-- The snapshot of a process that ends; it is taken once. -/
def Dying.view (dying : Dying) : StateM Store Value :=
  match dying.snapshot with
  | some snapshot => pure snapshot
  | none => dying.machine.snapshot dying.pid

/-- The snapshot and the message `(exit snapshot reason)` that tells of the end of a process. -/
def Dying.notice (dying : Dying) : StateM Store (Value × Value) := do
  let snapshot ← dying.view
  let message ← Store.allocList [.symbol "exit", snapshot, dying.reason]
  pure (snapshot, message)

/-- The links that a stack of ending processes has still to follow, and the processes in it. -/
def weight (stack : List Dying) : Nat :=
  stack.foldr (fun dying rest => dying.links.length + 1 + rest) 0

theorem count_beginDeath {s : Scheduler} {pid : ProcessId} {p : Process}
    (found : s.find? pid = some p) (reason : Value) :
    (s.beginDeath pid p reason).2.processes.count < s.processes.count := by
  simp only [beginDeath, record, dropTimeout]
  exact ProcessTable.count_erase found

/-- Follows the links of ending processes, the latest one's first. A linked process that traps exits
gets a message. Any other ends with the same reason, unless that is `normal`. Survivors lose the
link. -/
def propagate (s : Scheduler) (stack : List Dying) : Scheduler :=
  match stack with
  | [] => s
  | ⟨_, _, _, _, []⟩ :: below => propagate s below
  | ⟨pid, reason, machine, snapshot, peer :: links⟩ :: below =>
      match _found : s.find? peer with
      | none => propagate s (⟨pid, reason, machine, snapshot, links⟩ :: below)
      | some p =>
          if p.trapsExits then
            let s' := s.put peer (p.removeLink pid)
            let told := s'.onStore (Dying.notice ⟨pid, reason, machine, snapshot, links⟩)
            propagate (told.2.send peer told.1.2)
              (⟨pid, reason, machine, some told.1.1, links⟩ :: below)
          else if reason.isSymbol "normal" then
            propagate (s.put peer (p.removeLink pid))
              (⟨pid, reason, machine, snapshot, links⟩ :: below)
          else
            let death := s.beginDeath peer p reason
            propagate death.2 (death.1 :: ⟨pid, reason, machine, snapshot, links⟩ :: below)
termination_by (s.processes.count, weight stack)
decreasing_by
  · apply Prod.Lex.right; simp [weight]
  · apply Prod.Lex.right; simp [weight]
  · have same : (told.2.send peer told.1.2).processes.count = s.processes.count :=
      ProcessTable.count_put _ _found
    rw [same]; apply Prod.Lex.right; simp [weight]
  · have same : (s.put peer (p.removeLink pid)).processes.count = s.processes.count :=
      ProcessTable.count_put _ _found
    rw [same]; apply Prod.Lex.right; simp [weight]
  · apply Prod.Lex.left; exact count_beginDeath _found reason

/-- Ends a process, and tells or ends those that are linked to it. -/
def die (s : Scheduler) (pid : ProcessId) (reason : Value) : Scheduler :=
  match s.find? pid with
  | none => s
  | some p =>
      let (dying, s) := s.beginDeath pid p reason
      s.propagate [dying]

/-- Ends a process over a fault. -/
def dieOf (s : Scheduler) (pid : ProcessId) (cause : Fault) : Scheduler :=
  s.die pid (.string cause.reasonText)

def kill (s : Scheduler) (pid : ProcessId) : Scheduler := s.die pid (.symbol "killed")

/-! ### Mail -/

/-- Looks at the mail of a process and answers whether it goes on. A message whose arguments cannot
be passed ends the process. There is no answer when its arguments are a circular list. -/
def checkMail (s : Scheduler) (pid : ProcessId) : Option (Bool × Scheduler) :=
  match s.find? pid with
  | none => some (false, s)
  | some p =>
      match p.checkMail s.store with
      | (.nothing setAside, after) => some (false, (s.put pid after).recordSetAside pid setAside)
      | (.resumed message setAside handedBack, after) =>
          let s := ((s.put pid after).dropTimeout p.timeout).recordSetAside pid setAside
          some (true, (s.redeliver pid handedBack).record (.resumed pid message))
      | (.failed _ setAside (.fault cause), after) =>
          let s := ((s.put pid after).dropTimeout p.timeout).recordSetAside pid setAside
          some (false, s.dieOf pid cause)
      | (.failed _ _ .endless, _) => none

/-- Looks at the mail of a process and queues it if it goes on. -/
def wake (s : Scheduler) (pid : ProcessId) : Option Scheduler :=
  match s.checkMail pid with
  | some (true, s) => some (s.enqueue pid)
  | some (false, s) => some s
  | none => none

/-- Puts a message into the mailbox of a process; a dead process has none. -/
def deliver (s : Scheduler) (pid : ProcessId) (message : Value) : Option Scheduler :=
  match s.find? pid with
  | none => some s
  | some p => ({ s with current := some pid }.put pid (p.deliver message)).wake pid

/-- Whether a process still waits for a timer. -/
def awaits (s : Scheduler) (timer : Timer) : Bool :=
  match s.find? timer.pid with
  | some p => p.status = .waiting && (p.timeout.map (·.id)) == some timer.id
  | none => false

/-- Lets a waiting process go on at its timeout. -/
def timeOut (s : Scheduler) (pid : ProcessId) : Scheduler :=
  match s.find? pid with
  | none => s
  | some p =>
      match p.timeout with
      | none => s
      | some timeout =>
          let cleared := { p with timeout := none, saved := .empty }
          match p.machine.resume s.store timeout.entry .nil with
          | .ok machine =>
              let s := (s.put pid { cleared with machine }).redeliver pid p.saved.toList
              (s.enqueue pid).record (.timedOut pid timeout.id)
          | .error (.fault cause) =>
              ((s.put pid cleared).redeliver pid p.saved.toList).dieOf pid cause
          | .error .endless => s

/-- Fires a timer. The process first gets a message if its mailbox has one that it accepts. -/
def expire (s : Scheduler) (timer : Timer) : Option Scheduler :=
  if s.awaits timer then
    match { s with current := some timer.pid }.checkMail timer.pid with
    | none => none
    | some (true, s) => some (s.enqueue timer.pid)
    | some (false, s) => some (s.timeOut timer.pid)
  else some s

/-! ### Slices -/

/-- A slice of a process begins. -/
def beginSlice (s : Scheduler) (pid : ProcessId) : Scheduler :=
  { s with current := some pid }.record (.sliced pid)

/-- At the end of its slice a process is queued again, or looks at its mail if it waits. -/
def endSlice (s : Scheduler) (pid : ProcessId) : Option Scheduler :=
  match s.find? pid with
  | none => some s
  | some p =>
      match p.status with
      | .running => some (s.enqueue pid)
      | .waiting => s.wake pid
      | .halted => some s

end Scheduler

end ActorMachine
