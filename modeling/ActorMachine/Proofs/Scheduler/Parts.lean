import ActorMachine.Proofs.Scheduler.Heap

set_option autoImplicit false

/-!
The parts of a scheduler after each of its small operations.

A scheduler is looked at through the processes that it finds, its queue, its timers and its journal.
For each small operation there is one equation for what it changes, so that later proofs need not
open it.
-/

namespace ActorMachine

namespace ProcessTable

theorem find?_add (table : ProcessTable) (p : Process) (pid : ProcessId) :
    (table.add p).find? pid = if pid = table.nextPid then some p else table.find? pid := by
  unfold add find? nextPid
  rw [Array.getElem?_push]
  by_cases last : pid = table.places.size
  · rw [if_pos last, if_pos last]
  · rw [if_neg last, if_neg last]

@[simp] theorem nextPid_put (table : ProcessTable) (pid : ProcessId) (p : Process) :
    (table.put pid p).nextPid = table.nextPid := by
  simp [put, nextPid]

@[simp] theorem nextPid_erase (table : ProcessTable) (pid : ProcessId) :
    (table.erase pid).nextPid = table.nextPid := by
  simp [erase, nextPid]

@[simp] theorem nextPid_add (table : ProcessTable) (p : Process) :
    (table.add p).nextPid = table.nextPid + 1 := by
  simp [add, nextPid]

end ProcessTable

namespace Scheduler

variable (s : Scheduler) (pid other : ProcessId)

/-! ### Looking up processes -/

theorem isLive_iff : s.isLive pid = true ↔ ∃ p, s.find? pid = some p := by
  simp [isLive, ProcessTable.isLive, find?, Option.isSome_iff_exists]

theorem isLive_eq_false_iff : s.isLive pid = false ↔ s.find? pid = none := by
  simp [isLive, ProcessTable.isLive, find?]

/-- At first there is nobody. -/
theorem find?_empty_ne {memory : Memory} {pid : ProcessId} {p : Process} :
    ({ memory } : Scheduler).find? pid ≠ some p := by
  intro found
  unfold find? ProcessTable.find? at found
  cases pid with
  | zero => cases found
  | succ pid => cases found

theorem lt_nextPid {s : Scheduler} {pid : ProcessId} {p : Process} (found : s.find? pid = some p) :
    pid < s.processes.nextPid :=
  ProcessTable.lt_of_find? found

theorem find?_put {s : Scheduler} {pid : ProcessId} {p : Process} (found : s.find? pid = some p)
    (after : Process) (other : ProcessId) :
    (s.put pid after).find? other = if pid = other then some after else s.find? other := by
  have inside := ProcessTable.lt_of_find? found
  simp only [put, find?, ProcessTable.find?_put]
  by_cases same : pid = other
  · subst same
    simp [inside]
  · simp [same]

theorem find?_put_self {s : Scheduler} {pid : ProcessId} {p : Process}
    (found : s.find? pid = some p) (after : Process) :
    (s.put pid after).find? pid = some after := by
  rw [find?_put found, if_pos rfl]

/-- A process that is found after one was replaced is that one, or was there before. -/
theorem find?_put_cases {s : Scheduler} {pid other : ProcessId} {p q r : Process}
    (found : s.find? pid = some p) (foundAfter : (s.put pid q).find? other = some r) :
    (pid = other ∧ r = q) ∨ (pid ≠ other ∧ s.find? other = some r) := by
  rw [find?_put found] at foundAfter
  by_cases same : pid = other
  · rw [if_pos same] at foundAfter
    exact .inl ⟨same, (Option.some.inj foundAfter).symm⟩
  · rw [if_neg same] at foundAfter
    exact .inr ⟨same, foundAfter⟩

theorem find?_update (f : Process → Process) :
    (s.update pid f).find? other =
      if pid = other then (s.find? other).map f else s.find? other := by
  unfold update
  cases found : s.find? pid with
  | none =>
      by_cases same : pid = other
      · subst same
        simp [found]
      · simp [same]
  | some p =>
      change (s.put pid (f p)).find? other = _
      rw [find?_put found]
      by_cases same : pid = other
      · subst same
        simp [found]
      · simp [same]

theorem find?_spawn (f : Closure) :
    (s.spawn f).2.find? pid =
      if pid = s.processes.nextPid then some (.start pid f) else s.find? pid := by
  have added := ProcessTable.find?_add s.processes (.start s.processes.nextPid f) pid
  unfold spawn find? at *
  change (s.processes.add _).find? pid = _
  rw [added]
  split
  · rename_i same
    rw [same]
  · rfl

/-- A process that is found after one was made is the new one, or was there before. -/
theorem find?_spawn_cases {s : Scheduler} {f : Closure} {pid : ProcessId} {p : Process}
    (found : (s.spawn f).2.find? pid = some p) :
    (pid = s.processes.nextPid ∧ p = .start pid f) ∨
      (pid ≠ s.processes.nextPid ∧ s.find? pid = some p) := by
  rw [find?_spawn] at found
  by_cases isNew : pid = s.processes.nextPid
  · rw [if_pos isNew] at found
    exact .inl ⟨isNew, (Option.some.inj found).symm⟩
  · rw [if_neg isNew] at found
    exact .inr ⟨isNew, found⟩

@[simp] theorem find?_record (event : Event) : (s.record event).find? pid = s.find? pid := rfl

@[simp] theorem find?_pushTask (task : Task) : (s.pushTask task).find? pid = s.find? pid := rfl

@[simp] theorem find?_enqueue : (s.enqueue other).find? pid = s.find? pid := rfl

@[simp] theorem find?_send (message : Value) : (s.send other message).find? pid = s.find? pid := rfl

@[simp] theorem find?_redeliver (messages : List Value) :
    (s.redeliver other messages).find? pid = s.find? pid := rfl

/-! ### Operations as changes of single parts -/

theorem recordSetAside_eq (messages : List Value) :
    s.recordSetAside pid messages =
      { s with journal := (messages.map (.setAside pid)).reverse ++ s.journal } := by
  unfold recordSetAside
  induction messages generalizing s with
  | nil => rfl
  | cons message messages ih =>
      rw [List.foldl_cons, ih]
      simp [record]

/-- The timeout that a process waits for. -/
def timeout? : Option PendingTimeout := (s.find? pid).bind (·.timeout)

/-- The number of the timer that a process waits for. -/
def timeoutId? : Option Nat := (s.timeout? pid).map (·.id)

/-- The flag that cancels the timeout of a process. -/
def timeoutFlag? : Option Flag := (s.timeout? pid).map (·.canceled)

/-- The timers that are not cancelled, in the order in which they come due. -/
def timers : List Timer := s.heap.live

theorem dropTimeout_eq (timeout : Option PendingTimeout) :
    s.dropTimeout timeout =
      { s with heap := timeout.elim s.heap fun timeout => s.heap.cancel timeout.canceled } :=
  rfl

theorem timers_dropTimeout (timeout : Option PendingTimeout) :
    (s.dropTimeout timeout).timers =
      s.timers.filter fun timer => timeout.map (·.canceled) ≠ some timer.canceled := by
  cases timeout with
  | none =>
      have all : s.timers.filter (fun _ => true) = s.timers := List.filter_eq_self.2 (by simp)
      simp [dropTimeout, all]
  | some timeout =>
      have cancelled := s.heap.live_cancel timeout.canceled
      simpa [dropTimeout, timers, eq_comm] using cancelled

theorem size_flags_dropTimeout (timeout : Option PendingTimeout) :
    (s.dropTimeout timeout).heap.flags.size = s.heap.flags.size := by
  cases timeout with
  | none => rfl
  | some timeout => exact Array.size_setIfInBounds

theorem timers_prune : s.prune.timers = s.timers := s.heap.live_prune

@[simp] theorem find?_dropTimeout (timeout : Option PendingTimeout) :
    (s.dropTimeout timeout).find? pid = s.find? pid := by
  rw [dropTimeout_eq]
  rfl

@[simp] theorem find?_recordSetAside (messages : List Value) :
    (s.recordSetAside other messages).find? pid = s.find? pid := by
  rw [recordSetAside_eq]
  rfl

theorem update_eq (f : Process → Process) :
    s.update pid f = { s with processes := (s.update pid f).processes } := by
  unfold update
  cases s.find? pid with
  | none => rfl
  | some p => rfl

theorem link_eq (a b : ProcessId) :
    (s.link a b).2 = { s with processes := (s.link a b).2.processes } := by
  unfold link
  split
  · rfl
  · split
    · dsimp only
      rw [update_eq, update_eq]
    · rfl

theorem unlink_eq (a b : ProcessId) :
    s.unlink a b = { s with processes := (s.unlink a b).processes } := by
  unfold unlink
  rw [update_eq, update_eq]

theorem addTimeout_eq (deadline : Number) (entry : Template) :
    s.addTimeout pid deadline entry = { s with
      processes := (s.addTimeout pid deadline entry).processes
      heap := (s.addTimeout pid deadline entry).heap
      armed := (s.addTimeout pid deadline entry).armed } := by
  unfold addTimeout
  split
  · rfl
  · rw [dropTimeout_eq]

/-- A live process gets a new timer in place of the one that it waited for. -/
theorem addTimeout_of_found {s : Scheduler} {pid : ProcessId} {p : Process}
    (found : s.find? pid = some p) (deadline : Number) (entry : Template) :
    s.addTimeout pid deadline entry = { s with
      processes := s.processes.put pid
        { p with timeout := some ⟨s.armed + 1, entry, ⟨s.heap.flags.size⟩⟩ }
      armed := s.armed + 1
      heap := ((s.dropTimeout p.timeout).heap.push deadline (s.armed + 1) pid).2 } := by
  rw [← size_flags_dropTimeout s p.timeout]
  unfold addTimeout
  rw [found]
  rfl

/-! ### Taking tasks and timers -/

theorem popTask?_eq {s rest : Scheduler} {task : Task} (popped : s.popTask? = some (task, rest)) :
    ∃ queue, rest = { s with queue } ∧ s.queue.toList = task :: queue.toList := by
  unfold popTask? at popped
  cases taken : s.queue.pop? with
  | none =>
      rw [taken] at popped
      cases popped
  | some result =>
      obtain ⟨first, queue⟩ := result
      rw [taken] at popped
      cases popped
      exact ⟨queue, rfl, Fifo.toList_of_pop?_eq_some taken⟩

theorem nextDeadline_eq (s : Scheduler) :
    s.nextDeadline = (s.timers.head?.map (·.deadline), s.prune) := by
  unfold nextDeadline timers
  rw [← TimerHeap.top?_prune]
  rfl

theorem popDue?_eq {s rest : Scheduler} {now : Number} {timer : Timer}
    (due : s.popDue? now = (some timer, rest)) :
    ∃ heap, rest = { s with heap } ∧ s.timers = timer :: heap.live ∧
      timer.deadline.atMost now = true ∧ heap.flags = s.heap.flags := by
  unfold popDue? at due
  rw [nextDeadline_eq] at due
  cases popped : s.heap.prune.pop? with
  | none =>
      have noTimer : s.timers.head? = none := by
        unfold timers
        rw [← TimerHeap.top?_prune, TimerHeap.top?, popped, Option.map_none]
      rw [noTimer] at due
      cases due
  | some found =>
      obtain ⟨top, heap⟩ := found
      have isTop : s.timers = top :: heap.live := TimerHeap.live_pop_prune popped
      have sameFlags := (TimerHeap.pop?_eq_some popped).2.trans (TimerHeap.flags_prune s.heap)
      rw [isTop, List.head?_cons, Option.map_some] at due
      rw [isTop]
      dsimp only [prune] at due
      by_cases past : top.deadline.atMost now = true
      · rw [if_pos past, popped] at due
        cases due
        exact ⟨heap, rfl, rfl, past, sameFlags⟩
      · rw [if_neg past] at due
        cases due

/-- When no timer is due, the heap is looked after all the same. -/
theorem popDue?_none {s rest : Scheduler} {now : Number} (none : s.popDue? now = (none, rest)) :
    rest = s.prune ∧ ∀ timer ∈ s.timers.head?, timer.deadline.atMost now = false := by
  unfold popDue? at none
  rw [nextDeadline_eq] at none
  cases isTop : s.timers.head? with
  | none =>
      rw [isTop] at none
      cases none
      exact ⟨rfl, nofun⟩
  | some top =>
      rw [isTop, Option.map_some] at none
      dsimp only at none
      cases past : top.deadline.atMost now with
      | false =>
          rw [past, if_neg Bool.false_ne_true] at none
          cases none
          refine ⟨rfl, fun timer isHead => ?_⟩
          cases isHead
          exact past
      | true =>
          rw [past, if_pos rfl] at none
          have onTop : s.prune.heap.top? = some top := by
            rw [← isTop]
            exact TimerHeap.top?_prune s.heap
          obtain ⟨⟨timer, heap⟩, popped, _⟩ := Option.map_eq_some_iff.1 onTop
          rw [popped] at none
          cases none

theorem prune_prune (s : Scheduler) : s.prune.prune = s.prune := by
  unfold prune
  rw [TimerHeap.prune_prune]

/-- To say what the next deadline is, cancelled timers are thrown away anyway. -/
theorem nextDeadline_prune (s : Scheduler) : s.prune.nextDeadline = s.nextDeadline := by
  unfold nextDeadline
  rw [prune_prune]

theorem popDue?_prune (s : Scheduler) (now : Number) : s.prune.popDue? now = s.popDue? now := by
  unfold popDue?
  rw [nextDeadline_prune]

end Scheduler

end ActorMachine
