import ActorMachine.Proofs.Engine.Reachable

set_option autoImplicit false

/-!
Who is queued to run.

Between two turns a running process has exactly one slice in the queue and a waiting one has none.
Within a slice, and while a process is being woken, the one process at work has none. So the
invariant `Queued` has that process as an exception, and each step of the scheduler either keeps the
exception, makes it or ends it.
-/

namespace ActorMachine

/-- Whether a task is a slice of the given process. -/
def Task.isRunOf (pid : ProcessId) : Task → Bool
  | .run other => other == pid
  | .deliver _ _ => false

namespace Scheduler

/-- How many slices of a process are queued. -/
def slicesQueued (s : Scheduler) (pid : ProcessId) : Nat :=
  s.queue.toList.countP (Task.isRunOf pid)

theorem slicesQueued_enqueue (s : Scheduler) (pid other : ProcessId) :
    (s.enqueue pid).slicesQueued other = s.slicesQueued other + if pid = other then 1 else 0 := by
  unfold slicesQueued enqueue pushTask
  rw [Fifo.toList_push, List.countP_append, List.countP_singleton]
  simp [Task.isRunOf]

/-- Messages do not count. -/
theorem slicesQueued_of_deliveries {s after : Scheduler} {told : List (ProcessId × Value)}
    (queue : after.queue.toList =
      s.queue.toList ++ told.map fun notice => .deliver notice.1 notice.2) (pid : ProcessId) :
    after.slicesQueued pid = s.slicesQueued pid := by
  have none : (told.map fun notice => Task.deliver notice.1 notice.2).countP
      (Task.isRunOf pid) = 0 := by
    rw [List.countP_eq_zero]
    intro task member
    obtain ⟨notice, _, rfl⟩ := List.mem_map.1 member
    exact Bool.false_ne_true
  unfold slicesQueued
  rw [queue, List.countP_append, none, Nat.add_zero]

theorem slicesQueued_redeliver (s : Scheduler) (receiver : ProcessId) (messages : List Value)
    (pid : ProcessId) : (s.redeliver receiver messages).slicesQueued pid = s.slicesQueued pid := by
  have told : (s.redeliver receiver messages).queue.toList = s.queue.toList ++
      (messages.map fun message => (receiver, message)).map fun notice =>
        .deliver notice.1 notice.2 := by
    rw [List.map_map]
    exact Fifo.toList_pushAll _ _
  exact slicesQueued_of_deliveries told pid

/-! ### The invariant -/

/-- Every running process but the active one has one slice queued, and no other process has any. -/
structure Queued (active : Option ProcessId) (s : Scheduler) : Prop where
  awake : ∀ pid p, s.find? pid = some p → p.status ≠ .halted
  count : ∀ pid p, s.find? pid = some p →
    s.slicesQueued pid = if p.status = .running ∧ active ≠ some pid then 1 else 0
  fresh : ∀ pid, s.processes.nextPid ≤ pid → s.slicesQueued pid = 0
  old : ∀ pid, active = some pid → pid < s.processes.nextPid

section Changes

variable {active : Option ProcessId} {s after : Scheduler} {pid : ProcessId} {p q : Process}

/-- A change under which processes keep their status, or end. -/
theorem Queued.of_same (queued : Queued active s)
    (sameCount : ∀ other, after.slicesQueued other = s.slicesQueued other)
    (sameNext : after.processes.nextPid = s.processes.nextPid)
    (sameStatus : ∀ other q, after.find? other = some q →
      ∃ p, s.find? other = some p ∧ q.status = p.status) : Queued active after where
  awake := by
    intro other q found
    obtain ⟨p, foundBefore, status⟩ := sameStatus other q found
    rw [status]
    exact queued.awake other p foundBefore
  count := by
    intro other q found
    obtain ⟨p, foundBefore, status⟩ := sameStatus other q found
    rw [sameCount, status]
    exact queued.count other p foundBefore
  fresh := by
    intro other unused
    rw [sameNext] at unused
    rw [sameCount]
    exact queued.fresh other unused
  old := by
    rw [sameNext]
    exact queued.old

theorem Queued.of_queue_eq (queued : Queued active s)
    (sameProcesses : after.processes = s.processes)
    (sameCount : ∀ other, after.slicesQueued other = s.slicesQueued other) :
    Queued active after := by
  refine queued.of_same sameCount (congrArg ProcessTable.nextPid sameProcesses) ?_
  intro other q found
  refine ⟨q, ?_, rfl⟩
  rw [← found]
  simp only [find?, sameProcesses]

theorem Queued.redeliver (queued : Queued active s) (pid : ProcessId) (messages : List Value) :
    Queued active (s.redeliver pid messages) :=
  queued.of_queue_eq rfl (slicesQueued_redeliver s pid messages)

theorem Queued.put (queued : Queued active s) (found : s.find? pid = some p)
    (sameStatus : q.status = p.status) : Queued active (s.put pid q) := by
  refine queued.of_same (fun _ => rfl) (ProcessTable.nextPid_put _ _ _) ?_
  intro other r foundAfter
  rcases find?_put_cases found foundAfter with ⟨rfl, rfl⟩ | ⟨_, foundBefore⟩
  · exact ⟨p, found, sameStatus⟩
  · exact ⟨r, foundBefore, rfl⟩

theorem Queued.undisturbed (queued : Queued active s) (undisturbed : s.Undisturbed after) :
    Queued active after := by
  obtain ⟨told, queue, _⟩ := undisturbed.told
  refine queued.of_same (slicesQueued_of_deliveries queue) undisturbed.nextPid_eq ?_
  intro other q found
  obtain ⟨p, foundBefore, isCopy⟩ := undisturbed.survivor other q found
  refine ⟨p, foundBefore, ?_⟩
  rw [isCopy]
  rfl

theorem Queued.spawn (queued : Queued active s) (f : Closure) :
    Queued active (s.spawn f).2 := by
  have counted : ∀ other, (s.spawn f).2.slicesQueued other =
      s.slicesQueued other + if s.processes.nextPid = other then 1 else 0 := fun other =>
    slicesQueued_enqueue { s with processes := s.processes.add (.start s.processes.nextPid f) }
      s.processes.nextPid other
  have next : (s.spawn f).2.processes.nextPid = s.processes.nextPid + 1 :=
    ProcessTable.nextPid_add _ _
  constructor
  · intro other q found
    rcases find?_spawn_cases found with ⟨_, rfl⟩ | ⟨_, foundBefore⟩
    · exact nofun
    · exact queued.awake other q foundBefore
  · intro other q found
    rw [counted]
    rcases find?_spawn_cases found with ⟨isNew, rfl⟩ | ⟨isOld, foundBefore⟩
    · have none := queued.fresh other (Nat.le_of_eq isNew.symm)
      have notActive : active ≠ some other := by
        intro isActive
        exact absurd isNew (Nat.ne_of_lt (queued.old other isActive))
      rw [none, if_pos isNew.symm, if_pos ⟨rfl, notActive⟩]
    · rw [if_neg (Ne.symm isOld), Nat.add_zero]
      exact queued.count other q foundBefore
  · intro other unused
    rw [next] at unused
    rw [counted, queued.fresh other (Nat.le_of_succ_le unused), if_neg (Nat.ne_of_lt unused)]
  · intro other isActive
    rw [next]
    exact Nat.lt_succ_of_lt (queued.old other isActive)

/-! ### The process at work -/

/-- A process without a queued slice can be made the active one, with any status. -/
theorem Queued.put_active (queued : Queued active s) (only : ∀ other, active = some other →
    other = pid) (found : s.find? pid = some p) (unqueued : s.slicesQueued pid = 0)
    (awake : q.status ≠ .halted) : Queued (some pid) (s.put pid q) where
  awake := by
    intro other r foundAfter
    rcases find?_put_cases found foundAfter with ⟨_, rfl⟩ | ⟨_, foundBefore⟩
    · exact awake
    · exact queued.awake other r foundBefore
  count := by
    intro other r foundAfter
    change s.slicesQueued other = _
    rcases find?_put_cases found foundAfter with ⟨rfl, _⟩ | ⟨same, foundBefore⟩
    · rw [unqueued, if_neg (fun both => both.2 rfl)]
    · rw [queued.count other r foundBefore]
      have notActive : active ≠ some other := fun isActive => same (only other isActive).symm
      have notPid : some pid ≠ some other := fun isPid => same (Option.some.inj isPid)
      simp only [ne_eq, notActive, notPid, not_false_eq_true, and_true]
  fresh := by
    intro other unused
    have next := ProcessTable.nextPid_put s.processes pid q
    exact queued.fresh other (Nat.le_trans (Nat.le_of_eq next.symm) unused)
  old := by
    intro other isActive
    cases isActive
    exact Nat.lt_of_lt_of_eq (lt_nextPid found) (ProcessTable.nextPid_put _ _ _).symm

/-- An active process that does not run is like any other. -/
theorem Queued.release (queued : Queued (some pid) s)
    (idle : ∀ p, s.find? pid = some p → p.status ≠ .running) : Queued none s where
  awake := queued.awake
  count := by
    intro other p found
    rw [queued.count other p found]
    by_cases same : other = pid
    · subst same
      have notRunning := idle p found
      simp [notRunning]
    · have notPid : some pid ≠ some other := fun isPid => same (Option.some.inj isPid).symm
      simp [notPid]
  fresh := queued.fresh
  old := nofun

/-- The active process is queued when it is done. -/
theorem Queued.enqueue (queued : Queued (some pid) s) (found : s.find? pid = some p)
    (runs : p.status = .running) : Queued none (s.enqueue pid) where
  awake := queued.awake
  count := by
    intro other q foundOther
    rw [slicesQueued_enqueue, queued.count other q foundOther]
    by_cases same : pid = other
    · subst same
      change s.find? pid = some q at foundOther
      rw [found] at foundOther
      cases foundOther
      simp [runs]
    · have notPid : some pid ≠ some other := fun isPid => same (Option.some.inj isPid)
      simp [same, notPid]
  fresh := by
    intro other unused
    have old : pid < s.processes.nextPid := lt_nextPid found
    change s.processes.nextPid ≤ other at unused
    have different : pid ≠ other := Nat.ne_of_lt (Nat.lt_of_lt_of_le old unused)
    rw [slicesQueued_enqueue, queued.fresh other unused, if_neg different]
  old := nofun

end Changes

/-! ### Mail and slices -/

section Mail

variable {s after : Scheduler} {pid : ProcessId} {p : Process}

theorem Queued.unqueued (queued : Queued none s) (found : s.find? pid = some p)
    (waits : p.status = .waiting) : s.slicesQueued pid = 0 := by
  rw [queued.count pid p found, waits]
  rfl

/-- A process that goes on is for a moment the active one. -/
theorem Queued.looks {woke : Bool} (queued : Queued none s) (looked : Looks s pid woke after) :
    Queued (if woke = true then some pid else none) after ∧
      (woke = true → ∃ p, after.find? pid = some p ∧ p.status = .running) := by
  cases looked with
  | absent missing => exact ⟨queued, nofun⟩
  | busy found awake => exact ⟨queued, nofun⟩
  | @nothing p found waits rejected =>
      refine ⟨?_, nofun⟩
      rw [recordSetAside_eq]
      have changed : Queued none (s.put pid { p with
          mailbox := .empty, saved := p.saved.pushAll p.mailbox.toList }) :=
        queued.put found rfl
      exact changed.of_queue_eq rfl fun _ => rfl
  | @resumed p before message rest entry machine found waits divided rejected accepted goesOn =>
      have running := Machine.status_of_resume goesOn
      have changed : Queued (some pid) (s.put pid { p with
          mailbox := .ofList rest, saved := .empty, timeout := none, machine }) := by
        refine queued.put_active (nofun) found
          (queued.unqueued found waits) ?_
        change machine.status ≠ .halted
        rw [running]
        exact nofun
      refine ⟨?_, fun _ => ⟨{ p with
        mailbox := .ofList rest, saved := .empty, timeout := none, machine }, ?_, running⟩⟩
      · rw [recordSetAside_eq, dropTimeout_eq]
        exact (changed.redeliver pid _).of_queue_eq rfl fun _ => rfl
      · simp only [find?_record, find?_redeliver, find?_recordSetAside, find?_dropTimeout]
        exact find?_put_self found _
  | @failed p before message rest entry cause found waits divided rejected accepted faults =>
      exact ⟨queued.undisturbed (undisturbed_failed found _ _ _ _), nofun⟩

theorem Queued.wake (queued : Queued none s) (woken : s.wake pid = some after) :
    Queued none after := by
  rcases wake_cases woken with checked | ⟨middle, checked, rfl⟩
  · exact (queued.looks (checkMail_looks checked)).1
  · obtain ⟨looked, goesOn⟩ := queued.looks (checkMail_looks checked)
    obtain ⟨p, found, runs⟩ := goesOn rfl
    exact looked.enqueue found runs

theorem Queued.deliver {message : Value} (queued : Queued none s)
    (delivered : s.deliver pid message = some after) : Queued none after := by
  rcases deliver_cases delivered with ⟨_, rfl⟩ | ⟨p, found, woken⟩
  · exact queued
  · have changed : Queued none (s.put pid (p.deliver message)) := queued.put found rfl
    have current : Queued none ({ s with current := some pid }.put pid (p.deliver message)) :=
      changed.of_queue_eq rfl fun _ => rfl
    exact current.wake woken

theorem Queued.timeOut (queued : Queued none s) (pid : ProcessId) :
    Queued none (s.timeOut pid) := by
  have timed := timeOut_timesOut s pid
  generalize s.timeOut pid = after at timed ⊢
  cases timed with
  | kept unarmed => exact queued
  | @resumed p timeout machine found armed waits goesOn =>
      have running := Machine.status_of_resume goesOn
      have changed : Queued (some pid) (s.put pid { p with
          timeout := none, saved := .empty, machine }) := by
        refine queued.put_active (nofun) found
          (queued.unqueued found waits) ?_
        change machine.status ≠ .halted
        rw [running]
        exact nofun
      have again := (changed.redeliver pid p.saved.toList).enqueue (find?_put_self found _) running
      exact again.of_queue_eq rfl fun _ => rfl
  | @failed p timeout found armed awake =>
      have changed : Queued none (s.put pid { p with timeout := none, saved := .empty }) :=
        queued.put found rfl
      exact (changed.redeliver pid p.saved.toList).undisturbed (undisturbed_die _ _ _)

theorem Queued.expire {timer : Timer} (queued : Queued none s)
    (expired : s.expire timer = some after) : Queued none after := by
  rcases expire_cases expired with ⟨_, rfl⟩ | ⟨_, woke, middle, checked, rfl⟩
  · exact queued
  · have current : Queued none { s with current := some timer.pid } :=
      queued.of_queue_eq rfl fun _ => rfl
    obtain ⟨looked, goesOn⟩ := current.looks (checkMail_looks checked)
    cases woke with
    | true =>
        obtain ⟨p, found, runs⟩ := goesOn rfl
        exact looked.enqueue found runs
    | false => exact Queued.timeOut looked timer.pid

theorem Queued.endSlice (queued : Queued (some pid) s) (ended : s.endSlice pid = some after) :
    Queued none after := by
  rcases endSlice_cases ended with ⟨rfl, halted⟩ | ⟨p, found, ⟨runs, rfl⟩ | ⟨waits, woken⟩⟩
  · apply queued.release
    intro p found
    rw [halted p found]
    exact nofun
  · exact queued.enqueue found runs
  · have released : Queued none s := by
      apply queued.release
      intro q foundAgain
      rw [found] at foundAgain
      cases foundAgain
      rw [waits]
      exact nofun
    exact released.wake woken

/-- A task that is taken no longer counts. -/
theorem slicesQueued_taken {task : Task} {queue : Fifo Task}
    (taken : s.queue.toList = task :: queue.toList) (other : ProcessId) :
    s.slicesQueued other =
      { s with queue }.slicesQueued other + if task.isRunOf other = true then 1 else 0 := by
  unfold slicesQueued
  rw [taken, List.countP_cons]

end Mail

theorem Queued.move {phase phase' : Option ProcessId} {s after : Scheduler}
    (moved : Move phase s phase' after) (queued : Queued phase s) : Queued phase' after := by
  cases moved with
  | memory memory kept => exact queued.of_queue_eq rfl fun _ => rfl
  | spawn f => exact queued.spawn f
  | send receiver held => exact queued.undisturbed (undisturbed_send held receiver)
  | prune => exact queued.of_queue_eq rfl fun _ => rfl
  | fire due expired =>
      obtain ⟨heap, rfl, _⟩ := popDue?_eq due
      have rest : Queued none { s with heap } := queued.of_queue_eq rfl fun _ => rfl
      exact rest.expire expired
  | deliver popped delivered =>
      obtain ⟨queue, rfl, taken⟩ := popTask?_eq popped
      have rest : Queued none { s with queue } :=
        queued.of_queue_eq rfl fun other => (slicesQueued_taken taken other).symm
      exact rest.deliver delivered
  | @skip _ _ pid popped dead =>
      obtain ⟨queue, rfl, taken⟩ := popTask?_eq popped
      have gone : s.find? pid = none := (isLive_eq_false_iff _ _).1 dead
      have counted := slicesQueued_taken taken
      constructor
      · exact queued.awake
      · intro other p found
        have before := queued.count other p found
        have notPid : ¬Task.isRunOf other (.run pid) = true := by
          intro same
          rw [Task.isRunOf, beq_iff_eq] at same
          change s.find? other = some p at found
          rw [← same, gone] at found
          cases found
        rw [counted other, if_neg notPid, Nat.add_zero] at before
        exact before
      · intro other unused
        have before := queued.fresh other unused
        rw [counted other] at before
        exact Nat.eq_zero_of_add_eq_zero_right before
      · exact queued.old
  | @beginSlice _ _ pid popped live =>
      obtain ⟨queue, rfl, taken⟩ := popTask?_eq popped
      obtain ⟨p, found⟩ := (isLive_iff _ _).1 live
      change s.find? pid = some p at found
      have counted := slicesQueued_taken taken
      constructor
      · exact queued.awake
      · intro other q foundOther
        change { s with queue }.slicesQueued other = _
        change s.find? other = some q at foundOther
        have before := queued.count other q foundOther
        rw [counted other] at before
        by_cases same : pid = other
        · subst same
          rw [if_neg (fun both => both.2 rfl)]
          have isRun : Task.isRunOf pid (.run pid) = true := beq_self_eq_true pid
          rw [if_pos isRun] at before
          split at before
          · omega
          · omega
        · have notRun : ¬Task.isRunOf other (.run pid) = true := by
            intro isRun
            exact same (beq_iff_eq.1 isRun)
          have notPid : some pid ≠ some other := fun isPid => same (Option.some.inj isPid)
          rw [if_neg notRun, Nat.add_zero] at before
          rw [before]
          simp [notPid]
      · intro other unused
        have before := queued.fresh other unused
        rw [counted other] at before
        exact Nat.eq_zero_of_add_eq_zero_right before
      · intro other isActive
        cases isActive
        exact lt_nextPid found
  | endSlice ended => exact queued.endSlice ended

theorem Queued.effect {me : ProcessId} {overwritten : Option Ref} {s after : Scheduler}
    (effect : Effect me overwritten s after) (queued : Queued (some me) s) :
    Queued (some me) after := by
  cases effect.disturbance with
  | undisturbed undisturbed => exact queued.undisturbed undisturbed
  | spawned f => exact queued.spawn f
  | carriedOn found runs goesOn => exact queued.put found (goesOn.trans runs.symm)
  | @waited p machine receivers found runs waits =>
      have unqueued : s.slicesQueued me = 0 := by
        rw [queued.count me p found, if_neg (fun both => both.2 rfl)]
      refine queued.put_active (fun _ same => (Option.some.inj same).symm) found unqueued ?_
      change machine.status ≠ .halted
      rw [waits]
      exact nofun

end Scheduler

namespace Engine

open Scheduler

theorem queued_empty (memory : Memory) : Queued none { memory } := by
  constructor
  · exact fun pid p found => absurd found find?_empty_ne
  · exact fun pid p found => absurd found find?_empty_ne
  · exact fun pid _ => rfl
  · exact nofun

theorem Reachable.queued {phase : Option ProcessId} {engine : Engine}
    (reachable : Reachable AnyPair phase engine) : Queued phase engine.scheduler :=
  reachable.invariant Queued (queued_empty _) Queued.move (fun _ => Queued.effect)
    (fun _ _ => trivial)

/-- Between two turns, whatever guest code and the host do: every process runs or waits, a running
process has exactly one slice in the queue, and a waiting one has none. -/
theorem running_iff_queued {engine : Engine} (reachable : Reachable AnyPair none engine)
    (pid : ProcessId) {p : Process} (found : engine.find? pid = some p) :
    (p.status = .running ∨ p.status = .waiting) ∧
      (p.status = .running → engine.scheduler.slicesQueued pid = 1) ∧
      (p.status = .waiting → engine.scheduler.slicesQueued pid = 0) := by
  have queued := reachable.queued
  have awake := queued.awake pid p found
  have count := queued.count pid p found
  cases status : p.status with
  | running =>
      rw [status] at count
      refine ⟨.inl rfl, fun _ => ?_, nofun⟩
      rw [count]
      rfl
  | waiting =>
      rw [status] at count
      refine ⟨.inr rfl, nofun, fun _ => ?_⟩
      rw [count]
      rfl
  | halted => exact absurd status awake

theorem running_iff_queued_sleepers :
    ∃ engine p q, Reachable AnyPair none engine ∧
      engine.find? 1 = some p ∧ p.status = .waiting ∧ engine.scheduler.slicesQueued 1 = 0 ∧
      engine.find? 2 = some q ∧ q.status = .running ∧ engine.scheduler.slicesQueued 2 = 1 := by
  have created : Reachable AnyPair none (create {}) := .create {}
  have spawned := (created.move (.spawn sleeper)).move (.spawn sleeper)
  have begun := spawned.move (.beginSlice rfl rfl)
  have waits := begun.instruction (fun _ _ => trivial) rfl
  have ended := waits.move (.endSlice rfl)
  have first := running_iff_queued ended 1 rfl
  have second := running_iff_queued ended 2 rfl
  exact ⟨_, _, _, ended, rfl, rfl, first.2.2 rfl, rfl, rfl, second.2.1 rfl⟩

end Engine

end ActorMachine
