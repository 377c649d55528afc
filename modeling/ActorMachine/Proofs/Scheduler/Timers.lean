import ActorMachine.Proofs.Scheduler.Death
import ActorMachine.Proofs.Scheduler.Mail
import Mathlib.Data.List.Nodup

set_option autoImplicit false

/-!
Timers and the processes that wait for them.

A process that waits with a timeout has one timer that is not cancelled, and there are no other such
timers. The two share a flag. While a timer fires its process has none: it was taken out of the
heap, and the timeout is still to be dealt with. So the invariant `TimersMatch` has that process as
an exception, which the end of the wait removes.
-/

namespace ActorMachine

namespace Scheduler

open TimerHeap

/-- A new timer goes behind all that come earlier, and before all others. -/
theorem ordered_insertTimer {timer : Timer} {timers : List Timer}
    (ordered : timers.Pairwise fun a b => a.before b = true)
    (fresh : ∀ other ∈ timers, timer.id ≠ other.id) :
    (insertTimer timer timers).Pairwise fun a b => a.before b = true := by
  induction timers with
  | nil => exact List.pairwise_singleton _ _
  | cons first rest ih =>
      obtain ⟨firstBefore, restOrdered⟩ := List.pairwise_cons.1 ordered
      unfold insertTimer
      by_cases isBefore : first.before timer = true
      · rw [if_pos isBefore]
        refine List.pairwise_cons.2 ⟨?_, ih restOrdered ?_⟩
        · intro other member
          rcases mem_insertTimer.1 member with rfl | later
          · exact isBefore
          · exact firstBefore other later
        · exact fun other later => fresh other (List.mem_cons_of_mem _ later)
      · rw [if_neg isBefore]
        have comesFirst : timer.before first = true :=
          Timer.before_of_not_before (fresh first List.mem_cons_self).symm isBefore
        refine List.pairwise_cons.2 ⟨?_, ordered⟩
        intro other member
        rcases List.mem_cons.1 member with rfl | later
        · exact comesFirst
        · exact Timer.before_trans comesFirst (firstBefore other later)

/-! ### The invariant -/

/-- A timer and the process that waits for it have one flag: flags are made one for each timer. -/
structure FlagsMatch (s : Scheduler) : Prop where
  armed : s.heap.flags.size = s.armed
  timer : ∀ timer ∈ s.timers, timer.canceled.cell + 1 = timer.id
  pending : ∀ pid timeout, s.timeout? pid = some timeout → timeout.canceled.cell + 1 = timeout.id

/-- Processes with a timeout wait, and all but the one whose timer `fired` have a timer; every timer
is that of such a process. -/
structure TimersMatch (fired : Option ProcessId) (s : Scheduler) : Prop where
  waits : ∀ pid p, s.find? pid = some p → p.timeout.isSome = true → p.status = .waiting
  matched : ∀ pid id, fired ≠ some pid →
    (s.timeoutId? pid = some id ↔ ∃ timer ∈ s.timers, timer.pid = pid ∧ timer.id = id)
  spent : ∀ pid, fired = some pid → ∀ timer ∈ s.timers,
    timer.pid ≠ pid ∧ s.timeoutId? pid ≠ some timer.id
  numbered : ∀ timer ∈ s.timers, timer.id ≤ s.armed
  ordered : s.timers.Pairwise fun a b => a.before b = true
  distinct : (s.timers.map (·.id)).Nodup
  flags : FlagsMatch s

section Timeouts

variable {s after : Scheduler} {pid other : ProcessId} {p q : Process}

theorem timeout?_eq (found : s.find? pid = some p) : s.timeout? pid = p.timeout := by
  unfold timeout?
  rw [found]
  rfl

theorem timeoutId?_eq (found : s.find? pid = some p) :
    s.timeoutId? pid = p.timeout.map (·.id) := by
  rw [timeoutId?, timeout?_eq found]

theorem timeout?_of_missing (missing : s.find? pid = none) : s.timeout? pid = none := by
  unfold timeout?
  rw [missing]
  rfl

theorem timeout?_congr (same : after.find? pid = s.find? pid) :
    after.timeout? pid = s.timeout? pid := by
  unfold timeout?
  rw [same]

theorem timeoutId?_congr (same : after.timeout? pid = s.timeout? pid) :
    after.timeoutId? pid = s.timeoutId? pid := by
  unfold timeoutId?
  rw [same]

/-- The process that waits for a timer. -/
theorem timeoutId?_eq_some {id : Nat} (pending : s.timeoutId? pid = some id) :
    ∃ p timeout, s.find? pid = some p ∧ p.timeout = some timeout ∧ timeout.id = id := by
  obtain ⟨timeout, isTimeout, same⟩ := Option.map_eq_some_iff.1 pending
  obtain ⟨p, found, armed⟩ := Option.bind_eq_some_iff.1 isTimeout
  exact ⟨p, timeout, found, armed, same⟩

theorem timeout?_of_idle (idle : ∀ p, s.find? pid = some p → p.timeout = none) :
    s.timeout? pid = none := by
  cases found : s.find? pid with
  | none => exact timeout?_of_missing found
  | some p => rw [timeout?_eq found, idle p found]

theorem timeoutId?_of_idle (idle : ∀ p, s.find? pid = some p → p.timeout = none) :
    s.timeoutId? pid = none := by
  rw [timeoutId?, timeout?_of_idle idle, Option.map_none]

theorem timeoutId?_of_missing (missing : s.find? pid = none) : s.timeoutId? pid = none := by
  rw [timeoutId?, timeout?_of_missing missing, Option.map_none]

theorem timeout?_empty (memory : Memory) (pid : ProcessId) :
    ({ memory } : Scheduler).timeout? pid = none :=
  timeout?_of_idle fun _ found => absurd found find?_empty_ne

theorem timeout?_put_of_ne (found : s.find? pid = some p) (q : Process) (different : pid ≠ other) :
    (s.put pid q).timeout? other = s.timeout? other := by
  apply timeout?_congr
  rw [find?_put found, if_neg different]

/-- A process is replaced by one that waits for the same timer. -/
theorem timeout?_put (found : s.find? pid = some p) (same : q.timeout = p.timeout)
    (other : ProcessId) : (s.put pid q).timeout? other = s.timeout? other := by
  by_cases isPid : pid = other
  · subst isPid
    rw [timeout?_eq (find?_put_self found q), timeout?_eq found, same]
  · exact timeout?_put_of_ne found q isPid

/-- A new process waits for no timer. -/
theorem timeout?_spawn (s : Scheduler) (f : Closure) (other : ProcessId) :
    (s.spawn f).2.timeout? other = s.timeout? other := by
  unfold timeout?
  rw [find?_spawn]
  by_cases isNew : other = s.processes.nextPid
  · have unused : s.find? other = none := by
      cases found : s.find? other with
      | none => rfl
      | some p => exact absurd isNew (Nat.ne_of_lt (lt_nextPid found))
    rw [if_pos isNew, unused]
    rfl
  · rw [if_neg isNew]

end Timeouts

/-- A timer has the flag of a timeout when it has the number. -/
theorem FlagsMatch.flag_iff {s : Scheduler} (flags : FlagsMatch s) {pid : ProcessId} {p : Process}
    (found : s.find? pid = some p) {timer : Timer} (member : timer ∈ s.timers) :
    p.timeout.map (·.canceled) = some timer.canceled ↔ s.timeoutId? pid = some timer.id := by
  have isTimer := flags.timer timer member
  have isPending := flags.pending pid
  rw [timeout?_eq found] at isPending
  rw [timeoutId?_eq found, Option.map_eq_some_iff, Option.map_eq_some_iff]
  constructor
  · rintro ⟨timeout, isTimeout, same⟩
    refine ⟨timeout, isTimeout, ?_⟩
    rw [← isPending timeout isTimeout, ← isTimer, same]
  · rintro ⟨timeout, isTimeout, same⟩
    refine ⟨timeout, isTimeout, ?_⟩
    rw [← isPending timeout isTimeout, ← isTimer] at same
    exact congrArg Flag.mk (Nat.succ.inj same)

theorem mem_timers_dropTimeout {s : Scheduler} (flags : FlagsMatch s) {pid : ProcessId}
    {p : Process} (found : s.find? pid = some p) {timer : Timer} :
    timer ∈ (s.dropTimeout p.timeout).timers ↔
      timer ∈ s.timers ∧ s.timeoutId? pid ≠ some timer.id := by
  rw [timers_dropTimeout, List.mem_filter, decide_eq_true_eq]
  exact and_congr_right fun member => not_congr (flags.flag_iff found member)

theorem timers_dropTimeout_sublist (s : Scheduler) (timeout : Option PendingTimeout) :
    (s.dropTimeout timeout).timers.Sublist s.timers := by
  rw [timers_dropTimeout]
  exact List.filter_sublist

/-- A process waits for its timer no longer, or is gone, and the timer is cancelled. -/
structure Cancels (s : Scheduler) (pid : ProcessId) (after : Scheduler) : Prop where
  idle : ∀ p, after.find? pid = some p → p.timeout = none
  others : ∀ other, pid ≠ other → after.find? other = s.find? other
  timers : ∃ p, s.find? pid = some p ∧ after.timers = (s.dropTimeout p.timeout).timers
  armed_eq : after.armed = s.armed
  flags_eq : after.heap.flags.size = s.heap.flags.size

section Cancels

variable {s after last : Scheduler} {pid : ProcessId} {p q : Process}

theorem cancels_put (found : s.find? pid = some p) (idle : q.timeout = none) :
    Cancels s pid ((s.put pid q).dropTimeout p.timeout) where
  idle := by
    intro r foundAfter
    rw [find?_dropTimeout, find?_put_self found] at foundAfter
    cases foundAfter
    exact idle
  others := by
    intro other different
    rw [find?_dropTimeout, find?_put found, if_neg different]
  timers := ⟨p, found, rfl⟩
  armed_eq := rfl
  flags_eq := size_flags_dropTimeout s p.timeout

theorem cancels_beginDeath (found : s.find? pid = some p) (reason : Value) :
    Cancels s pid (s.beginDeath pid p reason).2 where
  idle := by
    intro q foundAfter
    rw [find?_beginDeath, if_pos rfl] at foundAfter
    cases foundAfter
  others := by
    intro other different
    rw [find?_beginDeath, if_neg different]
  timers := ⟨p, found, rfl⟩
  armed_eq := rfl
  flags_eq := size_flags_dropTimeout s p.timeout

theorem Cancels.elsewhere (cancels : Cancels s pid after)
    (sameProcesses : last.processes = after.processes) (sameHeap : last.heap = after.heap)
    (sameArmed : last.armed = after.armed) : Cancels s pid last where
  idle := by
    intro q found
    rw [find?, sameProcesses] at found
    exact cancels.idle q found
  others := by
    intro other different
    rw [find?, sameProcesses]
    exact cancels.others other different
  timers := by
    rw [show last.timers = after.timers from congrArg TimerHeap.live sameHeap]
    exact cancels.timers
  armed_eq := sameArmed.trans cancels.armed_eq
  flags_eq := by
    rw [sameHeap]
    exact cancels.flags_eq

theorem cancels_setAside (found : s.find? pid = some p) (idle : q.timeout = none)
    (setAside : List Value) :
    Cancels s pid (((s.put pid q).dropTimeout p.timeout).recordSetAside pid setAside) := by
  rw [recordSetAside_eq]
  exact (cancels_put found idle).elsewhere rfl rfl rfl

theorem Cancels.timeoutId?_eq_none (cancels : Cancels s pid after) :
    after.timeoutId? pid = none := timeoutId?_of_idle cancels.idle

theorem Cancels.timers_sublist (cancels : Cancels s pid after) :
    after.timers.Sublist s.timers := by
  obtain ⟨p, _, dropped⟩ := cancels.timers
  rw [dropped]
  exact timers_dropTimeout_sublist s p.timeout

theorem Cancels.mem_timers (cancels : Cancels s pid after) (flags : FlagsMatch s) (timer : Timer) :
    timer ∈ after.timers ↔ timer ∈ s.timers ∧ s.timeoutId? pid ≠ some timer.id := by
  obtain ⟨p, found, dropped⟩ := cancels.timers
  rw [dropped]
  exact mem_timers_dropTimeout flags found

theorem Cancels.flagsMatch (cancels : Cancels s pid after) (flags : FlagsMatch s) :
    FlagsMatch after where
  armed := by
    rw [cancels.flags_eq, cancels.armed_eq]
    exact flags.armed
  timer := fun timer member => flags.timer timer (cancels.timers_sublist.subset member)
  pending := by
    intro other timeout pending
    by_cases same : pid = other
    · subst same
      rw [timeout?_of_idle cancels.idle] at pending
      cases pending
    · rw [timeout?_congr (cancels.others other same)] at pending
      exact flags.pending other timeout pending

end Cancels

/-- Arming a timer first cancels the one that the process waits for. -/
theorem addTimeout_of_idle {s : Scheduler} {pid : ProcessId} {p : Process}
    (found : s.find? pid = some p) (deadline : Number) (entry : Template) :
    s.addTimeout pid deadline entry =
      ((s.put pid { p with timeout := none }).dropTimeout p.timeout).addTimeout pid deadline
        entry := by
  have foundIdle : ((s.put pid { p with timeout := none }).dropTimeout p.timeout).find? pid =
      some { p with timeout := none } := by
    rw [find?_dropTimeout, find?_put_self found]
  rw [addTimeout_of_found found, addTimeout_of_found foundIdle, size_flags_dropTimeout]
  simp [dropTimeout_eq, put, ProcessTable.put]

theorem timers_addTimeout {s : Scheduler} {pid : ProcessId} {p : Process}
    (found : s.find? pid = some p) (idle : p.timeout = none) (deadline : Number)
    (entry : Template) :
    (s.addTimeout pid deadline entry).timers =
      insertTimer ⟨deadline, s.armed + 1, pid, ⟨s.heap.flags.size⟩⟩ s.timers := by
  rw [addTimeout_of_found found, idle]
  exact s.heap.live_push deadline (s.armed + 1) pid

/-- A process that waits for no timer gets one, and the two share a new flag. -/
theorem FlagsMatch.arm {s : Scheduler} (flags : FlagsMatch s) {pid : ProcessId} {p : Process}
    (found : s.find? pid = some p) (idle : p.timeout = none) (deadline : Number)
    (entry : Template) : FlagsMatch (s.addTimeout pid deadline entry) where
  armed := by
    rw [addTimeout_of_found found, idle]
    change (s.heap.flags.push false).size = s.armed + 1
    rw [Array.size_push, flags.armed]
  timer := by
    intro timer member
    rw [timers_addTimeout found idle] at member
    rcases mem_insertTimer.1 member with rfl | older
    · exact congrArg (· + 1) flags.armed
    · exact flags.timer timer older
  pending := by
    intro other timeout pending
    let waiting : Process :=
      { p with timeout := some ⟨s.armed + 1, entry, ⟨s.heap.flags.size⟩⟩ }
    rw [addTimeout_of_found found] at pending
    change (s.put pid waiting).timeout? other = some timeout at pending
    by_cases same : pid = other
    · subst same
      rw [timeout?_eq (find?_put_self found waiting)] at pending
      cases pending
      exact congrArg (· + 1) flags.armed
    · rw [timeout?_put_of_ne found waiting same] at pending
      exact flags.pending other timeout pending

section TimersMatch

variable {fired : Option ProcessId} {s after : Scheduler} {pid : ProcessId} {p q : Process}

theorem flagsMatch_empty (memory : Memory) : FlagsMatch { memory } where
  armed := rfl
  timer := nofun
  pending := by
    intro pid timeout pending
    rw [timeout?_empty] at pending
    cases pending

theorem timersMatch_empty (memory : Memory) : TimersMatch none { memory } where
  waits := fun pid p found => absurd found find?_empty_ne
  matched := by
    intro pid id _
    rw [timeoutId?, timeout?_empty]
    exact ⟨nofun, nofun⟩
  spent := nofun
  numbered := nofun
  ordered := .nil
  distinct := List.nodup_nil
  flags := flagsMatch_empty memory

theorem FlagsMatch.of_same (flags : FlagsMatch s) (sameTimers : after.timers = s.timers)
    (sameArmed : after.armed = s.armed) (sameSize : after.heap.flags.size = s.heap.flags.size)
    (sameTimeouts : ∀ other, after.timeout? other = s.timeout? other) : FlagsMatch after where
  armed := by
    rw [sameSize, sameArmed]
    exact flags.armed
  timer := by
    rw [sameTimers]
    exact flags.timer
  pending := by
    intro other timeout pending
    rw [sameTimeouts] at pending
    exact flags.pending other timeout pending

theorem TimersMatch.of_same (matching : TimersMatch fired s) (sameTimers : after.timers = s.timers)
    (sameArmed : after.armed = s.armed) (sameSize : after.heap.flags.size = s.heap.flags.size)
    (sameTimeouts : ∀ other, after.timeout? other = s.timeout? other)
    (waits : ∀ other q, after.find? other = some q → q.timeout.isSome = true →
      q.status = .waiting) : TimersMatch fired after where
  waits := waits
  matched := by
    rw [sameTimers]
    intro other id notFired
    rw [timeoutId?_congr (sameTimeouts other)]
    exact matching.matched other id notFired
  spent := by
    rw [sameTimers]
    intro other isFired
    rw [timeoutId?_congr (sameTimeouts other)]
    exact matching.spent other isFired
  numbered := by
    rw [sameTimers, sameArmed]
    exact matching.numbered
  ordered := by
    rw [sameTimers]
    exact matching.ordered
  distinct := by
    rw [sameTimers]
    exact matching.distinct
  flags := matching.flags.of_same sameTimers sameArmed sameSize sameTimeouts

/-- A change outside the processes and the heap. -/
theorem TimersMatch.elsewhere (matching : TimersMatch fired s)
    (sameProcesses : after.processes = s.processes) (sameHeap : after.heap = s.heap)
    (sameArmed : after.armed = s.armed) : TimersMatch fired after := by
  have sameFind : ∀ other, after.find? other = s.find? other := by
    intro other
    simp only [find?, sameProcesses]
  refine matching.of_same (congrArg TimerHeap.live sameHeap) sameArmed
    (congrArg (·.flags.size) sameHeap) (fun other => timeout?_congr (sameFind other)) ?_
  intro other q found
  rw [sameFind] at found
  exact matching.waits other q found

/-- Cancelled timers are thrown away. -/
theorem TimersMatch.prune (matching : TimersMatch fired s) : TimersMatch fired s.prune :=
  matching.of_same (timers_prune s) rfl (congrArg Array.size s.heap.flags_prune) (fun _ => rfl)
    matching.waits

/-- A process is replaced by one that waits for the same timer. -/
theorem TimersMatch.put (matching : TimersMatch fired s) (found : s.find? pid = some p)
    (same : q.timeout = p.timeout) (waits : q.timeout.isSome = true → q.status = .waiting) :
    TimersMatch fired (s.put pid q) := by
  refine matching.of_same rfl rfl rfl (timeout?_put found same) ?_
  intro other r foundAfter
  rcases find?_put_cases found foundAfter with ⟨_, rfl⟩ | ⟨_, foundBefore⟩
  · exact waits
  · exact matching.waits other r foundBefore

theorem TimersMatch.update (matching : TimersMatch fired s) (pid : ProcessId)
    {f : Process → Process} (sameTimeout : ∀ p, (f p).timeout = p.timeout)
    (sameStatus : ∀ p, (f p).status = p.status) : TimersMatch fired (s.update pid f) := by
  unfold Scheduler.update
  cases found : s.find? pid with
  | none => exact matching
  | some p =>
      refine matching.put found (sameTimeout p) ?_
      rw [sameTimeout, sameStatus]
      exact matching.waits pid p found

theorem TimersMatch.spawn (matching : TimersMatch fired s) (f : Closure) :
    TimersMatch fired (s.spawn f).2 := by
  refine matching.of_same rfl rfl rfl (timeout?_spawn s f) ?_
  intro other q found
  rcases find?_spawn_cases found with ⟨_, rfl⟩ | ⟨_, foundBefore⟩
  · exact nofun
  · exact matching.waits other q foundBefore

/-! ### The end of a wait -/

/-- A process whose timer fired and that waits for none is like any other. -/
theorem TimersMatch.release (matching : TimersMatch (some pid) s)
    (idle : s.timeoutId? pid = none) : TimersMatch none s where
  waits := matching.waits
  matched := by
    intro other id _
    by_cases same : pid = other
    · subst same
      rw [idle]
      refine ⟨nofun, ?_⟩
      rintro ⟨timer, member, isPid, _⟩
      exact absurd isPid (matching.spent pid rfl timer member).1
    · exact matching.matched other id (fun isPid => same (Option.some.inj isPid))
  spent := nofun
  numbered := matching.numbered
  ordered := matching.ordered
  distinct := matching.distinct
  flags := matching.flags

/-- A process that waits for no timer may be made the exception. -/
theorem TimersMatch.except (matching : TimersMatch none s) (idle : s.timeoutId? pid = none) :
    TimersMatch (some pid) s where
  waits := matching.waits
  matched := fun other id _ => matching.matched other id nofun
  spent := by
    intro other isPid timer member
    cases isPid
    refine ⟨?_, by rw [idle]; exact nofun⟩
    intro same
    have pending := (matching.matched pid timer.id nofun).2 ⟨timer, member, same, rfl⟩
    rw [idle] at pending
    cases pending
  numbered := matching.numbered
  ordered := matching.ordered
  distinct := matching.distinct
  flags := matching.flags

theorem TimersMatch.eq_of_id_eq (matching : TimersMatch fired s) {a b : Timer}
    (aMember : a ∈ s.timers) (bMember : b ∈ s.timers) (same : a.id = b.id) : a = b :=
  List.inj_on_of_nodup_map matching.distinct aMember bMember same

/-- A timer with the number of a pending timeout is that of the process with the timeout. -/
theorem TimersMatch.pid_of_id (matching : TimersMatch fired s) {id : Nat}
    (pending : s.timeoutId? pid = some id) {timer : Timer} (member : timer ∈ s.timers)
    (same : timer.id = id) : timer.pid = pid := by
  by_cases isFired : fired = some pid
  · have other := (matching.spent pid isFired timer member).2
    rw [same] at other
    exact absurd pending other
  · obtain ⟨own, ownMember, ownPid, ownId⟩ := (matching.matched pid id isFired).1 pending
    have equal := matching.eq_of_id_eq ownMember member (ownId.trans same.symm)
    rw [← equal]
    exact ownPid

/-- The timer of a process is cancelled when the process no longer waits for it, or is gone. -/
theorem TimersMatch.clear (matching : TimersMatch fired s)
    (only : ∀ other, fired = some other → other = pid) (cancels : Cancels s pid after) :
    TimersMatch none after := by
  have fewer := cancels.timers_sublist
  have idleId := cancels.timeoutId?_eq_none
  have kept := cancels.mem_timers matching.flags
  constructor
  · intro other q foundAfter
    by_cases same : pid = other
    · subst same
      rw [cancels.idle q foundAfter]
      exact nofun
    · rw [cancels.others other same] at foundAfter
      exact matching.waits other q foundAfter
  · intro other id _
    by_cases same : pid = other
    · -- Its own timer is the one that was dropped, if it had not fired already.
      subst same
      rw [idleId]
      refine ⟨nofun, ?_⟩
      rintro ⟨timer, member, isPid, _⟩
      obtain ⟨memberBefore, notOwn⟩ := (kept timer).1 member
      by_cases isFired : fired = some pid
      · exact absurd isPid (matching.spent pid isFired timer memberBefore).1
      · exact absurd ((matching.matched pid timer.id isFired).2
          ⟨timer, memberBefore, isPid, rfl⟩) notOwn
    · have notFired : fired ≠ some other := fun isFired => same (only other isFired).symm
      rw [timeoutId?_congr (timeout?_congr (cancels.others other same)),
        matching.matched other id notFired]
      constructor
      · rintro ⟨timer, member, isOther, isId⟩
        refine ⟨timer, (kept timer).2 ⟨member, ?_⟩, isOther, isId⟩
        intro pending
        exact same ((matching.pid_of_id pending member rfl).symm.trans isOther)
      · rintro ⟨timer, member, rest⟩
        exact ⟨timer, ((kept timer).1 member).1, rest⟩
  · exact nofun
  · intro timer member
    rw [cancels.armed_eq]
    exact matching.numbered timer (fewer.subset member)
  · exact matching.ordered.sublist fewer
  · exact matching.distinct.sublist (fewer.map _)
  · exact cancels.flagsMatch matching.flags

/-- A process that waits for no timer gets one with a new number. -/
theorem TimersMatch.arm (matching : TimersMatch none s) (found : s.find? pid = some p)
    (idle : p.timeout = none) (waits : p.status = .waiting) (deadline : Number) (entry : Template) :
    TimersMatch none (s.addTimeout pid deadline entry) := by
  let armed : Process :=
    { p with timeout := some ⟨s.armed + 1, entry, ⟨s.heap.flags.size⟩⟩ }
  have fresh : ∀ other ∈ s.timers, s.armed + 1 ≠ other.id := by
    intro other member
    have old := matching.numbered other member
    omega
  have isTimers := timers_addTimeout found idle deadline entry
  have isArmed : (s.addTimeout pid deadline entry).armed = s.armed + 1 := by
    rw [addTimeout_of_found found]
  have foundAfter : ∀ other, (s.addTimeout pid deadline entry).find? other =
      (s.put pid armed).find? other := by
    intro other
    rw [addTimeout_of_found found]
    rfl
  refine ⟨?_, ?_, nofun, ?_, ?_, ?_, matching.flags.arm found idle deadline entry⟩
  · intro other q foundOther
    rw [foundAfter] at foundOther
    rcases find?_put_cases found foundOther with ⟨_, rfl⟩ | ⟨_, foundBefore⟩
    · exact fun _ => waits
    · exact matching.waits other q foundBefore
  · intro other id _
    rw [timeoutId?_congr (timeout?_congr (foundAfter other)), isTimers]
    by_cases same : pid = other
    · subst same
      rw [timeoutId?_eq (find?_put_self found armed)]
      constructor
      · intro pending
        cases pending
        exact ⟨_, mem_insertTimer.2 (.inl rfl), rfl, rfl⟩
      · rintro ⟨timer, member, isPid, isId⟩
        rcases mem_insertTimer.1 member with isNew | isOld
        · rw [← isId, isNew]
          rfl
        · have pending := (matching.matched pid timer.id nofun).2 ⟨timer, isOld, isPid, rfl⟩
          rw [timeoutId?_eq found, idle] at pending
          cases pending
    · rw [timeoutId?_congr (timeout?_put_of_ne found armed same), matching.matched other id nofun]
      constructor
      · rintro ⟨timer, member, rest⟩
        exact ⟨timer, mem_insertTimer.2 (.inr member), rest⟩
      · rintro ⟨timer, member, isOther, isId⟩
        rcases mem_insertTimer.1 member with isNew | isOld
        · rw [isNew] at isOther
          exact absurd isOther same
        · exact ⟨timer, isOld, isOther, isId⟩
  · rw [isTimers, isArmed]
    intro timer member
    rcases mem_insertTimer.1 member with isNew | isOld
    · exact Nat.le_of_eq (congrArg Timer.id isNew)
    · exact Nat.le_succ_of_le (matching.numbered timer isOld)
  · rw [isTimers]
    exact ordered_insertTimer matching.ordered fresh
  · rw [isTimers]
    refine ((insertTimer_perm _ _).map _).nodup_iff.2 (List.nodup_cons.2 ⟨?_, matching.distinct⟩)
    intro listed
    obtain ⟨other, member, same⟩ := List.mem_map.1 listed
    exact fresh other member same.symm

theorem TimersMatch.addTimeout (matching : TimersMatch none s) (found : s.find? pid = some p)
    (waits : p.status = .waiting) (deadline : Number) (entry : Template) :
    TimersMatch none (s.addTimeout pid deadline entry) := by
  let idle := (s.put pid { p with timeout := none }).dropTimeout p.timeout
  have idleFound : idle.find? pid = some { p with timeout := none } := by
    rw [find?_dropTimeout, find?_put_self found]
  have cleared : TimersMatch none idle := matching.clear nofun (cancels_put found rfl)
  rw [addTimeout_of_idle found]
  exact cleared.arm idleFound rfl waits deadline entry

/-! ### Ends of processes -/

theorem TimersMatch.beginDeath (matching : TimersMatch none s) (found : s.find? pid = some p)
    (reason : Value) : TimersMatch none (s.beginDeath pid p reason).2 :=
  matching.clear nofun (cancels_beginDeath found reason)

/-- One followed link. -/
theorem TimersMatch.next {walk next : Walk} (followed : walk.Next next)
    (matching : TimersMatch none walk.scheduler) : TimersMatch none next.scheduler := by
  cases followed with
  | finished ended => exact matching
  | gone followed missing => exact matching
  | @told s dying _ _ _ peer _ p told followed found traps notice =>
      subst notice
      have unlinked : TimersMatch none (s.put peer (p.removeLink dying.pid)) :=
        matching.put found rfl (matching.waits peer p found)
      exact unlinked.elsewhere rfl rfl rfl
  | @spared s _ _ _ _ peer _ p followed found exposed normal =>
      exact matching.put found rfl (matching.waits peer p found)
  | dragged followed found exposed abnormal => exact matching.beginDeath found _

theorem TimersMatch.die (matching : TimersMatch none s) (pid : ProcessId) (reason : Value) :
    TimersMatch none (s.die pid reason) :=
  die_keeps (TimersMatch none) (fun followed matching => matching.next followed) matching
    fun _ found => matching.beginDeath found reason

/-! ### Mail and timeouts -/

/-- A look at the mail ends the wait of a process that goes on. -/
theorem TimersMatch.looks {woke : Bool} (matching : TimersMatch fired s)
    (only : ∀ other, fired = some other → other = pid) (looked : Looks s pid woke after) :
    TimersMatch (if woke = true then none else fired) after := by
  cases looked with
  | absent missing => exact matching
  | busy found awake => exact matching
  | @nothing p found waits rejected =>
      have changed : TimersMatch fired (s.put pid { p with
          mailbox := .empty, saved := p.saved.pushAll p.mailbox.toList }) :=
        matching.put found rfl fun _ => waits
      rw [recordSetAside_eq]
      exact changed.elsewhere rfl rfl rfl
  | @resumed p before message rest entry machine found waits divided rejected accepted goesOn =>
      have taken : Cancels s pid (((s.put pid { p with
          mailbox := .ofList rest
          saved := .empty
          timeout := none
          machine }).dropTimeout p.timeout).recordSetAside pid before) :=
        cancels_setAside found rfl before
      exact matching.clear only (taken.elsewhere rfl rfl rfl)
  | @failed p before message rest entry cause found waits divided rejected accepted faults =>
      let idle := (((s.put pid { p with
        mailbox := .ofList rest
        saved := .empty
        timeout := none }).dropTimeout p.timeout).recordSetAside pid before)
      have cleared : TimersMatch none idle :=
        matching.clear only (cancels_setAside found rfl before)
      have ended := cleared.die pid (.string cause.reasonText)
      cases fired with
      | none => exact ended
      | some other =>
          cases only other rfl
          exact ended.except (timeoutId?_of_missing (find?_die_self _ _ _))

theorem TimersMatch.wake (matching : TimersMatch none s) (woken : s.wake pid = some after) :
    TimersMatch none after := by
  rcases wake_cases woken with checked | ⟨middle, checked, rfl⟩
  · exact matching.looks nofun (checkMail_looks checked)
  · exact (matching.looks nofun (checkMail_looks checked)).elsewhere rfl rfl rfl

theorem TimersMatch.deliver {message : Value} (matching : TimersMatch none s)
    (delivered : s.deliver pid message = some after) : TimersMatch none after := by
  rcases deliver_cases delivered with ⟨_, rfl⟩ | ⟨p, found, woken⟩
  · exact matching
  · have changed : TimersMatch none (s.put pid (p.deliver message)) :=
      matching.put found rfl (matching.waits pid p found)
    have current : TimersMatch none ({ s with current := some pid }.put pid (p.deliver message)) :=
      changed.elsewhere rfl rfl rfl
    exact current.wake woken

/-- The process whose timer fired goes on. -/
theorem TimersMatch.timeOut (matching : TimersMatch (some pid) s) :
    TimersMatch none (s.timeOut pid) := by
  have timed := timeOut_timesOut s pid
  generalize s.timeOut pid = after at timed ⊢
  cases timed with
  | kept unarmed => exact matching.release (timeoutId?_of_idle unarmed)
  | @resumed p timeout machine found armed waits goesOn =>
      have noTimer : (s.dropTimeout p.timeout).timers = s.timers := by
        rw [timers_dropTimeout]
        refine List.filter_eq_self.2 fun timer member => decide_eq_true ?_
        have notOwn := (matching.spent pid rfl timer member).2
        exact fun isOwn => notOwn ((matching.flags.flag_iff found member).1 isOwn)
      refine matching.clear (fun _ same => (Option.some.inj same).symm)
        ⟨?_, ?_, ⟨p, found, noTimer.symm⟩, rfl, rfl⟩
      · intro q foundAfter
        simp only [find?_record, find?_enqueue, find?_redeliver, find?_put_self found] at foundAfter
        cases foundAfter
        rfl
      · intro other different
        simp only [find?_record, find?_enqueue, find?_redeliver, find?_put found, if_neg different]
  | @failed p timeout found armed awake =>
      exact absurd (matching.waits pid p found (by rw [armed]; rfl)) awake

/-- A timer that is taken out of the heap leaves its process without one. -/
theorem TimersMatch.taken {timer : Timer} {heap : TimerHeap} (matching : TimersMatch none s)
    (first : s.timers = timer :: heap.live) (sameFlags : heap.flags = s.heap.flags) :
    TimersMatch (some timer.pid) { s with heap } := by
  have distinct := matching.distinct
  have ordered := matching.ordered
  rw [first, List.map_cons, List.nodup_cons] at distinct
  rw [first, List.pairwise_cons] at ordered
  have later : ∀ other, other ∈ heap.live → other ∈ s.timers := by
    intro other member
    rw [first]
    exact List.mem_cons_of_mem _ member
  have pending : s.timeoutId? timer.pid = some timer.id := by
    refine (matching.matched timer.pid timer.id nofun).2 ⟨timer, ?_, rfl, rfl⟩
    rw [first]
    exact List.mem_cons_self
  refine ⟨matching.waits, ?_, ?_, fun other member => matching.numbered other (later other member),
    ordered.2, distinct.2, ?_⟩
  · intro other id notFired
    refine (matching.matched other id nofun).trans ?_
    constructor
    · rintro ⟨own, member, isOther, isId⟩
      rw [first, List.mem_cons] at member
      rcases member with rfl | member
      · exact absurd (congrArg some isOther) notFired
      · exact ⟨own, member, isOther, isId⟩
    · rintro ⟨own, member, rest⟩
      exact ⟨own, later own member, rest⟩
  · intro other isFired own member
    cases isFired
    have different : own.id ≠ timer.id := by
      intro same
      exact distinct.1 (List.mem_map.2 ⟨own, member, same⟩)
    have notPending : s.timeoutId? timer.pid ≠ some own.id := by
      rw [pending]
      exact fun same => different (Option.some.inj same).symm
    refine ⟨?_, notPending⟩
    intro samePid
    exact notPending ((matching.matched timer.pid own.id nofun).2
      ⟨own, later own member, samePid, rfl⟩)
  · exact ⟨(congrArg Array.size sameFlags).trans matching.flags.armed,
      fun other member => matching.flags.timer other (later other member), matching.flags.pending⟩

/-- A process waits for every timer that is not cancelled. -/
theorem TimersMatch.awaits (matching : TimersMatch none s) {timer : Timer}
    (member : timer ∈ s.timers) : s.awaits timer = true := by
  have pending := (matching.matched timer.pid timer.id nofun).2 ⟨timer, member, rfl, rfl⟩
  obtain ⟨p, timeout, found, armed, isId⟩ := timeoutId?_eq_some pending
  have waits := matching.waits timer.pid p found (by rw [armed]; rfl)
  unfold Scheduler.awaits
  rw [found]
  simp [waits, armed, isId]

theorem TimersMatch.fire {timer : Timer} {heap : TimerHeap} (matching : TimersMatch none s)
    (first : s.timers = timer :: heap.live) (sameFlags : heap.flags = s.heap.flags)
    (expired : { s with heap }.expire timer = some after) : TimersMatch none after := by
  have member : timer ∈ s.timers := by
    rw [first]
    exact List.mem_cons_self
  rcases expire_cases expired with ⟨unawaited, _⟩ | ⟨_, woke, middle, checked, rfl⟩
  · have awaited : { s with heap }.awaits timer = true := matching.awaits member
    rw [unawaited] at awaited
    cases awaited
  · have current : TimersMatch (some timer.pid)
        { s with heap, current := some timer.pid } :=
      (matching.taken first sameFlags).elsewhere rfl rfl rfl
    have looked := current.looks (fun _ same => (Option.some.inj same).symm)
      (checkMail_looks checked)
    cases woke with
    | true => exact looked.elsewhere rfl rfl rfl
    | false => exact TimersMatch.timeOut looked

theorem TimersMatch.endSlice (matching : TimersMatch none s) (ended : s.endSlice pid = some after) :
    TimersMatch none after := by
  rcases endSlice_cases ended with ⟨rfl, _⟩ | ⟨p, _, ⟨_, rfl⟩ | ⟨_, woken⟩⟩
  · exact matching
  · exact matching.elsewhere rfl rfl rfl
  · exact matching.wake woken

end TimersMatch

end Scheduler

end ActorMachine
