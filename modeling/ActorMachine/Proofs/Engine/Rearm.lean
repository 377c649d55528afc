import ActorMachine.Proofs.Engine.Loading
import ActorMachine.Proofs.Engine.Mailboxes
import ActorMachine.Proofs.Engine.RunQueue
import ActorMachine.Proofs.Engine.Timers

set_option autoImplicit false

/-!
What the host is told at the end of a burst.

A burst may end because its time or its number of tasks is spent, or because nothing is left to do.
In each case the answer says how things stand: with an empty queue nobody runs, so everyone waits,
and the earliest timer is the first on the list. A host that only starts processes and sends
messages through the calls that run a burst is never left with work that nobody told it about. Main
statement: `rearm_sound`.
-/

namespace ActorMachine

namespace Scheduler

variable {s : Scheduler}

/-- The deadline of the timeout for which a process waits. -/
def WaitsUntil (s : Scheduler) (pid : ProcessId) (deadline : Number) : Prop :=
  ∃ timer ∈ s.timers, timer.pid = pid ∧ s.timeoutId? pid = some timer.id ∧
    timer.deadline = deadline

/-- With an empty queue there is no slice for anybody, so nobody runs. -/
theorem Queued.waits (queued : Queued none s) (empty : s.queue.toList = []) {pid : ProcessId}
    {p : Process} (found : s.find? pid = some p) : p.status = .waiting := by
  have count := queued.count pid p found
  have noSlice : s.slicesQueued pid = 0 := by
    unfold slicesQueued
    rw [empty]
    rfl
  rw [noSlice] at count
  cases status : p.status with
  | running =>
      rw [status] at count
      cases count
  | waiting => rfl
  | halted => exact absurd status (queued.awake pid p found)

/-- Without timers nobody waits for one. -/
theorem TimersMatch.timeout_eq_none (matching : TimersMatch none s) (empty : s.timers = [])
    {pid : ProcessId} {p : Process} (found : s.find? pid = some p) : p.timeout = none := by
  cases armed : p.timeout with
  | none => rfl
  | some timeout =>
      have pending : s.timeoutId? pid = some timeout.id := by
        rw [timeoutId?_eq found, armed]
        rfl
      obtain ⟨timer, member, _⟩ := (matching.matched pid timeout.id nofun).1 pending
      rw [empty] at member
      cases member

theorem TimersMatch.waitsUntil (matching : TimersMatch none s) {timer : Timer}
    (member : timer ∈ s.timers) : s.WaitsUntil timer.pid timer.deadline := by
  have pending := (matching.matched timer.pid timer.id nofun).2 ⟨timer, member, rfl, rfl⟩
  exact ⟨timer, member, rfl, pending, rfl⟩

/-- The first timer has the least deadline. -/
theorem TimersMatch.nextDeadline_le (matching : TimersMatch none s) {deadline other : Number}
    (isNext : s.nextDeadline.1 = some deadline) {pid : ProcessId}
    (waits : s.WaitsUntil pid other) :
    deadline.rank ≤ other.rank := by
  obtain ⟨timer, member, _, _, rfl⟩ := waits
  have ordered := matching.ordered
  rw [nextDeadline_eq] at isNext
  match timers : s.timers with
  | [] =>
      rw [timers] at member
      cases member
  | first :: rest =>
      rw [timers] at member ordered isNext
      cases isNext
      rcases List.mem_cons.1 member with rfl | later
      · exact UInt64.le_refl _
      · exact Timer.rank_le_of_before ((List.pairwise_cons.1 ordered).1 timer later)

end Scheduler

namespace Engine

open Scheduler

/-- What the answer of a burst means for the engine that it leaves. -/
structure RearmSound (engine : Engine) : Prop where
  idle : engine.rearm = .idle →
    engine.scheduler.queue.toList = [] ∧ engine.scheduler.timers = [] ∧
      ∀ pid p, engine.find? pid = some p →
        p.status = .waiting ∧ p.timeout = none ∧ p.mailbox.toList = []
  alarm : ∀ deadline, engine.rearm = .alarm deadline →
    engine.scheduler.queue.toList = [] ∧
      (∀ pid p, engine.find? pid = some p → p.status = .waiting) ∧
      (∃ pid, engine.scheduler.WaitsUntil pid deadline) ∧
      ∀ pid p, engine.find? pid = some p → p.timeout.isSome = true →
        (∃ other, engine.scheduler.WaitsUntil pid other) ∧
          ∀ other, engine.scheduler.WaitsUntil pid other → deadline.rank ≤ other.rank
  yield : engine.rearm = .yield ↔ engine.scheduler.queue.toList ≠ []

theorem settle_sound {engine : Engine} (reachable : Reachable AnyPair none engine) :
    RearmSound engine.settle := by
  have matching := reachable.timersMatch.prune
  have everyoneWaits : engine.scheduler.queue.toList = [] → ∀ pid p,
      engine.find? pid = some p → p.status = .waiting :=
    fun empty _ _ found => reachable.queued.waits empty found
  rcases nextRearm_cases engine.scheduler with
    ⟨busy, isYield⟩ | ⟨empty, ⟨deadline, isNext, isAlarm⟩ | ⟨noTimer, isIdle⟩⟩
  · rw [settle_eq isYield]
    exact ⟨nofun, fun _ => nofun, fun _ => busy, fun _ => rfl⟩
  · rw [settle_eq isAlarm]
    refine ⟨nofun, ?_, nofun, fun busy => absurd empty busy⟩
    intro other isOther
    cases isOther
    have isNextPruned : engine.scheduler.prune.nextDeadline.1 = some deadline := by
      rw [nextDeadline_eq, timers_prune]
      rw [nextDeadline_eq] at isNext
      exact isNext
    rw [nextDeadline_eq] at isNext
    obtain ⟨timer, isHead, rfl⟩ := Option.map_eq_some_iff.1 isNext
    have member : timer ∈ engine.scheduler.prune.timers := by
      rw [timers_prune]
      exact List.mem_of_mem_head? isHead
    refine ⟨empty, everyoneWaits empty, ⟨timer.pid, matching.waitsUntil member⟩, ?_⟩
    intro pid p found armed
    refine ⟨?_, fun other waits => matching.nextDeadline_le isNextPruned waits⟩
    obtain ⟨timeout, isTimeout⟩ := Option.isSome_iff_exists.1 armed
    have pending : engine.scheduler.prune.timeoutId? pid = some timeout.id := by
      rw [timeoutId?_eq (s := engine.scheduler.prune) found, isTimeout]
      rfl
    obtain ⟨own, ownMember, rfl, _⟩ := (matching.matched pid timeout.id nofun).1 pending
    exact ⟨own.deadline, matching.waitsUntil ownMember⟩
  · rw [settle_eq isIdle]
    have noneLeft : engine.scheduler.prune.timers = [] := (timers_prune _).trans noTimer
    refine ⟨fun _ => ⟨empty, noneLeft, ?_⟩, fun _ => nofun, nofun, fun busy => absurd empty busy⟩
    intro pid p found
    have waits := everyoneWaits empty pid p found
    exact ⟨waits, matching.timeout_eq_none noneLeft found,
      reachable.mailRead.read pid p found waits nofun⟩

/-! ### Hosts that are called back -/

/-- The host will call again while there is work. -/
def CalledBack (engine : Engine) : Prop :=
  engine.scheduler.queue.toList ≠ [] → engine.rearm = .yield

/-- The engines of a host that starts processes and sends messages, with a burst where one is due.
Between the calls it may change all but the queue and the answer of the latest burst. -/
inductive Driven : Engine → Prop where
  | create (config : Config) : Driven (create config)
  | elsewhere {engine after} : Driven engine → after.scheduler.queue = engine.scheduler.queue →
      after.rearm = engine.rearm → Driven after
  | launch {engine fuel f pid after} : Driven engine →
      engine.launch fuel f = .ok (pid, after) → Driven after
  | boot {engine fuel payload outcome after} : Driven engine →
      engine.boot fuel payload = .ok (outcome, after) → Driven after
  | run {engine fuel after} : Driven engine → engine.run fuel = .ok after → Driven after
  | addMessage {engine fuel pid message ran after} : Driven engine →
      engine.addMessage fuel pid message = .ok (ran, after) → Driven after
  | postEvent {engine fuel pid event ran after} : Driven engine →
      engine.postEvent fuel pid event = .ok (ran, after) → Driven after
  | postResponse {engine fuel pid status body ran after} : Driven engine →
      engine.postResponse fuel pid status body = .ok (ran, after) → Driven after
  | requestEvaluation {engine fuel pid text request ran after} : Driven engine →
      engine.requestEvaluation fuel pid text = .ok (request, ran, after) → Driven after

section Calls

variable {engine after : Engine}

theorem calledBack_run {fuel : Nat} (ran : engine.run fuel = .ok after) : CalledBack after := by
  obtain ⟨_, _, last, _, rfl⟩ := run_settles ran
  intro busy
  rcases nextRearm_cases last.scheduler with ⟨_, isYield⟩ | ⟨empty, ⟨_, _, isAlarm⟩ | ⟨_, isIdle⟩⟩
  · rw [settle_eq isYield]
  · rw [settle_eq isAlarm] at busy
    exact absurd empty busy
  · rw [settle_eq isIdle] at busy
    exact absurd empty busy

theorem calledBack_launch {fuel : Nat} {f : Closure} {pid : ProcessId}
    (launched : engine.launch fuel f = .ok (pid, after)) : CalledBack after := by
  obtain ⟨last, ran, same⟩ := map_eq_ok launched
  cases same
  exact calledBack_run ran

/-- A message that starts no burst is sent while the host is to call again anyway. -/
theorem calledBack_addMessage {fuel : Nat} {pid : ProcessId} {message : Value} {ran : Bool}
    (added : engine.addMessage fuel pid message = .ok (ran, after)) : CalledBack after := by
  unfold Engine.addMessage at added
  dsimp only at added
  split at added
  · rename_i isYield
    cases added
    exact fun _ => isYield
  · obtain ⟨last, burst, same⟩ := map_eq_ok added
    cases same
    exact calledBack_run burst

/-- A payload that cannot be loaded leaves the work as it is. -/
theorem calledBack_boot {fuel : Nat} {payload : String} {outcome : Outcome ProcessId}
    (before : CalledBack engine) (booted : engine.boot fuel payload = .ok (outcome, after)) :
    CalledBack after := by
  have loaded := engine.prepares_loadPayload payload
  unfold Engine.boot at booted
  cases done : engine.loadPayload payload with
  | mk result middle =>
      rw [done] at loaded booted
      cases result with
      | error failure =>
          cases booted
          have elsewhere : after = _ := loaded.elsewhere
          intro busy
          rw [elsewhere] at busy ⊢
          exact before busy
      | ok template =>
          obtain ⟨launched, ran, same⟩ := map_eq_ok booted
          cases same
          exact calledBack_launch ran

theorem Driven.calledBack (driven : Driven engine) : CalledBack engine := by
  induction driven with
  | create config => exact fun busy => absurd rfl busy
  | elsewhere _ sameQueue sameRearm ih =>
      intro busy
      rw [sameQueue] at busy
      exact sameRearm.trans (ih busy)
  | launch _ launched => exact calledBack_launch launched
  | boot _ booted ih => exact calledBack_boot ih booted
  | run _ ran => exact calledBack_run ran
  | addMessage _ added => exact calledBack_addMessage added
  | postEvent _ posted => exact calledBack_addMessage posted
  | postResponse _ posted => exact calledBack_addMessage posted
  | requestEvaluation _ requested =>
      obtain ⟨result, added, same⟩ := map_eq_ok requested
      cases same
      exact calledBack_addMessage added

end Calls

/-- The answer of every burst is right: idle when everyone waits for messages alone, alarm with the
least deadline when everyone waits and someone for a timeout, and yield exactly when there is work.
A host that uses the calls that run a burst where one is due is to call again whenever there is
work. -/
theorem rearm_sound :
    (∀ engine fuel after, Reachable AnyPair none engine → engine.run fuel = .ok after →
      RearmSound after) ∧
    ∀ engine, Driven engine → engine.scheduler.queue.toList ≠ [] → engine.rearm = .yield := by
  refine ⟨?_, fun _ driven => driven.calledBack⟩
  intro engine fuel after reachable ran
  obtain ⟨limit, ended, last, turned, rfl⟩ := run_settles ran
  have started : Reachable AnyPair none { engine with rearm := .yield } := reachable.outside rfl
  exact settle_sound (kept_reachable.turns started turned)

/-- A function that waits until its timeout, which comes after the shortest possible time. -/
def dozer : Closure := ⟨0, ⟨.linked 0, #[.receive ⟨[], some ⟨⟨1⟩, ⟨.linked 1, #[]⟩⟩⟩]⟩, []⟩

/-- The host is told when the timeout of `dozer` comes; if its burst has no time for any task, the
host is to call again. -/
theorem rearm_sound_dozer :
    (∃ engine after, Reachable AnyPair none engine ∧ engine.run 1 = .ok after ∧
      after.rearm = .alarm (⟨0⟩ + ⟨1⟩) ∧ RearmSound after) ∧
    ∃ engine, Driven engine ∧ engine.scheduler.queue.toList ≠ [] ∧ engine.rearm = .yield := by
  refine ⟨?_, ?_⟩
  · have created : Reachable AnyPair none
        ((create ⟨1, ⟨1⟩, some 1⟩).mapHost fun host => host.setClock ⟨0⟩) :=
      (Reachable.create ⟨1, ⟨1⟩, some 1⟩).outside rfl
    have spawned := created.move (.spawn dozer)
    exact ⟨_, _, spawned, rfl, rfl, rearm_sound.1 _ 1 _ spawned rfl⟩
  · have created : Driven (create ⟨1, ⟨1⟩, some 0⟩) := .create _
    have launched := created.launch (show launch 0 dozer (create ⟨1, ⟨1⟩, some 0⟩) = .ok _ from rfl)
    exact ⟨_, launched, List.cons_ne_nil _ _, rearm_sound.2 _ launched (List.cons_ne_nil _ _)⟩

end Engine

end ActorMachine
