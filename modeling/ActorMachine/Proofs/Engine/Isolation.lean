import ActorMachine.Proofs.Engine.Rearm
import ActorMachine.Proofs.Engine.Timeouts
import ActorMachine.Proofs.Scheduler.Isolation

set_option autoImplicit false

/-!
A turn acts on one process.

A turn fires the timer of a process, delivers it a message or runs a slice of it. Whatever that
process does meanwhile, all others are where they were, but for links to processes that ended or
were linked to them. Main statement: `process_isolation`.
-/

namespace ActorMachine

/-- The process that a task is about. -/
def Task.pid : Task → ProcessId
  | .run pid => pid
  | .deliver pid _ => pid

namespace Scheduler

theorem Effect.confined {me : ProcessId} {overwritten : Option Ref} {s after : Scheduler}
    (effect : Effect me overwritten s after) : ∃ events, Confined me s after events := by
  cases effect with
  | memory memory kept => exact ⟨[], confined_of_eq rfl rfl rfl⟩
  | overwrite isThat v => exact ⟨[], confined_of_eq rfl rfl rfl⟩
  | spawn f => exact ⟨_, confined_spawn s f⟩
  | link a b => exact ⟨[], confined_link s a b⟩
  | unlink peer => exact ⟨[], confined_unlink s me peer⟩
  | trapExits => exact ⟨[], confined_update s fun _ other => absurd rfl other⟩
  | send onlyThat receiver held => exact ⟨_, confined_send s receiver _⟩
  | die onlyThat pid reason => exact confined_die me s pid reason
  | carryOn found runs goesOn => exact ⟨[], confined_own found _⟩
  | wait receivers found runs waits => exact ⟨[], confined_own found _⟩
  | addTimeout deadline entry found waits => exact ⟨[], confined_addTimeout s me deadline entry⟩
  | halt onlyThat machine reason found runs => exact (confined_own found _).die me reason

end Scheduler

namespace Engine

open Scheduler

theorem slice_confined {pid : ProcessId} {quota : Nat} {engine after : Engine}
    (sliced : slice pid quota engine = some after) :
    ∃ events, Confined pid engine.scheduler after.scheduler events := by
  have along : ∀ {s}, Relation.ReflTransGen
      (fun s next => ∃ overwritten, Effect pid overwritten s next) engine.scheduler s →
      ∃ events, Confined pid engine.scheduler s events := by
    intro s effects
    induction effects with
    | refl => exact ⟨[], confined_of_eq rfl rfl rfl⟩
    | tail _ last ih =>
        obtain ⟨earlier, confined⟩ := ih
        obtain ⟨_, effect⟩ := last
        obtain ⟨events, further⟩ := effect.confined
        exact ⟨_, confined.trans further⟩
  exact along (slice_effects sliced)

/-- The process on which the next turn acts: that of the timer that is due, or else that of the next
task. -/
def actor? (engine : Engine) : Option ProcessId :=
  match (engine.scheduler.popDue? engine.host.clock).1 with
  | some timer => some timer.pid
  | none => engine.scheduler.queue.toList.head?.map Task.pid

/-- The tasks that are left when the next turn has taken one, unless a timer is due. -/
def tasksLeft (engine : Engine) : List Task :=
  match (engine.scheduler.popDue? engine.host.clock).1 with
  | some _ => engine.scheduler.queue.toList
  | none => engine.scheduler.queue.toList.tail

theorem actor?_of_due {engine : Engine} {timer : Timer} {rest : Scheduler}
    (due : engine.scheduler.popDue? engine.host.clock = (some timer, rest)) :
    engine.actor? = some timer.pid ∧ engine.tasksLeft = engine.scheduler.queue.toList := by
  unfold actor? tasksLeft
  rw [due]
  exact ⟨rfl, rfl⟩

theorem actor?_of_task {engine : Engine} {task : Task} {rest : Scheduler}
    (notDue : (engine.scheduler.popDue? engine.host.clock).1 = none)
    (popped : engine.scheduler.prune.popTask? = some (task, rest)) :
    engine.actor? = some task.pid ∧ engine.tasksLeft = rest.queue.toList := by
  obtain ⟨queue, rfl, taken⟩ := popTask?_eq popped
  change engine.scheduler.queue.toList = _ at taken
  unfold actor? tasksLeft
  rw [notDue, taken]
  exact ⟨rfl, rfl⟩

/-- A turn takes a timer or a task, and all that it does then is confined to one process. -/
theorem turn_confined {engine after : Engine} (next : engine.turn = .next after) :
    ∃ actor taken events, engine.actor? = some actor ∧
      taken.processes = engine.scheduler.processes ∧ taken.queue.toList = engine.tasksLeft ∧
        Confined actor taken after.scheduler events := by
  have taken : ∀ {task rest}, engine.scheduler.prune.popTask? = some (task, rest) →
      rest.processes = engine.scheduler.processes := by
    intro task rest popped
    obtain ⟨queue, rfl, _⟩ := popTask?_eq popped
    rfl
  cases turn_turned next with
  | @fired timer rest s due expired =>
      obtain ⟨heap, rfl, _⟩ := popDue?_eq due
      obtain ⟨events, confined⟩ := confined_expire expired
      obtain ⟨isActor, left⟩ := actor?_of_due due
      exact ⟨timer.pid, { engine.scheduler with heap }, events, isActor, rfl, left.symm, confined⟩
  | @delivered pid message rest s notDue popped delivered =>
      obtain ⟨events, confined⟩ := confined_deliver delivered
      obtain ⟨isActor, left⟩ := actor?_of_task notDue popped
      exact ⟨pid, rest, events, isActor, taken popped, left.symm, confined⟩
  | @skipped pid rest notDue popped dead =>
      obtain ⟨isActor, left⟩ := actor?_of_task notDue popped
      exact ⟨pid, rest, [], isActor, taken popped, left.symm, confined_of_eq rfl rfl rfl⟩
  | @sliced pid rest middle s notDue popped live sliced ended =>
      obtain ⟨earlier, slice⟩ := slice_confined sliced
      obtain ⟨events, end'⟩ := confined_endSlice ended
      obtain ⟨isActor, left⟩ := actor?_of_task notDue popped
      have same : rest.processes = engine.scheduler.processes := taken popped
      exact ⟨pid, rest.beginSlice pid, _, isActor, same, left.symm, slice.trans end'⟩

/-- A process whose timeout is still the same has the same timer, so its deadline is the same. -/
theorem waitsUntil_iff {engine after : Engine} (reachable : Reachable AnyPair none engine)
    (next : engine.turn = .next after) {pid : ProcessId}
    (same : after.scheduler.timeoutId? pid = engine.scheduler.timeoutId? pid) (deadline : Number) :
    after.scheduler.WaitsUntil pid deadline ↔ engine.scheduler.WaitsUntil pid deadline := by
  have before := reachable.timersMatch
  have matching := (reachable.turn next).timersMatch
  have onward := Later.onward (.single (.inl next)) reachable
  -- A timer with an old number that is on the list now was there before.
  have stays : ∀ timer ∈ after.scheduler.timers, ∀ id,
      engine.scheduler.timeoutId? pid = some id → timer.id = id →
        timer ∈ engine.scheduler.timers := by
    intro timer member id pending isId
    rcases onward.timers timer member with wasThere | new
    · exact wasThere
    · obtain ⟨first, firstMember, _, rfl⟩ := (before.matched pid id nofun).1 pending
      have numbered := before.numbered first firstMember
      omega
  constructor
  · rintro ⟨timer, member, isPid, pending, rfl⟩
    rw [same] at pending
    exact ⟨timer, stays timer member _ pending rfl, isPid, pending, rfl⟩
  · rintro ⟨timer, member, isPid, pending, rfl⟩
    have pendingAfter := same.trans pending
    obtain ⟨other, otherMember, otherPid, sameId⟩ :=
      (matching.matched pid timer.id nofun).1 pendingAfter
    have wasThere := stays other otherMember timer.id pending sameId
    obtain rfl := before.eq_of_id_eq wasThere member sameId
    exact ⟨other, otherMember, otherPid, pendingAfter, rfl⟩

/-- A turn acts on one process. Every other that is alive before and after has the same registers,
mailbox, messages set aside, receivers, timeout, deadline and trap flag, and its links alone may
differ. The queue is what was left when the task of the turn, if it took one, was gone, and new
tasks behind that. -/
theorem process_isolation {engine after : Engine} (reachable : Reachable AnyPair none engine)
    (next : engine.turn = .next after) :
    ∃ actor, engine.actor? = some actor ∧
      (∀ pid p q, pid ≠ actor → engine.find? pid = some p → after.find? pid = some q →
        q = { p with links := q.links } ∧
          ∀ deadline, after.scheduler.WaitsUntil pid deadline ↔
            engine.scheduler.WaitsUntil pid deadline) ∧
      ∃ appended, after.scheduler.queue.toList = engine.tasksLeft ++ appended := by
  obtain ⟨actor, taken, events, isActor, sameProcesses, left, confined⟩ := turn_confined next
  have sameFound : ∀ pid, taken.find? pid = engine.find? pid := by
    intro pid
    unfold Scheduler.find?
    rw [sameProcesses]
    rfl
  refine ⟨actor, isActor, ?_, ?_⟩
  · intro pid p q other found foundAfter
    have old : pid < taken.processes.nextPid := lt_nextPid ((sameFound pid).trans found)
    obtain ⟨p', found', linksOnly⟩ := confined.survivor pid q old foundAfter
    rw [sameFound, found] at found'
    cases found'
    refine ⟨linksOnly other, fun deadline => waitsUntil_iff reachable next ?_ deadline⟩
    rw [timeoutId?_eq (s := after.scheduler) foundAfter,
      timeoutId?_eq (s := engine.scheduler) found,
      linksOnly other]
  · rw [← left]
    exact confined.queue

/-- The second of two `dozer`s starts to wait, and the first one's wait is as it was. -/
theorem process_isolation_dozers :
    ∃ engine after p q, Reachable AnyPair none engine ∧ engine.turn = .next after ∧
      engine.actor? = some 2 ∧ engine.find? 1 = some p ∧ after.find? 1 = some q ∧
      q = { p with links := q.links } ∧ after.scheduler.WaitsUntil 1 (⟨0⟩ + ⟨1⟩) ∧
      ∃ appended, after.scheduler.queue.toList = engine.tasksLeft ++ appended := by
  have created : Reachable AnyPair none
      ((create ⟨1, ⟨1⟩, some 1⟩).mapHost fun host => host.setClock ⟨0⟩) :=
    (Reachable.create ⟨1, ⟨1⟩, some 1⟩).outside rfl
  have spawned := (created.move (.spawn dozer)).move (.spawn dozer)
  have waits := spawned.turn rfl
  obtain ⟨actor, isActor, others, queue⟩ := process_isolation waits rfl
  cases isActor
  obtain ⟨same, deadlines⟩ := others 1 _ _ nofun rfl rfl
  exact ⟨_, _, _, _, waits, rfl, rfl, rfl, rfl, same,
    (deadlines _).2 ⟨_, List.mem_cons_self, rfl, rfl, rfl⟩, queue⟩

end Engine

end ActorMachine
