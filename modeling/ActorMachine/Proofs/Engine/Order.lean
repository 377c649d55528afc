import ActorMachine.Proofs.Engine.Reachable
import ActorMachine.Proofs.Scheduler.Sequence

set_option autoImplicit false

/-!
Messages are received in the order in which they were sent.

Between any two turns, what a process went on with so far, what is in its mailbox and what is on its
way to it are together the messages that were sent to it, in that order, as long as it set none of
them aside. Main statement: `received_in_order`.
-/

namespace ActorMachine

/-- Nothing was sent to a process before it was made. The journal has the latest event first. -/
def SentOnceSpawned (journal : List Event) (pid : ProcessId) : Prop :=
  ∀ later earlier, journal = later ++ .spawned pid :: earlier →
    ∀ message, .sent pid message ∉ earlier

theorem SentOnceSpawned.of_append {events journal : List Event} {pid : ProcessId}
    (late : SentOnceSpawned (events ++ journal) pid) : SentOnceSpawned journal pid := by
  intro later earlier isJournal
  refine late (events ++ later) earlier ?_
  rw [isJournal, List.append_assoc]

namespace Scheduler

/-- Living processes that set nothing aside are in order, and what is on its way to one that is
still to be made was sent to it. -/
structure InSequence (s : Scheduler) : Prop where
  live : ∀ pid p, s.find? pid = some p → s.journal.filterMap (Event.setAsideBy? pid) = [] →
    SentOnceSpawned s.journal pid → p.saved.toList = [] ∧
      (s.journal.filterMap (Event.resumedBy? pid)).reverse ++ s.inbound pid p =
        (s.journal.filterMap (Event.sentTo? pid)).reverse
  unborn : ∀ pid, s.processes.nextPid ≤ pid → s.journal.filterMap (Event.resumedBy? pid) = [] ∧
    ∀ message ∈ s.queuedFor pid, message ∈ s.journal.filterMap (Event.sentTo? pid)

variable {s after : Scheduler} {events : List Event}

theorem inSequence_empty (memory : Memory) : InSequence { memory } where
  live := fun _ _ found => absurd found find?_empty_ne
  unborn := fun _ _ => ⟨rfl, nofun⟩

/-- What was in order before a change is in order after it. -/
theorem InSequence.forwards (inSequence : InSequence s) (forwards : Forwards s after events) :
    InSequence after where
  live := by
    intro pid q found kept late
    obtain ⟨p, foundBefore⟩ := forwards.survivor pid q found
    rw [forwards.journal] at kept late ⊢
    rw [List.filterMap_append, List.append_eq_nil_iff] at kept
    obtain ⟨unsaved, orderBefore⟩ := inSequence.live pid p foundBefore kept.2 late.of_append
    obtain ⟨stillUnsaved, order⟩ := forwards.order pid p q foundBefore found unsaved kept.1
    refine ⟨stillUnsaved, ?_⟩
    rw [List.filterMap_append, List.filterMap_append, List.reverse_append, List.reverse_append,
      List.append_assoc, order, ← List.append_assoc, orderBefore]
  unborn := by
    intro pid coming
    rw [forwards.next_eq] at coming
    obtain ⟨unresumedBefore, queuedBefore⟩ := inSequence.unborn pid coming
    obtain ⟨unresumed, queued⟩ := forwards.unborn pid coming
    rw [forwards.journal, List.filterMap_append, List.filterMap_append]
    refine ⟨by rw [unresumed, unresumedBefore, List.append_nil], ?_⟩
    intro message member
    rw [List.mem_append]
    rcases queued message member with old | new
    · exact .inr (queuedBefore message old)
    · exact .inl new

/-- A process that is made has no message yet, because none was sent to it. -/
theorem InSequence.spawn (inSequence : InSequence s) (f : Closure) : InSequence (s.spawn f).2 := by
  have next : (s.spawn f).2.processes.nextPid = s.processes.nextPid + 1 :=
    ProcessTable.nextPid_add _ _
  have sameQueued : ∀ pid, (s.spawn f).2.queuedFor pid = s.queuedFor pid := by
    intro pid
    have queue : (s.spawn f).2.queue.toList = s.queue.toList ++ [.run s.processes.nextPid] :=
      Fifo.toList_push _ _
    rw [queuedFor_append queue]
    exact List.append_nil _
  have unresumed : ∀ pid, (s.spawn f).2.journal.filterMap (Event.resumedBy? pid) =
      s.journal.filterMap (Event.resumedBy? pid) := fun _ => List.filterMap_cons_none rfl
  have unsent : ∀ pid, (s.spawn f).2.journal.filterMap (Event.sentTo? pid) =
      s.journal.filterMap (Event.sentTo? pid) := fun _ => List.filterMap_cons_none rfl
  constructor
  · intro pid p found kept late
    rw [unresumed, unsent, inbound, sameQueued]
    rcases find?_spawn_cases found with ⟨isNew, rfl⟩ | ⟨_, foundBefore⟩
    · obtain ⟨noneResumed, queued⟩ := inSequence.unborn pid (Nat.le_of_eq isNew.symm)
      have noneSent : s.journal.filterMap (Event.sentTo? pid) = [] := by
        rw [List.filterMap_eq_nil_iff]
        intro event member
        cases event with
        | sent receiver message =>
            refine if_neg ?_
            rintro rfl
            refine late [] s.journal ?_ message member
            rw [isNew]
            rfl
        | _ => rfl
      have noneQueued : s.queuedFor pid = [] := by
        rw [List.eq_nil_iff_forall_not_mem]
        intro message member
        have wasSent := queued message member
        rw [noneSent] at wasSent
        cases wasSent
      rw [noneResumed, noneSent, noneQueued]
      exact ⟨rfl, rfl⟩
    · have keptBefore : s.journal.filterMap (Event.setAsideBy? pid) = [] := by
        rw [← kept]
        exact (List.filterMap_cons_none rfl).symm
      have lateBefore : SentOnceSpawned ([.spawned s.processes.nextPid] ++ s.journal) pid := late
      exact inSequence.live pid p foundBefore keptBefore lateBefore.of_append
  · intro pid coming
    rw [next] at coming
    rw [unresumed, unsent, sameQueued]
    exact inSequence.unborn pid (Nat.le_of_succ_le coming)

theorem Move.inSequence {phase phase' : Option ProcessId} (moved : Move phase s phase' after)
    (inSequence : InSequence s) : InSequence after := by
  have along : (∃ events, Forwards s after events) → InSequence after :=
    fun ⟨_, forwards⟩ => inSequence.forwards forwards
  cases moved with
  | memory memory kept => exact along ⟨[], forwards_of_processes_eq rfl rfl rfl⟩
  | spawn f => exact inSequence.spawn f
  | send receiver held => exact along ⟨_, forwards_send s receiver _⟩
  | prune => exact along ⟨[], forwards_of_processes_eq rfl rfl rfl⟩
  | fire due expired =>
      obtain ⟨heap, rfl, _⟩ := popDue?_eq due
      exact along (forwards_fire expired)
  | deliver popped delivered =>
      obtain ⟨queue, rfl, first⟩ := popTask?_eq popped
      exact along (forwards_deliver first delivered)
  | skip popped dead =>
      obtain ⟨queue, rfl, first⟩ := popTask?_eq popped
      exact along ⟨[], forwards_of_taken first fun _ _ _ => rfl⟩
  | beginSlice popped live =>
      obtain ⟨queue, rfl, first⟩ := popTask?_eq popped
      have taken := forwards_of_taken first fun _ _ _ => rfl
      exact along ⟨_, taken.trans (forwards_beginSlice _ _)⟩
  | endSlice ended => exact along (forwards_endSlice ended)

theorem Effect.inSequence {me : ProcessId} {overwritten : Option Ref}
    (effect : Effect me overwritten s after) (inSequence : InSequence s) : InSequence after := by
  have along : (∃ events, Forwards s after events) → InSequence after :=
    fun ⟨_, forwards⟩ => inSequence.forwards forwards
  cases effect with
  | memory memory kept => exact along ⟨[], forwards_of_processes_eq rfl rfl rfl⟩
  | overwrite isThat v => exact along ⟨[], forwards_of_processes_eq rfl rfl rfl⟩
  | spawn f => exact inSequence.spawn f
  | link a b =>
      refine along ⟨[], (undisturbed_link s a b).forwards ?_ ?_⟩
      · rw [link_eq]
      · rw [link_eq]
  | unlink peer =>
      refine along ⟨[], (undisturbed_unlink s me peer).forwards ?_ ?_⟩
      · rw [unlink_eq]
      · rw [unlink_eq]
  | trapExits =>
      refine along ⟨[], (undisturbed_update me fun _ => rfl).forwards ?_ ?_⟩
      · rw [update_eq]
      · rw [update_eq]
  | send onlyThat receiver held => exact along ⟨_, forwards_send s receiver _⟩
  | die onlyThat pid reason => exact along (deathFrame_die s pid reason).forwards
  | carryOn found runs goesOn => exact along ⟨[], forwards_put found rfl rfl⟩
  | wait receivers found runs waits => exact along ⟨[], forwards_put found rfl rfl⟩
  | addTimeout deadline entry found waits =>
      refine along ⟨[], (undisturbed_addTimeout found deadline entry).forwards ?_ ?_⟩
      · rw [addTimeout_eq]
      · rw [addTimeout_eq]
  | @halt p onlyThat machine reason found runs =>
      have stopped : Forwards s (s.put me { p with machine }) [] := forwards_put found rfl rfl
      obtain ⟨events, forwards⟩ := (deathFrame_die (s.put me { p with machine }) me reason).forwards
      exact along ⟨_, stopped.trans forwards⟩

end Scheduler

namespace Engine

open Scheduler

theorem Reachable.inSequence {phase : Option ProcessId} {engine : Engine}
    (reachable : Reachable AnyPair phase engine) : InSequence engine.scheduler :=
  reachable.invariant (fun _ => InSequence) (inSequence_empty _)
    (fun moved => moved.inSequence) (fun _ effect => effect.inSequence) fun _ _ => trivial

/-- A living process that never set a message aside, and that was sent none before it was made, goes
on with its messages in the order in which they were sent: those that it went on with so far, then
its mailbox, then what is on its way to it, are all that was sent to it. -/
theorem received_in_order {engine : Engine} (reachable : Reachable AnyPair none engine)
    {pid : ProcessId} {p : Process} (found : engine.find? pid = some p)
    (neverSetAside : ∀ message, .setAside pid message ∉ engine.scheduler.journal)
    (late : SentOnceSpawned engine.scheduler.journal pid) :
    p.saved.toList = [] ∧
      engine.scheduler.journal.reverse.filterMap (Event.resumedBy? pid) ++ p.mailbox.toList ++
          engine.scheduler.queue.toList.filterMap (Task.messageFor? pid) =
        engine.scheduler.journal.reverse.filterMap (Event.sentTo? pid) := by
  have kept : engine.scheduler.journal.filterMap (Event.setAsideBy? pid) = [] := by
    rw [List.filterMap_eq_nil_iff]
    intro event member
    cases event with
    | setAside other message =>
        refine if_neg ?_
        rintro rfl
        exact neverSetAside message member
    | _ => rfl
  obtain ⟨unsaved, order⟩ := reachable.inSequence.live pid p found kept late
  refine ⟨unsaved, ?_⟩
  rw [List.filterMap_reverse, List.filterMap_reverse, List.append_assoc]
  exact order

/-- Two messages are sent to the function `sleeper`, and it goes on with the first. -/
theorem received_in_order_sleeper :
    ∃ engine p first second, Reachable AnyPair none engine ∧ engine.find? 1 = some p ∧
      engine.scheduler.journal.reverse.filterMap (Event.resumedBy? 1) = [first] ∧
      engine.scheduler.queue.toList.filterMap (Task.messageFor? 1) = [second] ∧
      engine.scheduler.journal.reverse.filterMap (Event.resumedBy? 1) ++ p.mailbox.toList ++
          engine.scheduler.queue.toList.filterMap (Task.messageFor? 1) =
        engine.scheduler.journal.reverse.filterMap (Event.sentTo? 1) := by
  have created : Reachable AnyPair none (create {}) := .create {}
  have begun := (created.move (.spawn sleeper)).move (.beginSlice rfl rfl)
  have waits := begun.instruction nofun rfl
  have ended := waits.move (.endSlice rfl)
  let first := initialMemory.store.list [.symbol "wake"]
  let second := first.2.list [.symbol "wake", .nil]
  have later := first.2.grows_list [.symbol "wake", .nil]
  have grown := (initialMemory.store.grows_list [.symbol "wake"]).trans later
  have stored := ended.move (.memory ⟨second.2, initialMemory.globals⟩ grown.keepsCars)
  have heldFirst : second.2.Holds first.1 :=
    (initialMemory.store.holds_list [.symbol "wake"]).mono later.size_le
  have heldSecond : second.2.Holds second.1 := first.2.holds_list [.symbol "wake", .nil]
  have sent := (stored.move (.send 1 heldFirst)).move (.send 1 heldSecond)
  obtain ⟨engine, p, reachable, found, journal, queue⟩ : ∃ engine p,
      Reachable AnyPair none engine ∧ engine.find? 1 = some p ∧
      engine.scheduler.journal = [.resumed 1 first.1, .sent 1 second.1, .sent 1 first.1,
        .sliced 1, .spawned 1] ∧
      engine.scheduler.queue.toList = [.deliver 1 second.1, .run 1] :=
    ⟨_, _, sent.move (.deliver rfl rfl), rfl, rfl, rfl⟩
  have neverSetAside : ∀ message, .setAside 1 message ∉ engine.scheduler.journal := by
    intro message
    rw [journal]
    nofun
  have late : SentOnceSpawned engine.scheduler.journal 1 := by
    intro later earlier divided
    have ended : earlier = [] := by
      rw [journal] at divided
      match later with
      | [] | [_] | [_, _] | [_, _, _] => cases divided
      | [_, _, _, _] =>
          cases divided
          rfl
      | _ :: _ :: _ :: _ :: _ :: _ => simp at divided
    rw [ended]
    exact fun _ => nofun
  refine ⟨engine, p, first.1, second.1, reachable, found, ?_, ?_,
    (received_in_order reachable found neverSetAside late).2⟩
  · rw [journal]
    rfl
  · rw [queue]
    rfl

end Engine

end ActorMachine
