import ActorMachine.Proofs.Engine.Isolation
import ActorMachine.Proofs.Engine.Order

set_option autoImplicit false

/-!
Everybody runs once before anybody runs again.

A process that is still running at the end of its slice goes to the end of the queue, behind the
slices of all who were running when it began and of all whom it made. From then on tasks leave the
queue at its head and join it at its end, so these slices come first. `Round` says how far this has
got, and every step keeps it. Main statement: `round_robin`.
-/

namespace ActorMachine

/-- Whether an event is the beginning of a slice of the given process. -/
def Event.isSliceOf (pid : ProcessId) : Event → Bool
  | .sliced other => other == pid
  | _ => false

/-- How many slices of a process began. -/
def slicesIn (events : List Event) (pid : ProcessId) : Nat := events.countP (Event.isSliceOf pid)

theorem slicesIn_sliced (events : List Event) (pid other : ProcessId) :
    slicesIn (.sliced pid :: events) other =
      slicesIn events other + if pid = other then 1 else 0 := by
  unfold slicesIn
  rw [List.countP_cons]
  simp [Event.isSliceOf]

namespace Scheduler

variable {s after : Scheduler} {events since : List Event} {me p q : ProcessId}

theorem mem_queue_iff (s : Scheduler) (pid : ProcessId) :
    .run pid ∈ s.queue.toList ↔ 0 < s.slicesQueued pid := by
  unfold slicesQueued
  rw [List.countP_pos_iff]
  constructor
  · intro member
    exact ⟨_, member, beq_self_eq_true pid⟩
  · rintro ⟨task, member, isRun⟩
    cases task with
    | run other =>
        cases beq_iff_eq.1 isRun
        exact member
    | deliver receiver message => cases isRun

/-- A slice is queued only for a process that was made. -/
theorem Queued.old_of_mem {active : Option ProcessId} (queued : Queued active s)
    (member : .run p ∈ s.queue.toList) : p < s.processes.nextPid := by
  have some := (mem_queue_iff s p).1 member
  apply Nat.lt_of_not_le
  intro unused
  rw [queued.fresh p unused] at some
  exact Nat.lt_irrefl 0 some

theorem Confined.slicesIn_eq (confined : Confined me s after events) (pid : ProcessId) :
    slicesIn events pid = 0 := by
  unfold slicesIn
  rw [List.countP_eq_zero]
  intro event member isSlice
  cases event with
  | sliced other => exact confined.unsliced other member
  | _ => cases isSlice

theorem Confined.slicesIn_append (confined : Confined me s after events) (earlier : List Event)
    (pid : ProcessId) : slicesIn (events ++ earlier) pid = slicesIn earlier pid := by
  have none := confined.slicesIn_eq pid
  unfold slicesIn at none ⊢
  rw [List.countP_append, none, Nat.zero_add]

/-! ### Rounds -/

/-- How a process fares that is to have one slice while the tasks `ahead` are done. -/
inductive HasTurn (s : Scheduler) (events : List Event) (ahead : List Task) (q : ProcessId) :
    Prop where
  | coming (unsliced : slicesIn events q = 0) (live : s.isLive q = true) (queued : .run q ∈ ahead)
  | ended (unsliced : slicesIn events q = 0) (old : q < s.processes.nextPid)
      (dead : s.isLive q = false) (died : DiedIn events q)
  | served (sliced : slicesIn events q = 1) (unqueued : .run q ∉ ahead)

theorem HasTurn.confined {ahead : List Task} {new : List Event} (turn : HasTurn s events ahead q)
    (confined : Confined me s after new) : HasTurn after (new ++ events) ahead q := by
  have same := confined.slicesIn_append events q
  cases turn with
  | coming unsliced live queued =>
      rcases confined.lives_or_died live with stillLive | ⟨dead, died⟩
      · exact .coming (same.trans unsliced) stillLive queued
      · obtain ⟨_, found⟩ := (isLive_iff _ _).1 live
        have old := Nat.lt_of_lt_of_le (lt_nextPid found) confined.next_le
        exact .ended (same.trans unsliced) old dead (died.mono (List.subset_append_left _ _))
  | ended unsliced old dead died =>
      exact .ended (same.trans unsliced) (Nat.lt_of_lt_of_le old confined.next_le)
        (confined.stays_dead old dead) (died.mono (List.subset_append_right _ _))
  | served sliced unqueued => exact .served (same.trans sliced) unqueued

/-- After a slice, those who were queued when it began and those who were made in it are to run. -/
theorem hasTurn_of_confined (confined : Confined me s after events) (more : List Task)
    (due : (s.isLive q = true ∧ .run q ∈ s.queue.toList) ∨
      (s.processes.nextPid ≤ q ∧ q < after.processes.nextPid)) :
    HasTurn after events (after.queue.toList ++ more) q := by
  have none := confined.slicesIn_eq q
  rcases due with ⟨live, queued⟩ | ⟨fresh, made⟩
  · have wasMade := lt_nextPid ((isLive_iff _ _).1 live).choose_spec
    rcases confined.lives_or_died live with stillLive | ⟨dead, died⟩
    · obtain ⟨appended, grown⟩ := confined.queue
      refine .coming none stillLive (List.mem_append_left _ ?_)
      rw [grown]
      exact List.mem_append_left _ queued
    · exact .ended none (Nat.lt_of_lt_of_le wasMade confined.next_le) dead died
  · rcases confined.born q fresh made with ⟨live, queued⟩ | ⟨dead, died⟩
    · exact .coming none live (List.mem_append_left _ queued)
    · exact .ended none made dead died

/-- The round of the process `p` since its slice that the journal `since` begins with. Until its
next slice begins or it ends, that slice is queued, and `q` has its turn before. -/
inductive Round (since : List Event) (p q : ProcessId) (s : Scheduler) : Prop where
  | underWay (events : List Event) (ahead behind : List Task)
      (journal : s.journal = events ++ since)
      (queue : s.queue.toList = ahead ++ .run p :: behind) (first : .run p ∉ ahead)
      (turn : HasTurn s events ahead q)
  | done (events : List Event) (journal : s.journal = events ++ since)
      (again : .sliced p ∈ events)
  | void (old : p < s.processes.nextPid) (dead : s.isLive p = false)

theorem Round.confined {new : List Event} (round : Round since p q s)
    (confined : Confined me s after new) : Round since p q after := by
  have journal : ∀ events, s.journal = events ++ since →
      after.journal = (new ++ events) ++ since := by
    intro events isJournal
    rw [confined.journal, isJournal, List.append_assoc]
  cases round with
  | underWay events ahead behind isJournal queue first turn =>
      obtain ⟨appended, grown⟩ := confined.queue
      have isNewJournal := journal events isJournal
      refine .underWay (new ++ events) ahead (behind ++ appended) isNewJournal ?_ first
        (turn.confined confined)
      rw [grown, queue, List.append_assoc, List.cons_append]
  | done events isJournal again =>
      exact .done (new ++ events) (journal events isJournal) (List.mem_append_right _ again)
  | void old dead =>
      exact .void (Nat.lt_of_lt_of_le old confined.next_le) (confined.stays_dead old dead)

/-- A task is taken that is no slice of a living process. -/
theorem Round.pop {active : Option ProcessId} {task : Task} {queue : Fifo Task}
    (round : Round since p q s) (queued : Queued active s)
    (taken : s.queue.toList = task :: queue.toList)
    (unable : ∀ pid, task = .run pid → s.isLive pid = false) :
    Round since p q { s with queue } := by
  cases round with
  | underWay events ahead behind journal isQueue first turn =>
      have old : p < s.processes.nextPid := by
        apply queued.old_of_mem
        rw [isQueue]
        exact List.mem_append_right _ List.mem_cons_self
      rw [taken] at isQueue
      cases ahead with
      | nil => exact .void old (unable p (List.cons.inj isQueue).1)
      | cons head ahead =>
          obtain ⟨rfl, rest⟩ := List.cons.inj isQueue
          have firstAfter : .run p ∉ ahead := fun member => first (List.mem_cons_of_mem _ member)
          refine .underWay events ahead behind journal rest firstAfter ?_
          cases turn with
          | coming unsliced live isQueued =>
              rcases List.mem_cons.1 isQueued with isTask | later
              · exact absurd ((unable q isTask.symm).symm.trans live) Bool.false_ne_true
              · exact .coming unsliced live later
          | ended unsliced old dead died => exact .ended unsliced old dead died
          | served sliced unqueued =>
              exact .served sliced fun member => unqueued (List.mem_cons_of_mem _ member)
  | done events journal again => exact .done events journal again
  | void old dead => exact .void old dead

/-- The slice of a living process is taken. It is that of `p` when no task is ahead, and that of `q`
at most once. -/
theorem Round.beginSlice {pid : ProcessId} {queue : Fifo Task} (round : Round since p q s)
    (queued : Queued none s) (taken : s.queue.toList = .run pid :: queue.toList)
    (live : s.isLive pid = true) : Round since p q ({ s with queue }.beginSlice pid) := by
  cases round with
  | underWay events ahead behind journal isQueue first turn =>
      rw [taken] at isQueue
      have entered : ({ s with queue }.beginSlice pid).journal =
          (.sliced pid :: events) ++ since := congrArg (Event.sliced pid :: ·) journal
      cases ahead with
      | nil =>
          obtain ⟨isRun, _⟩ := List.cons.inj isQueue
          cases isRun
          exact .done _ entered List.mem_cons_self
      | cons head ahead =>
          obtain ⟨rfl, rest⟩ := List.cons.inj isQueue
          have firstAfter : .run p ∉ ahead := fun member => first (List.mem_cons_of_mem _ member)
          refine .underWay (.sliced pid :: events) ahead behind entered rest firstAfter ?_
          by_cases same : pid = q
          · subst same
            have counted := slicesIn_sliced events pid pid
            rw [if_pos rfl] at counted
            cases turn with
            | coming unsliced _ _ =>
                refine .served (by rw [counted, unsliced]) ?_
                intro again
                -- Two slices of one process are never queued together.
                obtain ⟨r, found⟩ := (isLive_iff _ _).1 live
                have count := queued.count pid r found
                have two := slicesQueued_taken taken pid
                have isRun : Task.isRunOf pid (.run pid) = true := beq_self_eq_true pid
                have left : 0 < { s with queue }.slicesQueued pid := by
                  rw [← mem_queue_iff]
                  change _ ∈ queue.toList
                  rw [rest]
                  exact List.mem_append_left _ again
                rw [if_pos isRun] at two
                split at count <;> omega
            | ended _ _ dead _ => exact absurd (dead.symm.trans live) Bool.false_ne_true
            | served _ unqueued => exact absurd List.mem_cons_self unqueued
          · have counted := slicesIn_sliced events pid q
            rw [if_neg same, Nat.add_zero] at counted
            cases turn with
            | coming unsliced alive isQueued =>
                rcases List.mem_cons.1 isQueued with isTask | later
                · cases isTask
                  exact absurd rfl same
                · exact .coming (counted.trans unsliced) alive later
            | ended unsliced old dead died =>
                exact .ended (counted.trans unsliced) old dead
                  (died.mono (List.subset_cons_self _ _))
            | served sliced unqueued =>
                exact .served (counted.trans sliced)
                  fun member => unqueued (List.mem_cons_of_mem _ member)
  | done events journal again =>
      exact .done (.sliced pid :: events) (congrArg (Event.sliced pid :: ·) journal)
        (List.mem_cons_of_mem _ again)
  | void old dead => exact .void old dead

theorem Round.move {phase phase' : Option ProcessId} (moved : Move phase s phase' after)
    (queued : Queued phase s) (round : Round since p q s) : Round since p q after := by
  cases moved with
  | memory memory kept =>
      have confined : Confined p s { s with memory } [] := confined_of_eq rfl rfl rfl
      exact round.confined confined
  | spawn f =>
      have confined : Confined p s (s.spawn f).2 _ := confined_spawn s f
      exact round.confined confined
  | @send _ receiver message held =>
      have confined : Confined p s (s.send receiver message) _ := confined_send s receiver message
      exact round.confined confined
  | prune =>
      have confined : Confined p s s.prune [] := confined_of_eq rfl rfl rfl
      exact round.confined confined
  | @fire _ _ _ _ timer due expired =>
      obtain ⟨heap, rfl, _⟩ := popDue?_eq due
      have taken : Confined timer.pid s { s with heap } [] := confined_of_eq rfl rfl rfl
      obtain ⟨events, confined⟩ := confined_expire expired
      exact round.confined (taken.trans confined)
  | deliver popped delivered =>
      obtain ⟨queue, rfl, taken⟩ := popTask?_eq popped
      obtain ⟨events, confined⟩ := confined_deliver delivered
      exact (round.pop queued taken fun _ => nofun).confined confined
  | skip popped dead =>
      obtain ⟨queue, rfl, taken⟩ := popTask?_eq popped
      apply round.pop queued taken
      intro pid isRun
      cases isRun
      exact dead
  | beginSlice popped live =>
      obtain ⟨queue, rfl, taken⟩ := popTask?_eq popped
      exact round.beginSlice queued taken live
  | endSlice ended =>
      obtain ⟨events, confined⟩ := confined_endSlice ended
      exact round.confined confined

theorem Round.effect {overwritten : Option Ref} (effect : Effect me overwritten s after)
    (round : Round since p q s) : Round since p q after := by
  obtain ⟨events, confined⟩ := effect.confined
  exact round.confined confined

end Scheduler

namespace Engine

open Scheduler

/-- The next turn is a slice of a process. -/
structure NextSlice (engine : Engine) (pid : ProcessId) : Prop where
  notDue : (engine.scheduler.popDue? engine.host.clock).1 = none
  first : engine.scheduler.queue.toList.head? = some (.run pid)
  live : engine.scheduler.isLive pid = true

/-- An engine to which steps have led from `first`, between two turns or, with the process whose
slice it is, within one. -/
inductive Leads (first : Engine) : Option ProcessId → Engine → Prop where
  | refl : Leads first none first
  | outside {phase engine after} : Leads first phase engine →
      after.scheduler = engine.scheduler → Leads first phase after
  | move {phase engine phase' s} : Leads first phase engine →
      Move phase engine.scheduler phase' s → Leads first phase' { engine with scheduler := s }
  | instruction {pid engine after} : Leads first (some pid) engine →
      (engine.advance pid).engine? = some after → Leads first (some pid) after

/-- Turns, bursts and calls of the host are made of steps. -/
theorem kept_leads (first : Engine) : Kept (Leads first) where
  outside := .outside
  move := .move
  instruction := .instruction

theorem Leads.keeps {holds : Option ProcessId → Engine → Prop} (kept : Kept holds)
    {phase : Option ProcessId} {first engine : Engine} (leads : Leads first phase engine)
    (held : holds none first) : holds phase engine := by
  induction leads with
  | refl => exact held
  | outside _ same ih => exact kept.outside ih same
  | move _ moved ih => exact kept.move ih moved
  | instruction _ moved ih => exact kept.instruction ih moved

theorem kept_round (since : List Event) (p q : ProcessId) :
    Kept fun phase engine => Queued phase engine.scheduler ∧ Round since p q engine.scheduler :=
  @kept_of_scheduler (fun phase s => Queued phase s ∧ Round since p q s)
    (fun moved held => ⟨held.1.move moved, held.2.move moved held.1⟩)
    (fun effect held => ⟨held.1.effect effect, held.2.effect effect⟩)

section Slices

variable {before after : Engine} {p q : ProcessId} {r : Process}

/-- A turn that is a slice, with the engine between its last instruction and its end. -/
theorem NextSlice.turn (begins : before.NextSlice p) (next : before.turn = .next after) :
    ∃ rest middle, before.scheduler.prune.popTask? = some (.run p, rest) ∧ rest.isLive p = true ∧
      slice p before.config.quota { before with scheduler := rest.beginSlice p } = some middle ∧
      middle.scheduler.endSlice p = some after.scheduler := by
  have head : ∀ {task rest},
      before.scheduler.prune.popTask? = some (task, rest) → task = .run p := by
    intro task rest popped
    obtain ⟨queue, _, taken⟩ := popTask?_eq popped
    have first := begins.first
    rw [show before.scheduler.queue.toList = _ from taken] at first
    exact Option.some.inj first
  cases turn_turned next with
  | fired due expired =>
      have notDue := begins.notDue
      rw [due] at notDue
      cases notDue
  | delivered _ popped delivered => cases head popped
  | skipped _ popped dead =>
      cases head popped
      obtain ⟨queue, rfl, _⟩ := popTask?_eq popped
      exact absurd (dead.symm.trans begins.live) Bool.false_ne_true
  | sliced _ popped live sliced ended =>
      cases head popped
      exact ⟨_, _, popped, live, sliced, ended⟩

/-- Those who run when a slice of another begins are queued, and so are those whom it makes. -/
theorem queued_or_made {queue : Fifo Task} {s : Scheduler} (queued : Queued none before.scheduler)
    (taken : before.scheduler.queue.toList = .run p :: queue.toList) (other : q ≠ p)
    (due : (∃ r, before.find? q = some r ∧ r.status = .running) ∨
      (before.scheduler.processes.nextPid ≤ q ∧ q < s.processes.nextPid)) :
    (before.scheduler.isLive q = true ∧ .run q ∈ queue.toList) ∨
      (before.scheduler.processes.nextPid ≤ q ∧ q < s.processes.nextPid) := by
  rcases due with ⟨r, found, runs⟩ | made
  · have count := queued.count q r found
    rw [if_pos ⟨runs, nofun⟩] at count
    have member : .run q ∈ before.scheduler.queue.toList := by
      rw [mem_queue_iff, count]
      exact Nat.one_pos
    rw [taken] at member
    rcases List.mem_cons.1 member with isHead | later
    · cases isHead
      exact absurd rfl other
    · exact .inl ⟨(isLive_iff _ _).2 ⟨r, found⟩, later⟩
  · exact .inr made

/-- A process that is still running at the end of its slice begins a round. -/
theorem round_of_slice (reachable : Reachable AnyPair none before) (begins : before.NextSlice p)
    (next : before.turn = .next after) (found : after.find? p = some r)
    (runs : r.status = .running) (other : q ≠ p)
    (due : (∃ r, before.find? q = some r ∧ r.status = .running) ∨
      (before.scheduler.processes.nextPid ≤ q ∧ q < after.scheduler.processes.nextPid)) :
    Round (.sliced p :: before.scheduler.journal) p q after.scheduler := by
  obtain ⟨rest, middle, popped, live, sliced, ended⟩ := begins.turn next
  have pruned : Reachable AnyPair none { before with scheduler := before.scheduler.prune } :=
    reachable.move .prune
  have within : Reachable AnyPair (some p) middle :=
    kept_reachable.slice (pruned.move (.beginSlice popped live)) sliced
  obtain ⟨queue, rfl, taken⟩ := popTask?_eq popped
  obtain ⟨early, slice⟩ := slice_confined sliced
  obtain ⟨late, ending⟩ := confined_endSlice ended
  obtain ⟨_, forwards⟩ := forwards_endSlice ended
  obtain ⟨appended, grown⟩ := ending.queue
  -- Until the slice ends no other of `p` is queued, and then one is.
  have unqueued : .run p ∉ middle.scheduler.queue.toList := by
    rw [mem_queue_iff]
    obtain ⟨m, foundMiddle⟩ := forwards.survivor p r found
    rw [within.queued.count p m foundMiddle, if_neg (fun both => both.2 rfl)]
    exact Nat.lt_irrefl 0
  have queuedAfter : .run p ∈ after.scheduler.queue.toList := by
    rw [mem_queue_iff, (reachable.turn next).queued.count p r found, if_pos ⟨runs, nofun⟩]
    exact Nat.one_pos
  rw [grown] at queuedAfter
  have isAppended := (List.mem_append.1 queuedAfter).resolve_left unqueued
  obtain ⟨between, behind, split, firstAppended⟩ := List.eq_append_cons_of_mem isAppended
  have due' := queued_or_made reachable.queued taken other due
  rw [forwards.next_eq] at due'
  refine .underWay (late ++ early) (middle.scheduler.queue.toList ++ between) behind ?_ ?_ ?_ ?_
  · rw [ending.journal, slice.journal, List.append_assoc]
    rfl
  · rw [grown, split, List.append_assoc]
  · rw [List.mem_append]
    exact fun member => member.elim unqueued firstAppended
  · exact (hasTurn_of_confined slice between due').confined ending

end Slices

/-- Everybody runs once before anybody runs again. When a process `p` is still running at the end of
its slice, then whatever happens until it is to run again, every other process that was running when
that slice began, and every process that was made in it, has had one slice since, unless it ended
before it got one. -/
theorem round_robin {before after later : Engine} {p q : ProcessId} {r : Process}
    {events : List Event} (reachable : Reachable AnyPair none before)
    (begins : before.NextSlice p) (next : before.turn = .next after)
    (found : after.find? p = some r) (runs : r.status = .running)
    (leads : Leads after none later) (again : later.NextSlice p)
    (journal : later.scheduler.journal = events ++ .sliced p :: before.scheduler.journal)
    (notYet : .sliced p ∉ events) (other : q ≠ p)
    (due : (∃ r, before.find? q = some r ∧ r.status = .running) ∨
      (before.scheduler.processes.nextPid ≤ q ∧ q < after.scheduler.processes.nextPid)) :
    slicesIn events q = 1 ∨ (slicesIn events q = 0 ∧ DiedIn events q) := by
  have begun := round_of_slice reachable begins next found runs other due
  have round := (leads.keeps (kept_round _ p q) ⟨(reachable.turn next).queued, begun⟩).2
  cases round with
  | underWay entered ahead behind isJournal queue first turn =>
      obtain rfl := List.append_cancel_right (journal.symm.trans isJournal)
      have isFirst := again.first
      cases ahead with
      | nil =>
          cases turn with
          | coming _ _ queued => cases queued
          | ended unsliced _ _ died => exact .inr ⟨unsliced, died⟩
          | served sliced _ => exact .inl sliced
      | cons head ahead =>
          rw [queue] at isFirst
          cases isFirst
          exact absurd List.mem_cons_self first
  | done entered isJournal sliced =>
      obtain rfl := List.append_cancel_right (journal.symm.trans isJournal)
      exact absurd sliced notYet
  | void _ dead => exact absurd (dead.symm.trans again.live) Bool.false_ne_true

/-- A function that never stops. -/
def spinner : Closure := ⟨0, ⟨.linked 0, #[.jump ⟨"again", 0⟩]⟩, []⟩

/-- Two `spinner`s take turns, also where a burst ends between them. -/
theorem round_robin_spinners :
    ∃ before after later events, Reachable AnyPair none before ∧ before.NextSlice 1 ∧
      before.turn = .next after ∧ after.run 0 = .ok later ∧ later.NextSlice 1 ∧
      later.scheduler.journal = events ++ .sliced 1 :: before.scheduler.journal ∧
      .sliced 1 ∉ events ∧
      (slicesIn events 2 = 1 ∨ (slicesIn events 2 = 0 ∧ DiedIn events 2)) := by
  have created : Reachable AnyPair none
      ((create ⟨1, ⟨1⟩, some 1⟩).mapHost fun host => host.setClock ⟨0⟩) :=
    (Reachable.create ⟨1, ⟨1⟩, some 1⟩).outside rfl
  have spawned := (created.move (.spawn spinner)).move (.spawn spinner)
  have notYet : Event.sliced 1 ∉ [Event.sliced 2] := by
    intro member
    cases List.mem_singleton.1 member
  refine ⟨_, _, _, [.sliced 2], spawned, ⟨rfl, rfl, rfl⟩, rfl, rfl, ⟨rfl, rfl, rfl⟩, rfl, notYet,
    ?_⟩
  exact round_robin spawned ⟨rfl, rfl, rfl⟩ rfl rfl rfl
    ((kept_leads _).run .refl (show run 0 _ = .ok _ from rfl)) ⟨rfl, rfl, rfl⟩ rfl notYet nofun
    (.inl ⟨_, rfl, rfl⟩)

end Engine

end ActorMachine
