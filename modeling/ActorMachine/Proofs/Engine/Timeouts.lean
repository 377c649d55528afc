import ActorMachine.Proofs.Engine.Messages

set_option autoImplicit false

/-!
A wait ends at its timeout at most once.

Timers are numbered as they are armed, so a timer that is on the list was there before or has a new
number. Hence a timer that fired, or that was disarmed when a message came, never fires again.
Main statement: `timers_one_to_one`.
-/

namespace ActorMachine

namespace Scheduler

/-! ### Timers along a change -/

/-- Timers are disarmed, or armed with new numbers. -/
structure Rearms (s after : Scheduler) : Prop where
  armed_le : s.armed ≤ after.armed
  timers : ∀ timer ∈ after.timers, timer ∈ s.timers ∨ s.armed < timer.id

section Rearms

variable {s middle after : Scheduler} {pid : ProcessId} {p : Process}

theorem Rearms.trans (first : Rearms s middle) (second : Rearms middle after) :
    Rearms s after where
  armed_le := Nat.le_trans first.armed_le second.armed_le
  timers := by
    intro timer member
    rcases second.timers timer member with old | new
    · exact first.timers timer old
    · exact .inr (Nat.lt_of_le_of_lt first.armed_le new)

theorem rearms_of_eq (sameTimers : after.timers = s.timers) (sameArmed : after.armed = s.armed) :
    Rearms s after where
  armed_le := Nat.le_of_eq sameArmed.symm
  timers := by
    rw [sameTimers]
    exact fun _ => .inl

theorem rearms_dropTimeout (s : Scheduler) (timeout : Option PendingTimeout) :
    Rearms s (s.dropTimeout timeout) := by
  refine ⟨Nat.le_refl _, ?_⟩
  intro timer member
  exact .inl ((timers_dropTimeout_sublist s timeout).subset member)

theorem rearms_addTimeout (found : s.find? pid = some p) (deadline : Number) (entry : Template) :
    Rearms s (s.addTimeout pid deadline entry) := by
  have dropped := rearms_dropTimeout s p.timeout
  rw [addTimeout_of_found found]
  refine ⟨Nat.le_succ _, ?_⟩
  intro timer member
  have added := (s.dropTimeout p.timeout).heap.live_push deadline (s.armed + 1) pid
  change timer ∈ TimerHeap.live _ at member
  rw [added] at member
  rcases TimerHeap.mem_insertTimer.1 member with rfl | old
  · exact .inr (Nat.lt_succ_self _)
  · exact dropped.timers timer old

theorem rearms_beginDeath (s : Scheduler) (pid : ProcessId) (p : Process) (reason : Value) :
    Rearms s (s.beginDeath pid p reason).2 := by
  have erased : Rearms s { s with processes := s.processes.erase pid } := rearms_of_eq rfl rfl
  exact (erased.trans (rearms_dropTimeout _ p.timeout)).trans (rearms_of_eq rfl rfl)

theorem Walk.Next.rearms {walk next : Walk} (followed : walk.Next next) :
    Rearms walk.scheduler next.scheduler := by
  cases followed with
  | finished ended => exact rearms_of_eq rfl rfl
  | gone followed missing => exact rearms_of_eq rfl rfl
  | told followed found traps notice =>
      subst notice
      exact rearms_of_eq rfl rfl
  | spared followed found exposed normal => exact rearms_of_eq rfl rfl
  | dragged followed found exposed abnormal => exact rearms_beginDeath _ _ _ _

theorem rearms_die (s : Scheduler) (pid : ProcessId) (reason : Value) :
    Rearms s (s.die pid reason) :=
  die_keeps (Rearms s) (fun followed rearms => rearms.trans followed.rearms) (rearms_of_eq rfl rfl)
    fun p _ => rearms_beginDeath s pid p reason

theorem Looks.rearms {woke : Bool} (looked : Looks s pid woke after) : Rearms s after := by
  cases looked with
  | absent missing => exact rearms_of_eq rfl rfl
  | busy found awake => exact rearms_of_eq rfl rfl
  | nothing found waits rejected =>
      rw [recordSetAside_eq]
      exact rearms_of_eq rfl rfl
  | @resumed p before message rest entry machine found waits divided rejected accepted goesOn =>
      rw [recordSetAside_eq]
      have dropped := rearms_dropTimeout (s.put pid { p with
        mailbox := .ofList rest
        saved := .empty
        timeout := none
        machine }) p.timeout
      exact ⟨dropped.armed_le, dropped.timers⟩
  | @failed p before message rest entry cause found waits divided rejected accepted faults =>
      have dropped := rearms_dropTimeout (s.put pid { p with
        mailbox := .ofList rest
        saved := .empty
        timeout := none }) p.timeout
      rw [recordSetAside_eq]
      refine Rearms.trans ?_ (rearms_die _ pid (.string cause.reasonText))
      exact ⟨dropped.armed_le, dropped.timers⟩

theorem rearms_wake (woken : s.wake pid = some after) : Rearms s after := by
  rcases wake_cases woken with checked | ⟨middle, checked, rfl⟩
  · exact (checkMail_looks checked).rearms
  · exact (checkMail_looks checked).rearms.trans (rearms_of_eq rfl rfl)

theorem rearms_deliver {message : Value} (delivered : s.deliver pid message = some after) :
    Rearms s after := by
  rcases deliver_cases delivered with ⟨_, rfl⟩ | ⟨p, found, woken⟩
  · exact rearms_of_eq rfl rfl
  · have put : Rearms s ({ s with current := some pid }.put pid (p.deliver message)) :=
      rearms_of_eq rfl rfl
    exact put.trans (rearms_wake woken)

theorem rearms_timeOut (s : Scheduler) (pid : ProcessId) : Rearms s (s.timeOut pid) := by
  have timed := timeOut_timesOut s pid
  generalize s.timeOut pid = after at timed ⊢
  cases timed with
  | kept unarmed => exact rearms_of_eq rfl rfl
  | resumed found armed waits goesOn => exact rearms_of_eq rfl rfl
  | @failed p timeout found armed awake =>
      have cleared : Rearms s ((s.put pid { p with timeout := none, saved := .empty }).redeliver pid
        p.saved.toList) := rearms_of_eq rfl rfl
      exact cleared.trans (rearms_die _ pid _)

theorem rearms_expire {timer : Timer} (expired : s.expire timer = some after) :
    Rearms s after := by
  rcases expire_cases expired with ⟨_, rfl⟩ | ⟨_, woke, middle, checked, rfl⟩
  · exact rearms_of_eq rfl rfl
  · have current : Rearms s { s with current := some timer.pid } := rearms_of_eq rfl rfl
    have looked := current.trans (checkMail_looks checked).rearms
    cases woke with
    | true => exact looked.trans (rearms_of_eq rfl rfl)
    | false => exact looked.trans (rearms_timeOut middle timer.pid)

theorem rearms_endSlice (ended : s.endSlice pid = some after) : Rearms s after := by
  rcases endSlice_cases ended with ⟨rfl, _⟩ | ⟨p, _, ⟨_, rfl⟩ | ⟨_, woken⟩⟩
  · exact rearms_of_eq rfl rfl
  · exact rearms_of_eq rfl rfl
  · exact rearms_wake woken

theorem Effect.rearms {me : ProcessId} {overwritten : Option Ref}
    (effect : Effect me overwritten s after) : Rearms s after := by
  cases effect with
  | link a b =>
      rw [link_eq]
      exact rearms_of_eq rfl rfl
  | unlink peer =>
      rw [unlink_eq]
      exact rearms_of_eq rfl rfl
  | trapExits =>
      rw [update_eq]
      exact rearms_of_eq rfl rfl
  | die onlyThat pid reason => exact rearms_die s pid reason
  | addTimeout deadline entry found waits => exact rearms_addTimeout found deadline entry
  | @halt p onlyThat machine reason found runs =>
      have stopped : Rearms s (s.put me { p with machine }) := rearms_of_eq rfl rfl
      exact stopped.trans (rearms_die _ me reason)
  | _ => exact rearms_of_eq rfl rfl

end Rearms

/-! ### Timeouts along a change -/

/-- What a step enters about timeouts: at most one, that of a timer which it takes off the list. -/
structure Ticks (s after : Scheduler) (events : List Event) : Prop extends Rearms s after where
  journal : after.journal = events ++ s.journal
  once : events.countP Event.isResumption ≤ 1
  fired : ∀ pid id, .timedOut pid id ∈ events →
    (∃ timer ∈ s.timers, timer.pid = pid ∧ timer.id = id) ∧ ∀ timer ∈ after.timers, timer.id ≠ id

section Ticks

variable {s after : Scheduler} {events : List Event}

theorem Ledger.ticks (ledger : Ledger s after events) (rearms : Rearms s after)
    (once : events.countP Event.isResumption ≤ 1)
    (inTime : events.filterMap Event.timeout? = []) : Ticks s after events where
  toRearms := rearms
  journal := ledger.journal
  once := once
  fired := fun pid id member => absurd member (Event.not_timedOut inTime pid id)

theorem Ledger.ticks_of_quiet (ledger : Ledger s after events) (rearms : Rearms s after)
    (quiet : Quiet events) : Ticks s after events :=
  ledger.ticks rearms (by rw [quiet.countP_eq]; exact Nat.zero_le _) quiet.timeout?_eq

theorem Effect.ticks {me : ProcessId} {overwritten : Option Ref}
    (effect : Effect me overwritten s after) : ∃ events, Ticks s after events := by
  obtain ⟨events, ledger, quiet⟩ := effect.ledger
  exact ⟨events, ledger.ticks_of_quiet effect.rearms quiet⟩

theorem ticks_fire {timer : Timer} {heap : TimerHeap} (matching : TimersMatch none s)
    (first : s.timers = timer :: heap.live) (expired : { s with heap }.expire timer = some after) :
    ∃ events, Ticks s after events := by
  obtain ⟨events, ledger, once, _, timedOut⟩ := ledger_fire matching first expired
  have isFirst : timer ∈ s.timers := by
    rw [first]
    exact List.mem_cons_self
  have rest : Rearms { s with heap } after := rearms_expire expired
  have taken : Rearms s { s with heap } := by
    refine ⟨Nat.le_refl _, ?_⟩
    intro other member
    rw [first]
    exact .inl (List.mem_cons_of_mem _ member)
  refine ⟨events, taken.trans rest, ledger.journal, once, ?_⟩
  intro pid id member
  obtain ⟨isPid, rfl, _⟩ := timedOut pid id member
  refine ⟨⟨timer, isFirst, isPid, rfl⟩, ?_⟩
  intro other otherMember same
  rcases rest.timers other otherMember with old | new
  · have distinct := matching.distinct
    rw [first, List.map_cons, List.nodup_cons] at distinct
    exact distinct.1 (List.mem_map.2 ⟨other, old, same⟩)
  · have numbered := matching.numbered timer isFirst
    change s.armed < other.id at new
    omega

theorem Move.ticks {phase phase' : Option ProcessId} (matching : TimersMatch none s)
    (moved : Move phase s phase' after) : ∃ events, Ticks s after events := by
  cases moved with
  | memory memory kept =>
      have ledger : Ledger s { s with memory } [] := ledger_of_processes_eq rfl rfl rfl
      exact ⟨[], ledger.ticks_of_quiet (rearms_of_eq rfl rfl) nofun⟩
  | spawn f =>
      exact ⟨_, (ledger_spawn s f).ticks (rearms_of_eq rfl rfl) (Nat.zero_le _) rfl⟩
  | send receiver held =>
      exact ⟨_, (ledger_send s receiver _).ticks (rearms_of_eq rfl rfl) (Nat.zero_le _) rfl⟩
  | prune =>
      have ledger : Ledger s s.prune [] := ledger_of_processes_eq rfl rfl rfl
      exact ⟨[], ledger.ticks_of_quiet (rearms_of_eq (timers_prune s) rfl) nofun⟩
  | fire due expired =>
      obtain ⟨heap, rfl, first, _⟩ := popDue?_eq due
      exact ticks_fire matching first expired
  | deliver popped delivered =>
      obtain ⟨queue, rfl, first⟩ := popTask?_eq popped
      obtain ⟨events, ledger, inTime, once, _⟩ := ledger_deliver first delivered
      have taken : Rearms s { s with queue } := rearms_of_eq rfl rfl
      exact ⟨events, ledger.ticks (taken.trans (rearms_deliver delivered)) once inTime⟩
  | skip popped dead =>
      obtain ⟨queue, rfl, first⟩ := popTask?_eq popped
      have ledger := ledger_of_taken first (fun _ _ _ => rfl)
      exact ⟨[], ledger.ticks_of_quiet (rearms_of_eq rfl rfl) nofun⟩
  | @beginSlice _ rest pid popped live =>
      obtain ⟨queue, rfl, first⟩ := popTask?_eq popped
      have ledger := (ledger_of_taken first (fun _ _ _ => rfl)).trans (ledger_beginSlice _ pid)
      exact ⟨_, ledger.ticks (rearms_of_eq rfl rfl) (Nat.zero_le _) rfl⟩
  | endSlice ended =>
      obtain ⟨events, ledger, inTime, once, _⟩ := ledger_endSlice ended
      exact ⟨events, ledger.ticks (rearms_endSlice ended) once inTime⟩

/-- Timeouts are in the journal once, and their timers are gone. -/
structure TimeoutsOnce (s : Scheduler) : Prop where
  distinct : (s.journal.filterMap Event.timeout?).Nodup
  spent : ∀ pid id, .timedOut pid id ∈ s.journal →
    id ≤ s.armed ∧ ∀ timer ∈ s.timers, timer.id ≠ id

theorem timedOut_of_mem {journal : List Event} {pid : ProcessId} {id : Nat}
    (listed : (pid, id) ∈ journal.filterMap Event.timeout?) : .timedOut pid id ∈ journal := by
  obtain ⟨event, member, isTimeout⟩ := List.mem_filterMap.1 listed
  cases event with
  | timedOut other timer =>
      cases isTimeout
      exact member
  | _ => cases isTimeout

theorem TimeoutsOnce.ticks (once : TimeoutsOnce s) (matching : TimersMatch none s)
    (ticks : Ticks s after events) : TimeoutsOnce after where
  distinct := by
    have few : (events.filterMap Event.timeout?).length ≤ 1 := by
      refine Nat.le_trans ?_ ticks.once
      rw [List.length_filterMap_eq_countP]
      refine List.countP_mono_left ?_
      intro event _ isTimeout
      cases event with
      | timedOut pid id => rfl
      | _ => cases isTimeout
    rw [ticks.journal, List.filterMap_append, List.nodup_append]
    refine ⟨?_, once.distinct, ?_⟩
    · match events.filterMap Event.timeout?, few with
      | [], _ => exact List.nodup_nil
      | [_], _ => exact List.nodup_singleton _
    · -- A timer that fires now is on the list, and so it did not fire before.
      rintro ⟨pid, id⟩ new _ old rfl
      obtain ⟨⟨timer, member, _, isId⟩, _⟩ := ticks.fired pid id (timedOut_of_mem new)
      exact (once.spent pid id (timedOut_of_mem old)).2 timer member isId
  spent := by
    intro pid id member
    rw [ticks.journal] at member
    rcases List.mem_append.1 member with new | old
    · obtain ⟨⟨timer, isTimer, _, rfl⟩, gone⟩ := ticks.fired pid id new
      exact ⟨Nat.le_trans (matching.numbered timer isTimer) ticks.armed_le, gone⟩
    · obtain ⟨numbered, gone⟩ := once.spent pid id old
      refine ⟨Nat.le_trans numbered ticks.armed_le, ?_⟩
      intro timer isTimer
      rcases ticks.timers timer isTimer with stillThere | new
      · exact gone timer stillThere
      · omega

/-- From one scheduler to a later one, timeouts come from the timers that were on the list, or from
new ones. -/
structure Onward (s after : Scheduler) : Prop extends Rearms s after where
  timedOut : ∀ pid id, .timedOut pid id ∈ after.journal → .timedOut pid id ∈ s.journal ∨
    (∃ timer ∈ s.timers, timer.pid = pid ∧ timer.id = id) ∨ s.armed < id

theorem onward_refl (s : Scheduler) : Onward s s where
  toRearms := rearms_of_eq rfl rfl
  timedOut := fun _ _ => .inl

theorem Onward.ticks {first : Scheduler} (onward : Onward first s) (ticks : Ticks s after events) :
    Onward first after where
  toRearms := onward.toRearms.trans ticks.toRearms
  timedOut := by
    intro pid id member
    rw [ticks.journal] at member
    rcases List.mem_append.1 member with new | old
    · obtain ⟨⟨timer, isTimer, isPid, rfl⟩, _⟩ := ticks.fired pid id new
      rcases onward.timers timer isTimer with wasThere | later
      · exact .inr (.inl ⟨timer, wasThere, isPid, rfl⟩)
      · exact .inr (.inr later)
    · exact onward.timedOut pid id old

/-- What all steps keep about timers, with what they keep since `first`. -/
structure Timely (first s : Scheduler) : Prop where
  matching : TimersMatch none s
  once : TimeoutsOnce s
  onward : Onward first s

theorem Timely.move {first : Scheduler} {phase phase' : Option ProcessId}
    (moved : Move phase s phase' after) (timely : Timely first s) : Timely first after := by
  obtain ⟨events, ticks⟩ := moved.ticks timely.matching
  exact ⟨timely.matching.move moved, timely.once.ticks timely.matching ticks,
    timely.onward.ticks ticks⟩

theorem Timely.effect {first : Scheduler} {me : ProcessId} {overwritten : Option Ref}
    (effect : Effect me overwritten s after) (timely : Timely first s) : Timely first after := by
  obtain ⟨events, ticks⟩ := effect.ticks
  exact ⟨timely.matching.effect effect, timely.once.ticks timely.matching ticks,
    timely.onward.ticks ticks⟩

/-- Each process with a timeout waits, and the heap has exactly one timer of it that is not
cancelled. Each timer in the heap that is not cancelled belongs to such a process, and the two share
its flag. -/
structure OneToOne (s : Scheduler) : Prop where
  pending : ∀ pid p timeout, s.find? pid = some p → p.timeout = some timeout →
    p.status = .waiting ∧ s.heap.entries.countP (fun timer =>
      timer.pid = pid ∧ timer.id = timeout.id ∧ s.heap.isSet timer.canceled = false) = 1
  awaited : ∀ timer ∈ s.heap.entries, s.heap.isSet timer.canceled = false →
    ∃ p timeout, s.find? timer.pid = some p ∧ p.status = .waiting ∧ p.timeout = some timeout ∧
      timeout.id = timer.id ∧ timeout.canceled = timer.canceled

theorem countP_eq_one_of_nodup {timers : List Timer} (distinct : (timers.map (·.id)).Nodup)
    {timer : Timer} (member : timer ∈ timers) :
    timers.countP (fun other => other.pid = timer.pid ∧ other.id = timer.id) = 1 := by
  induction timers with
  | nil => cases member
  | cons first rest ih =>
      obtain ⟨fresh, restDistinct⟩ := List.nodup_cons.1 distinct
      rcases List.mem_cons.1 member with rfl | later
      · have noOther :
            rest.countP (fun other => other.pid = timer.pid ∧ other.id = timer.id) = 0 := by
          rw [List.countP_eq_zero]
          intro other otherMember same
          have sameId := (of_decide_eq_true same).2
          exact fresh (List.mem_map.2 ⟨other, otherMember, sameId⟩)
        rw [List.countP_cons_of_pos (by simp), noOther]
      · have different : ¬(first.pid = timer.pid ∧ first.id = timer.id) := by
          rintro ⟨_, same⟩
          exact fresh (List.mem_map.2 ⟨timer, later, same.symm⟩)
        rw [List.countP_cons_of_neg (by simpa using different)]
        exact ih restDistinct later

theorem TimersMatch.oneToOne (matching : TimersMatch none s) : OneToOne s where
  pending := by
    intro pid p timeout found armed
    have pending : s.timeoutId? pid = some timeout.id := by
      rw [timeoutId?_eq found, armed]
      rfl
    obtain ⟨timer, member, rfl, isId⟩ :=
      (matching.matched pid timeout.id (Option.some_ne_none pid).symm).1 pending
    refine ⟨matching.waits timer.pid p found (by rw [armed]; rfl), ?_⟩
    rw [← isId]
    have once := countP_eq_one_of_nodup matching.distinct member
    rw [timers, s.heap.live_perm.countP_eq, List.countP_filter] at once
    simpa [Bool.and_assoc] using once
  awaited := by
    intro timer inHeap notSet
    have member : timer ∈ s.timers := TimerHeap.mem_live.2 ⟨inHeap, notSet⟩
    have pending := (matching.matched timer.pid timer.id (Option.some_ne_none _).symm).2
        ⟨timer, member, rfl, rfl⟩
    obtain ⟨p, timeout, found, armed, isId⟩ := timeoutId?_eq_some pending
    have waits := matching.waits timer.pid p found (by rw [armed]; rfl)
    have isFlag := matching.flags.pending timer.pid timeout ((timeout?_eq found).trans armed)
    have flags : timeout.canceled.cell = timer.canceled.cell := by
      have same := matching.flags.timer timer member
      omega
    exact ⟨p, timeout, found, waits, armed, isId, congrArg Flag.mk flags⟩

end Ticks

end Scheduler

namespace Engine

open Scheduler

theorem Reachable.timely {phase : Option ProcessId} {engine : Engine}
    (reachable : Reachable AnyPair phase engine) :
    Timely { memory := initialMemory } engine.scheduler :=
  reachable.invariant (fun _ s => Timely { memory := initialMemory } s)
    ⟨timersMatch_empty _, ⟨List.nodup_nil, nofun⟩, onward_refl _⟩ Timely.move
    (fun _ => Timely.effect) (fun _ _ => trivial)

/-- An engine and one to which turns and calls of the host have led from it. -/
def Later : Engine → Engine → Prop :=
  Relation.ReflTransGen fun engine after => engine.turn = .next after ∨ engine.HostCall after

theorem Later.onward {engine later : Engine} (leads : Later engine later)
    (reachable : Reachable AnyPair none engine) : Onward engine.scheduler later.scheduler := by
  have kept : Kept fun _ later => Timely engine.scheduler later.scheduler :=
    kept_of_scheduler Timely.move Timely.effect
  have timely : Timely engine.scheduler later.scheduler := by
    induction leads with
    | refl => exact ⟨reachable.timely.matching, reachable.timely.once, onward_refl _⟩
    | tail _ last ih =>
        rcases last with turned | called
        · exact kept.turn ih turned
        · exact called.keeps kept ih
  exact timely.onward

/-- A process that went on with a message does not time out after that, whichever of the timers
armed so far one looks at. -/
theorem not_timedOut_of_resumed {engine after later : Engine}
    (reachable : Reachable AnyPair none engine) (next : engine.turn = .next after)
    {events : List Event} (journal : after.scheduler.journal = events ++ engine.scheduler.journal)
    (once : events.countP Event.isResumption ≤ 1) {pid : ProcessId} {message : Value}
    (resumed : .resumed pid message ∈ events)
    (wentOn : after.scheduler.WentOnWith pid message) (leads : Later after later) {id : Nat}
    (old : id ≤ after.scheduler.armed) (notBefore : .timedOut pid id ∉ engine.scheduler.journal) :
    .timedOut pid id ∉ later.scheduler.journal := by
  intro member
  have reachableAfter := reachable.turn next
  rcases (leads.onward reachableAfter).timedOut pid id member with soon | ⟨timer, isTimer, isPid, _⟩
    | new
  · rw [journal] at soon
    rcases List.mem_append.1 soon with now | before
    · have noMessage := not_taken_at_timeout once pid pid id now
      have taken : message ∈ events.filterMap (Event.resumedBy? pid) :=
        List.mem_filterMap.2 ⟨_, resumed, if_pos rfl⟩
      rw [noMessage] at taken
      cases taken
    · exact notBefore before
  · -- It runs now, and a process that runs has no timer.
    obtain ⟨inHeap, notSet⟩ := TimerHeap.mem_live.1 isTimer
    have oneToOne := reachableAfter.timersMatch.oneToOne
    obtain ⟨p, _, found, waits, _⟩ := oneToOne.awaited timer inHeap notSet
    obtain ⟨q, _, _, foundToo, _, goesOn⟩ := wentOn
    rw [isPid, foundToo] at found
    cases found
    exact absurd (waits.symm.trans (Machine.status_of_resume goesOn)) nofun
  · omega

/-- Between two turns, the timers in the heap that are not cancelled and the pending timeouts
correspond one to one. So a wait ends at its
timeout at most once, not before its deadline on the clock of the burst, and not after a message has
ended it; the deadline stays as it was armed, and the next one is that of a process that is alive
and waits. -/
theorem timers_one_to_one {engine : Engine} (reachable : Reachable AnyPair none engine) :
    engine.scheduler.OneToOne ∧
    (engine.scheduler.journal.filterMap Event.timeout?).Nodup ∧
    (∀ pid id, engine.scheduler.timeoutId? pid = some id →
      .timedOut pid id ∉ engine.scheduler.journal) ∧
    (∀ deadline, engine.scheduler.nextDeadline.1 = some deadline →
      ∃ timer ∈ engine.scheduler.heap.entries,
        engine.scheduler.heap.isSet timer.canceled = false ∧ timer.deadline = deadline ∧
        ∃ p, engine.find? timer.pid = some p ∧ p.status = .waiting) ∧
    (∀ later, Later engine later → ∀ timer ∈ later.scheduler.timers,
      timer ∈ engine.scheduler.timers ∨ engine.scheduler.armed < timer.id) ∧
    ∀ after, engine.turn = .next after →
      ∃ events, after.scheduler.journal = events ++ engine.scheduler.journal ∧
        (∀ pid id, .timedOut pid id ∈ events →
          (∃ timer ∈ engine.scheduler.timers, timer.pid = pid ∧ timer.id = id ∧
            timer.deadline.atMost engine.host.clock = true) ∧
          WentOnAtTimeout engine.scheduler after.scheduler pid id) ∧
        ∀ pid message, .resumed pid message ∈ events → ∀ id ≤ after.scheduler.armed,
          .timedOut pid id ∉ engine.scheduler.journal →
          ∀ later, Later after later → .timedOut pid id ∉ later.scheduler.journal := by
  have matching := reachable.timersMatch
  have oneToOne := matching.oneToOne
  have once := reachable.timely.once
  refine ⟨oneToOne, once.distinct, ?_, ?_, fun later leads => (leads.onward reachable).timers, ?_⟩
  · intro pid id pending member
    obtain ⟨timer, isTimer, _, isId⟩ := (matching.matched pid id nofun).1 pending
    exact (once.spent pid id member).2 timer isTimer isId
  · intro deadline isNext
    rw [nextDeadline_eq] at isNext
    obtain ⟨timer, isHead, isDeadline⟩ := Option.map_eq_some_iff.1 isNext
    obtain ⟨inHeap, notSet⟩ := TimerHeap.mem_live.1 (List.mem_of_mem_head? isHead)
    obtain ⟨p, _, found, waits, _⟩ := oneToOne.awaited timer inHeap notSet
    exact ⟨timer, inHeap, notSet, isDeadline, p, found, waits⟩
  · intro after next
    obtain ⟨events, ledger, count, wentOn, timedOut⟩ := turn_ledger matching next
    refine ⟨events, ledger.journal, timedOut, ?_⟩
    intro pid message resumed id old notBefore later leads
    exact not_timedOut_of_resumed reachable next ledger.journal count resumed
      (wentOn pid message resumed) leads old notBefore

/-- A function that waits for the message `wake`, or until its timeout, which is at once. -/
def napper : Closure :=
  ⟨0, ⟨.linked 0, #[.receive ⟨[⟨"wake", ⟨.linked 1, #[]⟩⟩], some ⟨⟨0⟩, ⟨.linked 2, #[]⟩⟩⟩]⟩, []⟩

/-- The timer of `napper` is due, and its turn ends the wait. -/
theorem timers_one_to_one_napper :
    ∃ engine after, Reachable AnyPair none engine ∧ engine.turn = .next after ∧
      engine.scheduler.OneToOne ∧ engine.scheduler.timeoutId? 1 = some 1 ∧
      .timedOut 1 1 ∉ engine.scheduler.journal ∧ .timedOut 1 1 ∈ after.scheduler.journal ∧
      WentOnAtTimeout engine.scheduler after.scheduler 1 1 := by
  have created : Reachable AnyPair none
      ((create {}).mapHost fun host => host.setClock ⟨0⟩) := (Reachable.create {}).outside rfl
  have begun := (created.move (.spawn napper)).move (.beginSlice rfl rfl)
  have waits := begun.instruction nofun rfl
  have ended := waits.move (.endSlice rfl)
  obtain ⟨oneToOne, _, unfired, _, _, turned⟩ := timers_one_to_one ended
  obtain ⟨events, journal, timedOut, _⟩ := turned _ rfl
  have notYet := unfired 1 1 rfl
  refine ⟨_, _, ended, rfl, oneToOne, rfl, notYet, List.mem_cons_self, ?_⟩
  refine (timedOut 1 1 ?_).2
  have now := (congrArg (.timedOut 1 1 ∈ ·) journal).mp List.mem_cons_self
  exact (List.mem_append.1 now).resolve_right notYet

end Engine

end ActorMachine
