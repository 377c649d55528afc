import ActorMachine.Proofs.Engine.Timers
import ActorMachine.Proofs.Scheduler.Deadlines

set_option autoImplicit false

/-!
Timers do not starve tasks.

A turn that fires a timer takes that timer off the list and arms none, because only an instruction
of a slice arms one. So as long as timers fire and no task is taken, each turn leaves fewer
processes with a timeout. Main statement: `timers_in_order`.
-/

namespace ActorMachine

namespace Scheduler

/-! ### Firing a timer arms none -/

section Disarm

variable {s after : Scheduler} {pid : ProcessId}

theorem Walk.Next.timers_sublist {walk next : Walk} (followed : walk.Next next) :
    next.scheduler.timers.Sublist walk.scheduler.timers := by
  cases followed with
  | finished ended => exact .refl _
  | gone followed missing => exact .refl _
  | told followed found traps notice =>
      subst notice
      exact .refl _
  | spared followed found exposed normal => exact .refl _
  | dragged followed found exposed abnormal => exact (cancels_beginDeath found _).timers_sublist

theorem timers_die_sublist (s : Scheduler) (pid : ProcessId) (reason : Value) :
    (s.die pid reason).timers.Sublist s.timers :=
  die_keeps (fun after => after.timers.Sublist s.timers)
    (fun followed fewer => followed.timers_sublist.trans fewer) (.refl _)
    fun _ found => (cancels_beginDeath found reason).timers_sublist

theorem Looks.timers_sublist {woke : Bool} (looked : Looks s pid woke after) :
    after.timers.Sublist s.timers := by
  cases looked with
  | absent missing => exact .refl _
  | busy found awake => exact .refl _
  | nothing found waits rejected =>
      rw [recordSetAside_eq]
      exact .refl _
  | resumed found waits divided rejected accepted goesOn =>
      rw [recordSetAside_eq]
      exact timers_dropTimeout_sublist _ _
  | failed found waits divided rejected accepted faults =>
      refine (timers_die_sublist _ _ _).trans ?_
      rw [recordSetAside_eq]
      exact timers_dropTimeout_sublist _ _

theorem timers_timeOut_sublist (s : Scheduler) (pid : ProcessId) :
    (s.timeOut pid).timers.Sublist s.timers := by
  have timed := timeOut_timesOut s pid
  generalize s.timeOut pid = after at timed ⊢
  cases timed with
  | kept unarmed => exact .refl _
  | resumed found armed waits goesOn => exact .refl _
  | failed found armed awake => exact timers_die_sublist _ _ _

theorem timers_expire_sublist {timer : Timer} (expired : s.expire timer = some after) :
    after.timers.Sublist s.timers := by
  rcases expire_cases expired with ⟨_, rfl⟩ | ⟨_, woke, middle, checked, rfl⟩
  · exact .refl _
  · have looked := (checkMail_looks checked).timers_sublist
    cases woke with
    | true => exact looked
    | false => exact (timers_timeOut_sublist middle timer.pid).trans looked

end Disarm

/-! ### Processes with a timeout -/

/-- The processes that have a timeout. -/
def pendingPids (s : Scheduler) : List ProcessId :=
  (List.range s.processes.nextPid).filter fun pid => (s.timeoutId? pid).isSome

theorem mem_pendingPids {s : Scheduler} {pid : ProcessId} :
    pid ∈ s.pendingPids ↔ ∃ id, s.timeoutId? pid = some id := by
  unfold pendingPids
  rw [List.mem_filter, List.mem_range, Option.isSome_iff_exists]
  refine ⟨And.right, fun ⟨id, pending⟩ => ⟨?_, id, pending⟩⟩
  obtain ⟨p, _, found, _⟩ := timeoutId?_eq_some pending
  exact lt_nextPid found

/-- There are as many timers as processes with a timeout. -/
theorem TimersMatch.length_pendingPids {s : Scheduler} (matching : TimersMatch none s) :
    s.pendingPids.length = s.timers.length := by
  have samePid : ∀ a ∈ s.timers, ∀ b ∈ s.timers, a.pid = b.pid → a = b := by
    intro a aMember b bMember same
    have aPending := (matching.matched a.pid a.id nofun).2 ⟨a, aMember, rfl, rfl⟩
    have bPending := (matching.matched b.pid b.id nofun).2 ⟨b, bMember, rfl, rfl⟩
    rw [same, bPending] at aPending
    exact matching.eq_of_id_eq aMember bMember (Option.some.inj aPending).symm
  have distinct : (s.timers.map (·.pid)).Nodup :=
    List.Nodup.map_on samePid (List.Nodup.of_map (·.id) matching.distinct)
  have pendingDistinct : s.pendingPids.Nodup := List.nodup_range.filter _
  have same : s.pendingPids.Perm (s.timers.map (·.pid)) := by
    refine (List.perm_ext_iff_of_nodup pendingDistinct distinct).2 fun pid => ?_
    rw [mem_pendingPids, List.mem_map]
    constructor
    · rintro ⟨id, pending⟩
      obtain ⟨timer, member, isPid, _⟩ := (matching.matched pid id nofun).1 pending
      exact ⟨timer, member, isPid⟩
    · rintro ⟨timer, member, isPid⟩
      exact ⟨timer.id, (matching.matched pid timer.id nofun).2 ⟨timer, member, isPid, rfl⟩⟩
  rw [same.length_eq, List.length_map]

end Scheduler

namespace Engine

open Scheduler

/-! ### Turns that fire timers -/

/-- Turns that follow each other and all fire a timer. Between them the clock goes on and other
things outside the scheduler change. -/
inductive Streak : Nat → Engine → Prop where
  | start {engine} : Streak 0 engine
  | fire {n} {engine later next : Engine} (outside : later.scheduler = engine.scheduler)
      (due : (later.scheduler.popDue? later.host.clock).1.isSome = true)
      (turned : later.turn = .next next) (further : Streak n next) : Streak (n + 1) engine
  /-- The process of the timer looks at its mail and finds an endless list, so no turn follows. -/
  | stuck {engine later : Engine} (outside : later.scheduler = engine.scheduler)
      (due : (later.scheduler.popDue? later.host.clock).1.isSome = true)
      (turned : later.turn = .endless) : Streak 1 engine

/-- A turn that fires a timer leaves fewer of them. -/
theorem fire_of_due {engine next : Engine} (matching : TimersMatch none engine.scheduler)
    (due : (engine.scheduler.popDue? engine.host.clock).1.isSome = true)
    (turned : engine.turn = .next next) :
    TimersMatch none next.scheduler ∧
      next.scheduler.timers.length < engine.scheduler.timers.length := by
  obtain ⟨timer, isTimer⟩ := Option.isSome_iff_exists.1 due
  cases turn_turned turned with
  | fired isDue expired =>
      obtain ⟨heap, rfl, first, _, sameFlags⟩ := popDue?_eq isDue
      refine ⟨matching.fire first sameFlags expired, ?_⟩
      have fewer := (timers_expire_sublist expired).length_le
      rw [first]
      exact Nat.lt_succ_of_le fewer
  | delivered notDue _ _ => exact absurd (notDue.symm.trans isTimer) nofun
  | skipped notDue _ _ => exact absurd (notDue.symm.trans isTimer) nofun
  | sliced notDue _ _ _ _ => exact absurd (notDue.symm.trans isTimer) nofun

theorem Streak.length_le {n : Nat} {engine : Engine} (streak : Streak n engine)
    (matching : TimersMatch none engine.scheduler) : n ≤ engine.scheduler.timers.length := by
  induction streak with
  | start => exact Nat.zero_le _
  | fire outside due turned _ ih =>
      rw [← outside] at matching ⊢
      obtain ⟨matchingAfter, fewer⟩ := fire_of_due matching due turned
      exact Nat.le_trans (Nat.succ_le_succ (ih matchingAfter)) fewer
  | stuck outside due turned =>
      obtain ⟨timer, isTimer⟩ := Option.isSome_iff_exists.1 due
      obtain ⟨heap, _, first, _⟩ := popDue?_eq (Prod.ext isTimer rfl)
      rw [← outside, first]
      exact Nat.succ_le_succ (Nat.zero_le _)

/-- After any history of timers, without deadlines that are not numbers, taking the timers that are
due gives those that were armed, not taken before and not cancelled, that is, those in the heap
whose flag is not set. Each comes once, ordered by deadline and then by when they were armed. And no
more turns in a row fire a timer than there were processes with a timeout before the first of
them. -/
theorem timers_in_order :
    (∀ armed taken s, Timed armed taken s →
      (∀ timer ∈ armed, timer.deadline.isNaN = false) → ∀ now,
        (∀ timer, timer ∈ s.takeDue now ↔ timer ∈ armed ∧ timer ∉ taken ∧
          s.timeoutId? timer.pid = some timer.id ∧ timer.deadline.atMost now = true) ∧
        (∀ timer, timer ∈ s.takeDue now ↔ timer ∈ s.heap.entries ∧
          s.heap.isSet timer.canceled = false ∧ timer.deadline.atMost now = true) ∧
        (s.takeDue now).Nodup ∧
        ((s.takeDue now).Pairwise fun a b => a.deadline.rank < b.deadline.rank ∨
          (a.deadline.rank = b.deadline.rank ∧ a.id < b.id)) ∧
        armed.Pairwise fun later earlier => earlier.id < later.id) ∧
    ∀ engine, Reachable AnyPair none engine → ∀ n, Streak n engine →
      n ≤ engine.scheduler.pendingPids.length := by
  constructor
  · intro armed taken s timed numbers now
    obtain ⟨exactly, inHeap, once, ordered⟩ := timed.takeDue numbers now
    refine ⟨exactly, inHeap, once, ?_, timed.timersListed.numbered⟩
    exact ordered.imp fun isBefore => (Timer.before_iff _ _).1 isBefore
  · intro engine reachable n streak
    have matching := reachable.timersMatch
    rw [matching.length_pendingPids]
    exact streak.length_le matching

/-- A function that waits for no message, until its timeout, which is at once. -/
def blinker : Closure :=
  ⟨0, ⟨.linked 0, #[.receive ⟨[], some ⟨⟨0⟩, ⟨.linked 1, #[]⟩⟩⟩]⟩, []⟩

/-- Two processes, of which the first arms a timer for 2, the second one for 1, and the first
another one for 1. -/
def blinkers : Scheduler :=
  let spawned := ((({} : Scheduler).spawn blinker).2.spawn blinker).2
  ((spawned.addTimeout 1 ⟨0x4000000000000000⟩ default).addTimeout 2 ⟨0x3FF0000000000000⟩
    default).addTimeout 1 ⟨0x3FF0000000000000⟩ default

/-- At 2 the timers for 1 are due, and the first timer is not, because it was replaced. A `blinker`
whose timer is due takes one turn. -/
theorem timers_in_order_blinkers :
    (⟨⟨0x3FF0000000000000⟩, 2, 2, ⟨1⟩⟩ ∈ blinkers.takeDue ⟨0x4000000000000000⟩ ∧
      ⟨⟨0x3FF0000000000000⟩, 3, 1, ⟨2⟩⟩ ∈ blinkers.takeDue ⟨0x4000000000000000⟩ ∧
      ⟨⟨0x4000000000000000⟩, 1, 1, ⟨0⟩⟩ ∉ blinkers.takeDue ⟨0x4000000000000000⟩) ∧
    ∃ engine, Reachable AnyPair none engine ∧ Streak 1 engine ∧
      1 ≤ engine.scheduler.pendingPids.length := by
  constructor
  · have spawned := ((Timed.start {}).spawn blinker).spawn blinker
    have first := spawned.addTimeout ⟨0x4000000000000000⟩ default (show isLive _ 1 = true from rfl)
    have second := first.addTimeout ⟨0x3FF0000000000000⟩ default (show isLive _ 2 = true from rfl)
    have third := second.addTimeout ⟨0x3FF0000000000000⟩ default (show isLive _ 1 = true from rfl)
    obtain ⟨exactly, _⟩ := timers_in_order.1 _ _ _ third (by decide) ⟨0x4000000000000000⟩
    refine ⟨(exactly _).2 ?_, (exactly _).2 ?_, fun member => ?_⟩
    · exact ⟨.tail _ (.head _), nofun, rfl, by decide⟩
    · exact ⟨.head _, nofun, rfl, by decide⟩
    · cases ((exactly _).1 member).2.2.1
  · have created : Reachable AnyPair none
        ((create {}).mapHost fun host => host.setClock ⟨0⟩) := (Reachable.create {}).outside rfl
    have begun := (created.move (.spawn blinker)).move (.beginSlice rfl rfl)
    have waits := begun.instruction nofun rfl
    have ended := waits.move (.endSlice rfl)
    refine ⟨_, ended, .fire rfl rfl rfl .start, timers_in_order.2 _ ended _ ?_⟩
    exact .fire rfl rfl rfl .start

end Engine

end ActorMachine
