import ActorMachine.Proofs.Scheduler.Timers

set_option autoImplicit false

/-!
Timers come in the order of their deadlines.

`Timed` keeps book of all timers that were armed and of those that were taken. A timer that was not
taken is not cancelled just if its process still waits for it, and such timers come in order. So the
timers that are due come first, one by one until the first that is not due. A deadline
that is not a number could stand before them all and is never due, which is why there must be none.
Main statement: `Timed.takeDue`.
-/

namespace ActorMachine

/-! ### Deadlines that have passed -/

/-- Numbers of one sign are ranked by magnitude, and negative ones before the others. -/
theorem Number.toNat_rank (x : Number) :
    x.rank.toNat =
      if x.isNegative then signWeight - 1 - x.pattern else signWeight + x.pattern := by
  have bound : x.bits.toNat < 0x10000000000000000 := x.bits.toNat_lt
  unfold rank isNegative pattern signWeight
  by_cases positive : x.bits < 0x8000000000000000
  · have small : x.bits.toNat < 0x8000000000000000 := UInt64.lt_iff_toNat_lt.1 positive
    rw [if_pos positive, UInt64.toNat_add, if_neg (by simpa using small)]
    simp only [UInt64.reduceToNat]
    omega
  · have large : 0x8000000000000000 ≤ x.bits.toNat :=
      Nat.le_of_not_lt fun small => positive (UInt64.lt_iff_toNat_lt.2 small)
    have within : x.bits ≤ 0xFFFFFFFFFFFFFFFF := by
      rw [UInt64.le_iff_toNat_le]
      simp only [UInt64.reduceToNat]
      omega
    rw [if_neg positive, UInt64.toNat_sub_of_le _ _ within, if_pos (by simpa using large)]
    simp only [UInt64.reduceToNat]
    omega

/-- The total order on words agrees with the order by value. -/
theorem Number.order_le_of_rank_le {x y : Number} (le : x.rank ≤ y.rank) : x.order ≤ y.order := by
  have xBound : x.pattern < signWeight := Nat.mod_lt _ (by decide)
  have yBound : y.pattern < signWeight := Nat.mod_lt _ (by decide)
  rw [UInt64.le_iff_toNat_le, toNat_rank, toNat_rank] at le
  unfold order
  cases xSign : x.isNegative <;> cases ySign : y.isNegative <;>
    simp only [xSign, ySign, Bool.false_eq_true, if_true, if_false] at * <;> omega

theorem Number.atMost_of_rank_le {x y now : Number} (le : x.rank ≤ y.rank)
    (isNumber : x.isNaN = false) (past : y.atMost now = true) : x.atMost now = true := by
  unfold atMost at *
  simp only [Bool.and_eq_true, Bool.not_eq_true', decide_eq_true_eq] at *
  exact ⟨⟨isNumber, past.1.2⟩, Int.le_trans (order_le_of_rank_le le) past.2⟩

/-- Whether the deadline of a timer has passed. -/
def Timer.isDue (now : Number) (timer : Timer) : Bool := timer.deadline.atMost now

namespace Scheduler

open TimerHeap

/-! ### Histories of timers -/

/-- The schedulers that come of arming timers, cancelling them and taking them when they are due.
`armed` holds all timers that were armed, latest first, and `taken` those that were taken. For a
process that is gone no timer is armed and the scheduler stays as it is. -/
inductive Timed : List Timer → List Timer → Scheduler → Prop where
  | start (memory : Memory) : Timed [] [] { memory }
  | spawn {armed taken s} (f : Closure) : Timed armed taken s → Timed armed taken (s.spawn f).2
  | addTimeout {armed taken s pid} (deadline : Number) (entry : Template) :
      Timed armed taken s → s.isLive pid = true →
      Timed (⟨deadline, s.armed + 1, pid, ⟨s.heap.flags.size⟩⟩ :: armed) taken
        (s.addTimeout pid deadline entry)
  | cancel {armed taken s pid p} : Timed armed taken s → s.find? pid = some p →
      Timed armed taken ((s.put pid { p with timeout := none }).dropTimeout p.timeout)
  /-- A message that is accepted cancels the timeout of its receiver. -/
  | checkMail {armed taken s pid woke after} :
      Timed armed taken s → s.checkMail pid = some (woke, after) → Timed armed taken after
  | die {armed taken s} (pid : ProcessId) (reason : Value) :
      Timed armed taken s → Timed armed taken (s.die pid reason)
  /-- A process changes, but not its timeout. -/
  | put {armed taken s pid p q} : Timed armed taken s → s.find? pid = some p →
      q.timeout = p.timeout → Timed armed taken (s.put pid q)
  | elsewhere {armed taken s after} : Timed armed taken s → after.processes = s.processes →
      after.heap = s.heap → after.armed = s.armed → Timed armed taken after
  /-- A look at the next deadline throws cancelled timers away. -/
  | prune {armed taken s} : Timed armed taken s → Timed armed taken s.prune
  | popDue {armed taken s now timer rest} : Timed armed taken s →
      s.popDue? now = (some timer, rest) → Timed armed (timer :: taken) rest
  | expire {armed taken s timer after} : Timed armed taken s → timer ∈ taken →
      s.expire timer = some after → Timed armed taken after

/-- The timers that are not cancelled are those that were armed and not taken, and that a process
waits for. -/
structure TimersListed (armed taken : List Timer) (s : Scheduler) : Prop where
  listed : ∀ timer, timer ∈ s.timers ↔
    timer ∈ armed ∧ timer ∉ taken ∧ s.timeoutId? timer.pid = some timer.id
  ordered : s.timers.Pairwise fun a b => a.before b = true
  numbered : armed.Pairwise fun later earlier => earlier.id < later.id
  bounded : ∀ timer ∈ armed, timer.id ≤ s.armed
  takenArmed : ∀ timer ∈ taken, timer ∈ armed
  owned : ∀ pid id, s.timeoutId? pid = some id → ∃ timer ∈ armed, timer.pid = pid ∧ timer.id = id
  flags : FlagsMatch s

section TimersListed

variable {armed taken : List Timer} {s after : Scheduler} {pid : ProcessId} {p q : Process}

theorem timersListed_empty (memory : Memory) : TimersListed [] [] { memory } := by
  refine ⟨?_, .nil, .nil, nofun, nofun, ?_, flagsMatch_empty memory⟩
  · intro timer
    exact ⟨nofun, fun ⟨member, _⟩ => absurd member List.not_mem_nil⟩
  · intro pid id pending
    rw [timeoutId?, timeout?_empty] at pending
    cases pending

theorem TimersListed.eq_of_id_eq (listing : TimersListed armed taken s) {a b : Timer}
    (aMember : a ∈ armed) (bMember : b ∈ armed) (same : a.id = b.id) : a = b := by
  have distinct : (armed.map (·.id)).Nodup :=
    List.pairwise_map.2 (listing.numbered.imp fun lt => Nat.ne_of_gt lt)
  exact List.inj_on_of_nodup_map distinct aMember bMember same

/-- The timer with the number of a pending timeout is that of the process with the timeout. -/
theorem TimersListed.pid_of_id (listing : TimersListed armed taken s) {timer : Timer}
    (member : timer ∈ armed) (pending : s.timeoutId? pid = some timer.id) : timer.pid = pid := by
  obtain ⟨own, ownMember, ownPid, ownId⟩ := listing.owned pid timer.id pending
  rw [← listing.eq_of_id_eq ownMember member ownId]
  exact ownPid

theorem TimersListed.of_same (listing : TimersListed armed taken s)
    (sameTimers : after.timers = s.timers) (sameArmed : after.armed = s.armed)
    (sameSize : after.heap.flags.size = s.heap.flags.size)
    (sameTimeouts : ∀ other, after.timeout? other = s.timeout? other) :
    TimersListed armed taken after where
  listed := by
    intro timer
    rw [sameTimers, timeoutId?_congr (sameTimeouts timer.pid)]
    exact listing.listed timer
  ordered := by
    rw [sameTimers]
    exact listing.ordered
  numbered := listing.numbered
  bounded := by
    rw [sameArmed]
    exact listing.bounded
  takenArmed := listing.takenArmed
  owned := by
    intro other id pending
    rw [timeoutId?_congr (sameTimeouts other)] at pending
    exact listing.owned other id pending
  flags := listing.flags.of_same sameTimers sameArmed sameSize sameTimeouts

theorem TimersListed.elsewhere (listing : TimersListed armed taken s)
    (sameProcesses : after.processes = s.processes) (sameHeap : after.heap = s.heap)
    (sameArmed : after.armed = s.armed) : TimersListed armed taken after := by
  refine listing.of_same (congrArg TimerHeap.live sameHeap) sameArmed
    (congrArg (·.flags.size) sameHeap) fun other => timeout?_congr ?_
  simp only [find?, sameProcesses]

/-- Cancelled timers are thrown away. -/
theorem TimersListed.prune (listing : TimersListed armed taken s) :
    TimersListed armed taken s.prune :=
  listing.of_same (timers_prune s) rfl (congrArg Array.size s.heap.flags_prune) fun _ => rfl

/-- The timer of a process is cancelled when the process no longer waits for it, or is gone. -/
theorem TimersListed.clear (listing : TimersListed armed taken s) (cancels : Cancels s pid after) :
    TimersListed armed taken after := by
  have idleId := cancels.timeoutId?_eq_none
  refine ⟨?_, listing.ordered.sublist cancels.timers_sublist, listing.numbered, ?_,
    listing.takenArmed, ?_, cancels.flagsMatch listing.flags⟩
  · intro timer
    rw [cancels.mem_timers listing.flags, listing.listed]
    by_cases own : pid = timer.pid
    · subst own
      rw [idleId]
      exact ⟨fun ⟨⟨_, _, pending⟩, notPending⟩ => absurd pending notPending,
        fun ⟨_, _, pending⟩ => nomatch pending⟩
    · rw [timeoutId?_congr (timeout?_congr (cancels.others timer.pid own))]
      constructor
      · exact fun ⟨waits, _⟩ => waits
      · intro waits
        refine ⟨waits, fun pending => ?_⟩
        exact own (listing.pid_of_id waits.1 pending).symm
  · rw [cancels.armed_eq]
    exact listing.bounded
  · intro other id pending
    by_cases same : pid = other
    · subst same
      rw [idleId] at pending
      cases pending
    · rw [timeoutId?_congr (timeout?_congr (cancels.others other same))] at pending
      exact listing.owned other id pending

/-- A process that waits for no timer gets one with a new number. -/
theorem TimersListed.arm (listing : TimersListed armed taken s) (found : s.find? pid = some p)
    (idle : p.timeout = none) (deadline : Number) (entry : Template) :
    TimersListed (⟨deadline, s.armed + 1, pid, ⟨s.heap.flags.size⟩⟩ :: armed) taken
      (s.addTimeout pid deadline entry) := by
  let waiting : Process :=
    { p with timeout := some ⟨s.armed + 1, entry, ⟨s.heap.flags.size⟩⟩ }
  have own : (s.put pid waiting).timeoutId? pid = some (s.armed + 1) :=
    timeoutId?_eq (find?_put_self found waiting)
  have others : ∀ other, pid ≠ other →
      (s.put pid waiting).timeoutId? other = s.timeoutId? other := fun other different =>
    timeoutId?_congr (timeout?_put_of_ne found waiting different)
  have idleId : s.timeoutId? pid = none := by rw [timeoutId?_eq found, idle, Option.map_none]
  have old : ∀ timer ∈ armed, timer.id < s.armed + 1 := fun timer member =>
    Nat.lt_succ_of_le (listing.bounded timer member)
  have isTimers := timers_addTimeout found idle deadline entry
  have pendingAfter : ∀ other, (s.addTimeout pid deadline entry).timeoutId? other =
      (s.put pid waiting).timeoutId? other := by
    intro other
    rw [addTimeout_of_found found]
    rfl
  have isArmed : (s.addTimeout pid deadline entry).armed = s.armed + 1 := by
    rw [addTimeout_of_found found]
  refine ⟨?_, ?_, List.pairwise_cons.2 ⟨old, listing.numbered⟩, ?_, ?_, ?_,
    listing.flags.arm found idle deadline entry⟩
  · intro timer
    rw [isTimers, pendingAfter, mem_insertTimer, List.mem_cons, listing.listed]
    constructor
    · rintro (rfl | ⟨member, notTaken, pending⟩)
      · refine ⟨.inl rfl, fun isTaken => ?_, own⟩
        exact Nat.lt_irrefl _ (old _ (listing.takenArmed _ isTaken))
      · refine ⟨.inr member, notTaken, ?_⟩
        have different : pid ≠ timer.pid := by
          rintro rfl
          rw [idleId] at pending
          cases pending
        rw [others timer.pid different]
        exact pending
    · rintro ⟨rfl | member, notTaken, pending⟩
      · exact .inl rfl
      · refine .inr ⟨member, notTaken, ?_⟩
        by_cases same : pid = timer.pid
        · rw [← same, own] at pending
          exact absurd (Option.some.inj pending).symm (Nat.ne_of_lt (old timer member))
        · rw [← others timer.pid same]
          exact pending
  · rw [isTimers]
    refine ordered_insertTimer listing.ordered fun other member => ?_
    exact (Nat.ne_of_lt (old other ((listing.listed other).1 member).1)).symm
  · intro timer member
    rw [isArmed]
    rcases List.mem_cons.1 member with rfl | member
    · exact Nat.le_refl _
    · exact Nat.le_succ_of_le (listing.bounded timer member)
  · exact fun timer isTaken => List.mem_cons_of_mem _ (listing.takenArmed timer isTaken)
  · intro other id pending
    rw [pendingAfter] at pending
    by_cases same : pid = other
    · subst same
      rw [own] at pending
      cases pending
      exact ⟨_, List.mem_cons_self, rfl, rfl⟩
    · rw [others other same] at pending
      obtain ⟨timer, member, rest⟩ := listing.owned other id pending
      exact ⟨timer, List.mem_cons_of_mem _ member, rest⟩

theorem TimersListed.addTimeout (listing : TimersListed armed taken s)
    (found : s.find? pid = some p) (deadline : Number) (entry : Template) :
    TimersListed (⟨deadline, s.armed + 1, pid, ⟨s.heap.flags.size⟩⟩ :: armed) taken
      (s.addTimeout pid deadline entry) := by
  let idle := (s.put pid { p with timeout := none }).dropTimeout p.timeout
  have idleFound : idle.find? pid = some { p with timeout := none } := by
    rw [find?_dropTimeout, find?_put_self found]
  have sameSize : idle.heap.flags.size = s.heap.flags.size := size_flags_dropTimeout s p.timeout
  have cleared : TimersListed armed taken idle := listing.clear (cancels_put found rfl)
  have isArmed := cleared.arm idleFound rfl deadline entry
  rw [sameSize] at isArmed
  rw [addTimeout_of_idle found]
  exact isArmed

/-! ### Ends of processes, mail and timeouts -/

theorem TimersListed.next {walk next : Walk} (followed : walk.Next next)
    (listing : TimersListed armed taken walk.scheduler) :
    TimersListed armed taken next.scheduler := by
  cases followed with
  | finished ended => exact listing
  | gone followed missing => exact listing
  | @told s dying _ _ _ peer _ p told followed found traps notice =>
      subst notice
      have unlinked : TimersListed armed taken (s.put peer (p.removeLink dying.pid)) :=
        listing.of_same rfl rfl rfl (timeout?_put found rfl)
      exact unlinked.elsewhere rfl rfl rfl
  | spared followed found exposed normal =>
      exact listing.of_same rfl rfl rfl (timeout?_put found rfl)
  | dragged followed found exposed abnormal => exact listing.clear (cancels_beginDeath found _)

theorem TimersListed.die (listing : TimersListed armed taken s) (pid : ProcessId)
    (reason : Value) : TimersListed armed taken (s.die pid reason) :=
  die_keeps (TimersListed armed taken) (fun followed listing => listing.next followed) listing
    fun _ found => listing.clear (cancels_beginDeath found reason)

theorem TimersListed.looks {woke : Bool} (listing : TimersListed armed taken s)
    (looked : Looks s pid woke after) : TimersListed armed taken after := by
  cases looked with
  | absent missing => exact listing
  | busy found awake => exact listing
  | @nothing p found waits rejected =>
      have changed : TimersListed armed taken (s.put pid { p with
          mailbox := .empty, saved := p.saved.pushAll p.mailbox.toList }) :=
        listing.of_same rfl rfl rfl (timeout?_put found rfl)
      rw [recordSetAside_eq]
      exact changed.elsewhere rfl rfl rfl
  | @resumed p before message rest entry machine found waits divided rejected accepted goesOn =>
      have cleared : TimersListed armed taken (((s.put pid { p with
          mailbox := .ofList rest
          saved := .empty
          timeout := none
          machine }).dropTimeout p.timeout).recordSetAside pid before) :=
        listing.clear (cancels_setAside found rfl before)
      exact cleared.elsewhere rfl rfl rfl
  | @failed p before message rest entry cause found waits divided rejected accepted faults =>
      have cleared : TimersListed armed taken (((s.put pid { p with
          mailbox := .ofList rest
          saved := .empty
          timeout := none }).dropTimeout p.timeout).recordSetAside pid before) :=
        listing.clear (cancels_setAside found rfl before)
      exact cleared.die pid (.string cause.reasonText)

theorem timeoutId?_of_awaits {timer : Timer} (awaited : s.awaits timer = true) :
    s.timeoutId? timer.pid = some timer.id := by
  unfold awaits at awaited
  cases found : s.find? timer.pid with
  | none =>
      rw [found] at awaited
      cases awaited
  | some p =>
      rw [found, Bool.and_eq_true, beq_iff_eq] at awaited
      rw [timeoutId?_eq found]
      exact awaited.2

/-- A process that does not go on when it looks at its mail waits as before, or is gone. -/
theorem Looks.timeoutId? (looked : Looks s pid false after) :
    after.timeoutId? pid = s.timeoutId? pid ∨ after.timeoutId? pid = none := by
  cases looked with
  | absent missing => exact .inl rfl
  | busy found awake => exact .inl rfl
  | @nothing p found waits rejected =>
      have same : ∀ other, (s.put pid { p with
          mailbox := .empty
          saved := p.saved.pushAll p.mailbox.toList }).timeout? other = s.timeout? other :=
        timeout?_put found rfl
      rw [recordSetAside_eq]
      exact .inl (timeoutId?_congr (same pid))
  | failed found waits divided rejected accepted faults =>
      exact .inr (timeoutId?_of_missing (find?_die_self _ _ _))

/-- The wait of a process ends at a timer that was taken. That timer is not in the heap any more, so
there is none to cancel. -/
theorem TimersListed.timeOut {timer : Timer} (listing : TimersListed armed taken s)
    (isTaken : timer ∈ taken)
    (pending : s.timeoutId? pid = some timer.id ∨ s.timeoutId? pid = none) :
    TimersListed armed taken (s.timeOut pid) := by
  have unlisted : ∀ other ∈ s.timers, s.timeoutId? pid ≠ some other.id := by
    intro other member isPending
    obtain ⟨isArmed, notTaken, _⟩ := (listing.listed other).1 member
    rcases pending with own | idle
    · have same := Option.some.inj (isPending.symm.trans own)
      rw [listing.eq_of_id_eq isArmed (listing.takenArmed timer isTaken) same] at notTaken
      exact notTaken isTaken
    · rw [idle] at isPending
      cases isPending
  have cancels : ∀ {p : Process} (q : Process), s.find? pid = some p → q.timeout = none →
      Cancels s pid (s.put pid q) := by
    intro p q found idle
    refine ⟨?_, ?_, ⟨p, found, ?_⟩, rfl, rfl⟩
    · intro r foundAfter
      rw [find?_put_self found] at foundAfter
      cases foundAfter
      exact idle
    · intro other different
      rw [find?_put found, if_neg different]
    · rw [timers_dropTimeout]
      refine (List.filter_eq_self.2 fun other member => decide_eq_true ?_).symm
      exact fun isOwn => unlisted other member ((listing.flags.flag_iff found member).1 isOwn)
  have timed := timeOut_timesOut s pid
  generalize s.timeOut pid = after at timed ⊢
  cases timed with
  | kept unarmed => exact listing
  | resumed found armed waits goesOn =>
      exact (listing.clear (cancels _ found rfl)).elsewhere rfl rfl rfl
  | @failed p timeout found isArmed awake =>
      have cleared : TimersListed armed taken ((s.put pid { p with
          timeout := none
          saved := .empty }).redeliver pid p.saved.toList) :=
        (listing.clear (cancels _ found rfl)).elsewhere rfl rfl rfl
      exact cleared.die pid _

theorem TimersListed.expire {timer : Timer} (listing : TimersListed armed taken s)
    (isTaken : timer ∈ taken) (expired : s.expire timer = some after) :
    TimersListed armed taken after := by
  rcases expire_cases expired with ⟨_, rfl⟩ | ⟨awaited, woke, middle, checked, rfl⟩
  · exact listing
  · have current : TimersListed armed taken { s with current := some timer.pid } :=
      listing.elsewhere rfl rfl rfl
    have looked := checkMail_looks checked
    have listingAfter := current.looks looked
    cases woke with
    | true => exact listingAfter.elsewhere rfl rfl rfl
    | false =>
        have own := timeoutId?_of_awaits awaited
        refine listingAfter.timeOut isTaken (looked.timeoutId?.imp_left fun same => ?_)
        exact same.trans own

/-- A timer that is taken out of the heap does not come again. -/
theorem TimersListed.popDue {now : Number} {timer : Timer} (listing : TimersListed armed taken s)
    (due : s.popDue? now = (some timer, after)) : TimersListed armed (timer :: taken) after := by
  obtain ⟨heap, rfl, first, _, sameFlags⟩ := popDue?_eq due
  have ordered := listing.ordered
  rw [first, List.pairwise_cons] at ordered
  have notAgain : timer ∉ heap.live := by
    intro again
    have isBefore := ordered.1 timer again
    rw [Timer.before_iff] at isBefore
    simp at isBefore
  have isListed := listing.listed
  simp only [first, List.mem_cons] at isListed
  have flags : FlagsMatch { s with heap } := by
    refine ⟨(congrArg Array.size sameFlags).trans listing.flags.armed, ?_, listing.flags.pending⟩
    intro other member
    refine listing.flags.timer other ?_
    rw [first]
    exact List.mem_cons_of_mem _ member
  refine ⟨?_, ordered.2, listing.numbered, listing.bounded, ?_, listing.owned, flags⟩
  · intro other
    change other ∈ heap.live ↔ _ ∧ _ ∧ s.timeoutId? other.pid = some other.id
    rw [List.mem_cons, not_or]
    constructor
    · intro member
      obtain ⟨isArmed, notTaken, pending⟩ := (isListed other).1 (.inr member)
      exact ⟨isArmed, ⟨fun same => notAgain (same ▸ member), notTaken⟩, pending⟩
    · intro ⟨isArmed, ⟨different, notTaken⟩, pending⟩
      exact ((isListed other).2 ⟨isArmed, notTaken, pending⟩).resolve_left different
  · intro other isTaken
    rcases List.mem_cons.1 isTaken with rfl | isTaken
    · exact ((isListed other).1 (.inl rfl)).1
    · exact listing.takenArmed other isTaken

/-- What the book of timers says holds after every history. -/
theorem Timed.timersListed (timed : Timed armed taken s) : TimersListed armed taken s := by
  induction timed with
  | start memory => exact timersListed_empty memory
  | spawn f _ ih => exact ih.of_same rfl rfl rfl (timeout?_spawn _ f)
  | addTimeout deadline entry _ live ih =>
      obtain ⟨p, found⟩ := (isLive_iff _ _).1 live
      exact ih.addTimeout found deadline entry
  | cancel _ found ih => exact ih.clear (cancels_put found rfl)
  | checkMail _ checked ih => exact ih.looks (checkMail_looks checked)
  | die pid reason _ ih => exact ih.die pid reason
  | put _ found same ih => exact ih.of_same rfl rfl rfl (timeout?_put found same)
  | elsewhere _ sameProcesses sameHeap sameArmed ih =>
      exact ih.elsewhere sameProcesses sameHeap sameArmed
  | prune _ ih => exact ih.prune
  | popDue _ due ih => exact ih.popDue due
  | expire _ isTaken expired ih => exact ih.expire isTaken expired

end TimersListed

/-! ### Taking all timers that are due -/

/-- The timers that come when the next one that is due is taken again and again. -/
def takeDue (s : Scheduler) (now : Number) : List Timer :=
  match _due : s.popDue? now with
  | (none, _) => []
  | (some timer, rest) => timer :: rest.takeDue now
termination_by s.timers.length
decreasing_by
  obtain ⟨heap, rfl, first, _⟩ := popDue?_eq _due
  rw [first]
  exact Nat.lt_succ_self _

/-- The timers in front that are due are taken. -/
theorem takeDue_eq (s : Scheduler) (now : Number) :
    s.takeDue now = s.timers.takeWhile (Timer.isDue now) := by
  fun_induction takeDue s now with
  | case1 s _ none =>
      have notDue := (popDue?_none none).2
      cases isTimers : s.timers with
      | nil => rfl
      | cons timer timers =>
          rw [isTimers] at notDue
          have isLate : ¬Timer.isDue now timer = true := Bool.eq_false_iff.1 (notDue timer rfl)
          rw [List.takeWhile_cons_of_neg isLate]
  | case2 s timer rest due ih =>
      obtain ⟨heap, rfl, first, past, _⟩ := popDue?_eq due
      have isDue : Timer.isDue now timer = true := past
      rw [ih, first, List.takeWhile_cons_of_pos isDue]
      rfl

/-- No timer that is due stands behind one that is not. -/
theorem mem_takeWhile_isDue {timers : List Timer} {now : Number}
    (ordered : timers.Pairwise fun a b => a.before b = true)
    (numbers : ∀ timer ∈ timers, timer.deadline.isNaN = false) {timer : Timer} :
    timer ∈ timers.takeWhile (Timer.isDue now) ↔ timer ∈ timers ∧ timer.isDue now = true := by
  induction timers with
  | nil => exact ⟨nofun, nofun⟩
  | cons first rest ih =>
      obtain ⟨firstBefore, restOrdered⟩ := List.pairwise_cons.1 ordered
      have further := ih restOrdered fun other member =>
        numbers other (List.mem_cons_of_mem _ member)
      by_cases past : Timer.isDue now first = true
      · rw [List.takeWhile_cons_of_pos past, List.mem_cons, List.mem_cons, further]
        constructor
        · rintro (rfl | ⟨member, isPast⟩)
          · exact ⟨.inl rfl, past⟩
          · exact ⟨.inr member, isPast⟩
        · rintro ⟨rfl | member, isPast⟩
          · exact .inl rfl
          · exact .inr ⟨member, isPast⟩
      · rw [List.takeWhile_cons_of_neg past]
        refine ⟨nofun, fun ⟨member, isPast⟩ => absurd ?_ past⟩
        rcases List.mem_cons.1 member with rfl | later
        · exact isPast
        · have earlier := Timer.rank_le_of_before (firstBefore timer later)
          exact Number.atMost_of_rank_le earlier (numbers first List.mem_cons_self) isPast

/-- The timers that are taken are those that are due among the ones that were armed, not taken
before and not cancelled, which are those in the heap whose flag is not set. Each comes once, by
deadline and then in the order of arming. -/
theorem Timed.takeDue {armed taken : List Timer} {s : Scheduler} (timed : Timed armed taken s)
    (numbers : ∀ timer ∈ armed, timer.deadline.isNaN = false) (now : Number) :
    (∀ timer, timer ∈ s.takeDue now ↔ timer ∈ armed ∧ timer ∉ taken ∧
      s.timeoutId? timer.pid = some timer.id ∧ timer.isDue now = true) ∧
    (∀ timer, timer ∈ s.takeDue now ↔ timer ∈ s.heap.entries ∧
      s.heap.isSet timer.canceled = false ∧ timer.isDue now = true) ∧
    (s.takeDue now).Nodup ∧ (s.takeDue now).Pairwise fun a b => a.before b = true := by
  have listing := timed.timersListed
  have isNumber : ∀ timer ∈ s.timers, timer.deadline.isNaN = false := fun timer member =>
    numbers timer ((listing.listed timer).1 member).1
  have ordered := listing.ordered.sublist (List.takeWhile_sublist (Timer.isDue now))
  rw [takeDue_eq]
  refine ⟨?_, ?_, ordered.imp ?_, ordered⟩
  · intro timer
    rw [mem_takeWhile_isDue listing.ordered isNumber, listing.listed, and_assoc, and_assoc]
  · intro timer
    rw [mem_takeWhile_isDue listing.ordered isNumber, timers, mem_live, and_assoc]
  · rintro a b isBefore rfl
    simp [Timer.before_iff] at isBefore

end Scheduler

end ActorMachine
