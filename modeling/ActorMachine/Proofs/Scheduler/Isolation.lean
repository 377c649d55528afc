import ActorMachine.Proofs.Scheduler.Bystanders
import ActorMachine.Proofs.Scheduler.Mail

set_option autoImplicit false

/-!
What work on one process leaves alone.

Whatever is done for a process, others keep all but their links, or they end. The queue grows only
at its end: a message that is sent, a slice, and the slice of a process that is made all go behind
what is there. `Confined` says so for one change of a scheduler, and changes are put together by
`Confined.trans`.
-/

namespace ActorMachine

/-- The journal has the end of a process among these events. -/
def DiedIn (events : List Event) (pid : ProcessId) : Prop :=
  ∃ reason text, .died pid reason text ∈ events

theorem DiedIn.mono {events more : List Event} {pid : ProcessId} (died : DiedIn events pid)
    (subset : events ⊆ more) : DiedIn more pid := by
  obtain ⟨reason, text, member⟩ := died
  exact ⟨reason, text, subset member⟩

namespace Scheduler

/-- A change that is confined to the process `me`, with the events that it enters. -/
structure Confined (me : ProcessId) (s after : Scheduler) (events : List Event) : Prop where
  journal : after.journal = events ++ s.journal
  unsliced : ∀ pid, .sliced pid ∉ events
  queue : ∃ appended, after.queue.toList = s.queue.toList ++ appended
  next_le : s.processes.nextPid ≤ after.processes.nextPid
  survivor : ∀ pid q, pid < s.processes.nextPid → after.find? pid = some q →
    ∃ p, s.find? pid = some p ∧ (pid ≠ me → q = { p with links := q.links })
  ended : ∀ pid p, s.find? pid = some p → after.find? pid = none → DiedIn events pid
  born : ∀ pid, s.processes.nextPid ≤ pid → pid < after.processes.nextPid →
    (after.isLive pid = true ∧ .run pid ∈ after.queue.toList) ∨
      (after.isLive pid = false ∧ DiedIn events pid)

section Confined

variable {me pid : ProcessId} {s middle after : Scheduler} {events earlier : List Event}
  {p : Process}

/-- Nobody comes back. -/
theorem Confined.stays_dead (confined : Confined me s after events)
    (old : pid < s.processes.nextPid) (dead : s.isLive pid = false) :
    after.isLive pid = false := by
  rw [isLive_eq_false_iff] at dead ⊢
  cases found : after.find? pid with
  | none => rfl
  | some q =>
      obtain ⟨p, foundBefore, _⟩ := confined.survivor pid q old found
      rw [dead] at foundBefore
      cases foundBefore

theorem Confined.lives_or_died (confined : Confined me s after events)
    (live : s.isLive pid = true) :
    after.isLive pid = true ∨ (after.isLive pid = false ∧ DiedIn events pid) := by
  obtain ⟨p, found⟩ := (isLive_iff _ _).1 live
  cases after' : after.isLive pid with
  | true => exact .inl rfl
  | false => exact .inr ⟨rfl, confined.ended pid p found ((isLive_eq_false_iff _ _).1 after')⟩

theorem Confined.trans (first : Confined me s middle earlier)
    (second : Confined me middle after events) : Confined me s after (events ++ earlier) where
  journal := by rw [second.journal, first.journal, List.append_assoc]
  unsliced := by
    intro pid member
    rcases List.mem_append.1 member with later | early
    · exact second.unsliced pid later
    · exact first.unsliced pid early
  queue := by
    obtain ⟨early, firstQueue⟩ := first.queue
    obtain ⟨late, secondQueue⟩ := second.queue
    exact ⟨early ++ late, by rw [secondQueue, firstQueue, List.append_assoc]⟩
  next_le := Nat.le_trans first.next_le second.next_le
  survivor := by
    intro pid r old found
    obtain ⟨q, foundMiddle, right⟩ :=
      second.survivor pid r (Nat.lt_of_lt_of_le old first.next_le) found
    obtain ⟨p, foundFirst, left⟩ := first.survivor pid q old foundMiddle
    refine ⟨p, foundFirst, ?_⟩
    intro other
    rw [right other, left other]
  ended := by
    intro pid p found gone
    cases foundMiddle : middle.find? pid with
    | none => exact (first.ended pid p found foundMiddle).mono (List.subset_append_right _ _)
    | some q => exact (second.ended pid q foundMiddle gone).mono (List.subset_append_left _ _)
  born := by
    intro pid fresh old
    by_cases early : pid < middle.processes.nextPid
    · rcases first.born pid fresh early with ⟨live, queued⟩ | ⟨dead, died⟩
      · obtain ⟨late, queue⟩ := second.queue
        rcases second.lives_or_died live with stillLive | ⟨nowDead, died⟩
        · refine .inl ⟨stillLive, ?_⟩
          rw [queue]
          exact List.mem_append_left _ queued
        · exact .inr ⟨nowDead, died.mono (List.subset_append_left _ _)⟩
      · exact .inr ⟨second.stays_dead early dead, died.mono (List.subset_append_right _ _)⟩
    · rcases second.born pid (Nat.le_of_not_lt early) old with alive | ⟨dead, died⟩
      · exact .inl alive
      · exact .inr ⟨dead, died.mono (List.subset_append_left _ _)⟩

/-! ### Small changes -/

/-- Tasks are queued and events entered, and processes stay as they are. -/
theorem confined_of_processes_eq {tasks : List Task}
    (sameProcesses : after.processes = s.processes)
    (queue : after.queue.toList = s.queue.toList ++ tasks)
    (journal : after.journal = events ++ s.journal) (unsliced : ∀ pid, .sliced pid ∉ events) :
    Confined me s after events := by
  have sameFound : ∀ pid, after.find? pid = s.find? pid := by
    intro pid
    simp only [find?, sameProcesses]
  have sameNext : after.processes.nextPid = s.processes.nextPid := by rw [sameProcesses]
  constructor
  · exact journal
  · exact unsliced
  · exact ⟨tasks, queue⟩
  · exact Nat.le_of_eq sameNext.symm
  · intro pid q _ found
    rw [sameFound] at found
    exact ⟨q, found, fun _ => rfl⟩
  · intro pid p found gone
    rw [sameFound, found] at gone
    cases gone
  · intro pid fresh old
    exact absurd (Nat.lt_of_lt_of_eq old sameNext) (Nat.not_lt.2 fresh)

theorem confined_of_eq (sameProcesses : after.processes = s.processes)
    (sameQueue : after.queue = s.queue) (sameJournal : after.journal = s.journal) :
    Confined me s after [] := by
  have queue : after.queue.toList = s.queue.toList ++ [] := by rw [sameQueue, List.append_nil]
  exact confined_of_processes_eq sameProcesses queue sameJournal fun _ => nofun

/-- A process is replaced: the one at work by any, another by one that differs in its links. -/
theorem confined_put (found : s.find? pid = some p) {q : Process}
    (linksOnly : pid ≠ me → q = { p with links := q.links }) :
    Confined me s (s.put pid q) [] := by
  constructor
  · rfl
  · exact fun _ => nofun
  · exact ⟨[], (List.append_nil _).symm⟩
  · exact Nat.le_of_eq (ProcessTable.nextPid_put _ _ _).symm
  · intro other r _ foundAfter
    rcases find?_put_cases found foundAfter with ⟨rfl, rfl⟩ | ⟨_, foundBefore⟩
    · exact ⟨p, found, linksOnly⟩
    · exact ⟨r, foundBefore, fun _ => rfl⟩
  · intro other r foundBefore gone
    rw [find?_put found] at gone
    by_cases same : pid = other
    · rw [if_pos same] at gone
      cases gone
    · rw [if_neg same, foundBefore] at gone
      cases gone
  · intro other fresh old
    have next : (s.put pid q).processes.nextPid = s.processes.nextPid :=
      ProcessTable.nextPid_put _ _ _
    exact absurd (Nat.lt_of_lt_of_eq old next) (Nat.not_lt.2 fresh)

theorem confined_own {p : Process} (found : s.find? me = some p) (q : Process) :
    Confined me s (s.put me q) [] :=
  confined_put found fun other => absurd rfl other

theorem confined_update (s : Scheduler) {f : Process → Process}
    (linksOnly : ∀ p, pid ≠ me → f p = { p with links := (f p).links }) :
    Confined me s (s.update pid f) [] := by
  unfold update
  cases found : s.find? pid with
  | none => exact confined_of_eq rfl rfl rfl
  | some p => exact confined_put found (linksOnly p)

theorem confined_send (s : Scheduler) (receiver : ProcessId) (message : Value) :
    Confined me s (s.send receiver message) [.sent receiver message] := by
  refine confined_of_processes_eq rfl (Fifo.toList_push _ _) rfl ?_
  intro pid member
  cases List.mem_singleton.1 member

theorem confined_enqueue (s : Scheduler) (pid : ProcessId) : Confined me s (s.enqueue pid) [] :=
  confined_of_processes_eq rfl (Fifo.toList_push _ _) rfl fun _ => nofun

theorem confined_redeliver (s : Scheduler) (pid : ProcessId) (messages : List Value) :
    Confined me s (s.redeliver pid messages) [] :=
  confined_of_processes_eq rfl (Fifo.toList_pushAll _ _) rfl fun _ => nofun

theorem confined_record (s : Scheduler) {event : Event} (unsliced : ∀ pid, event ≠ .sliced pid) :
    Confined me s (s.record event) [event] := by
  refine confined_of_processes_eq rfl (List.append_nil _).symm rfl ?_
  intro pid member
  exact unsliced pid (List.mem_singleton.1 member).symm

theorem confined_recordSetAside (s : Scheduler) (pid : ProcessId) (messages : List Value) :
    Confined me s (s.recordSetAside pid messages) (messages.map (.setAside pid)).reverse := by
  rw [recordSetAside_eq]
  refine confined_of_processes_eq rfl (List.append_nil _).symm rfl ?_
  intro other member
  obtain ⟨message, _, impossible⟩ := List.mem_map.1 (List.mem_reverse.1 member)
  cases impossible

theorem confined_dropTimeout (s : Scheduler) (timeout : Option PendingTimeout) :
    Confined me s (s.dropTimeout timeout) [] := by
  rw [dropTimeout_eq]
  exact confined_of_eq rfl rfl rfl

theorem confined_spawn (s : Scheduler) (f : Closure) :
    Confined me s (s.spawn f).2 [.spawned s.processes.nextPid] := by
  have next : (s.spawn f).2.processes.nextPid = s.processes.nextPid + 1 :=
    ProcessTable.nextPid_add _ _
  have queue : (s.spawn f).2.queue.toList = s.queue.toList ++ [.run s.processes.nextPid] :=
    Fifo.toList_push _ _
  constructor
  · rfl
  · intro pid member
    cases List.mem_singleton.1 member
  · exact ⟨_, queue⟩
  · rw [next]
    exact Nat.le_succ _
  · intro pid q old found
    rcases find?_spawn_cases found with ⟨isNew, _⟩ | ⟨_, foundBefore⟩
    · exact absurd isNew (Nat.ne_of_lt old)
    · exact ⟨q, foundBefore, fun _ => rfl⟩
  · intro pid p found gone
    have old := lt_nextPid found
    rw [find?_spawn, if_neg (Nat.ne_of_lt old), found] at gone
    cases gone
  · intro pid fresh old
    rw [next] at old
    obtain rfl : pid = s.processes.nextPid := Nat.le_antisymm (Nat.le_of_lt_succ old) fresh
    refine .inl ⟨?_, ?_⟩
    · rw [isLive_iff]
      exact ⟨_, (find?_spawn s _ f).trans (if_pos rfl)⟩
    · rw [queue]
      exact List.mem_append_right _ List.mem_cons_self

/-! ### Ends of processes -/

theorem confined_beginDeath (s : Scheduler) (pid : ProcessId) (p : Process) (reason : Value) :
    Confined me s (s.beginDeath pid p reason).2
      [.died pid reason (s.store.render reason)] := by
  have next : (s.beginDeath pid p reason).2.processes.nextPid = s.processes.nextPid :=
    (deathFrame_beginDeath s pid p reason).nextPid_eq
  constructor
  · simp [beginDeath, dropTimeout_eq, record]
  · intro other member
    cases List.mem_singleton.1 member
  · exact ⟨[], by simp [beginDeath, dropTimeout_eq, record]⟩
  · exact Nat.le_of_eq next.symm
  · intro other q _ found
    rw [find?_beginDeath] at found
    by_cases same : pid = other
    · rw [if_pos same] at found
      cases found
    · rw [if_neg same] at found
      exact ⟨q, found, fun _ => rfl⟩
  · intro other q found gone
    rw [find?_beginDeath] at gone
    by_cases same : pid = other
    · subst same
      exact ⟨reason, _, List.mem_cons_self⟩
    · rw [if_neg same, found] at gone
      cases gone
  · intro other fresh old
    exact absurd (Nat.lt_of_lt_of_eq old next) (Nat.not_lt.2 fresh)

theorem Walk.Next.confined (me : ProcessId) {walk after : Walk} (next : walk.Next after) :
    ∃ events, Confined me walk.scheduler after.scheduler events := by
  cases next with
  | finished ended => exact ⟨[], confined_of_eq rfl rfl rfl⟩
  | gone followed missing => exact ⟨[], confined_of_eq rfl rfl rfl⟩
  | @told s dying below dead notices peer links p told followed found traps notice =>
      subst notice
      have unlinked : Confined me s (s.put peer (p.removeLink dying.pid)) [] :=
        confined_put found fun _ => rfl
      have noticed : Confined me (s.put peer (p.removeLink dying.pid))
          ((s.put peer (p.removeLink dying.pid)).onStore
            (Dying.notice { dying with links })).2 [] := confined_of_eq rfl rfl rfl
      exact ⟨_, (unlinked.trans noticed).trans (confined_send _ _ _)⟩
  | spared followed found exposed normal => exact ⟨[], confined_put found fun _ => rfl⟩
  | dragged followed found exposed abnormal => exact ⟨_, confined_beginDeath _ _ _ _⟩

/-- A death is nobody's work: those who survive it lose links at most. -/
theorem confined_die (me : ProcessId) (s : Scheduler) (pid : ProcessId) (reason : Value) :
    ∃ events, Confined me s (s.die pid reason) events := by
  apply die_keeps fun after => ∃ events, Confined me s after events
  · rintro walk after next ⟨earlier, confined⟩
    obtain ⟨events, followed⟩ := next.confined me
    exact ⟨_, confined.trans followed⟩
  · exact ⟨[], confined_of_eq rfl rfl rfl⟩
  · exact fun p _ => ⟨_, confined_beginDeath s pid p reason⟩

theorem Confined.die (confined : Confined me s after events) (pid : ProcessId) (reason : Value) :
    ∃ events, Confined me s (after.die pid reason) events := by
  obtain ⟨later, ended⟩ := confined_die me after pid reason
  exact ⟨_, confined.trans ended⟩

/-! ### Links and timeouts -/

theorem confined_link (s : Scheduler) (a b : ProcessId) : Confined me s (s.link a b).2 [] := by
  have linksOnly : ∀ (peer : ProcessId) (p : Process),
      p.addLink peer = { p with links := (p.addLink peer).links } :=
    fun peer p => p.addLink_eq peer
  unfold link
  split
  · exact confined_of_eq rfl rfl rfl
  · split
    · exact (confined_update s fun p _ => linksOnly b p).trans
        (confined_update _ fun p _ => linksOnly a p)
    · exact confined_of_eq rfl rfl rfl

theorem confined_unlink (s : Scheduler) (a b : ProcessId) : Confined me s (s.unlink a b) [] :=
  (confined_update s fun _ _ => rfl).trans (confined_update _ fun _ _ => rfl)

theorem confined_addTimeout (s : Scheduler) (me : ProcessId) (deadline : Number)
    (entry : Template) : Confined me s (s.addTimeout me deadline entry) [] := by
  cases found : s.find? me with
  | none =>
      unfold addTimeout
      rw [found]
      exact confined_of_eq rfl rfl rfl
  | some p =>
      let waiting : Process :=
        { p with timeout := some ⟨s.armed + 1, entry, ⟨s.heap.flags.size⟩⟩ }
      have armed : Confined me (s.put me waiting) (s.addTimeout me deadline entry) [] := by
        rw [addTimeout_of_found found]
        exact confined_of_eq rfl rfl rfl
      exact (confined_own found waiting).trans armed

/-! ### Mail and slices -/

theorem Looks.confined {woke : Bool} (looked : Looks s me woke after) :
    ∃ events, Confined me s after events := by
  cases looked with
  | absent missing => exact ⟨[], confined_of_eq rfl rfl rfl⟩
  | busy found awake => exact ⟨[], confined_of_eq rfl rfl rfl⟩
  | nothing found waits rejected =>
      exact ⟨_, (confined_own found _).trans (confined_recordSetAside _ _ _)⟩
  | resumed found waits divided rejected accepted goesOn =>
      exact ⟨_, ((((confined_own found _).trans (confined_dropTimeout _ _)).trans
        (confined_recordSetAside _ _ _)).trans (confined_redeliver _ _ _)).trans
          (confined_record _ fun _ => nofun)⟩
  | failed found waits divided rejected accepted faults =>
      exact (((confined_own found _).trans (confined_dropTimeout _ _)).trans
        (confined_recordSetAside _ _ _)).die me _

theorem confined_wake (woken : s.wake me = some after) :
    ∃ events, Confined me s after events := by
  rcases wake_cases woken with checked | ⟨middle, checked, rfl⟩
  · exact (checkMail_looks checked).confined
  · obtain ⟨events, confined⟩ := (checkMail_looks checked).confined
    exact ⟨_, confined.trans (confined_enqueue _ _)⟩

theorem confined_deliver {message : Value} (delivered : s.deliver me message = some after) :
    ∃ events, Confined me s after events := by
  rcases deliver_cases delivered with ⟨_, rfl⟩ | ⟨p, found, woken⟩
  · exact ⟨[], confined_of_eq rfl rfl rfl⟩
  · have current : Confined me s { s with current := some me } [] := confined_of_eq rfl rfl rfl
    have filled : Confined me { s with current := some me }
        ({ s with current := some me }.put me (p.deliver message)) [] :=
      confined_own (s := { s with current := some me }) found _
    obtain ⟨events, confined⟩ := confined_wake woken
    exact ⟨_, (current.trans filled).trans confined⟩

theorem confined_timeOut (s : Scheduler) (me : ProcessId) :
    ∃ events, Confined me s (s.timeOut me) events := by
  have timed := timeOut_timesOut s me
  generalize s.timeOut me = after at timed ⊢
  cases timed with
  | kept unarmed => exact ⟨[], confined_of_eq rfl rfl rfl⟩
  | resumed found armed waits goesOn =>
      exact ⟨_, (((confined_own found _).trans (confined_redeliver _ _ _)).trans
        (confined_enqueue _ _)).trans (confined_record _ fun _ => nofun)⟩
  | failed found armed awake =>
      exact ((confined_own found _).trans (confined_redeliver _ _ _)).die me _

theorem confined_expire {timer : Timer} (expired : s.expire timer = some after) :
    ∃ events, Confined timer.pid s after events := by
  rcases expire_cases expired with ⟨_, rfl⟩ | ⟨_, woke, middle, checked, rfl⟩
  · exact ⟨[], confined_of_eq rfl rfl rfl⟩
  · have current : Confined timer.pid s { s with current := some timer.pid } [] :=
      confined_of_eq rfl rfl rfl
    obtain ⟨events, looked⟩ := (checkMail_looks checked).confined
    cases woke with
    | true => exact ⟨_, (current.trans looked).trans (confined_enqueue _ _)⟩
    | false =>
        obtain ⟨later, timedOut⟩ := confined_timeOut middle timer.pid
        exact ⟨_, (current.trans looked).trans timedOut⟩

theorem confined_endSlice (ended : s.endSlice me = some after) :
    ∃ events, Confined me s after events := by
  rcases endSlice_cases ended with ⟨rfl, _⟩ | ⟨p, _, ⟨_, rfl⟩ | ⟨_, woken⟩⟩
  · exact ⟨[], confined_of_eq rfl rfl rfl⟩
  · exact ⟨[], confined_enqueue s me⟩
  · exact confined_wake woken

end Confined

end Scheduler

end ActorMachine
