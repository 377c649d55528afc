import ActorMachine.Proofs.Scheduler.Cascade

set_option autoImplicit false

/-!
What the end of a process comes to.

Beside the graph of links, a cascade keeps accounts: a death in the journal for every process that
ends, the timers of the dead disarmed, and a queued message for every process that is told. Main
statement: `die_cascade`, which says all that the end of a process changes in a scheduler whose
links agree.
-/

namespace ActorMachine.Scheduler

/-- The message that tells of an end, `(exit snapshot reason)`. -/
def exitTree (snapshot : Tree) (reason : Value) : Tree :=
  .list [.leaf (.symbol "exit"), snapshot, .leaf reason]

/-- What the process `notice.2` is told when `notice.1` ends. -/
def exitMessage (s : Scheduler) (reason : Value) (notice : ProcessId × ProcessId) :
    Option (ProcessId × Tree) :=
  (s.find? notice.1).map fun p =>
    (notice.2, exitTree (p.machine.snapshotTree notice.1 s.store) reason)

/-- A task delivers what there is to tell. -/
def Conveys (s : Scheduler) (reason : Value) (store : Store) (notice : ProcessId × ProcessId)
    (task : Task) : Prop :=
  ∃ message receiver tree, task = .deliver receiver message ∧
    s.exitMessage reason notice = some (receiver, tree) ∧ store.Spells message tree

theorem Conveys.mono {s : Scheduler} {reason : Value} {before after : Store}
    (grown : before.Grows after) {notice : ProcessId × ProcessId} {task : Task}
    (conveys : s.Conveys reason before notice task) : s.Conveys reason after notice task := by
  obtain ⟨message, receiver, tree, isTask, isMessage, spelled⟩ := conveys
  exact ⟨message, receiver, tree, isTask, isMessage, spelled.mono grown⟩

theorem snapshotTree_eq {before after : Store} (grown : before.Grows after) (m : Machine)
    (pid : ProcessId) : m.snapshotTree pid after = m.snapshotTree pid before := by
  unfold Machine.snapshotTree Return.tree
  simp only [grown.envTree_eq]

/-- A notice holds the snapshot, the one taken before if there is one. -/
theorem Dying.spells_notice (dying : Dying) (store : Store) (tree : Tree)
    (earlier : ∀ v, dying.snapshot = some v → store.Spells v tree)
    (now : tree = dying.machine.snapshotTree dying.pid store) :
    (dying.notice store).2.Spells (dying.notice store).1.1 tree ∧
      (dying.notice store).2.Spells (dying.notice store).1.2 (exitTree tree dying.reason) := by
  have viewed : (dying.view store).2.Spells (dying.view store).1 tree := by
    unfold Dying.view
    cases known : dying.snapshot with
    | none =>
        rw [now]
        exact dying.machine.spells_snapshot dying.pid store
    | some v => exact earlier v known
  let view := dying.view store
  have grown := view.2.grows_list [.symbol "exit", view.1, dying.reason]
  have tag := view.2.spells_leaf (.symbol "exit")
  have reason := view.2.spells_leaf dying.reason
  exact ⟨viewed.mono grown, Store.spells_list (.cons tag (.cons viewed (.cons reason .nil)))⟩

/-! ### The accounts of the walk -/

/-- The journal, the timers and the queue of a walk since the first process ended. -/
structure Accounted (origin : Scheduler) (reason : Value) (walk : Walk) : Prop where
  frame : DeathFrame origin walk.scheduler
  snapshot : ∀ dying ∈ walk.stack, ∀ v, dying.snapshot = some v →
    ∀ p, origin.find? dying.pid = some p →
      walk.scheduler.store.Spells v (p.machine.snapshotTree dying.pid origin.store)
  deaths : ∃ events, walk.scheduler.journal = events ++ origin.journal ∧
    events.filterMap Event.death? = walk.dead.map fun d => (d, reason)
  timers : walk.scheduler.timers =
    origin.timers.filter fun timer => some timer.canceled ∉ walk.dead.map origin.timeoutFlag?
  queue : ∃ tasks, walk.scheduler.queue.toList = origin.queue.toList ++ tasks ∧
    List.Forall₂ (origin.Conveys reason walk.scheduler.store) walk.notices tasks

theorem Accounted.start {origin : Scheduler} {pid : ProcessId} {p : Process}
    (found : origin.find? pid = some p) (reason : Value) :
    Accounted origin reason ⟨(origin.beginDeath pid p reason).2,
      [(origin.beginDeath pid p reason).1], [pid], []⟩ where
  frame := deathFrame_beginDeath _ _ _ _
  snapshot := by
    intro dying member v known
    rw [List.mem_singleton] at member
    subst member
    cases known
  deaths := by
    refine ⟨[.died pid reason (origin.store.render reason)], ?_, rfl⟩
    simp [beginDeath, dropTimeout_eq, record]
  timers := by
    have own : origin.timeoutFlag? pid = p.timeout.map (·.canceled) := by
      simp [timeoutFlag?, timeout?, found]
    change (origin.dropTimeout p.timeout).timers = _
    rw [timers_dropTimeout, List.map_singleton, own]
    refine List.filter_congr fun timer _ => decide_eq_decide.2 (not_congr ?_)
    rw [List.mem_singleton, eq_comm]
  queue := by
    refine ⟨[], ?_, .nil⟩
    simp [beginDeath, dropTimeout_eq, record]

/-- A step that changes only the table of processes and pops links. -/
theorem Accounted.same {origin : Scheduler} {reason : Value} {walk : Walk}
    (accounted : Accounted origin reason walk) {after : Scheduler} {stack : List Dying}
    (frame : DeathFrame walk.scheduler after) (sameStore : after.store = walk.scheduler.store)
    (sameQueue : after.queue = walk.scheduler.queue)
    (sameTimers : after.timers = walk.scheduler.timers)
    (sameJournal : after.journal = walk.scheduler.journal)
    (sameStack : ∀ dying ∈ stack, ∃ old ∈ walk.stack,
      dying.pid = old.pid ∧ dying.snapshot = old.snapshot) :
    Accounted origin reason ⟨after, stack, walk.dead, walk.notices⟩ where
  frame := accounted.frame.trans frame
  snapshot := by
    intro dying member v known p found
    obtain ⟨old, oldMember, samePid, sameSnapshot⟩ := sameStack dying member
    rw [samePid] at found
    rw [sameSnapshot] at known
    have spelled := accounted.snapshot old oldMember v known p found
    rw [← samePid, ← sameStore] at spelled
    exact spelled
  deaths := by
    obtain ⟨events, journal, deaths⟩ := accounted.deaths
    exact ⟨events, sameJournal.trans journal, deaths⟩
  timers := sameTimers.trans accounted.timers
  queue := by
    obtain ⟨tasks, queue, conveyed⟩ := accounted.queue
    refine ⟨tasks, ?_, ?_⟩
    · rw [← queue]
      exact congrArg Fifo.toList sameQueue
    · rw [← sameStore] at conveyed
      exact conveyed

section Steps

variable {origin s : Scheduler} {reason : Value} {dying : Dying} {below : List Dying}
  {dead : List ProcessId} {notices : List (ProcessId × ProcessId)}

/-- A process is told: its message is behind all others and spells the end. -/
theorem Accounted.told (accounted : Accounted origin reason ⟨s, dying :: below, dead, notices⟩)
    {first : Process} (foundFirst : origin.find? dying.pid = some first) {peer : ProcessId}
    {links : List ProcessId} {after : Scheduler} {snapshot message : Value}
    (frame : DeathFrame s after) (sameTimers : after.timers = s.timers)
    (journal : after.journal = .sent peer message :: s.journal)
    (queue : after.queue.toList = s.queue.toList ++ [.deliver peer message])
    (snapshotSpelled :
      after.store.Spells snapshot (first.machine.snapshotTree dying.pid origin.store))
    (messageSpelled : after.store.Spells message
      (exitTree (first.machine.snapshotTree dying.pid origin.store) reason)) :
    Accounted origin reason ⟨after, { dying with snapshot := some snapshot, links } :: below, dead,
      notices ++ [(dying.pid, peer)]⟩ where
  frame := accounted.frame.trans frame
  snapshot := by
    intro other member v known q foundOther
    rcases List.mem_cons.1 member with same | later
    · subst same
      cases known
      change origin.find? dying.pid = some q at foundOther
      rw [foundFirst] at foundOther
      cases foundOther
      exact snapshotSpelled
    · have old := accounted.snapshot other (List.mem_cons_of_mem _ later) v known q foundOther
      exact old.mono frame.grown
  deaths := by
    obtain ⟨events, oldJournal, deaths⟩ := accounted.deaths
    refine ⟨.sent peer message :: events, ?_, deaths⟩
    exact journal.trans (congrArg (List.cons _) oldJournal)
  timers := sameTimers.trans accounted.timers
  queue := by
    obtain ⟨tasks, oldQueue, conveyed⟩ := accounted.queue
    refine ⟨tasks ++ [.deliver peer message], ?_, ?_⟩
    · rw [← List.append_assoc, ← oldQueue]
      exact queue
    · have now : origin.Conveys reason after.store (dying.pid, peer) (.deliver peer message) := by
        refine ⟨message, peer, _, rfl, ?_, messageSpelled⟩
        simp only [exitMessage, foundFirst, Option.map_some]
      exact List.rel_append (conveyed.imp fun _ _ old => old.mono frame.grown) (.cons now .nil)

theorem Accounted.dragged (accounted : Accounted origin reason ⟨s, dying :: below, dead, notices⟩)
    {peer : ProcessId} {links : List ProcessId} {p : Process}
    (found : origin.find? peer = some p) :
    Accounted origin reason ⟨(s.beginDeath peer p reason).2,
      (s.beginDeath peer p reason).1 :: { dying with links } :: below, peer :: dead, notices⟩ where
  frame := accounted.frame.trans (deathFrame_beginDeath _ _ _ _)
  snapshot := by
    intro other member v known q foundOther
    rcases List.mem_cons.1 member with new | old
    · subst new
      cases known
    · have grown := (deathFrame_beginDeath s peer p reason).grown
      rcases List.mem_cons.1 old with same | later
      · subst same
        exact (accounted.snapshot dying List.mem_cons_self v known q foundOther).mono grown
      · exact (accounted.snapshot other (List.mem_cons_of_mem _ later) v known q foundOther).mono
          grown
  deaths := by
    obtain ⟨events, journal, deaths⟩ := accounted.deaths
    refine ⟨.died peer reason (s.store.render reason) :: events, ?_, ?_⟩
    · simp only [beginDeath, dropTimeout_eq, record]
      exact congrArg (List.cons _) journal
    · exact congrArg (List.cons _) deaths
  timers := by
    have old : s.timers = _ := accounted.timers
    change (s.dropTimeout p.timeout).timers = _
    rw [timers_dropTimeout, old, List.filter_filter]
    apply List.filter_congr
    intro timer _
    have awaited : origin.timeoutFlag? peer = p.timeout.map (·.canceled) := by
      simp [timeoutFlag?, timeout?, found]
    rw [List.map_cons, awaited]
    by_cases mine : p.timeout.map (·.canceled) = some timer.canceled
    · simp [mine]
    · simp [mine, Ne.symm mine]
  queue := by
    obtain ⟨tasks, queue, conveyed⟩ := accounted.queue
    have grown := (deathFrame_beginDeath s peer p reason).grown
    refine ⟨tasks, ?_, conveyed.imp fun _ _ old => old.mono grown⟩
    simp only [beginDeath, dropTimeout_eq, record]
    exact queue

end Steps

/-- Every step of a cascade keeps the accounts. -/
theorem Accounted.next {origin : Scheduler} (agree : origin.LinksAgree) {pid : ProcessId}
    {reason : Value} {walk after : Walk} (underway : Underway origin pid reason walk)
    (accounted : Accounted origin reason walk) (step : walk.Next after) :
    Accounted origin reason after := by
  have frame := step.deathFrame
  cases step with
  | finished ended =>
      refine accounted.same frame rfl rfl rfl rfl ?_
      exact fun other member => ⟨other, List.mem_cons_of_mem _ member, rfl, rfl⟩
  | @gone s dying below dead notices peer links followed missing =>
      refine accounted.same frame rfl rfl rfl rfl ?_
      intro other member
      rcases List.mem_cons.1 member with same | later
      · exact ⟨dying, List.mem_cons_self, by rw [same], by rw [same]⟩
      · exact ⟨other, List.mem_cons_of_mem _ later, rfl, rfl⟩
  | @told s dying below dead notices peer links p told followed found traps notice =>
      obtain ⟨_, sameReason, first, foundFirst, machine, _⟩ :=
        underway.entry dying List.mem_cons_self
      subst sameReason notice
      have sameTree : first.machine.snapshotTree dying.pid origin.store =
          dying.machine.snapshotTree dying.pid s.store := by
        rw [machine, snapshotTree_eq accounted.frame.grown]
        rfl
      have spelled := Dying.spells_notice { dying with links } s.store _
        (fun v known => accounted.snapshot dying List.mem_cons_self v known first foundFirst)
        sameTree
      exact accounted.told foundFirst frame rfl rfl (Fifo.toList_push _ _) spelled.1 spelled.2
  | @spared s dying below dead notices peer links p followed found exposed normal =>
      refine accounted.same frame rfl rfl rfl rfl ?_
      intro other member
      rcases List.mem_cons.1 member with same | later
      · exact ⟨dying, List.mem_cons_self, by rw [same], by rw [same]⟩
      · exact ⟨other, List.mem_cons_of_mem _ later, rfl, rfl⟩
  | @dragged s dying below dead notices peer links p followed found exposed abnormal =>
      have sameReason : dying.reason = reason := (underway.entry dying List.mem_cons_self).2.1
      subst sameReason
      obtain ⟨foundBefore, _⟩ := underway.untouched agree found exposed (ne_normal abnormal)
      exact accounted.dragged foundBefore

/-! ### The whole cascade -/

/-- What the end of `pid` comes to: `dead` are the processes that end, and `notices` says who is
told of whose end. -/
structure Cascade (s : Scheduler) (pid : ProcessId) (reason : Value) (dead : List ProcessId)
    (notices : List (ProcessId × ProcessId)) (after : Scheduler) : Prop where
  dead_distinct : dead.Nodup
  dead_live : ∀ d ∈ dead, s.isLive d = true
  dead_iff : ∀ d, d ∈ dead ↔ s.Doomed pid reason d
  /-- The dead are gone, and survivors lose their links to them and nothing else. -/
  table : ∀ q, after.find? q =
    if q ∈ dead then none
    else (s.find? q).map fun p => { p with links := p.links.filter (· ∉ dead) }
  /-- Each death is entered once and with the same reason. -/
  deaths : ∃ events, after.journal = events ++ s.journal ∧
    events.filterMap Event.death? = dead.map fun d => (d, reason)
  notices_distinct : notices.Nodup
  notice_iff : ∀ d t, (d, t) ∈ notices ↔ d ∈ dead ∧ t ∉ dead ∧ s.Warns d t
  /-- The new tasks convey the notices one by one. -/
  queue : ∃ tasks, after.queue.toList = s.queue.toList ++ tasks ∧
    List.Forall₂ (s.Conveys reason after.store) notices tasks
  timers : after.timers = s.timers.filter fun timer => some timer.canceled ∉ dead.map s.timeoutFlag?
  frame : DeathFrame s after

/-- Once no link is open, everyone reached is dead and everyone to be told was told. -/
theorem Underway.cascade {origin after : Scheduler} {pid : ProcessId} {reason : Value}
    {dead : List ProcessId} {notices : List (ProcessId × ProcessId)}
    (underway : Underway origin pid reason ⟨after, [], dead, notices⟩)
    (accounted : Accounted origin reason ⟨after, [], dead, notices⟩) :
    Cascade origin pid reason dead notices after where
  dead_distinct := underway.dead_distinct
  dead_live := fun d isDead => (isLive_iff _ _).2 (underway.dead_live d isDead)
  dead_iff := by
    intro d
    constructor
    · exact underway.dead_doomed d
    · rintro (same | ⟨abnormal, reached⟩)
      · rw [same]
        exact underway.first_dead
      · induction reached with
        | refl => exact underway.first_dead
        | tail _ drags ih =>
            obtain ⟨p, q, found, linked, foundPeer, exposed⟩ := drags
            have settled := underway.followed _ ih p found _ linked List.not_mem_nil
            exact ((settled q foundPeer).2 exposed).resolve_left abnormal
  table := by
    intro q
    have closed : keepOpen dead (openLinks []) q =
        fun p => { p with links := p.links.filter (· ∉ dead) } := by
      funext p
      simp [keepOpen, openLinks]
    have table := underway.table q
    rw [closed] at table
    exact table
  deaths := accounted.deaths
  notices_distinct := underway.notices_distinct
  notice_iff := by
    intro d t
    constructor
    · intro told
      obtain ⟨isDead, survives, warns, _⟩ := underway.notice d t told
      exact ⟨isDead, survives, warns⟩
    · rintro ⟨isDead, survives, p, q, found, linked, foundPeer, traps⟩
      have settled := underway.followed d isDead p found t linked List.not_mem_nil
      exact ((settled q foundPeer).1 traps).resolve_left survives
  queue := accounted.queue
  timers := accounted.timers
  frame := accounted.frame

/-- In a scheduler whose links agree, the end of a live process ends those that are reached from it
and tells those that trap exits. -/
theorem die_cascade {s : Scheduler} (agree : s.LinksAgree) {pid : ProcessId} {p : Process}
    (found : s.find? pid = some p) (reason : Value) :
    ∃ dead notices, Cascade s pid reason dead notices (s.die pid reason) := by
  rw [die_of_live found]
  let start : Walk :=
    ⟨(s.beginDeath pid p reason).2, [(s.beginDeath pid p reason).1], [pid], []⟩
  obtain ⟨dead, notices, walked⟩ :=
    propagate_walks start.scheduler start.stack start.dead start.notices
  have whole : ∀ last : Walk, Relation.ReflTransGen Walk.Next start last →
      Underway s pid reason last ∧ Accounted s reason last := by
    intro last steps
    induction steps with
    | refl => exact ⟨.start agree found reason, .start found reason⟩
    | tail _ next ih => exact ⟨ih.1.next agree next, ih.2.next agree ih.1 next⟩
  obtain ⟨underway, accounted⟩ := whole _ walked
  exact ⟨dead, notices, underway.cascade accounted⟩

end ActorMachine.Scheduler
