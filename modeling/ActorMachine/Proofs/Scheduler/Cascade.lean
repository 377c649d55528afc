import ActorMachine.Proofs.Scheduler.Death
import Mathlib.Data.List.Nodup

set_option autoImplicit false

/-!
Who ends with whom.

The end of a process takes along every process that is reached from it over links without passing
one that traps exits. The walk over the links destroys the graph that it follows, so the invariant
`Underway` compares it at every step with the scheduler in which the first process ended: a link of
a dead process is either still open, or its other end is settled.
-/

namespace ActorMachine.Scheduler

/-! ### The graph of links -/

/-- Links are known to both ends, lead to live processes, and are stored once. -/
structure LinksAgree (s : Scheduler) : Prop where
  symmetric : ∀ a b p q, s.find? a = some p → s.find? b = some q → (b ∈ p.links ↔ a ∈ q.links)
  live : ∀ a p, s.find? a = some p → ∀ b ∈ p.links, ∃ q, s.find? b = some q
  irreflexive : ∀ a p, s.find? a = some p → a ∉ p.links
  distinct : ∀ a p, s.find? a = some p → p.links.Nodup

/-- The end of `a` is passed on to `b`: they are linked, and `b` does not trap exits. -/
def Drags (s : Scheduler) (a b : ProcessId) : Prop :=
  ∃ p q, s.find? a = some p ∧ b ∈ p.links ∧ s.find? b = some q ∧ q.trapsExits = false

/-- The end of `a` is told to `b`: they are linked, and `b` traps exits. -/
def Warns (s : Scheduler) (a b : ProcessId) : Prop :=
  ∃ p q, s.find? a = some p ∧ b ∈ p.links ∧ s.find? b = some q ∧ q.trapsExits = true

/-- The processes that the end of `pid` ends. -/
def Doomed (s : Scheduler) (pid : ProcessId) (reason : Value) (d : ProcessId) : Prop :=
  d = pid ∨ reason ≠ .symbol "normal" ∧ Relation.ReflTransGen s.Drags pid d

theorem isSymbol_iff (v : Value) (name : String) : v.isSymbol name = true ↔ v = .symbol name := by
  unfold Value.isSymbol
  cases v <;> simp [Value.symbol?]

theorem ne_normal {reason : Value} (abnormal : reason.isSymbol "normal" = false) :
    reason ≠ .symbol "normal" := by
  intro normal
  rw [(isSymbol_iff _ _).2 normal] at abnormal
  cases abnormal

theorem Doomed.drags {s : Scheduler} {pid d e : ProcessId} {reason : Value}
    (doomed : s.Doomed pid reason d) (abnormal : reason ≠ .symbol "normal") (drags : s.Drags d e) :
    s.Doomed pid reason e := by
  rcases doomed with same | ⟨_, reached⟩
  · subst same
    exact .inr ⟨abnormal, .single drags⟩
  · exact .inr ⟨abnormal, reached.tail drags⟩

/-! ### Links that are still to be followed -/

/-- The links that the processes in a stack have still to follow. -/
def openLinks (stack : List Dying) : List (ProcessId × ProcessId) :=
  stack.flatMap fun dying => dying.links.map fun peer => (dying.pid, peer)

theorem mem_openLinks_cons (dying : Dying) (below : List Dying) (d e : ProcessId) :
    (d, e) ∈ openLinks (dying :: below) ↔
      (d = dying.pid ∧ e ∈ dying.links) ∨ (d, e) ∈ openLinks below := by
  simp only [openLinks, List.flatMap_cons, List.mem_append, List.mem_map, Prod.mk.injEq]
  constructor
  · rintro (⟨peer, member, rfl, rfl⟩ | later)
    · exact .inl ⟨rfl, member⟩
    · exact .inr later
  · rintro (⟨rfl, member⟩ | later)
    · exact .inl ⟨e, member, rfl, rfl⟩
    · exact .inr later

theorem pid_mem_of_mem_openLinks {stack : List Dying} {d e : ProcessId}
    (member : (d, e) ∈ openLinks stack) : d ∈ stack.map Dying.pid := by
  simp only [openLinks, List.mem_flatMap, List.mem_map, Prod.mk.injEq] at member
  obtain ⟨dying, inStack, _, _, same, _⟩ := member
  exact List.mem_map.2 ⟨dying, inStack, same⟩

/-- Following a link closes that one and no other. -/
theorem mem_openLinks_followed {dying : Dying} {below : List Dying} {peer : ProcessId}
    {links : List ProcessId} (followed : dying.links = peer :: links)
    (distinct : ((dying :: below).map Dying.pid).Nodup) (once : dying.links.Nodup)
    (snapshot : Option Value) (d e : ProcessId) :
    (d, e) ∈ openLinks ({ dying with snapshot, links } :: below) ↔
      (d, e) ∈ openLinks (dying :: below) ∧ ¬(d = dying.pid ∧ e = peer) := by
  rw [mem_openLinks_cons, mem_openLinks_cons, followed]
  rw [followed, List.nodup_cons] at once
  rw [List.map_cons, List.nodup_cons] at distinct
  constructor
  · rintro (⟨rfl, member⟩ | later)
    · refine ⟨.inl ⟨rfl, List.mem_cons_of_mem _ member⟩, ?_⟩
      rintro ⟨_, rfl⟩
      exact once.1 member
    · refine ⟨.inr later, ?_⟩
      rintro ⟨rfl, _⟩
      exact distinct.1 (pid_mem_of_mem_openLinks later)
  · rintro ⟨⟨rfl, member⟩ | later, other⟩
    · rcases List.mem_cons.1 member with same | rest
      · exact absurd ⟨rfl, same⟩ other
      · exact .inl ⟨rfl, rest⟩
    · exact .inr later

/-- What has become of a process to which a dead one was linked, once the link was followed. -/
def Settled (origin : Scheduler) (reason : Value) (dead : List ProcessId)
    (notices : List (ProcessId × ProcessId)) (d e : ProcessId) : Prop :=
  ∀ q, origin.find? e = some q →
    (q.trapsExits = true → e ∈ dead ∨ (d, e) ∈ notices) ∧
      (q.trapsExits = false → reason = .symbol "normal" ∨ e ∈ dead)

theorem Settled.mono {origin : Scheduler} {reason : Value} {dead dead' : List ProcessId}
    {notices notices' : List (ProcessId × ProcessId)} {d e : ProcessId}
    (settled : Settled origin reason dead notices d e) (more : dead ⊆ dead')
    (further : notices ⊆ notices') : Settled origin reason dead' notices' d e := by
  intro q found
  obtain ⟨trapping, exposed⟩ := settled q found
  exact ⟨fun traps => (trapping traps).imp (@more e) (@further (d, e)),
    fun untrapped => (exposed untrapped).imp_right (@more e)⟩

/-- A process without the links to dead processes that were followed. -/
def keepOpen (dead : List ProcessId) (opened : List (ProcessId × ProcessId)) (pid : ProcessId)
    (p : Process) : Process :=
  { p with links := p.links.filter fun d => d ∉ dead ∨ (d, pid) ∈ opened }

theorem keepOpen_congr {dead dead' : List ProcessId} {opened opened' : List (ProcessId × ProcessId)}
    {pid : ProcessId} {p : Process}
    (same : ∀ d ∈ p.links, (d ∉ dead ∨ (d, pid) ∈ opened) ↔ (d ∉ dead' ∨ (d, pid) ∈ opened')) :
    keepOpen dead opened pid p = keepOpen dead' opened' pid p := by
  unfold keepOpen
  congr 1
  apply List.filter_congr
  intro d linked
  exact decide_eq_decide.2 (same d linked)

theorem keepOpen_eq_self {dead : List ProcessId} {opened : List (ProcessId × ProcessId)}
    {pid : ProcessId} {p : Process} (kept : ∀ d ∈ p.links, d ∉ dead ∨ (d, pid) ∈ opened) :
    keepOpen dead opened pid p = p := by
  have unchanged : p.links.filter (fun d => d ∉ dead ∨ (d, pid) ∈ opened) = p.links := by
    rw [List.filter_eq_self]
    intro d linked
    exact decide_eq_true (kept d linked)
  unfold keepOpen
  rw [unchanged]

/-! ### The invariant of the walk -/

/-- How far a walk has come since `pid` ended with `reason` in the scheduler `origin`. -/
structure Underway (origin : Scheduler) (pid : ProcessId) (reason : Value) (walk : Walk) :
    Prop where
  entry : ∀ dying ∈ walk.stack, dying.pid ∈ walk.dead ∧ dying.reason = reason ∧
    ∃ p, origin.find? dying.pid = some p ∧ dying.machine = p.machine.halt ∧
      dying.links <:+ p.links
  stack_distinct : (walk.stack.map Dying.pid).Nodup
  dead_distinct : walk.dead.Nodup
  dead_live : ∀ d ∈ walk.dead, ∃ p, origin.find? d = some p
  dead_doomed : ∀ d ∈ walk.dead, origin.Doomed pid reason d
  first_dead : pid ∈ walk.dead
  followed : ∀ d ∈ walk.dead, ∀ p, origin.find? d = some p → ∀ e ∈ p.links,
    (d, e) ∉ openLinks walk.stack → Settled origin reason walk.dead walk.notices d e
  notice : ∀ d t, (d, t) ∈ walk.notices →
    d ∈ walk.dead ∧ t ∉ walk.dead ∧ origin.Warns d t ∧ (d, t) ∉ openLinks walk.stack
  notices_distinct : walk.notices.Nodup
  table : ∀ q, walk.scheduler.find? q =
    if q ∈ walk.dead then none
    else (origin.find? q).map (keepOpen walk.dead (openLinks walk.stack) q)

/-- The first process has ended and all its links are open. -/
theorem Underway.start {origin : Scheduler} (agree : origin.LinksAgree) {pid : ProcessId}
    {p : Process} (found : origin.find? pid = some p) (reason : Value) :
    Underway origin pid reason ⟨(origin.beginDeath pid p reason).2,
      [(origin.beginDeath pid p reason).1], [pid], []⟩ where
  entry := by
    intro dying member
    rw [List.mem_singleton] at member
    subst member
    exact ⟨List.mem_singleton.2 rfl, rfl, p, found, rfl, List.suffix_refl _⟩
  stack_distinct := List.nodup_singleton _
  dead_distinct := List.nodup_singleton _
  dead_live := by
    intro d member
    rw [List.mem_singleton] at member
    exact ⟨p, member ▸ found⟩
  dead_doomed := fun d member => .inl (List.mem_singleton.1 member)
  first_dead := List.mem_singleton.2 rfl
  followed := by
    intro d member q foundAgain e linked closed
    rw [List.mem_singleton] at member
    subst member
    rw [found] at foundAgain
    cases foundAgain
    exact absurd ((mem_openLinks_cons _ _ _ _).2 (.inl ⟨rfl, linked⟩)) closed
  notice := by
    intro d t impossible
    cases impossible
  notices_distinct := List.nodup_nil
  table := by
    intro q
    rw [find?_beginDeath]
    simp only [List.mem_singleton]
    by_cases same : pid = q
    · rw [if_pos same, if_pos same.symm]
    · rw [if_neg same, if_neg (Ne.symm same)]
      cases foundPeer : origin.find? q with
      | none => rfl
      | some r =>
          rw [Option.map_some, keepOpen_eq_self]
          intro d linked
          by_cases isFirst : d = pid
          · -- the first process knows of the link as well, so it is open
            subst isFirst
            have back := (agree.symmetric _ _ _ _ foundPeer found).1 linked
            exact .inr ((mem_openLinks_cons _ _ _ _).2 (.inl ⟨rfl, back⟩))
          · exact .inl (by simpa using isFirst)

section Steps

variable {origin s : Scheduler} {pid : ProcessId} {reason : Value} {dying : Dying}
  {below : List Dying} {dead : List ProcessId} {notices : List (ProcessId × ProcessId)}

theorem Underway.links_distinct (agree : origin.LinksAgree)
    (underway : Underway origin pid reason ⟨s, dying :: below, dead, notices⟩) :
    dying.links.Nodup := by
  obtain ⟨_, _, p, found, _, remaining⟩ := underway.entry dying List.mem_cons_self
  exact (agree.distinct _ p found).sublist remaining.sublist

/-- The process at the other end of an open link was linked from the start. -/
theorem Underway.linked (underway : Underway origin pid reason ⟨s, dying :: below, dead, notices⟩)
    {peer : ProcessId} (member : peer ∈ dying.links) :
    ∃ p, origin.find? dying.pid = some p ∧ peer ∈ p.links := by
  obtain ⟨_, _, p, found, _, remaining⟩ := underway.entry dying List.mem_cons_self
  exact ⟨p, found, remaining.subset member⟩

theorem Underway.finished (underway : Underway origin pid reason ⟨s, dying :: below, dead, notices⟩)
    (ended : dying.links = []) : Underway origin pid reason ⟨s, below, dead, notices⟩ := by
  have sameOpen : openLinks (dying :: below) = openLinks below := by
    simp [openLinks, ended]
  have distinct := underway.stack_distinct
  rw [List.map_cons, List.nodup_cons] at distinct
  exact
    { entry := fun other member => underway.entry other (List.mem_cons_of_mem _ member)
      stack_distinct := distinct.2
      dead_distinct := underway.dead_distinct
      dead_live := underway.dead_live
      dead_doomed := underway.dead_doomed
      first_dead := underway.first_dead
      followed := by
        have old := underway.followed
        simp only [sameOpen] at old
        exact old
      notice := by
        have old := underway.notice
        simp only [sameOpen] at old
        exact old
      notices_distinct := underway.notices_distinct
      table := by
        have old := underway.table
        simp only [sameOpen] at old
        exact old }

/-- What following a link that ends no process comes to: the process at the other end loses the link
if it is alive, and may be told. -/
theorem Underway.popped (agree : origin.LinksAgree)
    (underway : Underway origin pid reason ⟨s, dying :: below, dead, notices⟩)
    {peer : ProcessId} {links : List ProcessId} (followed : dying.links = peer :: links)
    (after : Scheduler) (snapshot : Option Value) (told : List (ProcessId × ProcessId))
    (settled : Settled origin reason dead (notices ++ told) dying.pid peer)
    (isNotice : ∀ d t, (d, t) ∈ told →
      d = dying.pid ∧ t = peer ∧ peer ∉ dead ∧ origin.Warns dying.pid peer)
    (once : told.Nodup)
    (table : ∀ q, after.find? q =
      (s.find? q).map fun p => if peer = q then p.removeLink dying.pid else p) :
    Underway origin pid reason
      ⟨after, { dying with snapshot, links } :: below, dead, notices ++ told⟩ := by
  have closes := mem_openLinks_followed followed underway.stack_distinct
    (underway.links_distinct agree) snapshot
  exact
    { entry := by
        intro other member
        rcases List.mem_cons.1 member with same | later
        · subst same
          obtain ⟨isDead, sameReason, p, found, machine, remaining⟩ :=
            underway.entry dying List.mem_cons_self
          refine ⟨isDead, sameReason, p, found, machine, ?_⟩
          rw [followed] at remaining
          exact (List.suffix_cons peer links).trans remaining
        · exact underway.entry other (List.mem_cons_of_mem _ later)
      stack_distinct := underway.stack_distinct
      dead_distinct := underway.dead_distinct
      dead_live := underway.dead_live
      dead_doomed := underway.dead_doomed
      first_dead := underway.first_dead
      followed := by
        intro d isDead p found e linked closed
        rw [closes] at closed
        by_cases this : d = dying.pid ∧ e = peer
        · obtain ⟨rfl, rfl⟩ := this
          exact settled
        · have closedBefore : (d, e) ∉ openLinks (dying :: below) := fun stillOpen =>
            closed ⟨stillOpen, this⟩
          exact (underway.followed d isDead p found e linked closedBefore).mono
            (List.Subset.refl _) (List.subset_append_left _ _)
      notice := by
        intro d t member
        rw [closes]
        rcases List.mem_append.1 member with earlier | now
        · obtain ⟨isDead, survives, warns, closed⟩ := underway.notice d t earlier
          exact ⟨isDead, survives, warns, fun both => closed both.1⟩
        · obtain ⟨rfl, rfl, survives, warns⟩ := isNotice d t now
          exact ⟨(underway.entry dying List.mem_cons_self).1, survives, warns,
            fun both => both.2 ⟨rfl, rfl⟩⟩
      notices_distinct := by
        refine List.Nodup.append underway.notices_distinct once ?_
        rintro ⟨d, t⟩ earlier now
        obtain ⟨rfl, rfl, _, _⟩ := isNotice d t now
        have stillOpen : (dying.pid, t) ∈ openLinks (dying :: below) :=
          (mem_openLinks_cons _ _ _ _).2 (.inl ⟨rfl, by rw [followed]; exact List.mem_cons_self⟩)
        exact (underway.notice _ _ earlier).2.2.2 stillOpen
      table := by
        intro q
        rw [table, underway.table]
        by_cases isDead : q ∈ dead
        · rw [if_pos isDead, if_pos isDead]
          rfl
        · rw [if_neg isDead, if_neg isDead, Option.map_map]
          congr 1
          funext p
          by_cases isPeer : peer = q
          · subst isPeer
            simp only [Function.comp_apply, if_true, Process.removeLink, keepOpen,
              List.filter_filter]
            congr 2
            funext d
            have firstDead := (underway.entry dying List.mem_cons_self).1
            by_cases fromDying : d = dying.pid
            · subst fromDying
              simp [closes, firstDead]
            · simp [closes, fromDying]
          · simp only [Function.comp_apply, if_neg isPeer]
            apply keepOpen_congr
            intro d _
            rw [closes]
            simp [Ne.symm isPeer] }

/-- A live process is as it was, without the links that were followed. -/
theorem Underway.find?_live {walk : Walk} (underway : Underway origin pid reason walk)
    {q : ProcessId} {r : Process} (found : walk.scheduler.find? q = some r) :
    q ∉ walk.dead ∧ ∃ p, origin.find? q = some p ∧
      r = keepOpen walk.dead (openLinks walk.stack) q p := by
  rw [underway.table] at found
  by_cases isDead : q ∈ walk.dead
  · rw [if_pos isDead] at found
    cases found
  · rw [if_neg isDead, Option.map_eq_some_iff] at found
    obtain ⟨p, foundBefore, rfl⟩ := found
    exact ⟨isDead, p, foundBefore, rfl⟩

/-- A process that no longer lives at the other end of a link is dead. -/
theorem Underway.dead_of_missing (agree : origin.LinksAgree)
    (underway : Underway origin pid reason ⟨s, dying :: below, dead, notices⟩) {peer : ProcessId}
    (member : peer ∈ dying.links) (missing : s.find? peer = none) : peer ∈ dead := by
  obtain ⟨p, found, linked⟩ := underway.linked member
  obtain ⟨q, foundPeer⟩ := agree.live _ p found peer linked
  have table := underway.table peer
  rw [missing, foundPeer] at table
  by_cases isDead : peer ∈ dead
  · exact isDead
  · rw [if_neg isDead] at table
    cases table

/-- A live process that does not trap exits is untouched: a link that was followed to it would have
ended it. -/
theorem Underway.untouched (agree : origin.LinksAgree)
    (underway : Underway origin pid reason ⟨s, dying :: below, dead, notices⟩) {q : ProcessId}
    {p : Process} (found : s.find? q = some p) (exposed : p.trapsExits = false)
    (abnormal : reason ≠ .symbol "normal") : origin.find? q = some p ∧ q ∉ dead := by
  obtain ⟨survives, r, foundBefore, kept⟩ := underway.find?_live found
  have same : keepOpen dead (openLinks (dying :: below)) q r = r := by
    apply keepOpen_eq_self
    intro d linked
    by_cases isDead : d ∈ dead
    · right
      by_contra closed
      obtain ⟨o, foundDead⟩ := underway.dead_live d isDead
      have back := (agree.symmetric _ _ _ _ foundBefore foundDead).1 linked
      have settled := underway.followed d isDead o foundDead q back closed
      rw [kept] at exposed
      rcases (settled r foundBefore).2 exposed with normal | alsoDead
      · exact abnormal normal
      · exact survives alsoDead
    · exact .inl isDead
  rw [kept, same]
  exact ⟨foundBefore, survives⟩

theorem table_removeLink {peer : ProcessId} {p : Process} (found : s.find? peer = some p)
    (other q : ProcessId) :
    (s.put peer (p.removeLink other)).find? q =
      (s.find? q).map fun p => if peer = q then p.removeLink other else p := by
  rw [find?_put found]
  by_cases isPeer : peer = q
  · subst isPeer
    simp [found]
  · simp [isPeer]

theorem Underway.dragged (agree : origin.LinksAgree)
    (underway : Underway origin pid reason ⟨s, dying :: below, dead, notices⟩)
    {peer : ProcessId} {links : List ProcessId} (followed : dying.links = peer :: links)
    {p : Process} (found : origin.find? peer = some p) (survives : peer ∉ dead)
    (exposed : p.trapsExits = false) (abnormal : reason ≠ .symbol "normal") :
    Underway origin pid reason ⟨(s.beginDeath peer p reason).2,
      (s.beginDeath peer p reason).1 :: { dying with links } :: below, peer :: dead, notices⟩ := by
  have closes := mem_openLinks_followed followed underway.stack_distinct
    (underway.links_distinct agree) dying.snapshot
  have opens : ∀ d e, (d, e) ∈ openLinks
      ((s.beginDeath peer p reason).1 :: { dying with links } :: below) ↔
        (d = peer ∧ e ∈ p.links) ∨
          (d, e) ∈ openLinks (dying :: below) ∧ ¬(d = dying.pid ∧ e = peer) := by
    intro d e
    rw [mem_openLinks_cons, closes]
    rfl
  obtain ⟨firstDead, sameReason, first, foundFirst, firstMachine, remaining⟩ :=
    underway.entry dying List.mem_cons_self
  have linked : peer ∈ first.links := remaining.subset (by rw [followed]; exact List.mem_cons_self)
  exact
    { entry := by
        intro other member
        rcases List.mem_cons.1 member with new | old
        · subst new
          exact ⟨List.mem_cons_self, rfl, p, found, rfl, List.suffix_refl _⟩
        · rcases List.mem_cons.1 old with same | later
          · subst same
            rw [followed] at remaining
            exact ⟨List.mem_cons_of_mem _ firstDead, sameReason, first, foundFirst, firstMachine,
              (List.suffix_cons peer links).trans remaining⟩
          · obtain ⟨isDead, rest⟩ := underway.entry other (List.mem_cons_of_mem _ later)
            exact ⟨List.mem_cons_of_mem _ isDead, rest⟩
      stack_distinct := by
        refine List.nodup_cons.2 ⟨?_, underway.stack_distinct⟩
        intro member
        change peer ∈ (dying :: below).map Dying.pid at member
        obtain ⟨other, inStack, same⟩ := List.mem_map.1 member
        have isDead := (underway.entry other inStack).1
        rw [same] at isDead
        exact survives isDead
      dead_distinct := List.nodup_cons.2 ⟨survives, underway.dead_distinct⟩
      dead_live := by
        intro d member
        rcases List.mem_cons.1 member with same | earlier
        · exact ⟨p, same ▸ found⟩
        · exact underway.dead_live d earlier
      dead_doomed := by
        intro d member
        rcases List.mem_cons.1 member with same | earlier
        · subst same
          exact (underway.dead_doomed _ firstDead).drags abnormal
            ⟨first, p, foundFirst, linked, found, exposed⟩
        · exact underway.dead_doomed d earlier
      first_dead := List.mem_cons_of_mem _ underway.first_dead
      followed := by
        intro d member q foundDead e linkedDead closed
        rw [opens] at closed
        rcases List.mem_cons.1 member with same | earlier
        · subst same
          rw [found] at foundDead
          cases foundDead
          exact absurd (.inl ⟨rfl, linkedDead⟩) closed
        · by_cases this : d = dying.pid ∧ e = peer
          · obtain ⟨rfl, rfl⟩ := this
            intro r foundPeer
            exact ⟨fun _ => .inl List.mem_cons_self, fun _ => .inr List.mem_cons_self⟩
          · have closedBefore : (d, e) ∉ openLinks (dying :: below) := fun stillOpen =>
              closed (.inr ⟨stillOpen, this⟩)
            exact (underway.followed d earlier q foundDead e linkedDead closedBefore).mono
              (List.subset_cons_self _ _) (List.Subset.refl _)
      notice := by
        intro d t member
        obtain ⟨isDead, spared, warns, closed⟩ := underway.notice d t member
        have different : t ≠ peer := by
          rintro rfl
          obtain ⟨_, q, _, _, foundTold, traps⟩ := warns
          rw [found] at foundTold
          cases foundTold
          rw [exposed] at traps
          cases traps
        refine ⟨List.mem_cons_of_mem _ isDead, ?_, warns, ?_⟩
        · intro alsoDead
          rcases List.mem_cons.1 alsoDead with same | earlier
          · exact different same
          · exact spared earlier
        · rw [opens]
          rintro (⟨rfl, _⟩ | ⟨stillOpen, _⟩)
          · exact survives isDead
          · exact closed stillOpen
      notices_distinct := underway.notices_distinct
      table := by
        intro q
        change (s.beginDeath peer p reason).2.find? q = _
        rw [find?_beginDeath, underway.table]
        by_cases isPeer : peer = q
        · rw [if_pos isPeer, if_pos (List.mem_cons.2 (.inl isPeer.symm))]
        · rw [if_neg isPeer]
          by_cases isDead : q ∈ dead
          · rw [if_pos isDead, if_pos (List.mem_cons_of_mem _ isDead)]
          · have survivor : q ∉ peer :: dead := by
              simp [isDead, Ne.symm isPeer]
            rw [if_neg isDead, if_neg survivor]
            cases foundOther : origin.find? q with
            | none => rfl
            | some r =>
                rw [Option.map_some, Option.map_some]
                congr 1
                apply keepOpen_congr
                intro d linkedOther
                rw [opens]
                by_cases fromPeer : d = peer
                · -- the new dead process knows of the link, so the link is open
                  subst fromPeer
                  have back := (agree.symmetric _ _ _ _ foundOther found).1 linkedOther
                  simp [survives, back]
                · simp [fromPeer, Ne.symm isPeer] }

/-- Every step of a cascade keeps the invariant. -/
theorem Underway.next (agree : origin.LinksAgree) {walk after : Walk}
    (underway : Underway origin pid reason walk) (step : walk.Next after) :
    Underway origin pid reason after := by
  cases step with
  | finished ended => exact underway.finished ended
  | @gone s dying below dead notices peer links followed missing =>
      have isDead : peer ∈ dead := underway.dead_of_missing agree
        (by rw [followed]; exact List.mem_cons_self) missing
      have settled : Settled origin reason dead (notices ++ []) dying.pid peer := fun _ _ =>
        ⟨fun _ => .inl isDead, fun _ => .inr isDead⟩
      have table : ∀ q, s.find? q =
          (s.find? q).map fun p => if peer = q then p.removeLink dying.pid else p := by
        intro q
        by_cases isPeer : peer = q
        · subst isPeer
          rw [missing]
          rfl
        · simp [isPeer]
      have result := underway.popped agree followed s dying.snapshot [] settled (by simp)
        List.nodup_nil table
      rw [List.append_nil] at result
      exact result
  | @told s dying below dead notices peer links p told followed found traps notice =>
      subst notice
      obtain ⟨survives, q, foundBefore, kept⟩ := underway.find?_live found
      have trapped : q.trapsExits = true := by
        rw [kept] at traps
        exact traps
      have settled :
          Settled origin reason dead (notices ++ [(dying.pid, peer)]) dying.pid peer := by
        intro r foundAgain
        rw [foundBefore] at foundAgain
        cases foundAgain
        refine ⟨fun _ => .inr (by simp), fun exposed => ?_⟩
        rw [trapped] at exposed
        cases exposed
      have warns : origin.Warns dying.pid peer := by
        obtain ⟨first, foundFirst, linked⟩ := underway.linked
          (by rw [followed]; exact List.mem_cons_self)
        exact ⟨first, q, foundFirst, linked, foundBefore, trapped⟩
      refine underway.popped agree followed _ _ [(dying.pid, peer)] settled ?_
        (List.nodup_singleton _) (table_removeLink found dying.pid)
      intro d t member
      rw [List.mem_singleton, Prod.mk.injEq] at member
      exact ⟨member.1, member.2, survives, warns⟩
  | @spared s dying below dead notices peer links p followed found exposed normal =>
      have isNormal : reason = .symbol "normal" := by
        rw [← (underway.entry dying List.mem_cons_self).2.1]
        exact (isSymbol_iff _ _).1 normal
      obtain ⟨survives, q, foundBefore, kept⟩ := underway.find?_live found
      have untrapped : q.trapsExits = false := by
        rw [kept] at exposed
        exact exposed
      have settled : Settled origin reason dead (notices ++ []) dying.pid peer := by
        intro r foundAgain
        rw [foundBefore] at foundAgain
        cases foundAgain
        refine ⟨fun traps => ?_, fun _ => .inl isNormal⟩
        rw [untrapped] at traps
        cases traps
      have result := underway.popped agree followed _ dying.snapshot [] settled (by simp)
        List.nodup_nil (table_removeLink found dying.pid)
      rw [List.append_nil] at result
      exact result
  | @dragged s dying below dead notices peer links p followed found exposed abnormal =>
      have sameReason : dying.reason = reason := (underway.entry dying List.mem_cons_self).2.1
      subst sameReason
      have notNormal := ne_normal abnormal
      obtain ⟨foundBefore, survives⟩ := underway.untouched agree found exposed notNormal
      exact underway.dragged agree followed foundBefore survives exposed notNormal

end Steps

end ActorMachine.Scheduler
