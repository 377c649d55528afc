import ActorMachine.Proofs.Scheduler.Casualties
import ActorMachine.Proofs.Scheduler.Mail

set_option autoImplicit false

/-!
Links agree in every scheduler that operations lead to.

A link is stored at both of its ends. Each operation is shown to change the stored links as one
symmetric relation, from which the agreement of the two ends follows in one place,
`linksAgree_of_relation`.
-/

namespace ActorMachine

namespace Process

theorem mem_addLink (p : Process) (peer other : ProcessId) :
    other ∈ (p.addLink peer).links ↔ other ∈ p.links ∨ other = peer := by
  unfold addLink
  split
  · rename_i present
    constructor
    · exact .inl
    · rintro (old | same)
      · exact old
      · exact same ▸ present
  · simp

theorem nodup_addLink {p : Process} (distinct : p.links.Nodup) (peer : ProcessId) :
    (p.addLink peer).links.Nodup := by
  unfold addLink
  split
  · exact distinct
  · rename_i missing
    refine List.Nodup.append distinct (List.nodup_singleton peer) ?_
    intro other old new
    rw [List.mem_singleton] at new
    exact missing (new ▸ old)

end Process

namespace Scheduler

/-- One process has a link to another. -/
def Linked (s : Scheduler) (a b : ProcessId) : Prop := ∃ p, s.find? a = some p ∧ b ∈ p.links

theorem linked_iff {s : Scheduler} {a : ProcessId} {p : Process} (found : s.find? a = some p)
    (b : ProcessId) : s.Linked a b ↔ b ∈ p.links := by
  constructor
  · rintro ⟨q, foundAgain, member⟩
    rw [found] at foundAgain
    cases foundAgain
    exact member
  · exact fun member => ⟨p, found, member⟩

theorem LinksAgree.not_linked_self {s : Scheduler} (agree : s.LinksAgree) (a : ProcessId) :
    ¬s.Linked a a := by
  rintro ⟨p, found, member⟩
  exact agree.irreflexive a p found member

theorem LinksAgree.linked_symm {s : Scheduler} (agree : s.LinksAgree) {a b : ProcessId}
    (linked : s.Linked a b) : s.Linked b a := by
  obtain ⟨p, found, member⟩ := linked
  obtain ⟨q, foundPeer⟩ := agree.live a p found b member
  exact ⟨q, foundPeer, (agree.symmetric a b p q found foundPeer).1 member⟩

/-- Links agree when they are stored, without repetition, as a symmetric relation between different
processes. -/
theorem linksAgree_of_relation {s : Scheduler} (relation : ProcessId → ProcessId → Prop)
    (stored : ∀ a p, s.find? a = some p →
      p.links.Nodup ∧ ∀ b, b ∈ p.links ↔ relation a b)
    (symmetric : ∀ a b, relation a b → relation b a) (irreflexive : ∀ a, ¬relation a a)
    (live : ∀ a b, relation a b → ∃ q, s.find? b = some q) : s.LinksAgree where
  symmetric := by
    intro a b p q found foundPeer
    rw [(stored a p found).2, (stored b q foundPeer).2]
    exact ⟨symmetric a b, symmetric b a⟩
  live := by
    intro a p found b member
    exact live a b (((stored a p found).2 b).1 member)
  irreflexive := by
    intro a p found member
    exact irreflexive a (((stored a p found).2 a).1 member)
  distinct := fun a p found => (stored a p found).1

/-- Links agree after a change that leaves the links of every process as they are. -/
theorem LinksAgree.of_same_links {s after : Scheduler} (agree : s.LinksAgree)
    (same : ∀ q, (after.find? q).map (·.links) = (s.find? q).map (·.links)) :
    after.LinksAgree := by
  have before : ∀ a p, after.find? a = some p → ∃ o, s.find? a = some o ∧ o.links = p.links := by
    intro a p found
    have links := same a
    rw [found, Option.map_some] at links
    exact Option.map_eq_some_iff.1 links.symm
  apply linksAgree_of_relation s.Linked
  · intro a p found
    obtain ⟨o, foundBefore, links⟩ := before a p found
    rw [← links]
    exact ⟨agree.distinct a o foundBefore, fun b => (linked_iff foundBefore b).symm⟩
  · exact fun a b => agree.linked_symm
  · exact agree.not_linked_self
  · rintro a b ⟨p, found, member⟩
    obtain ⟨q, foundPeer⟩ := agree.live a p found b member
    have links := same b
    rw [foundPeer, Option.map_some] at links
    obtain ⟨r, foundAfter, _⟩ := Option.map_eq_some_iff.1 links
    exact ⟨r, foundAfter⟩

theorem LinksAgree.of_processes_eq {s after : Scheduler} (agree : s.LinksAgree)
    (same : after.processes = s.processes) : after.LinksAgree := by
  apply agree.of_same_links
  intro q
  simp only [find?, same]

theorem LinksAgree.put {s : Scheduler} (agree : s.LinksAgree) {pid : ProcessId} {p after : Process}
    (found : s.find? pid = some p) (same : after.links = p.links) :
    (s.put pid after).LinksAgree := by
  apply agree.of_same_links
  intro q
  rw [find?_put found]
  by_cases isPid : pid = q
  · subst isPid
    simp [found, same]
  · simp [isPid]

/-! ### Operations on links -/

theorem linksAgree_empty (memory : Memory) : ({ memory } : Scheduler).LinksAgree := by
  constructor
  · exact fun a b p q found => absurd found find?_empty_ne
  · exact fun a p found => absurd found find?_empty_ne
  · exact fun a p found => absurd found find?_empty_ne
  · exact fun a p found => absurd found find?_empty_ne

theorem LinksAgree.spawn {s : Scheduler} (agree : s.LinksAgree) (f : Closure) :
    (s.spawn f).2.LinksAgree := by
  have keeps : ∀ {b q}, s.find? b = some q → (s.spawn f).2.find? b = some q := by
    intro b q found
    have different : b ≠ s.processes.nextPid := Nat.ne_of_lt (lt_nextPid found)
    rw [find?_spawn, if_neg different]
    exact found
  apply linksAgree_of_relation s.Linked
  · intro a p found
    rcases find?_spawn_cases found with ⟨isNew, rfl⟩ | ⟨_, foundBefore⟩
    · refine ⟨List.nodup_nil, fun b => ⟨nofun, ?_⟩⟩
      rintro ⟨q, foundBefore, _⟩
      exact absurd isNew (Nat.ne_of_lt (lt_nextPid foundBefore))
    · exact ⟨agree.distinct a p foundBefore, fun b => (linked_iff foundBefore b).symm⟩
  · exact fun a b => agree.linked_symm
  · exact agree.not_linked_self
  · rintro a b ⟨p, found, member⟩
    obtain ⟨q, foundPeer⟩ := agree.live a p found b member
    exact ⟨q, keeps foundPeer⟩

theorem LinksAgree.link {s : Scheduler} (agree : s.LinksAgree) (a b : ProcessId) :
    (s.link a b).2.LinksAgree := by
  unfold Scheduler.link
  by_cases same : a = b
  · rw [if_pos same]
    exact agree
  · rw [if_neg same]
    by_cases bothLive : (s.isLive a && s.isLive b) = true
    · rw [if_pos bothLive]
      rw [Bool.and_eq_true, isLive_iff, isLive_iff] at bothLive
      obtain ⟨⟨pa, foundA⟩, pb, foundB⟩ := bothLive
      have table : ∀ q, ((s.update a (·.addLink b)).update b (·.addLink a)).find? q =
          (s.find? q).map fun p =>
            if q = a then p.addLink b else if q = b then p.addLink a else p := by
        intro q
        rw [find?_update, find?_update]
        by_cases isA : a = q
        · have notB : ¬b = q := fun isB => same (isA.trans isB.symm)
          simp [isA, notB]
        · by_cases isB : b = q
          · simp [isA, isB, Ne.symm isA]
          · simp [isA, isB, Ne.symm isA, Ne.symm isB]
      apply linksAgree_of_relation
        (fun c d => s.Linked c d ∨ (c = a ∧ d = b) ∨ (c = b ∧ d = a))
      · intro c p found
        rw [table, Option.map_eq_some_iff] at found
        obtain ⟨o, foundBefore, after⟩ := found
        have distinct := agree.distinct c o foundBefore
        by_cases isA : c = a
        · rw [if_pos isA] at after
          subst after
          refine ⟨Process.nodup_addLink distinct b, fun d => ?_⟩
          rw [Process.mem_addLink, linked_iff foundBefore]
          simp [isA, same]
        · rw [if_neg isA] at after
          by_cases isB : c = b
          · rw [if_pos isB] at after
            subst after
            refine ⟨Process.nodup_addLink distinct a, fun d => ?_⟩
            rw [Process.mem_addLink, linked_iff foundBefore]
            simp [isB, Ne.symm same]
          · rw [if_neg isB] at after
            subst after
            refine ⟨distinct, fun d => ?_⟩
            rw [linked_iff foundBefore]
            simp [isA, isB]
      · rintro c d (linked | ⟨rfl, rfl⟩ | ⟨rfl, rfl⟩)
        · exact .inl (agree.linked_symm linked)
        · exact .inr (.inr ⟨rfl, rfl⟩)
        · exact .inr (.inl ⟨rfl, rfl⟩)
      · rintro c (linked | ⟨rfl, isB⟩ | ⟨rfl, isA⟩)
        · exact agree.not_linked_self c linked
        · exact same isB
        · exact same isA.symm
      · intro c d related
        have live : ∃ q, s.find? d = some q := by
          rcases related with ⟨p, found, member⟩ | ⟨_, rfl⟩ | ⟨_, rfl⟩
          · exact agree.live c p found d member
          · exact ⟨pb, foundB⟩
          · exact ⟨pa, foundA⟩
        obtain ⟨q, foundPeer⟩ := live
        rw [table, foundPeer]
        exact ⟨_, rfl⟩
    · rw [if_neg bothLive]
      exact agree

theorem LinksAgree.unlink {s : Scheduler} (agree : s.LinksAgree) (a b : ProcessId) :
    (s.unlink a b).LinksAgree := by
  have table : ∀ q, (s.unlink a b).find? q =
      (s.find? q).map fun p =>
        { p with links := p.links.filter fun d => ¬(q = a ∧ d = b) ∧ ¬(q = b ∧ d = a) } := by
    intro q
    unfold Scheduler.unlink
    rw [find?_update, find?_update]
    cases s.find? q with
    | none => simp
    | some p =>
        by_cases isA : a = q <;> by_cases isB : b = q <;>
          simp [isA, isB, eq_comm, Process.removeLink, List.filter_filter]
  apply linksAgree_of_relation
    (fun c d => s.Linked c d ∧ ¬(c = a ∧ d = b) ∧ ¬(c = b ∧ d = a))
  · intro c p found
    rw [table, Option.map_eq_some_iff] at found
    obtain ⟨o, foundBefore, rfl⟩ := found
    refine ⟨(agree.distinct c o foundBefore).filter _, fun d => ?_⟩
    rw [List.mem_filter, linked_iff foundBefore, decide_eq_true_iff]
  · rintro c d ⟨linked, notAB, notBA⟩
    exact ⟨agree.linked_symm linked, fun both => notBA both.symm, fun both => notAB both.symm⟩
  · exact fun c related => agree.not_linked_self c related.1
  · rintro c d ⟨⟨p, found, member⟩, _⟩
    obtain ⟨q, foundPeer⟩ := agree.live c p found d member
    rw [table, foundPeer]
    exact ⟨_, rfl⟩

/-- Survivors of a cascade lose their links to the dead, and only those. -/
theorem LinksAgree.die {s : Scheduler} (agree : s.LinksAgree) (pid : ProcessId) (reason : Value) :
    (s.die pid reason).LinksAgree := by
  cases found : s.find? pid with
  | none =>
      rw [die_of_not_live found]
      exact agree
  | some first =>
      obtain ⟨dead, notices, cascade⟩ := die_cascade agree found reason
      have before : ∀ q r, (s.die pid reason).find? q = some r → q ∉ dead ∧
          ∃ p, s.find? q = some p ∧ r = { p with links := p.links.filter (· ∉ dead) } := by
        intro q r foundAfter
        rw [cascade.table] at foundAfter
        by_cases isDead : q ∈ dead
        · rw [if_pos isDead] at foundAfter
          cases foundAfter
        · rw [if_neg isDead, Option.map_eq_some_iff] at foundAfter
          obtain ⟨p, foundBefore, rfl⟩ := foundAfter
          exact ⟨isDead, p, foundBefore, rfl⟩
      apply linksAgree_of_relation (fun a b => s.Linked a b ∧ a ∉ dead ∧ b ∉ dead)
      · intro a r foundAfter
        obtain ⟨survives, p, foundBefore, rfl⟩ := before a r foundAfter
        refine ⟨(agree.distinct a p foundBefore).filter _, fun b => ?_⟩
        rw [List.mem_filter, linked_iff foundBefore, decide_eq_true_iff]
        simp [survives]
      · rintro a b ⟨linked, left, right⟩
        exact ⟨agree.linked_symm linked, right, left⟩
      · exact fun a related => agree.not_linked_self a related.1
      · rintro a b ⟨⟨p, foundBefore, member⟩, _, survives⟩
        obtain ⟨q, foundPeer⟩ := agree.live a p foundBefore b member
        rw [cascade.table, if_neg survives, foundPeer]
        exact ⟨_, rfl⟩

/-! ### Operations that leave links alone -/

theorem LinksAgree.update {s : Scheduler} (agree : s.LinksAgree) (pid : ProcessId)
    {f : Process → Process} (same : ∀ p, (f p).links = p.links) : (s.update pid f).LinksAgree := by
  apply agree.of_same_links
  intro q
  rw [find?_update]
  by_cases isPid : pid = q
  · rw [if_pos isPid, Option.map_map]
    congr 1
    funext p
    exact same p
  · rw [if_neg isPid]

theorem LinksAgree.addTimeout {s : Scheduler} (agree : s.LinksAgree) (pid : ProcessId)
    (deadline : Number) (entry : Template) : (s.addTimeout pid deadline entry).LinksAgree := by
  cases found : s.find? pid with
  | none =>
      unfold Scheduler.addTimeout
      rw [found]
      exact agree
  | some p =>
      have changed : (s.put pid
          { p with timeout := some ⟨s.armed + 1, entry, ⟨s.heap.flags.size⟩⟩ }).LinksAgree :=
        agree.put found rfl
      rw [addTimeout_of_found found]
      exact changed.of_processes_eq rfl

theorem LinksAgree.checkMail {s after : Scheduler} (agree : s.LinksAgree) {pid : ProcessId}
    {woke : Bool} (checked : s.checkMail pid = some (woke, after)) : after.LinksAgree := by
  cases checkMail_looks checked with
  | absent missing => exact agree
  | busy found awake => exact agree
  | @nothing p found waits rejected =>
      have changed : (s.put pid { p with
          mailbox := .empty, saved := p.saved.pushAll p.mailbox.toList }).LinksAgree :=
        agree.put found rfl
      apply changed.of_processes_eq
      rw [recordSetAside_eq]
  | @resumed p before message rest entry machine found waits divided rejected accepted goesOn =>
      have changed : (s.put pid { p with
          mailbox := .ofList rest, saved := .empty, timeout := none, machine }).LinksAgree :=
        agree.put found rfl
      apply changed.of_processes_eq
      simp only [record, redeliver, recordSetAside_eq, dropTimeout_eq]
  | @failed p before message rest entry cause found waits divided rejected accepted faults =>
      have changed : (s.put pid { p with
          mailbox := .ofList rest, saved := .empty, timeout := none }).LinksAgree :=
        agree.put found rfl
      apply LinksAgree.die
      apply changed.of_processes_eq
      simp only [recordSetAside_eq, dropTimeout_eq]

theorem LinksAgree.wake {s after : Scheduler} (agree : s.LinksAgree) {pid : ProcessId}
    (woken : s.wake pid = some after) : after.LinksAgree := by
  rcases wake_cases woken with checked | ⟨middle, checked, rfl⟩
  · exact agree.checkMail checked
  · exact (agree.checkMail checked).of_processes_eq rfl

theorem LinksAgree.deliver {s after : Scheduler} (agree : s.LinksAgree) {pid : ProcessId}
    {message : Value} (delivered : s.deliver pid message = some after) : after.LinksAgree := by
  rcases deliver_cases delivered with ⟨_, rfl⟩ | ⟨p, found, woken⟩
  · exact agree
  · have put : (s.put pid (p.deliver message)).LinksAgree := agree.put found rfl
    have changed : ({ s with current := some pid }.put pid (p.deliver message)).LinksAgree :=
      put.of_processes_eq rfl
    exact changed.wake woken

theorem LinksAgree.timeOut {s : Scheduler} (agree : s.LinksAgree) (pid : ProcessId) :
    (s.timeOut pid).LinksAgree := by
  have timed := timeOut_timesOut s pid
  generalize s.timeOut pid = after at timed ⊢
  cases timed with
  | kept unarmed => exact agree
  | @resumed p timeout machine found armed waits goesOn =>
      have changed : (s.put pid { p with
          timeout := none, saved := .empty, machine }).LinksAgree :=
        agree.put found rfl
      exact changed.of_processes_eq rfl
  | @failed p timeout found armed awake =>
      have changed : (s.put pid { p with timeout := none, saved := .empty }).LinksAgree :=
        agree.put found rfl
      apply LinksAgree.die
      exact changed.of_processes_eq rfl

theorem LinksAgree.expire {s after : Scheduler} (agree : s.LinksAgree) {timer : Timer}
    (expired : s.expire timer = some after) : after.LinksAgree := by
  rcases expire_cases expired with ⟨_, rfl⟩ | ⟨_, woke, middle, checked, rfl⟩
  · exact agree
  · have current : { s with current := some timer.pid }.LinksAgree := agree.of_processes_eq rfl
    have looked := current.checkMail checked
    cases woke with
    | true => exact looked.of_processes_eq rfl
    | false => exact looked.timeOut timer.pid

/-! ### Sequences of operations -/

/-- The schedulers that operations lead to, from one without processes. -/
inductive Operated : Scheduler → Prop where
  | empty (memory : Memory) : Operated { memory }
  | spawn {s} (f : Closure) : Operated s → Operated (s.spawn f).2
  | link {s} (a b : ProcessId) : Operated s → Operated (s.link a b).2
  | unlink {s} (a b : ProcessId) : Operated s → Operated (s.unlink a b)
  | trapExits {s} (pid : ProcessId) (traps : Bool) :
      Operated s → Operated (s.update pid fun p => { p with trapsExits := traps })
  | kill {s} (pid : ProcessId) : Operated s → Operated (s.kill pid)
  | die {s} (pid : ProcessId) (reason : Value) : Operated s → Operated (s.die pid reason)
  | send {s} (pid : ProcessId) (message : Value) : Operated s → Operated (s.send pid message)
  | deliver {s after} {pid : ProcessId} {message : Value} :
      Operated s → s.deliver pid message = some after → Operated after
  | checkMail {s after} {pid : ProcessId} {woke : Bool} :
      Operated s → s.checkMail pid = some (woke, after) → Operated after
  | addTimeout {s} (pid : ProcessId) (deadline : Number) (entry : Template) :
      Operated s → Operated (s.addTimeout pid deadline entry)
  | expire {s after} {timer : Timer} : Operated s → s.expire timer = some after → Operated after
  /-- Tasks and timers are taken, memory changes, and slices begin. -/
  | elsewhere {s after} : Operated s → after.processes = s.processes → Operated after
  /-- A process executes instructions. -/
  | work {s} {pid : ProcessId} {p : Process} (machine : Machine) (receivers : ReceiveTable) :
      Operated s → s.find? pid = some p → Operated (s.put pid { p with machine, receivers })

theorem Operated.linksAgree {s : Scheduler} (operated : s.Operated) : s.LinksAgree := by
  induction operated with
  | empty memory => exact linksAgree_empty memory
  | spawn f _ ih => exact ih.spawn f
  | link a b _ ih => exact ih.link a b
  | unlink a b _ ih => exact ih.unlink a b
  | trapExits pid traps _ ih => exact ih.update pid fun _ => rfl
  | kill pid _ ih => exact ih.die pid _
  | die pid reason _ ih => exact ih.die pid reason
  | send pid message _ ih => exact ih.of_processes_eq rfl
  | deliver _ delivered ih => exact ih.deliver delivered
  | checkMail _ checked ih => exact ih.checkMail checked
  | addTimeout pid deadline entry _ ih => exact ih.addTimeout pid deadline entry
  | expire _ expired ih => exact ih.expire expired
  | elsewhere _ same ih => exact ih.of_processes_eq same
  | work machine receivers _ found ih => exact ih.put found rfl

end Scheduler

end ActorMachine
