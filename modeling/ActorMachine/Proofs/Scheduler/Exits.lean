import ActorMachine.Proofs.Scheduler.Links

set_option autoImplicit false

/-!
The end of a process in a scheduler whose links agree.

The cascade of `die` is told by `Cascade`. Here the order in which links are stored is shown not to
matter: it decides in which order processes end and are told, and nothing more.
-/

namespace ActorMachine.Scheduler

/-- Two schedulers with the same store and the same processes, whose links may be stored in
different orders. -/
structure SameButLinkOrder (s reordered : Scheduler) : Prop where
  store_eq : reordered.store = s.store
  process : ∀ q, Option.Rel (fun p r => r = { p with links := r.links } ∧ r.links.Perm p.links)
    (s.find? q) (reordered.find? q)

section Order

variable {s reordered : Scheduler}

theorem SameButLinkOrder.found (same : s.SameButLinkOrder reordered) {q : ProcessId} {p : Process}
    (found : s.find? q = some p) :
    ∃ r, reordered.find? q = some r ∧ r = { p with links := r.links } ∧ r.links.Perm p.links := by
  have related := same.process q
  rw [found] at related
  generalize reordered.find? q = other at related
  cases related with
  | some related => exact ⟨_, rfl, related⟩

theorem SameButLinkOrder.symm (same : s.SameButLinkOrder reordered) :
    reordered.SameButLinkOrder s where
  store_eq := same.store_eq.symm
  process := by
    intro q
    have related := same.process q
    generalize s.find? q = left at related ⊢
    generalize reordered.find? q = right at related ⊢
    cases related with
    | none => exact .none
    | @some p r related =>
        obtain ⟨isCopy, permuted⟩ := related
        refine .some ⟨?_, permuted.symm⟩
        rw [isCopy]

theorem SameButLinkOrder.drags (same : s.SameButLinkOrder reordered) {a b : ProcessId}
    (drags : s.Drags a b) : reordered.Drags a b := by
  obtain ⟨p, q, foundA, linked, foundB, exposed⟩ := drags
  obtain ⟨p', foundA', _, permuted⟩ := same.found foundA
  obtain ⟨q', foundB', isCopy, _⟩ := same.found foundB
  refine ⟨p', q', foundA', permuted.mem_iff.2 linked, foundB', ?_⟩
  rw [isCopy]
  exact exposed

theorem SameButLinkOrder.warns (same : s.SameButLinkOrder reordered) {a b : ProcessId}
    (warns : s.Warns a b) : reordered.Warns a b := by
  obtain ⟨p, q, foundA, linked, foundB, traps⟩ := warns
  obtain ⟨p', foundA', _, permuted⟩ := same.found foundA
  obtain ⟨q', foundB', isCopy, _⟩ := same.found foundB
  refine ⟨p', q', foundA', permuted.mem_iff.2 linked, foundB', ?_⟩
  rw [isCopy]
  exact traps

theorem SameButLinkOrder.doomed (same : s.SameButLinkOrder reordered) {pid d : ProcessId}
    {reason : Value} (doomed : s.Doomed pid reason d) : reordered.Doomed pid reason d := by
  rcases doomed with isFirst | ⟨abnormal, reached⟩
  · exact .inl isFirst
  · exact .inr ⟨abnormal, Relation.ReflTransGen.mono (fun _ _ => same.drags) _ _ reached⟩

theorem SameButLinkOrder.exitMessage_eq (same : s.SameButLinkOrder reordered) (reason : Value)
    (notice : ProcessId × ProcessId) :
    reordered.exitMessage reason notice = s.exitMessage reason notice := by
  have related := same.process notice.1
  unfold exitMessage
  rw [same.store_eq]
  generalize s.find? notice.1 = left at related ⊢
  generalize reordered.find? notice.1 = right at related ⊢
  cases related with
  | none => rfl
  | some related =>
      rw [related.1]
      rfl

theorem SameButLinkOrder.linksAgree (same : s.SameButLinkOrder reordered) (agree : s.LinksAgree) :
    reordered.LinksAgree := by
  apply linksAgree_of_relation s.Linked
  · intro a r found
    obtain ⟨p, foundBefore, _, permuted⟩ := same.symm.found found
    refine ⟨permuted.nodup_iff.1 (agree.distinct a p foundBefore), fun b => ?_⟩
    rw [linked_iff foundBefore, permuted.mem_iff]
  · exact fun a b => agree.linked_symm
  · exact agree.not_linked_self
  · rintro a b ⟨p, found, member⟩
    obtain ⟨q, foundPeer⟩ := agree.live a p found b member
    obtain ⟨r, foundAfter, _⟩ := same.found foundPeer
    exact ⟨r, foundAfter⟩

variable {pid : ProcessId} {reason : Value} {dead dead' : List ProcessId}
  {notices notices' : List (ProcessId × ProcessId)} {after after' : Scheduler}

/-- The same processes end, whatever the order of links. -/
theorem Cascade.dead_perm (same : s.SameButLinkOrder reordered)
    (cascade : Cascade s pid reason dead notices after)
    (other : Cascade reordered pid reason dead' notices' after') : dead.Perm dead' := by
  rw [List.perm_ext_iff_of_nodup cascade.dead_distinct other.dead_distinct]
  intro d
  rw [cascade.dead_iff, other.dead_iff]
  exact ⟨same.doomed, same.symm.doomed⟩

/-- The same processes are told of the same ends, whatever the order of links. -/
theorem Cascade.notices_perm (same : s.SameButLinkOrder reordered)
    (cascade : Cascade s pid reason dead notices after)
    (other : Cascade reordered pid reason dead' notices' after') : notices.Perm notices' := by
  have sameDead := cascade.dead_perm same other
  rw [List.perm_ext_iff_of_nodup cascade.notices_distinct other.notices_distinct]
  rintro ⟨d, t⟩
  rw [cascade.notice_iff, other.notice_iff, sameDead.mem_iff, sameDead.mem_iff]
  constructor
  · rintro ⟨isDead, survives, warns⟩
    exact ⟨isDead, survives, same.warns warns⟩
  · rintro ⟨isDead, survives, warns⟩
    exact ⟨isDead, survives, same.symm.warns warns⟩

end Order

/-- The end of a process ends exactly the processes that are reached from it over links without
passing one that traps exits, and only itself when it ends normally. Each of them ends once. Those
that trap exits and are linked to one that ends are told once each. The order of links matters to
neither. -/
theorem die_follows_links {s : Scheduler} (agree : s.LinksAgree) :
    (∀ pid reason, s.isLive pid = false → s.die pid reason = s) ∧
    (∀ pid reason, s.isLive pid = true →
      ∃ dead notices, Cascade s pid reason dead notices (s.die pid reason)) ∧
    ∀ reordered, s.SameButLinkOrder reordered →
      reordered.LinksAgree ∧
      ∀ pid reason dead notices dead' notices',
        Cascade s pid reason dead notices (s.die pid reason) →
        Cascade reordered pid reason dead' notices' (reordered.die pid reason) →
        dead.Perm dead' ∧
          (notices.map (s.exitMessage reason)).Perm
            (notices'.map (reordered.exitMessage reason)) := by
  refine ⟨?_, ?_, ?_⟩
  · intro pid reason missing
    exact die_of_not_live ((isLive_eq_false_iff s pid).1 missing) reason
  · intro pid reason live
    obtain ⟨p, found⟩ := (isLive_iff s pid).1 live
    exact die_cascade agree found reason
  · intro reordered same
    refine ⟨same.linksAgree agree, ?_⟩
    intro pid reason dead notices dead' notices' cascade other
    refine ⟨cascade.dead_perm same other, ?_⟩
    have sameMessages : reordered.exitMessage reason = s.exitMessage reason := by
      funext notice
      exact same.exitMessage_eq reason notice
    rw [sameMessages]
    exact (cascade.notices_perm same other).map _

/-- Three processes without links. -/
def trio (f : Closure) : Scheduler :=
  (((({ memory := {} } : Scheduler).spawn f).2.spawn f).2.spawn f).2

/-- Three processes in a row, the last of which traps exits. -/
def row : Scheduler :=
  (((trio ⟨0, ⟨.linked 0, #[]⟩, []⟩).link 1 2).2.link 2 3).2.update 3 fun p =>
    { p with trapsExits := true }

theorem operated_row : row.Operated := by
  have spawned : (trio ⟨0, ⟨.linked 0, #[]⟩, []⟩).Operated :=
    .spawn _ (.spawn _ (.spawn _ (.empty {})))
  have linked := Operated.link 2 3 (Operated.link 1 2 spawned)
  exact linked.trapExits 3 true

theorem die_follows_links_row :
    row.LinksAgree ∧ row.isLive 1 = true ∧
      ∃ dead notices, Cascade row 1 (.symbol "broken") dead notices (row.die 1 (.symbol "broken")) ∧
        2 ∈ dead ∧ 3 ∉ dead ∧ (2, 3) ∈ notices := by
  have agree := operated_row.linksAgree
  have live : row.isLive 1 = true := by decide
  obtain ⟨dead, notices, cascade⟩ := (die_follows_links agree).2.1 1 (.symbol "broken") live
  have second : 2 ∈ dead := by
    rw [cascade.dead_iff]
    refine .inr ⟨ne_normal (by decide), .single ⟨_, _, rfl, ?_, rfl, rfl⟩⟩
    decide
  have third : 3 ∉ dead := by
    rw [cascade.dead_iff]
    rintro (isFirst | ⟨_, reached⟩)
    · cases isFirst
    · cases reached with
      | tail _ drags =>
          obtain ⟨_, q, _, _, found, exposed⟩ := drags
          cases found
          cases exposed
  refine ⟨agree, live, dead, notices, cascade, second, third, ?_⟩
  rw [cascade.notice_iff]
  refine ⟨second, third, _, _, rfl, ?_, rfl, rfl⟩
  decide

end ActorMachine.Scheduler
