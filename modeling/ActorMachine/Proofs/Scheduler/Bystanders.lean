import ActorMachine.Proofs.Scheduler.Death

set_option autoImplicit false

/-!
Operations after which every process is where it was.

Linking, sending, arming timers and even the end of a process leave the machines and the mail of all
others alone: they change links, traps and timeouts, and queue messages. So it is one fact,
`Undisturbed`, that invariants of machines and mail need of all these operations.
-/

namespace ActorMachine

theorem Process.addLink_eq (p : Process) (peer : ProcessId) :
    p.addLink peer = { p with links := (p.addLink peer).links } := by
  unfold addLink
  split
  · rfl
  · rfl

namespace Scheduler

/-- Every process that is still there has its machine and its mail as before, and all that was
queued are messages that were sent. -/
structure Undisturbed (before after : Scheduler) : Prop where
  nextPid_eq : after.processes.nextPid = before.processes.nextPid
  survivor : ∀ pid q, after.find? pid = some q → ∃ p, before.find? pid = some p ∧
    q = { p with links := q.links, trapsExits := q.trapsExits, timeout := q.timeout }
  journal : before.journal <:+ after.journal
  told : ∃ told : List (ProcessId × Value),
    after.queue.toList =
      before.queue.toList ++ told.map (fun notice => .deliver notice.1 notice.2) ∧
      ∀ notice ∈ told, .sent notice.1 notice.2 ∈ after.journal ∧ after.store.Holds notice.2

variable {s after : Scheduler} {pid : ProcessId} {p : Process}

/-- A change outside the table of processes, the queue and the journal. -/
theorem undisturbed_of_eq (sameProcesses : after.processes = s.processes)
    (sameQueue : after.queue = s.queue) (sameJournal : after.journal = s.journal) :
    s.Undisturbed after where
  nextPid_eq := congrArg ProcessTable.nextPid sameProcesses
  survivor := by
    intro other q found
    refine ⟨q, ?_, rfl⟩
    rw [← found]
    simp only [find?, sameProcesses]
  journal := ⟨[], sameJournal.symm⟩
  told := ⟨[], by simp [sameQueue], by simp⟩

theorem Undisturbed.trans {last : Scheduler} (left : s.Undisturbed after)
    (right : after.Undisturbed last) (larger : after.store.pairs.size ≤ last.store.pairs.size) :
    s.Undisturbed last where
  nextPid_eq := right.nextPid_eq.trans left.nextPid_eq
  survivor := by
    intro other r found
    obtain ⟨q, foundMiddle, rightEq⟩ := right.survivor other r found
    obtain ⟨p, foundFirst, leftEq⟩ := left.survivor other q foundMiddle
    refine ⟨p, foundFirst, ?_⟩
    rw [rightEq, leftEq]
  journal := left.journal.trans right.journal
  told := by
    obtain ⟨leftTold, leftQueue, leftSent⟩ := left.told
    obtain ⟨rightTold, rightQueue, rightSent⟩ := right.told
    refine ⟨leftTold ++ rightTold, ?_, ?_⟩
    · rw [rightQueue, leftQueue, List.map_append, List.append_assoc]
    · intro notice member
      rcases List.mem_append.1 member with earlier | later
      · obtain ⟨sent, held⟩ := leftSent notice earlier
        exact ⟨right.journal.subset sent, held.mono larger⟩
      · exact rightSent notice later

theorem undisturbed_send {message : Value} (held : s.store.Holds message) (receiver : ProcessId) :
    s.Undisturbed (s.send receiver message) where
  nextPid_eq := rfl
  survivor := fun other q found => ⟨q, found, rfl⟩
  journal := List.suffix_cons _ _
  told := by
    refine ⟨[(receiver, message)], Fifo.toList_push _ _, ?_⟩
    intro notice member
    rw [List.mem_singleton] at member
    subst member
    exact ⟨List.mem_cons_self, held⟩

theorem undisturbed_update (pid : ProcessId) {f : Process → Process}
    (same : ∀ p, f p =
      { p with links := (f p).links, trapsExits := (f p).trapsExits, timeout := (f p).timeout }) :
    s.Undisturbed (s.update pid f) := by
  unfold update
  cases found : s.find? pid with
  | none => exact undisturbed_of_eq rfl rfl rfl
  | some p =>
      refine ⟨ProcessTable.nextPid_put _ _ _, ?_, List.suffix_refl _, [], by simp [put], by simp⟩
      intro other q foundAfter
      change (s.put pid (f p)).find? other = some q at foundAfter
      rcases find?_put_cases found foundAfter with ⟨rfl, rfl⟩ | ⟨_, foundBefore⟩
      · exact ⟨p, found, same p⟩
      · exact ⟨q, foundBefore, rfl⟩

theorem Undisturbed.update (undisturbed : s.Undisturbed after) (pid : ProcessId)
    {f : Process → Process}
    (same : ∀ p, f p =
      { p with links := (f p).links, trapsExits := (f p).trapsExits, timeout := (f p).timeout }) :
    s.Undisturbed (after.update pid f) := by
  refine undisturbed.trans (undisturbed_update pid same) ?_
  rw [update_eq]
  exact Nat.le_refl _

theorem undisturbed_link (s : Scheduler) (a b : ProcessId) : s.Undisturbed (s.link a b).2 := by
  have same : ∀ (peer : ProcessId) (p : Process), p.addLink peer =
      { p with
        links := (p.addLink peer).links
        trapsExits := (p.addLink peer).trapsExits
        timeout := (p.addLink peer).timeout } := by
    intro peer p
    rw [p.addLink_eq peer]
  unfold link
  split
  · exact undisturbed_of_eq rfl rfl rfl
  · split
    · exact (undisturbed_update a (same b)).update b (same a)
    · exact undisturbed_of_eq rfl rfl rfl

theorem undisturbed_unlink (s : Scheduler) (a b : ProcessId) : s.Undisturbed (s.unlink a b) := by
  have first : s.Undisturbed (s.update a (·.removeLink b)) := undisturbed_update a fun _ => rfl
  exact first.update b fun _ => rfl

theorem undisturbed_addTimeout (found : s.find? pid = some p) (deadline : Number)
    (entry : Template) : s.Undisturbed (s.addTimeout pid deadline entry) := by
  rw [addTimeout_of_found found]
  refine ⟨ProcessTable.nextPid_put _ _ _, ?_, List.suffix_refl _, [], by simp, by simp⟩
  intro other q foundAfter
  change (s.put pid { p with timeout := some _ }).find? other = some q at foundAfter
  rcases find?_put_cases found foundAfter with ⟨rfl, rfl⟩ | ⟨_, foundBefore⟩
  · exact ⟨p, found, rfl⟩
  · exact ⟨q, foundBefore, rfl⟩

theorem DeathFrame.undisturbed (frame : DeathFrame s after) : s.Undisturbed after where
  nextPid_eq := frame.nextPid_eq
  survivor := by
    intro other q found
    obtain ⟨p, foundBefore, isCopy⟩ := frame.survivor other q found
    refine ⟨p, foundBefore, ?_⟩
    rw [isCopy]
  journal := by
    obtain ⟨_, events, _, journal, _⟩ := frame.told
    rw [journal]
    exact List.suffix_append _ _
  told := by
    obtain ⟨told, events, queue, journal, sent, _, held⟩ := frame.told
    refine ⟨told, queue, ?_⟩
    intro notice member
    refine ⟨?_, held notice member⟩
    have listed : notice ∈ events.filterMap Event.sending? := by
      rw [sent]
      exact List.mem_reverse.2 member
    obtain ⟨event, isEvent, isSending⟩ := List.mem_filterMap.1 listed
    cases event with
    | sent receiver message =>
        cases isSending
        rw [journal]
        exact List.mem_append_left _ isEvent
    | _ => cases isSending

theorem undisturbed_die (s : Scheduler) (pid : ProcessId) (reason : Value) :
    s.Undisturbed (s.die pid reason) :=
  (deathFrame_die s pid reason).undisturbed

/-- What becomes of a process just before it ends does not matter to the others. -/
theorem undisturbed_put_die (found : s.find? pid = some p) (q : Process) {middle : Scheduler}
    (sameProcesses : middle.processes = (s.put pid q).processes)
    (sameQueue : middle.queue = s.queue)
    (further : s.journal <:+ middle.journal) (reason : Value) :
    s.Undisturbed (middle.die pid reason) := by
  have ended := undisturbed_die middle pid reason
  have next : middle.processes.nextPid = s.processes.nextPid := by
    rw [sameProcesses]
    exact ProcessTable.nextPid_put _ _ _
  refine ⟨ended.nextPid_eq.trans next, ?_, further.trans ended.journal, ?_⟩
  · intro other r foundAfter
    obtain ⟨o, foundBefore, isCopy⟩ := ended.survivor other r foundAfter
    refine ⟨o, ?_, isCopy⟩
    have notPid : pid ≠ other := by
      intro same
      rw [← same, find?_die_self] at foundAfter
      cases foundAfter
    have kept : middle.find? other = (s.put pid q).find? other := by
      simp only [find?, sameProcesses]
    rw [kept, find?_put found, if_neg notPid] at foundBefore
    exact foundBefore
  · rw [← sameQueue]
    exact ended.told

/-- A process that cannot pass on the arguments of its message ends. -/
theorem undisturbed_failed (found : s.find? pid = some p) (q : Process)
    (timeout : Option PendingTimeout) (setAside : List Value) (cause : Fault) :
    s.Undisturbed
      ((((s.put pid q).dropTimeout timeout).recordSetAside pid setAside).dieOf pid cause) := by
  rw [recordSetAside_eq, dropTimeout_eq]
  refine undisturbed_put_die found q ?_ ?_ ?_ _
  · rfl
  · rfl
  · exact List.suffix_append _ _

end Scheduler

end ActorMachine
