import ActorMachine.Proofs.Scheduler.Parts
import ActorMachine.Proofs.Store.Spelling
import Mathlib.Logic.Relation

set_option autoImplicit false

/-!
The walk along links that the end of a process starts.

`Walk.Next` follows one link, and `propagate` is a run of such steps. What a step leaves alone is
said once, in `DeathFrame`, and holds of every death in any scheduler: processes go or lose links,
messages are queued, and nothing else changes.
-/

namespace ActorMachine

/-- The receiver and the message, if a message is sent. -/
def Event.sending? : Event → Option (ProcessId × Value)
  | .sent pid message => some (pid, message)
  | _ => none

/-- The process and its reason, if a process ends. -/
def Event.death? : Event → Option (ProcessId × Value)
  | .died pid reason _ => some (pid, reason)
  | _ => none

namespace Scheduler

/-! ### Following one link -/

/-- A cascade underway. -/
structure Walk where
  scheduler : Scheduler
  /-- The processes whose links are still followed, the latest one first. -/
  stack : List Dying
  /-- The processes that ended, the latest one first. -/
  dead : List ProcessId
  /-- Who ended and who was told, in order. -/
  notices : List (ProcessId × ProcessId)

/-- One step of a cascade: a link is followed, or there is none left on top of the stack. -/
inductive Walk.Next : Walk → Walk → Prop where
  | finished {s dying below dead notices} (ended : dying.links = []) :
      Next ⟨s, dying :: below, dead, notices⟩ ⟨s, below, dead, notices⟩
  | gone {s dying below dead notices peer links} (followed : dying.links = peer :: links)
      (missing : s.find? peer = none) :
      Next ⟨s, dying :: below, dead, notices⟩ ⟨s, { dying with links } :: below, dead, notices⟩
  | told {s dying below dead notices peer links p told} (followed : dying.links = peer :: links)
      (found : s.find? peer = some p) (traps : p.trapsExits = true)
      (notice : told =
        (s.put peer (p.removeLink dying.pid)).onStore (Dying.notice { dying with links })) :
      Next ⟨s, dying :: below, dead, notices⟩
        ⟨told.2.send peer told.1.2, { dying with snapshot := some told.1.1, links } :: below, dead,
          notices ++ [(dying.pid, peer)]⟩
  | spared {s dying below dead notices peer links p} (followed : dying.links = peer :: links)
      (found : s.find? peer = some p) (exposed : p.trapsExits = false)
      (normal : dying.reason.isSymbol "normal" = true) :
      Next ⟨s, dying :: below, dead, notices⟩
        ⟨s.put peer (p.removeLink dying.pid), { dying with links } :: below, dead, notices⟩
  | dragged {s dying below dead notices peer links p} (followed : dying.links = peer :: links)
      (found : s.find? peer = some p) (exposed : p.trapsExits = false)
      (abnormal : dying.reason.isSymbol "normal" = false) :
      Next ⟨s, dying :: below, dead, notices⟩
        ⟨(s.beginDeath peer p dying.reason).2,
          (s.beginDeath peer p dying.reason).1 :: { dying with links } :: below, peer :: dead,
          notices⟩

/-- A cascade is a walk that empties the stack. -/
theorem propagate_walks (s : Scheduler) (stack : List Dying) (dead : List ProcessId)
    (notices : List (ProcessId × ProcessId)) :
    ∃ dead' notices', Relation.ReflTransGen Walk.Next ⟨s, stack, dead, notices⟩
      ⟨s.propagate stack, [], dead', notices'⟩ := by
  induction s, stack using propagate.induct generalizing dead notices with
  | case1 s =>
      rw [propagate]
      exact ⟨dead, notices, .refl⟩
  | case2 s pid reason machine snapshot below ih =>
      obtain ⟨dead', notices', walked⟩ := ih dead notices
      rw [propagate]
      exact ⟨dead', notices', walked.head (.finished rfl)⟩
  | case3 s pid reason machine snapshot peer links below missing ih =>
      obtain ⟨dead', notices', walked⟩ := ih dead notices
      rw [propagate, missing]
      exact ⟨dead', notices', walked.head (.gone rfl missing)⟩
  | case4 s pid reason machine snapshot peer links below p found traps s' told ih =>
      obtain ⟨dead', notices', walked⟩ := ih dead (notices ++ [(pid, peer)])
      rw [propagate, found]
      simp only [traps, if_true]
      exact ⟨dead', notices', walked.head (.told rfl found traps rfl)⟩
  | case5 s pid reason machine snapshot peer links below p found exposed normal ih =>
      obtain ⟨dead', notices', walked⟩ := ih dead notices
      rw [propagate, found]
      simp only [exposed, normal, if_true]
      exact ⟨dead', notices', walked.head (.spared rfl found (by simpa using exposed) normal)⟩
  | case6 s pid reason machine snapshot peer links below p found exposed abnormal death ih =>
      obtain ⟨dead', notices', walked⟩ := ih (peer :: dead) notices
      rw [propagate, found]
      simp only [exposed, abnormal]
      exact ⟨dead', notices',
        walked.head (.dragged rfl found (by simpa using exposed) (by simpa using abnormal))⟩

/-! ### What a death leaves alone -/

/-- How a scheduler can differ after processes ended in it: survivors only lose links, messages are
queued and entered as sent, and the store only grows. -/
structure DeathFrame (before after : Scheduler) : Prop where
  grown : before.store.Grows after.store
  globals_eq : after.memory.globals = before.memory.globals
  nextPid_eq : after.processes.nextPid = before.processes.nextPid
  current_eq : after.current = before.current
  armed_eq : after.armed = before.armed
  survivor : ∀ pid q, after.find? pid = some q →
    ∃ p, before.find? pid = some p ∧ q = { p with links := q.links }
  told : ∃ (told : List (ProcessId × Value)) (events : List Event),
    after.queue.toList =
      before.queue.toList ++ told.map (fun notice => .deliver notice.1 notice.2) ∧
      after.journal = events ++ before.journal ∧
      events.filterMap Event.sending? = told.reverse ∧
      (∀ event ∈ events, event.death?.isSome ∨ event.sending?.isSome) ∧
      ∀ notice ∈ told, after.store.Holds notice.2

theorem DeathFrame.refl (s : Scheduler) : DeathFrame s s where
  grown := .refl _
  globals_eq := rfl
  nextPid_eq := rfl
  current_eq := rfl
  armed_eq := rfl
  survivor := fun pid q found => ⟨q, found, rfl⟩
  told := ⟨[], [], by simp, by simp, by simp, by simp, by simp⟩

theorem DeathFrame.trans {first middle last : Scheduler} (left : DeathFrame first middle)
    (right : DeathFrame middle last) : DeathFrame first last where
  grown := left.grown.trans right.grown
  globals_eq := right.globals_eq.trans left.globals_eq
  nextPid_eq := right.nextPid_eq.trans left.nextPid_eq
  current_eq := right.current_eq.trans left.current_eq
  armed_eq := right.armed_eq.trans left.armed_eq
  survivor := by
    intro pid q found
    obtain ⟨p, middleFound, rightEq⟩ := right.survivor pid q found
    obtain ⟨o, firstFound, leftEq⟩ := left.survivor pid p middleFound
    refine ⟨o, firstFound, ?_⟩
    rw [rightEq, leftEq]
  told := by
    obtain ⟨leftTold, leftEvents, leftQueue, leftJournal, leftSent, leftKinds, leftHeld⟩ :=
      left.told
    obtain ⟨rightTold, rightEvents, rightQueue, rightJournal, rightSent, rightKinds, rightHeld⟩ :=
      right.told
    refine ⟨leftTold ++ rightTold, rightEvents ++ leftEvents, ?_, ?_, ?_, ?_, ?_⟩
    · rw [rightQueue, leftQueue, List.map_append, List.append_assoc]
    · rw [rightJournal, leftJournal, List.append_assoc]
    · rw [List.filterMap_append, rightSent, leftSent, List.reverse_append]
    · intro event member
      rcases List.mem_append.1 member with later | earlier
      · exact rightKinds event later
      · exact leftKinds event earlier
    · intro notice member
      rcases List.mem_append.1 member with earlier | later
      · exact (leftHeld notice earlier).mono right.grown.size_le
      · exact rightHeld notice later

theorem deathFrame_removeLink {s : Scheduler} {peer : ProcessId} {p : Process}
    (found : s.find? peer = some p) (pid : ProcessId) :
    DeathFrame s (s.put peer (p.removeLink pid)) where
  grown := .refl _
  globals_eq := rfl
  nextPid_eq := ProcessTable.nextPid_put _ _ _
  current_eq := rfl
  armed_eq := rfl
  survivor := by
    intro other q foundAfter
    rcases find?_put_cases found foundAfter with ⟨rfl, rfl⟩ | ⟨_, foundBefore⟩
    · exact ⟨p, found, rfl⟩
    · exact ⟨q, foundBefore, rfl⟩
  told := ⟨[], [], by simp [put], by simp [put], by simp, by simp, by simp⟩

theorem find?_beginDeath (s : Scheduler) (pid : ProcessId) (p : Process) (reason : Value)
    (other : ProcessId) :
    (s.beginDeath pid p reason).2.find? other = if pid = other then none else s.find? other := by
  simp only [beginDeath, find?_record, find?_dropTimeout]
  exact ProcessTable.find?_erase s.processes pid other

theorem deathFrame_beginDeath (s : Scheduler) (pid : ProcessId) (p : Process) (reason : Value) :
    DeathFrame s (s.beginDeath pid p reason).2 where
  grown := by
    simp only [beginDeath, dropTimeout_eq]
    exact .refl _
  globals_eq := by simp [beginDeath, dropTimeout_eq, record]
  nextPid_eq := by simp [beginDeath, dropTimeout_eq, record]
  current_eq := by simp [beginDeath, dropTimeout_eq, record]
  armed_eq := by simp [beginDeath, dropTimeout_eq, record]
  survivor := by
    intro other q found
    rw [find?_beginDeath] at found
    by_cases same : pid = other
    · rw [if_pos same] at found
      cases found
    · rw [if_neg same] at found
      exact ⟨q, found, rfl⟩
  told := by
    refine ⟨[], [.died pid reason (s.store.render reason)], ?_, ?_, ?_, ?_, ?_⟩
    · simp [beginDeath, dropTimeout_eq, record]
    · simp [beginDeath, dropTimeout_eq, record]
    · simp [Event.sending?]
    · simp [Event.death?]
    · simp

theorem Dying.allocates_view (dying : Dying) : Store.Allocates dying.view := by
  unfold Dying.view
  cases dying.snapshot with
  | none => exact Machine.allocates_snapshot _ _
  | some snapshot => exact Store.allocates_pure _

theorem Dying.allocates_notice (dying : Dying) : Store.Allocates dying.notice :=
  dying.allocates_view.bind fun _ =>
    (Store.allocates_allocList _).bind fun _ => Store.allocates_pure _

theorem deathFrame_notice (s : Scheduler) (dying : Dying) (peer : ProcessId) :
    DeathFrame s ((s.onStore dying.notice).2.send peer (s.onStore dying.notice).1.2) where
  grown := dying.allocates_notice s.store
  globals_eq := rfl
  nextPid_eq := rfl
  current_eq := rfl
  armed_eq := rfl
  survivor := fun pid q found => ⟨q, found, rfl⟩
  told := by
    let told := s.onStore dying.notice
    refine ⟨[(peer, told.1.2)], [.sent peer told.1.2], ?_, ?_, ?_, ?_, ?_⟩
    · exact Fifo.toList_push _ _
    · rfl
    · rfl
    · simp [Event.sending?]
    · intro notice member
      rw [List.mem_singleton] at member
      subst member
      let view := dying.view s.store
      exact Store.holds_list view.2 [.symbol "exit", view.1, dying.reason]

/-- One followed link. -/
theorem Walk.Next.deathFrame {walk after : Walk} (next : walk.Next after) :
    DeathFrame walk.scheduler after.scheduler := by
  cases next with
  | finished ended => exact .refl _
  | gone followed missing => exact .refl _
  | told followed found traps notice =>
      subst notice
      exact (deathFrame_removeLink found _).trans (deathFrame_notice _ _ _)
  | spared followed found exposed normal => exact deathFrame_removeLink found _
  | dragged followed found exposed abnormal => exact deathFrame_beginDeath _ _ _ _

/-- What holds at the start and is kept by each followed link holds at the end. -/
theorem propagate_keeps (kept : Scheduler → Prop)
    (next : ∀ {walk after : Walk}, walk.Next after → kept walk.scheduler → kept after.scheduler)
    {s : Scheduler} (start : kept s) (stack : List Dying) : kept (s.propagate stack) := by
  obtain ⟨dead, notices, walked⟩ := propagate_walks s stack [] []
  have whole : ∀ last : Walk, Relation.ReflTransGen Walk.Next ⟨s, stack, [], []⟩ last →
      kept last.scheduler := by
    intro last steps
    induction steps with
    | refl => exact start
    | tail _ followed ih => exact next followed ih
  exact whole _ walked

theorem deathFrame_propagate (s : Scheduler) (stack : List Dying) :
    DeathFrame s (s.propagate stack) :=
  propagate_keeps (DeathFrame s) (fun followed frame => frame.trans followed.deathFrame) (.refl s)
    stack

/-- A process that is not alive cannot end. -/
theorem die_of_not_live {s : Scheduler} {pid : ProcessId} (missing : s.find? pid = none)
    (reason : Value) : s.die pid reason = s := by
  unfold die
  rw [missing]

theorem die_of_live {s : Scheduler} {pid : ProcessId} {p : Process}
    (found : s.find? pid = some p) (reason : Value) :
    s.die pid reason =
      (s.beginDeath pid p reason).2.propagate [(s.beginDeath pid p reason).1] := by
  unfold die
  rw [found]

/-- What the death of one process keeps, and then each followed link, is kept by a whole death. -/
theorem die_keeps (kept : Scheduler → Prop)
    (next : ∀ {walk after : Walk}, walk.Next after → kept walk.scheduler → kept after.scheduler)
    {s : Scheduler} {pid : ProcessId} {reason : Value} (start : kept s)
    (begun : ∀ p, s.find? pid = some p → kept (s.beginDeath pid p reason).2) :
    kept (s.die pid reason) := by
  cases found : s.find? pid with
  | none =>
      rw [die_of_not_live found]
      exact start
  | some p =>
      rw [die_of_live found]
      exact propagate_keeps kept next (begun p found) _

/-- A death changes little of a scheduler, whatever its links. -/
theorem deathFrame_die (s : Scheduler) (pid : ProcessId) (reason : Value) :
    DeathFrame s (s.die pid reason) :=
  die_keeps (DeathFrame s) (fun followed frame => frame.trans followed.deathFrame) (.refl s)
    fun _ _ => deathFrame_beginDeath _ _ _ _

theorem find?_die_self (s : Scheduler) (pid : ProcessId) (reason : Value) :
    (s.die pid reason).find? pid = none := by
  cases found : s.find? pid with
  | none => rw [die_of_not_live found, found]
  | some p =>
      rw [die_of_live found]
      cases after : ((s.beginDeath pid p reason).2.propagate
          [(s.beginDeath pid p reason).1]).find? pid with
      | none => rfl
      | some q =>
          obtain ⟨_, stillFound, _⟩ := (deathFrame_propagate _ _).survivor pid q after
          rw [find?_beginDeath, if_pos rfl] at stillFound
          cases stillFound

end Scheduler

end ActorMachine
