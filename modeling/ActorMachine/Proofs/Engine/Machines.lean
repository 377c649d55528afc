import ActorMachine.Proofs.Engine.Reachable
import ActorMachine.Proofs.Engine.Slices

set_option autoImplicit false

/-!
What becomes of the machine of a process.

Between its own instructions nothing happens to the machine of a process, but that it goes on when
it waits and is sent what it waits for. So a machine changes in the few ways that `Transition`
lists, whatever else goes on in the engine, until its process ends. Main statement:
`Step.transitions`, and `steps_turn`, by which it holds along the turns of every burst.
-/

namespace ActorMachine

/-! ### Machines that wait -/

/-- A machine is left alone or, if it waits, goes on at a template. -/
inductive Machine.Woken (m : Machine) : Machine → Prop where
  | same : Woken m m
  | resumed (waits : m.status = .waiting) (entry : Template) (items : List Value) :
      Woken m { m with
        template := entry
        pc := 0
        stack := items.reverse ++ m.stack
        nargs := items.length
        status := .running }

theorem Machine.Woken.trans {first middle last : Machine} (left : first.Woken middle)
    (right : middle.Woken last) : first.Woken last := by
  cases left with
  | same => exact right
  | resumed waits entry items =>
      cases right with
      | same => exact .resumed waits entry items
      | resumed stillWaits => cases stillWaits

theorem Machine.woken_resume {m after : Machine} {store : Store} {entry : Template} {args : Value}
    (resumed : m.resume store entry args = .ok after) : m.Woken after := by
  unfold resume at resumed
  split at resumed
  · rename_i waits
    split at resumed
    · cases resumed
      exact .resumed waits entry _
    · cases resumed
  · cases resumed

namespace Scheduler

/-- Every machine that is still there was left alone or went on, and frames without slots stay
so. -/
structure Wakes (before after : Scheduler) : Prop where
  empties : before.store.KeepsEmptyFrames after.store
  next_le : before.processes.nextPid ≤ after.processes.nextPid
  survivor : ∀ pid q, pid < before.processes.nextPid → after.find? pid = some q →
    ∃ p, before.find? pid = some p ∧ p.machine.Woken q.machine

section Wakes

variable {s middle after : Scheduler} {pid : ProcessId} {p q : Process}

theorem Spares.wakes (spares : Spares s after) : Wakes s after where
  empties := Store.keepsEmptyFrames_of_frames_eq spares.frames_eq
  next_le := spares.next_le
  survivor := by
    intro pid q old found
    obtain ⟨p, foundBefore, sameMachine⟩ := spares.survivor pid q old found
    exact ⟨p, foundBefore, sameMachine ▸ .same⟩

theorem Wakes.trans (left : Wakes s middle) (right : Wakes middle after) : Wakes s after where
  empties := fun ref empty => right.empties ref (left.empties ref empty)
  next_le := Nat.le_trans left.next_le right.next_le
  survivor := by
    intro pid q old found
    obtain ⟨r, foundMiddle, laterWoken⟩ :=
      right.survivor pid q (Nat.lt_of_lt_of_le old left.next_le) found
    obtain ⟨p, foundFirst, earlierWoken⟩ := left.survivor pid r old foundMiddle
    exact ⟨p, foundFirst, earlierWoken.trans laterWoken⟩

theorem Wakes.refl (s : Scheduler) : Wakes s s := (Spares.refl s).wakes

/-- A change outside the table of processes and the memory. -/
theorem Wakes.of_eq (wakes : Wakes s middle) (sameProcesses : after.processes = middle.processes)
    (sameMemory : after.memory = middle.memory) : Wakes s after :=
  wakes.trans (spares_of_eq sameProcesses (congrArg (·.store.frames) sameMemory)).wakes

theorem wakes_put (found : s.find? pid = some p) (woken : p.machine.Woken q.machine) :
    Wakes s (s.put pid q) where
  empties := fun _ empty => empty
  next_le := Nat.le_of_eq (ProcessTable.nextPid_put _ _ _).symm
  survivor := by
    intro other r _ foundAfter
    rcases find?_put_cases found foundAfter with ⟨rfl, rfl⟩ | ⟨_, foundBefore⟩
    · exact ⟨p, found, woken⟩
    · exact ⟨r, foundBefore, .same⟩

theorem Wakes.die (wakes : Wakes s after) (pid : ProcessId) (reason : Value) :
    Wakes s (after.die pid reason) :=
  wakes.trans ((undisturbed_die after pid reason).spares
    (deathFrame_die after pid reason).grown.frames_eq).wakes

/-- A look at the mail of a process lets it go on, or nobody. -/
theorem Looks.wakes {woke : Bool} (looked : Looks s pid woke after) : Wakes s after := by
  cases looked with
  | absent missing => exact .refl s
  | busy found awake => exact .refl s
  | @nothing p found waits rejected =>
      have changed : Wakes s (s.put pid { p with
          mailbox := .empty, saved := p.saved.pushAll p.mailbox.toList }) :=
        wakes_put found .same
      rw [recordSetAside_eq]
      exact changed.of_eq rfl rfl
  | @resumed p before message rest entry machine found waits divided rejected accepted goesOn =>
      have changed : Wakes s (s.put pid { p with
          mailbox := .ofList rest, saved := .empty, timeout := none, machine }) :=
        wakes_put found (Machine.woken_resume goesOn)
      rw [recordSetAside_eq, dropTimeout_eq]
      exact changed.of_eq rfl rfl
  | @failed p before message rest entry cause found waits divided rejected accepted faults =>
      have changed : Wakes s (s.put pid { p with
          mailbox := .ofList rest, saved := .empty, timeout := none }) :=
        wakes_put found .same
      rw [recordSetAside_eq, dropTimeout_eq]
      refine Wakes.die ?_ pid _
      exact changed.of_eq rfl rfl

theorem TimesOut.wakes (timed : TimesOut s pid after) : Wakes s after := by
  cases timed with
  | kept unarmed => exact .refl s
  | @resumed p timeout machine found armed waits goesOn =>
      have changed : Wakes s (s.put pid { p with timeout := none, saved := .empty, machine }) :=
        wakes_put found (Machine.woken_resume goesOn)
      exact changed.of_eq rfl rfl
  | @failed p timeout found armed awake =>
      have changed : Wakes s (s.put pid { p with timeout := none, saved := .empty }) :=
        wakes_put found .same
      refine Wakes.die ?_ pid _
      exact changed.of_eq rfl rfl

theorem wakes_wake (woken : s.wake pid = some after) : Wakes s after := by
  rcases wake_cases woken with checked | ⟨middle, checked, rfl⟩
  · exact (checkMail_looks checked).wakes
  · exact (checkMail_looks checked).wakes.of_eq rfl rfl

theorem wakes_deliver {message : Value} (delivered : s.deliver pid message = some after) :
    Wakes s after := by
  rcases deliver_cases delivered with ⟨_, rfl⟩ | ⟨p, found, woken⟩
  · exact .refl after
  · have changed : Wakes s (s.put pid (p.deliver message)) := wakes_put found .same
    have current : Wakes s ({ s with current := some pid }.put pid (p.deliver message)) :=
      changed.of_eq rfl rfl
    exact current.trans (wakes_wake woken)

theorem wakes_expire {timer : Timer} (expired : s.expire timer = some after) : Wakes s after := by
  rcases expire_cases expired with ⟨_, rfl⟩ | ⟨_, woke, middle, checked, rfl⟩
  · exact .refl after
  · have current : Wakes s { s with current := some timer.pid } := (Wakes.refl s).of_eq rfl rfl
    have looked := current.trans (checkMail_looks checked).wakes
    cases woke with
    | true => exact looked.of_eq rfl rfl
    | false => exact looked.trans (timeOut_timesOut middle timer.pid).wakes

theorem wakes_endSlice (ended : s.endSlice pid = some after) : Wakes s after := by
  rcases endSlice_cases ended with ⟨rfl, _⟩ | ⟨p, found, ⟨_, rfl⟩ | ⟨_, woken⟩⟩
  · exact .refl after
  · exact (Wakes.refl s).of_eq rfl rfl
  · exact wakes_wake woken

/-- Moves leave machines alone or let them go on. What the host does to frames without slots is
given. -/
theorem Move.wakes {phase phase' : Option ProcessId} (moved : Move phase s phase' after)
    (empties : s.store.KeepsEmptyFrames after.store) : Wakes s after := by
  cases moved with
  | memory memory kept =>
      exact ⟨empties, Nat.le_refl _, fun _ q _ found => ⟨q, found, .same⟩⟩
  | spawn f => exact (spares_spawn s f).wakes
  | send receiver held => exact (Wakes.refl s).of_eq rfl rfl
  | prune => exact (Wakes.refl s).of_eq rfl rfl
  | fire due expired =>
      obtain ⟨heap, rfl, _⟩ := popDue?_eq due
      have taken : Wakes s { s with heap } := (Wakes.refl s).of_eq rfl rfl
      exact taken.trans (wakes_expire expired)
  | deliver popped delivered =>
      obtain ⟨queue, rfl, _⟩ := popTask?_eq popped
      have taken : Wakes s { s with queue } := (Wakes.refl s).of_eq rfl rfl
      exact taken.trans (wakes_deliver delivered)
  | skip popped dead =>
      obtain ⟨queue, rfl, _⟩ := popTask?_eq popped
      exact (Wakes.refl s).of_eq rfl rfl
  | beginSlice popped live =>
      obtain ⟨queue, rfl, _⟩ := popTask?_eq popped
      exact (Wakes.refl s).of_eq rfl rfl
  | endSlice ended => exact wakes_endSlice ended

end Wakes

end Scheduler

/-! ### Machines that run -/

/-- How a machine changes in one step of an engine that has `memory` before and `store` after it. -/
inductive Machine.Transition (memory : Memory) (store : Store) (m : Machine) : Machine → Prop where
  | woken {after} (woken : m.Woken after) : Transition memory store m after
  | goesOn (runs : m.status = .running) (stopped : (m.step memory).stop = none)
      (empties : (m.step memory).memory.store.KeepsEmptyFrames store) :
      Transition memory store m (m.step memory).machine
  /-- A native gives a result, which is pushed. -/
  | answered {native args} (stopped : (m.step memory).stop = some (.native native args))
      (v : Value) : Transition memory store m ((m.step memory).machine.push v)
  | waits {table} (stopped : (m.step memory).stop = some (.receive table)) :
      Transition memory store m (m.step memory).machine

namespace Engine

open Scheduler

/-- Every machine that is still there changed in one of the ways of `Machine.Transition`. -/
structure Transitions (engine after : Engine) : Prop where
  empties : engine.store.KeepsEmptyFrames after.store
  next_le : engine.scheduler.processes.nextPid ≤ after.scheduler.processes.nextPid
  survivor : ∀ pid q, pid < engine.scheduler.processes.nextPid → after.find? pid = some q →
    ∃ p, engine.find? pid = some p ∧
      p.machine.Transition engine.scheduler.memory after.store q.machine

section Instructions

variable {engine middle after : Engine} {me : ProcessId} {p : Process}

theorem transitions_of_wakes (wakes : Wakes engine.scheduler after.scheduler) :
    Transitions engine after where
  empties := wakes.empties
  next_le := wakes.next_le
  survivor := by
    intro pid q old found
    obtain ⟨p, foundBefore, woken⟩ := wakes.survivor pid q old found
    exact ⟨p, foundBefore, .woken woken⟩

variable (found : engine.find? me = some p)
  (spares : Spares (engine.afterStep me p).scheduler middle.scheduler)
include found spares

/-- A machine that was spared after an instruction of `me` is the one that carried it out, or one
that was there before. -/
theorem machine_of_spares {pid : ProcessId} {q : Process}
    (old : pid < engine.scheduler.processes.nextPid) (foundAfter : middle.find? pid = some q) :
    (pid = me ∧ q.machine = (p.machine.step engine.scheduler.memory).machine) ∨
      (pid ≠ me ∧ ∃ r, engine.find? pid = some r ∧ q.machine = r.machine) := by
  have stillOld : pid < (engine.afterStep me p).scheduler.processes.nextPid :=
    Nat.lt_of_lt_of_eq old (ProcessTable.nextPid_put _ _ _).symm
  obtain ⟨r, foundBetween, sameMachine⟩ := spares.survivor pid q stillOld foundAfter
  have between : (engine.scheduler.put me
      { p with machine := (p.machine.step engine.scheduler.memory).machine }).find? pid = some r :=
    foundBetween
  rcases find?_put_cases found between with ⟨rfl, rfl⟩ | ⟨other, foundBefore⟩
  · exact .inl ⟨rfl, sameMachine⟩
  · exact .inr ⟨Ne.symm other, r, foundBefore, sameMachine⟩

theorem own_machine {q : Process} (foundAfter : middle.find? me = some q) :
    q.machine = (p.machine.step engine.scheduler.memory).machine := by
  rcases machine_of_spares found spares (lt_nextPid found) foundAfter with ⟨_, same⟩ | ⟨other, _⟩
  · exact same
  · exact absurd rfl other

/-- After an instruction and what came of it, `after` may differ in the machine of `me` alone. -/
theorem transitions_of_spares (sameStore : after.store = middle.store)
    (sameNext : after.scheduler.processes.nextPid = middle.scheduler.processes.nextPid)
    (others : ∀ pid q, pid ≠ me → after.find? pid = some q → middle.find? pid = some q)
    (own : ∀ q, after.find? me = some q →
      p.machine.Transition engine.scheduler.memory after.store q.machine) :
    Transitions engine after where
  empties := by
    intro ref empty
    have kept := (p.machine.follows_step engine.scheduler.memory).kept.empties ref empty
    rw [sameStore]
    exact Store.keepsEmptyFrames_of_frames_eq spares.frames_eq ref kept
  next_le := by
    rw [sameNext]
    exact Nat.le_trans (Nat.le_of_eq (ProcessTable.nextPid_put _ _ _).symm) spares.next_le
  survivor := by
    intro pid q old foundAfter
    by_cases isMe : pid = me
    · subst isMe
      exact ⟨p, found, own q foundAfter⟩
    · rcases machine_of_spares found spares old (others pid q isMe foundAfter) with
        ⟨same, _⟩ | ⟨_, r, foundBefore, sameMachine⟩
      · exact absurd same isMe
      · exact ⟨r, foundBefore, sameMachine ▸ .woken .same⟩

/-- The process of the instruction is gone. -/
theorem transitions_die (reason : Value) :
    Transitions engine (middle.mapScheduler fun s => s.die me reason) := by
  have died := (undisturbed_die middle.scheduler me reason).spares
    (deathFrame_die middle.scheduler me reason).grown.frames_eq
  refine transitions_of_spares found (spares.trans died) rfl rfl (fun _ _ _ found => found) ?_
  intro q foundAfter
  have gone : (middle.mapScheduler fun s => s.die me reason).find? me = none :=
    find?_die_self middle.scheduler me reason
  rw [gone] at foundAfter
  cases foundAfter

end Instructions

/-- One step of an engine: something outside the scheduler, a move of the scheduler, or an
instruction of some process. Moves fill no frame. -/
inductive Step (engine : Engine) : Engine → Prop where
  | outside {after : Engine} (same : after.scheduler = engine.scheduler) : Step engine after
  | move {phase phase' s} (moved : Move phase engine.scheduler phase' s)
      (empties : engine.store.KeepsEmptyFrames s.store) : Step engine { engine with scheduler := s }
  | instruction (me : ProcessId) {after : Engine}
      (moved : (engine.advance me).engine? = some after) : Step engine after

theorem transitions_advance {engine after : Engine} {me : ProcessId}
    (moved : (engine.advance me).engine? = some after) : Transitions engine after := by
  by_cases running : engine.Runs me
  · obtain ⟨p, found, runs⟩ := running
    have advances := advances_advance found runs
    have stepped : Spares (engine.afterStep me p).scheduler (engine.afterStep me p).scheduler :=
      .refl _
    have called : ∀ {native : Native} {args : List Value} {outcome : Outcome Value}
        {middle : Engine}, (native.call me args).run (engine.afterStep me p) = (outcome, middle) →
        Spares (engine.afterStep me p).scheduler middle.scheduler := by
      intro native args outcome middle called
      have spares := (native.spares_call me args (engine.afterStep me p)).1
      rw [called] at spares
      exact spares
    generalize engine.advance me = progress at advances moved
    cases advances with
    | goesOn stopped =>
        cases moved
        refine transitions_of_spares found stepped rfl rfl (fun _ _ _ found => found) ?_
        intro q foundAfter
        rw [own_machine found stepped foundAfter]
        exact .goesOn runs stopped fun _ empty => empty
    | faults stopped =>
        cases moved
        exact transitions_die found stepped _
    | halts stopped =>
        cases moved
        exact transitions_die found stepped _
    | @waits table stopped =>
        cases moved
        have installed := spares_install (engine.afterStep me p) me table
        refine transitions_of_spares found installed rfl rfl (fun _ _ _ found => found) ?_
        intro q foundAfter
        rw [own_machine found installed foundAfter]
        exact .waits stopped
    | @answers native args v middle q stopped isCalled foundMiddle _ =>
        cases moved
        refine transitions_of_spares found (called isCalled) rfl (ProcessTable.nextPid_put _ _ _)
          ?_ ?_
        · intro pid r other foundAfter
          rcases find?_put_cases foundMiddle foundAfter with ⟨same, _⟩ | ⟨_, foundBetween⟩
          · exact absurd same.symm other
          · exact foundBetween
        · intro r foundAfter
          rcases find?_put_cases foundMiddle foundAfter with ⟨_, rfl⟩ | ⟨other, _⟩
          · change Machine.Transition _ _ _ (q.machine.push v)
            rw [own_machine found (called isCalled) foundMiddle]
            exact .answered stopped v
          · exact absurd rfl other
    | leaves stopped isCalled stands =>
        cases moved
        refine transitions_of_spares found (called isCalled) rfl rfl (fun _ _ _ found => found) ?_
        intro q foundAfter
        -- The native left the machine running, so the process would run.
        have runsStill : q.status = .running := by
          have sameMachine := own_machine found (called isCalled) foundAfter
          exact (congrArg Machine.status sameMachine).trans (status_step runs stopped)
        exact absurd ⟨q, foundAfter, runsStill⟩ stands
    | fails stopped isCalled =>
        cases moved
        exact transitions_die found (called isCalled) _
    | endless => cases moved
  · rw [advance_of_not_runs running] at moved
    cases moved
    exact transitions_of_wakes (.refl _)

/-- Whatever an engine does in a step, machines change in the ways of `Machine.Transition`. -/
theorem Step.transitions {engine after : Engine} (step : engine.Step after) :
    Transitions engine after := by
  cases step with
  | outside same => exact transitions_of_wakes ((Wakes.refl _).of_eq (by rw [same]) (by rw [same]))
  | move moved empties => exact transitions_of_wakes (moved.wakes empties)
  | instruction me moved => exact transitions_advance moved

/-- The machine of a process. -/
def machine? (engine : Engine) (pid : ProcessId) : Option Machine :=
  (engine.find? pid).map (·.machine)

theorem machine?_eq_some {engine : Engine} {pid : ProcessId} {m : Machine} :
    engine.machine? pid = some m ↔ ∃ p, engine.find? pid = some p ∧ p.machine = m :=
  Option.map_eq_some_iff

/-- In a step a process ends, or its machine changes. -/
theorem Step.machine? {engine after : Engine} (step : engine.Step after) {pid : ProcessId}
    {m : Machine} (isMachine : engine.machine? pid = some m) :
    pid < after.scheduler.processes.nextPid ∧ (after.machine? pid = none ∨
      ∃ next, after.machine? pid = some next ∧
        m.Transition engine.scheduler.memory after.store next) := by
  obtain ⟨p, found, rfl⟩ := machine?_eq_some.1 isMachine
  have old := lt_nextPid found
  refine ⟨Nat.lt_of_lt_of_le old step.transitions.next_le, ?_⟩
  cases foundAfter : after.find? pid with
  | none =>
      unfold Engine.machine?
      rw [foundAfter]
      exact .inl rfl
  | some q =>
      obtain ⟨r, foundBefore, transition⟩ := step.transitions.survivor pid q old foundAfter
      rw [found] at foundBefore
      cases foundBefore
      exact .inr ⟨q.machine, machine?_eq_some.2 ⟨q, foundAfter, rfl⟩, transition⟩

/-- A process that ended does not come back. -/
theorem Step.machine?_eq_none {engine after : Engine} (step : engine.Step after) {pid : ProcessId}
    (ended : engine.machine? pid = none) (old : pid < engine.scheduler.processes.nextPid) :
    after.machine? pid = none := by
  cases isMachine : after.machine? pid with
  | none => rfl
  | some m =>
      obtain ⟨q, foundAfter, _⟩ := machine?_eq_some.1 isMachine
      obtain ⟨p, foundBefore, _⟩ := step.transitions.survivor pid q old foundAfter
      rw [machine?_eq_some.2 ⟨p, foundBefore, rfl⟩] at ended
      cases ended

/-! ### Turns -/

/-- A slice is made of instructions. -/
theorem steps_slice {engine after : Engine} {pid : ProcessId} {quota : Nat}
    (sliced : slice pid quota engine = some after) : Relation.ReflTransGen Step engine after := by
  induction quota generalizing engine with
  | zero =>
      cases sliced
      exact .refl
  | succ quota ih =>
      unfold slice at sliced
      rcases advanced : engine.advance pid with middle | middle | _
      · rw [advanced] at sliced
        have first : Step engine middle := .instruction pid (by rw [advanced]; rfl)
        exact (ih sliced).head first
      · rw [advanced] at sliced
        cases sliced
        exact .single (.instruction pid (by rw [advanced]; rfl))
      · rw [advanced] at sliced
        cases sliced

/-- A turn of a burst is made of steps. -/
theorem steps_turn {engine after : Engine} (next : engine.turn = .next after) :
    Relation.ReflTransGen Step engine after := by
  have pruned : Step engine { engine with scheduler := engine.scheduler.prune } :=
    .move .prune fun _ empty => empty
  cases turn_turned next with
  | fired due expired =>
      obtain ⟨heap, rfl, _⟩ := popDue?_eq due
      exact .single (.move (.fire due expired) (wakes_expire expired).empties)
  | delivered _ popped delivered =>
      have empties := (wakes_deliver delivered).empties
      obtain ⟨queue, rfl, _⟩ := popTask?_eq popped
      have moved : Step { engine with scheduler := engine.scheduler.prune } _ :=
        .move (.deliver popped delivered) empties
      exact (Relation.ReflTransGen.single moved).head pruned
  | skipped _ popped dead =>
      obtain ⟨queue, rfl, _⟩ := popTask?_eq popped
      have moved : Step { engine with scheduler := engine.scheduler.prune } _ :=
        .move (.skip popped dead) fun _ empty => empty
      exact (Relation.ReflTransGen.single moved).head pruned
  | sliced _ popped live sliced ended =>
      obtain ⟨queue, rfl, _⟩ := popTask?_eq popped
      have begun : Step { engine with scheduler := engine.scheduler.prune } _ :=
        .move (.beginSlice popped live) fun _ empty => empty
      exact (((steps_slice sliced).head begun).tail
        (.move (.endSlice ended) (wakes_endSlice ended).empties)).head pruned

end Engine

end ActorMachine
