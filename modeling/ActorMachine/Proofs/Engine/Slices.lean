import ActorMachine.Proofs.Engine.Effects

set_option autoImplicit false

/-!
Slices in parts.

Where a slice is cut does not show: two slices of a process, one right after the other, are one
slice with both quotas. What makes this so is that whatever ends a slice before its quota is spent
leaves a process that does not run, so that a second slice finds nothing to do. Main statement:
`slice_add_and_sliced`. Beside it, `slice_eq_run` tells a slice by the runs of the machine between
natives, which share the quota.
-/

namespace ActorMachine.Engine

open Scheduler

variable {engine after : Engine} {pid : ProcessId} {p : Process}

/-! ### One instruction -/

/-- A process is there and can carry out an instruction. -/
def Runs (engine : Engine) (pid : ProcessId) : Prop :=
  ∃ p, engine.find? pid = some p ∧ p.status = .running

/-- The engine after the machine of a process carried out an instruction. -/
def afterStep (engine : Engine) (pid : ProcessId) (p : Process) : Engine :=
  { engine with
    scheduler := stepped engine.scheduler pid p
    cycles := engine.cycles + 1 }

/-- What becomes of an instruction of the process `p`, which runs. -/
inductive Advances (engine : Engine) (pid : ProcessId) (p : Process) : Progress → Prop where
  | goesOn (stopped : (p.machine.step engine.scheduler.memory).stop = none) :
      Advances engine pid p (.more (engine.afterStep pid p))
  | faults {cause} (stopped : (p.machine.step engine.scheduler.memory).stop = some (.fault cause)) :
      Advances engine pid p (.over ((engine.afterStep pid p).dieOf pid cause))
  | halts {reason} (stopped : (p.machine.step engine.scheduler.memory).stop = some (.halt reason)) :
      Advances engine pid p
        (.over ((engine.afterStep pid p).mapScheduler fun s => s.die pid reason))
  | waits {table}
      (stopped : (p.machine.step engine.scheduler.memory).stop = some (.receive table)) :
      Advances engine pid p (.over ((engine.afterStep pid p).install pid table))
  /-- A native gives a result, which is pushed. -/
  | answers {native args v middle q}
      (stopped : (p.machine.step engine.scheduler.memory).stop = some (.native native args))
      (called : (native.call pid args).run (engine.afterStep pid p) = (.ok v, middle))
      (found : middle.find? pid = some q) (runs : q.status = .running) :
      Advances engine pid p
        (.more (middle.mapScheduler fun s => s.put pid { q with machine := q.machine.push v }))
  /-- A native gives a result, but the process does not run any more. -/
  | leaves {native args v middle}
      (stopped : (p.machine.step engine.scheduler.memory).stop = some (.native native args))
      (called : (native.call pid args).run (engine.afterStep pid p) = (.ok v, middle))
      (stands : ¬middle.Runs pid) : Advances engine pid p (.over middle)
  | fails {native args cause middle}
      (stopped : (p.machine.step engine.scheduler.memory).stop = some (.native native args))
      (called : (native.call pid args).run (engine.afterStep pid p) =
        (.error (.fault cause), middle)) :
      Advances engine pid p (.over (middle.dieOf pid cause))
  | endless : Advances engine pid p .endless

theorem not_runs_of_missing (missing : engine.find? pid = none) : ¬engine.Runs pid := by
  rintro ⟨p, found, _⟩
  rw [missing] at found
  cases found

theorem not_runs_of_status (found : engine.find? pid = some p) (stands : p.status ≠ .running) :
    ¬engine.Runs pid := by
  rintro ⟨q, same, runs⟩
  rw [found] at same
  cases same
  exact stands runs

/-- Nothing happens to a process that does not run. -/
theorem advance_of_not_runs (stands : ¬engine.Runs pid) : engine.advance pid = .over engine := by
  unfold advance
  cases found : engine.find? pid with
  | none => rfl
  | some p => exact if_neg fun runs => stands ⟨p, found, runs⟩

theorem advances_callFor {native : Native} {args : List Value}
    (stopped : (p.machine.step engine.scheduler.memory).stop = some (.native native args)) :
    Advances engine pid p ((engine.afterStep pid p).callFor pid native args) := by
  unfold callFor
  cases called : (native.call pid args).run (engine.afterStep pid p) with
  | mk outcome middle =>
      cases outcome with
      | ok v =>
          dsimp only
          cases found : middle.find? pid with
          | none => exact .leaves stopped called (not_runs_of_missing found)
          | some q =>
              dsimp only
              by_cases runs : q.status = .running
              · rw [if_pos runs]
                exact .answers stopped called found runs
              · rw [if_neg runs]
                exact .leaves stopped called (not_runs_of_status found runs)
      | error failure =>
          cases failure with
          | fault cause => exact .fails stopped called
          | endless => exact .endless

theorem advances_advance (found : engine.find? pid = some p) (runs : p.status = .running) :
    Advances engine pid p (engine.advance pid) := by
  unfold advance
  rw [found]
  dsimp only
  rw [if_pos runs, stepMachine_eq]
  cases stopped : (p.machine.step engine.scheduler.memory).stop with
  | none => exact .goesOn stopped
  | some stop =>
      cases stop with
      | fault cause => exact .faults stopped
      | endless => exact .endless
      | halt reason => exact .halts stopped
      | receive table => exact .waits stopped
      | native native args => exact advances_callFor stopped

theorem not_runs_die (engine : Engine) (pid : ProcessId) (reason : Value) :
    ¬(engine.mapScheduler fun s => s.die pid reason).Runs pid :=
  not_runs_of_missing (find?_die_self engine.scheduler pid reason)

/-- A process that waits goes on waiting when its receive table is put in place. -/
theorem not_runs_install (found : engine.find? pid = some p) (waits : p.status = .waiting)
    (table : ReceiveTable) : ¬(engine.install pid table).Runs pid := by
  rintro ⟨q, foundAfter, runs⟩
  obtain ⟨r, foundBefore, sameMachine⟩ :=
    (spares_install engine pid table).survivor pid q (lt_nextPid found) foundAfter
  rw [show engine.scheduler.find? pid = some p from found] at foundBefore
  cases foundBefore
  have stillWaits : q.status = .waiting := (congrArg Machine.status sameMachine).trans waits
  rw [stillWaits] at runs
  cases runs

/-- What ends a slice early leaves a process that does not run. -/
theorem not_runs_of_over (isOver : engine.advance pid = .over after) : ¬after.Runs pid := by
  by_cases running : engine.Runs pid
  · obtain ⟨p, found, runs⟩ := running
    have advances := advances_advance found runs
    rw [isOver] at advances
    cases advances with
    | faults stopped => exact not_runs_die _ pid _
    | halts stopped => exact not_runs_die _ pid _
    | waits stopped =>
        have foundAfter : (engine.afterStep pid p).find? pid = _ := find?_stepped found
        exact not_runs_install foundAfter (status_step runs stopped) _
    | leaves stopped called stands => exact stands
    | fails stopped called => exact not_runs_die _ pid _
  · rw [advance_of_not_runs running] at isOver
    cases isOver
    exact running

/-- An instruction is counted once, whatever it does. -/
theorem cycles_advance (running : engine.Runs pid)
    (moved : (engine.advance pid).engine? = some after) : after.cycles = engine.cycles + 1 := by
  obtain ⟨p, found, runs⟩ := running
  have advances := advances_advance found runs
  -- A native is called after its instruction was counted, and counts nothing itself.
  have uncounted : ∀ {native : Native} {args : List Value} {outcome : Outcome Value}
      {middle : Engine}, (native.call pid args).run (engine.afterStep pid p) = (outcome, middle) →
      middle.cycles = engine.cycles + 1 := by
    intro native args outcome middle called
    have same := (native.spares_call pid args (engine.afterStep pid p)).2
    rw [called] at same
    exact same
  generalize engine.advance pid = progress at advances moved
  cases advances with
  | goesOn stopped =>
      cases moved
      rfl
  | faults stopped =>
      cases moved
      rfl
  | halts stopped =>
      cases moved
      rfl
  | waits stopped =>
      cases moved
      rfl
  | answers stopped called =>
      cases moved
      have counted := uncounted called
      exact counted
  | leaves stopped called =>
      cases moved
      exact uncounted called
  | fails stopped called =>
      cases moved
      have counted := uncounted called
      exact counted
  | endless => cases moved

/-! ### Instructions in a row -/

/-- A process carries out some instructions, with natives and all else that comes of them. -/
inductive Executes (pid : ProcessId) : Nat → Engine → Engine → Prop where
  | done {engine : Engine} : Executes pid 0 engine engine
  | next {executed engine middle after} (runs : engine.Runs pid)
      (advanced : (engine.advance pid).engine? = some middle)
      (further : Executes pid executed middle after) : Executes pid (executed + 1) engine after

theorem Executes.cycles_eq {executed : Nat} (executes : Executes pid executed engine after) :
    after.cycles = engine.cycles + executed := by
  induction executes with
  | done => rfl
  | next runs advanced _ ih =>
      rw [ih, cycles_advance runs advanced]
      omega

/-! ### Slices -/

theorem slice_succ (pid : ProcessId) (quota : Nat) (engine : Engine) :
    slice pid (quota + 1) engine =
      match engine.advance pid with
      | .more engine => slice pid quota engine
      | .over engine => some engine
      | .endless => none := rfl

theorem slice_of_not_runs (stands : ¬engine.Runs pid) (quota : Nat) :
    slice pid quota engine = some engine := by
  cases quota with
  | zero => rfl
  | succ quota =>
      rw [slice_succ, advance_of_not_runs stands]

theorem slice_add (pid : ProcessId) (first second : Nat) (engine : Engine) :
    (slice pid first engine).bind (slice pid second) = slice pid (first + second) engine := by
  induction first generalizing engine with
  | zero =>
      rw [Nat.zero_add]
      rfl
  | succ first ih =>
      rw [Nat.succ_add, slice_succ pid first, slice_succ pid (first + second)]
      rcases advanced : engine.advance pid with middle | middle | _
      · exact ih middle
      · exact slice_of_not_runs (not_runs_of_over advanced) second
      · rfl

/-- What a slice comes to: it executes its quota, or fewer instructions if the process does not run
then, or one of them never ends. -/
inductive Sliced (pid : ProcessId) (quota : Nat) (engine : Engine) : Option Engine → Prop where
  | executed {executed after} (within : executed ≤ quota)
      (executes : Executes pid executed engine after)
      (early : executed = quota ∨ ¬after.Runs pid)
      (counted : after.cycles = engine.cycles + executed) : Sliced pid quota engine (some after)
  | endless {executed middle} (within : executed < quota)
      (executes : Executes pid executed engine middle)
      (endless : middle.advance pid = .endless) : Sliced pid quota engine none

/-- One more instruction stands before a slice. -/
theorem Sliced.next {quota : Nat} {middle : Engine} {result : Option Engine}
    (runs : engine.Runs pid) (advanced : (engine.advance pid).engine? = some middle)
    (sliced : Sliced pid quota middle result) : Sliced pid (quota + 1) engine result := by
  cases sliced with
  | executed within executes early counted =>
      refine .executed (Nat.succ_le_succ within) (.next runs advanced executes) ?_ ?_
      · exact early.imp (congrArg Nat.succ) id
      · exact (Executes.next runs advanced executes).cycles_eq
  | endless within executes endless =>
      exact .endless (Nat.succ_lt_succ within) (.next runs advanced executes) endless

theorem sliced_slice (pid : ProcessId) (quota : Nat) (engine : Engine) :
    Sliced pid quota engine (slice pid quota engine) := by
  induction quota generalizing engine with
  | zero => exact .executed (Nat.le_refl 0) .done (.inl rfl) rfl
  | succ quota ih =>
      by_cases runs : engine.Runs pid
      · rw [slice_succ]
        rcases advanced : engine.advance pid with middle | middle | _
        · exact (ih middle).next runs (by rw [advanced]; rfl)
        · have moved : (engine.advance pid).engine? = some middle := by rw [advanced]; rfl
          have executes : Executes pid 1 engine middle := .next runs moved .done
          exact .executed (Nat.succ_le_succ (Nat.zero_le quota)) executes
            (.inr (not_runs_of_over advanced)) executes.cycles_eq
        · exact .endless (Nat.succ_pos quota) .done advanced
      · rw [slice_of_not_runs runs]
        exact .executed (Nat.zero_le _) .done (.inr runs) rfl

/-! ### Runs of the machine -/

/-- What a run of the machine of `p` comes to: the slice is over, or a native gave a result and the
machine can run again. -/
def afterRun (engine : Engine) (pid : ProcessId) (p : Process) (report : RunReport) : Progress :=
  let after := { engine with
    scheduler := { engine.scheduler with memory := report.memory }.put pid
      { p with machine := report.machine }
    cycles := engine.cycles + report.executed }
  match report.ending with
  | .quota => .over after
  | .notRunning => .over after
  | .stopped (.fault cause) => .over (after.dieOf pid cause)
  | .stopped .endless => .endless
  | .stopped (.halt reason) => .over (after.mapScheduler fun s => s.die pid reason)
  | .stopped (.receive table) => .over (after.install pid table)
  | .stopped (.native native args) => after.callFor pid native args

theorem runFrom_eq (executed quota : Nat) (m : Machine) (memory : Memory) :
    m.runFrom executed quota memory = { m.run quota memory with
      executed := executed + (m.run quota memory).executed } := by
  induction quota generalizing executed m memory with
  | zero => rfl
  | succ quota ih =>
      unfold Machine.run
      rw [Machine.runFrom, Machine.runFrom]
      by_cases runs : m.status = .running
      · rw [if_pos runs, if_pos runs]
        cases stepped : m.step memory with
        | mk next memoryAfter stop =>
            cases stop with
            | none =>
                dsimp only
                rw [ih (executed + 1), ih (0 + 1)]
                simp only [Nat.add_assoc, Nat.zero_add]
            | some stop => rfl
      · rw [if_neg runs, if_neg runs]
        rfl

/-- A machine that runs carries out an instruction, and then the rest of its quota. -/
theorem run_succ {m : Machine} (runs : m.status = .running) (quota : Nat) (memory : Memory) :
    m.run (quota + 1) memory =
      match (m.step memory).stop with
      | none =>
          let further := (m.step memory).machine.run quota (m.step memory).memory
          { further with executed := 1 + further.executed }
      | some stop => ⟨1, (m.step memory).machine, (m.step memory).memory, .stopped stop⟩ := by
  unfold Machine.run
  rw [Machine.runFrom, if_pos runs]
  cases m.step memory with
  | mk machine memory stop =>
      cases stop with
      | none => exact runFrom_eq 1 quota machine memory
      | some stop => rfl

/-- A run that executes nothing changes nothing. -/
theorem afterRun_unchanged (found : engine.find? pid = some p) {ending : RunEnd}
    (quiet : ending = .quota ∨ ending = .notRunning) :
    engine.afterRun pid p ⟨0, p.machine, engine.scheduler.memory, ending⟩ = .over engine := by
  have same : { engine with scheduler := engine.scheduler.put pid p } = engine := by
    rw [put_self found]
  rcases quiet with rfl | rfl
  · exact congrArg Progress.over same
  · exact congrArg Progress.over same

/-- A run that begins with an instruction goes on from there. -/
theorem afterRun_afterStep (report : RunReport) :
    engine.afterRun pid p { report with executed := 1 + report.executed } =
      (engine.afterStep pid p).afterRun pid
        { p with machine := (p.machine.step engine.scheduler.memory).machine } report := by
  have same : { engine with
      scheduler := { engine.scheduler with memory := report.memory }.put pid
        { p with machine := report.machine }
      cycles := engine.cycles + (1 + report.executed) } =
    { engine.afterStep pid p with
      scheduler := { stepped engine.scheduler pid p with memory := report.memory }.put pid
        { p with machine := report.machine }
      cycles := engine.cycles + 1 + report.executed } := by
    rw [Nat.add_assoc]
    have twice := put_put { engine.scheduler with memory := report.memory } pid
      { p with machine := (p.machine.step engine.scheduler.memory).machine }
      { p with machine := report.machine }
    rw [← twice]
    rfl
  unfold afterRun
  dsimp only
  rw [same]
  rfl

/-- An instruction is a run of one. -/
theorem advance_eq_afterRun (found : engine.find? pid = some p) (runs : p.status = .running) :
    engine.advance pid =
      match (p.machine.step engine.scheduler.memory).stop with
      | none => .more (engine.afterStep pid p)
      | some stop =>
          let execution := p.machine.step engine.scheduler.memory
          engine.afterRun pid p ⟨1, execution.machine, execution.memory, .stopped stop⟩ := by
  unfold advance
  rw [found]
  dsimp only
  rw [if_pos runs, stepMachine_eq]
  cases (p.machine.step engine.scheduler.memory).stop with
  | none => rfl
  | some stop => cases stop <;> rfl

/-- A slice is a run of the machine and, after a native, a slice with what is left of the quota. -/
theorem slice_eq_run (found : engine.find? pid = some p) (quota : Nat) :
    slice pid quota engine =
      match engine.afterRun pid p (p.machine.run quota engine.scheduler.memory) with
      | .more next =>
          slice pid (quota - (p.machine.run quota engine.scheduler.memory).executed) next
      | .over after => some after
      | .endless => none := by
  induction quota generalizing engine p with
  | zero =>
      unfold Machine.run Machine.runFrom
      rw [afterRun_unchanged found]
      · rfl
      · exact ite_eq_or_eq ..
  | succ quota ih =>
      by_cases runs : p.status = .running
      · rw [slice, advance_eq_afterRun found runs, run_succ runs]
        cases (p.machine.step engine.scheduler.memory).stop with
        | none =>
            dsimp only
            rw [afterRun_afterStep, Nat.add_comm quota 1, Nat.add_sub_add_left]
            have foundAfter : (engine.afterStep pid p).find? pid = _ := find?_stepped found
            exact ih foundAfter
        | some stop => rfl
      · have quiet : p.machine.run (quota + 1) engine.scheduler.memory =
            ⟨0, p.machine, engine.scheduler.memory, .notRunning⟩ := if_neg runs
        rw [quiet, afterRun_unchanged found (.inr rfl)]
        exact slice_of_not_runs (not_runs_of_status found runs) _

/-- Two slices of a process in a row leave the engine that one slice with both quotas leaves, and a
slice executes at most its quota and counts what it executes. -/
theorem slice_add_and_sliced (pid : ProcessId) (first second : Nat) (engine : Engine) :
    (slice pid first engine).bind (slice pid second) = slice pid (first + second) engine ∧
      ∀ quota, Sliced pid quota engine (slice pid quota engine) :=
  ⟨slice_add pid first second engine, fun quota => sliced_slice pid quota engine⟩

end ActorMachine.Engine
