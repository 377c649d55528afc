import ActorMachine.Proofs.Engine.Machines
import ActorMachine.Proofs.Engine.Wrappers

set_option autoImplicit false

/-!
Units that run first to last.

A loaded template calls its first unit, drops the value of that and goes on to the rest, in which
the last unit is called with nothing left to do behind it. `Stage` tells where a process is in this,
and `Stage.Next` in what order the stages come; that a process is in a stage is said by what its
machine looks like in `Stands`. Every step of an engine moves a process to a next stage, whatever
the units do and whatever else goes on. Main statement: `load_runs_in_order`.
-/

namespace ActorMachine.Engine

/-! ### Stages -/

/-- Where a process is in units that run first to last. -/
inductive Stage where
  /-- On the way to a unit that others follow. -/
  | approaching (unit : Template) (others : List Template) (env : Env) (stack : List Value)
  /-- The unit is entered. -/
  | entered (unit : Template) (others : List Template) (env : Env) (stack : List Value)
  /-- The unit runs, and has not carried out the `RETURN` that ends it. -/
  | inside (unit : Template) (others : List Template) (env : Env)
  /-- The unit returned, and its values are `left` on the stack. -/
  | returned (others : List Template) (env : Env) (left : List Value)
  /-- The last unit is entered. -/
  | last (unit : Template) (env : Env) (stack : List Value)
  /-- The last unit runs, or what was to come after all units. -/
  | beyond
  /-- There is no such process any more. -/
  | ended

/-- The stage in which units are about to run. -/
def Stage.first : List Template → Env → List Value → Stage
  | [], _, _ => .ended
  | [unit], env, stack => .last unit env stack
  | unit :: others, env, stack => .approaching unit others env stack

/-- The order of stages. A unit is entered at one moment, and a process may end at every one. -/
inductive Stage.Next : Stage → Stage → Prop where
  | approaches {unit others env stack} :
      Next (.approaching unit others env stack) (.approaching unit others env stack)
  /-- The unit is entered in one more frame. -/
  | enters {unit others env stack} (frame : Ref) :
      Next (.approaching unit others env stack) (.entered unit others (frame :: env) stack)
  | begins {unit others env stack} :
      Next (.entered unit others env stack) (.inside unit others env)
  | continues {unit others env} : Next (.inside unit others env) (.inside unit others env)
  | returns {unit others env} (left : List Value) :
      Next (.inside unit others env) (.returned others env left)
  | returnsAtOnce {unit others env stack} (left : List Value) :
      Next (.entered unit others env stack) (.returned others env left)
  | departs {others env left} : Next (.returned others env left) (.returned others env left)
  /-- The value of the unit is dropped, and the other units run on what is below it. -/
  | proceeds {others env v stack} :
      Next (.returned others env (v :: stack)) (.first others env stack)
  | beginsLast {unit env stack} : Next (.last unit env stack) .beyond
  | continuesLast : Next .beyond .beyond
  | ends (stage : Stage) : Next stage .ended

/-- The unit that is entered in a stage, if there is one. -/
def Stage.entry : Stage → List Template
  | .entered unit _ _ _ => [unit]
  | .last unit _ _ => [unit]
  | .approaching _ _ _ _ | .inside _ _ _ | .returned _ _ _ | .beyond | .ended => []

/-- The units that are not entered yet. -/
def Stage.toCome : Stage → List Template
  | .approaching unit others _ _ => unit :: others
  | .entered _ others _ _ => others
  | .inside _ others _ => others
  | .returned others _ _ => others
  | .last _ _ _ | .beyond | .ended => []

/-- A unit that is about to run, or is entered, finds this stack. -/
def Stage.On (stack : List Value) : Stage → Prop
  | .approaching _ _ _ found => found = stack
  | .entered _ _ _ found => found = stack
  | .last _ _ found => found = stack
  | .inside _ _ _ | .returned _ _ _ | .beyond | .ended => True

/-- A unit that returned left one value on this stack. -/
def Stage.LeavesOne (stack : List Value) : Stage → Prop
  | .returned _ _ left => ∃ v, left = v :: stack
  | .approaching _ _ _ _ | .entered _ _ _ _ | .inside _ _ _ | .last _ _ _ | .beyond | .ended => True

theorem Stage.entry_first (units : List Template) (env : Env) (stack : List Value) :
    (first units env stack).entry ++ (first units env stack).toCome <+: units := by
  match units with
  | [] => exact List.prefix_refl []
  | [unit] => exact List.prefix_refl [unit]
  | unit :: next :: others => exact List.prefix_refl (unit :: next :: others)

theorem Stage.on_first (units : List Template) (env : Env) (stack : List Value) :
    (first units env stack).On stack := by
  match units with
  | [] => exact trivial
  | [_] => exact rfl
  | _ :: _ :: _ => exact rfl

section Order

variable {stage after : Stage} {stack : List Value}

/-- No unit is entered but the next one. -/
theorem Stage.Next.entry (next : stage.Next after) :
    after.entry ++ after.toCome <+: stage.toCome := by
  cases next with
  | approaches | enters | begins | continues | returns | returnsAtOnce | departs | beginsLast
  | continuesLast => exact List.prefix_refl _
  | proceeds => exact Stage.entry_first _ _ _
  | ends => exact List.nil_prefix

theorem Stage.Next.on (next : stage.Next after) (on : stage.On stack)
    (leavesOne : stage.LeavesOne stack) : after.On stack := by
  cases next with
  | approaches | enters => exact on
  | proceeds =>
      obtain ⟨v, isLeft⟩ := leavesOne
      cases isLeft
      exact Stage.on_first _ _ _
  | begins | continues | returns | returnsAtOnce | departs | beginsLast | continuesLast | ends =>
      exact trivial

end Order

section Stages

variable {units : List Template} {stack : List Value} {stages : Nat → Stage}
  (starts : stages 0 = .first units [] stack) (order : ∀ i, (stages i).Next (stages (i + 1)))
include starts order

theorem entry_append_toCome (n : Nat) :
    (List.range (n + 1)).flatMap (fun i => (stages i).entry) ++ (stages n).toCome <+: units := by
  induction n with
  | zero =>
      rw [List.range_succ, List.range_zero, List.nil_append, List.flatMap_singleton, starts]
      exact Stage.entry_first units [] stack
  | succ n ih =>
      -- What is entered in the next stage comes off the front of what is still to come.
      rw [List.range_succ, List.flatMap_append, List.flatMap_singleton, List.append_assoc]
      exact ((List.prefix_append_right_inj _).2 (order n).entry).trans ih

theorem entered_prefix (n : Nat) :
    (List.range n).flatMap (fun i => (stages i).entry) <+: units := by
  cases n with
  | zero => exact List.nil_prefix
  | succ n => exact (List.prefix_append _ _).trans (entry_append_toCome starts order n)

theorem on_of_leavesOne (n : Nat) (leaveOne : ∀ i < n, (stages i).LeavesOne stack) :
    (stages n).On stack := by
  induction n with
  | zero =>
      rw [starts]
      exact Stage.on_first units [] stack
  | succ n ih =>
      have on := ih fun i earlier => leaveOne i (Nat.lt_succ_of_lt earlier)
      exact (order n).on on (leaveOne n (Nat.lt_succ_self n))

end Stages

/-- The template `wrapper` calls `unit`, and then `rest` for the other units. -/
structure Wraps (wrapper unit rest : Template) (others : List Template) : Prop where
  code : wrapper.code = sequenceCode unit rest
  chain : Chain rest others

/-- A process is in a stage. It was on the way to the first unit with `returns` saved. -/
inductive Stands (pid : ProcessId) (returns : List Return) (engine : Engine) : Stage → Prop where
  | approaching {wrapper unit rest others env stack remaining m}
      (wraps : Wraps wrapper unit rest others) (empty : engine.EmptyFrames env)
      (isMachine : engine.machine? pid = some m)
      (approach : Approach wrapper unit env stack returns engine.store (remaining + 1) m) :
      Stands pid returns engine (.approaching unit others env stack)
  | entered {wrapper unit rest others env stack}
      (wraps : Wraps wrapper unit rest others) (empty : engine.EmptyFrames env)
      (isMachine : engine.machine? pid =
        some (.entering unit env stack (⟨wrapper, env, 4⟩ :: returns))) :
      Stands pid returns engine (.entered unit others env stack)
  | inside {wrapper unit rest others env above m}
      (wraps : Wraps wrapper unit rest others) (empty : engine.EmptyFrames env)
      (isMachine : engine.machine? pid = some m)
      (saved : m.returns = above ++ ⟨wrapper, env, 4⟩ :: returns) :
      Stands pid returns engine (.inside unit others env)
  | returned {wrapper unit rest others env left remaining m}
      (wraps : Wraps wrapper unit rest others) (empty : engine.EmptyFrames env)
      (isMachine : engine.machine? pid = some m)
      (departure : Departure wrapper rest env returns left (remaining + 1) m) :
      Stands pid returns engine (.returned others env left)
  | last {unit env stack} (empty : engine.EmptyFrames env)
      (isMachine : engine.machine? pid = some (.entering unit env stack returns)) :
      Stands pid returns engine (.last unit env stack)
  | beyond : Stands pid returns engine .beyond
  | ended (gone : engine.machine? pid = none) (old : pid < engine.scheduler.processes.nextPid) :
      Stands pid returns engine .ended

section Stands

variable {pid : ProcessId} {returns : List Return} {engine after : Engine}
  {wrapper unit rest : Template} {others : List Template} {env : Env} {stack : List Value}

theorem EmptyFrames.mono (empty : engine.EmptyFrames env)
    (empties : engine.store.KeepsEmptyFrames after.store) : after.EmptyFrames env :=
  fun frame member => empties frame (empty frame member)

/-- The template of a chain is entered: there is one unit, or the wrapper of the first. -/
theorem Chain.stands {template : Template} {units : List Template} (chain : Chain template units)
    (isMachine : engine.machine? pid = some (.entering template env stack returns))
    (empty : engine.EmptyFrames env) : Stands pid returns engine (.first units env stack) := by
  cases chain with
  | last => exact .last empty isMachine
  | @more _ unit rest others code chain =>
      cases others with
      | nil => cases chain
      | cons next others => exact .approaching ⟨code, chain⟩ empty isMachine .start

/-- In a step on the way to a unit, the process is one instruction closer to it, or stays. -/
theorem Approach.transition {memory : Memory} {store : Store} {remaining : Nat} {m next : Machine}
    (code : wrapper.code = sequenceCode unit rest)
    (approach : Approach wrapper unit env stack returns memory.store (remaining + 1) m)
    (transition : m.Transition memory store next)
    (empties : memory.store.KeepsEmptyFrames store) :
    Approach wrapper unit env stack returns store (remaining + 1) next ∨
      Approach wrapper unit env stack returns store remaining next := by
  obtain ⟨goesOn, closer⟩ := approach.step code
  cases transition with
  | woken woken =>
      cases woken with
      | same => exact .inl (approach.mono empties)
      | resumed waits =>
          rw [approach.runs] at waits
          cases waits
  | goesOn runs stopped kept => exact .inr (closer.mono kept)
  | answered stopped v =>
      rw [goesOn] at stopped
      cases stopped
  | waits stopped =>
      rw [goesOn] at stopped
      cases stopped

/-- In a step on the way from a unit, the process is one instruction further if there is a value to
drop, or stays. -/
theorem Departure.transition {memory : Memory} {store : Store} {remaining : Nat} {left : List Value}
    {m next : Machine} (code : wrapper.code = sequenceCode unit rest)
    (departure : Departure wrapper rest env returns left (remaining + 1) m)
    (transition : m.Transition memory store next) :
    Departure wrapper rest env returns left (remaining + 1) next ∨
      Departure wrapper rest env returns left remaining next := by
  -- Without a value to drop the machine faults, after which there is no machine.
  have proceeds : (m.step memory).stop = none ∧
      Departure wrapper rest env returns left remaining (m.step memory).machine ∨
        ∃ cause, (m.step memory).stop = some (.fault cause) := by
    by_cases some : left = []
    · exact .inr (departure.fault code some)
    · exact .inl (departure.step code some)
  cases transition with
  | woken woken =>
      cases woken with
      | same => exact .inl departure
      | resumed waits =>
          rw [departure.runs] at waits
          cases waits
  | goesOn runs stopped kept =>
      rcases proceeds with ⟨_, further⟩ | ⟨cause, faults⟩
      · exact .inr further
      · rw [faults] at stopped
        cases stopped
  | answered stopped v =>
      rcases proceeds with ⟨stops, _⟩ | ⟨cause, stops⟩
      · rw [stops] at stopped
        cases stopped
      · rw [stops] at stopped
        cases stopped
  | waits stopped =>
      rcases proceeds with ⟨stops, _⟩ | ⟨cause, stops⟩
      · rw [stops] at stopped
        cases stopped
      · rw [stops] at stopped
        cases stopped

/-- As long as a return is saved the machine is above it, until it goes on there. -/
theorem unwinds_above {m : Machine} {execution : Execution} {above : List Return} {back : Return}
    (unwinds : m.Unwinds execution) (saved : m.returns = above ++ back :: returns) :
    (∃ above, execution.machine.returns = above ++ back :: returns) ∨
      execution.stop = none ∧ execution.machine = { m with
        template := back.template
        env := back.env
        pc := back.pc
        returns } := by
  cases unwinds with
  | kept same => exact .inl ⟨above, same.trans saved⟩
  | @saved _ other isSaved =>
      refine .inl ⟨other :: above, ?_⟩
      rw [isSaved, saved]
      rfl
  | returned isSaved =>
      rw [saved] at isSaved
      cases above with
      | nil =>
          -- Nothing is above, so this is the return that was waited for.
          cases isSaved
          exact .inr ⟨rfl, rfl⟩
      | cons first above =>
          cases isSaved
          exact .inl ⟨above, rfl⟩

/-- In a step inside a unit, the process stays inside or carries out the `RETURN` that ends it. -/
theorem Wraps.stands {memory : Memory} {m next : Machine} {above : List Return}
    (wraps : Wraps wrapper unit rest others) (empty : after.EmptyFrames env)
    (isMachine : after.machine? pid = some next)
    (saved : m.returns = above ++ ⟨wrapper, env, 4⟩ :: returns)
    (transition : m.Transition memory after.store next) :
    Stands pid returns after (.inside unit others env) ∨
      ∃ left, Stands pid returns after (.returned others env left) := by
  have unwound := unwinds_above (m.follows_step memory).unwinds saved
  cases transition with
  | woken woken =>
      cases woken with
      | same => exact .inl (.inside wraps empty isMachine saved)
      | resumed => exact .inl (.inside wraps empty isMachine saved)
  | goesOn runs stopped kept =>
      rcases unwound with ⟨above, saved⟩ | ⟨_, isBack⟩
      · exact .inl (.inside wraps empty isMachine saved)
      · rw [isBack, runs] at isMachine
        exact .inr ⟨m.stack, .returned wraps empty isMachine .back⟩
  | answered stopped v =>
      rcases unwound with ⟨above, saved⟩ | ⟨goesOn, _⟩
      · exact .inl (.inside wraps empty isMachine saved)
      · rw [goesOn] at stopped
        cases stopped
  | waits stopped =>
      rcases unwound with ⟨above, saved⟩ | ⟨goesOn, _⟩
      · exact .inl (.inside wraps empty isMachine saved)
      · rw [goesOn] at stopped
        cases stopped

theorem Approach.stands {remaining : Nat} {m : Machine} (wraps : Wraps wrapper unit rest others)
    (empty : engine.EmptyFrames env) (isMachine : engine.machine? pid = some m)
    (approach : Approach wrapper unit env stack returns engine.store remaining m) :
    ∃ next, (Stage.approaching unit others env stack).Next next ∧
      Stands pid returns engine next := by
  cases remaining with
  | succ remaining => exact ⟨_, .approaches, .approaching wraps empty isMachine approach⟩
  | zero =>
      cases approach with
      | @there frame isEmpty =>
          exact ⟨_, .enters frame,
            .entered wraps (List.forall_mem_cons.2 ⟨isEmpty, empty⟩) isMachine⟩

theorem Departure.stands {remaining : Nat} {left : List Value} {m : Machine}
    (wraps : Wraps wrapper unit rest others) (empty : engine.EmptyFrames env)
    (isMachine : engine.machine? pid = some m)
    (departure : Departure wrapper rest env returns left remaining m) :
    ∃ next, (Stage.returned others env left).Next next ∧ Stands pid returns engine next := by
  cases remaining with
  | succ remaining => exact ⟨_, .departs, .returned wraps empty isMachine departure⟩
  | zero =>
      cases departure with
      | there => exact ⟨_, .proceeds, wraps.chain.stands isMachine empty⟩

/-- Every step of an engine takes a process to a next stage. -/
theorem Stands.step {stage : Stage} (stands : Stands pid returns engine stage)
    (step : engine.Step after) : ∃ next, stage.Next next ∧ Stands pid returns after next := by
  have empties := step.transitions.empties
  cases stands with
  | approaching wraps empty isMachine approach =>
      obtain ⟨old, gone | ⟨next, isNext, transition⟩⟩ := step.machine? isMachine
      · exact ⟨.ended, .ends _, .ended gone old⟩
      · rcases approach.transition wraps.code transition empties with same | closer
        · exact same.stands wraps (empty.mono empties) isNext
        · exact closer.stands wraps (empty.mono empties) isNext
  | @entered wrapper unit rest others env stack wraps empty isMachine =>
      obtain ⟨old, gone | ⟨next, isNext, transition⟩⟩ := step.machine? isMachine
      · exact ⟨.ended, .ends _, .ended gone old⟩
      · have saved : (Machine.entering unit env stack (⟨wrapper, env, 4⟩ :: returns)).returns =
            [] ++ ⟨wrapper, env, 4⟩ :: returns := rfl
        rcases wraps.stands (empty.mono empties) isNext saved transition with
          inside | ⟨left, returned⟩
        · exact ⟨_, .begins, inside⟩
        · exact ⟨_, .returnsAtOnce left, returned⟩
  | inside wraps empty isMachine saved =>
      obtain ⟨old, gone | ⟨next, isNext, transition⟩⟩ := step.machine? isMachine
      · exact ⟨.ended, .ends _, .ended gone old⟩
      · rcases wraps.stands (empty.mono empties) isNext saved transition with
          inside | ⟨left, returned⟩
        · exact ⟨_, .continues, inside⟩
        · exact ⟨_, .returns left, returned⟩
  | returned wraps empty isMachine departure =>
      obtain ⟨old, gone | ⟨next, isNext, transition⟩⟩ := step.machine? isMachine
      · exact ⟨.ended, .ends _, .ended gone old⟩
      · rcases departure.transition wraps.code transition with same | further
        · exact same.stands wraps (empty.mono empties) isNext
        · exact further.stands wraps (empty.mono empties) isNext
  | last empty isMachine => exact ⟨.beyond, .beginsLast, .beyond⟩
  | beyond => exact ⟨.beyond, .continuesLast, .beyond⟩
  | ended gone old =>
      -- The ids of processes are given once, so a process that was there does not come back.
      exact ⟨.ended, .ends _, .ended (step.machine?_eq_none gone old)
        (Nat.lt_of_lt_of_le old step.transitions.next_le)⟩

/-- Along a run of an engine, a process goes from stage to stage. -/
theorem Stands.run {first : Stage} {path : Nat → Engine}
    (stands : Stands pid returns (path 0) first)
    (steps : ∀ i, (path i).Step (path (i + 1))) :
    ∃ stages : Nat → Stage, stages 0 = first ∧
      ∀ i, Stands pid returns (path i) (stages i) ∧ (stages i).Next (stages (i + 1)) := by
  -- The next stage depends on the one before it, so stages are kept with the proof that they hold.
  choose next order standsNext using
    fun (i : Nat) (stage : { stage // Stands pid returns (path i) stage }) =>
      stage.2.step (steps i)
  let stages : (i : Nat) → { stage // Stands pid returns (path i) stage } :=
    Nat.rec ⟨first, stands⟩ fun i stage => ⟨next i stage, standsNext i stage⟩
  exact ⟨fun i => (stages i).1, rfl, fun i => ⟨(stages i).2, order i (stages i)⟩⟩

/-! ### The instructions between units -/

theorem advance_step {m : Machine} (isMachine : engine.machine? pid = some m)
    (runs : m.status = .running) (goesOn : (m.step engine.scheduler.memory).stop = none) :
    ∃ after, engine.Runs pid ∧ (engine.advance pid).engine? = some after ∧
      after.machine? pid = some (m.step engine.scheduler.memory).machine ∧
      after.store = (m.step engine.scheduler.memory).memory.store := by
  obtain ⟨p, found, rfl⟩ := machine?_eq_some.1 isMachine
  refine ⟨engine.afterStep pid p, ⟨p, found, runs⟩, ?_, ?_, rfl⟩
  · rw [advance_eq_afterRun found runs, goesOn]
    rfl
  · exact machine?_eq_some.2 ⟨_, find?_stepped found, rfl⟩

theorem EmptyFrames.step {m : Machine} (empty : engine.EmptyFrames env)
    (isStore : after.store = (m.step engine.scheduler.memory).memory.store) :
    after.EmptyFrames env := by
  refine empty.mono ?_
  rw [isStore]
  exact (m.follows_step engine.scheduler.memory).kept.empties

/-- The process comes to the unit by its own instructions. -/
theorem Approach.executes {remaining : Nat} {m : Machine} (wraps : Wraps wrapper unit rest others)
    (empty : engine.EmptyFrames env) (isMachine : engine.machine? pid = some m)
    (approach : Approach wrapper unit env stack returns engine.store remaining m) :
    ∃ after frame, Executes pid remaining engine after ∧
      Stands pid returns after (.entered unit others (frame :: env) stack) := by
  induction remaining generalizing engine m with
  | zero =>
      cases approach with
      | @there frame isEmpty =>
          exact ⟨engine, frame, .done,
            .entered wraps (List.forall_mem_cons.2 ⟨isEmpty, empty⟩) isMachine⟩
  | succ remaining ih =>
      obtain ⟨goesOn, closer⟩ := approach.step wraps.code
      obtain ⟨middle, runs, advanced, isNext, isStore⟩ :=
        advance_step isMachine approach.runs goesOn
      rw [← isStore] at closer
      obtain ⟨after, frame, executes, entered⟩ := ih (empty.step isStore) isNext closer
      exact ⟨after, frame, .next runs advanced executes, entered⟩

/-- The process comes from a unit that left a value to the other units by its own instructions. -/
theorem Departure.executes {remaining : Nat} {v : Value} {m : Machine}
    (wraps : Wraps wrapper unit rest others) (empty : engine.EmptyFrames env)
    (isMachine : engine.machine? pid = some m)
    (departure : Departure wrapper rest env returns (v :: stack) remaining m) :
    ∃ after, Executes pid remaining engine after ∧
      Stands pid returns after (.first others env stack) := by
  induction remaining generalizing engine m with
  | zero =>
      cases departure with
      | there => exact ⟨engine, .done, wraps.chain.stands isMachine empty⟩
  | succ remaining ih =>
      obtain ⟨goesOn, further⟩ := departure.step wraps.code (List.cons_ne_nil _ _)
      obtain ⟨middle, runs, advanced, isNext, isStore⟩ :=
        advance_step isMachine departure.runs goesOn
      obtain ⟨after, executes, stands⟩ := ih (empty.step isStore) isNext further
      exact ⟨after, .next runs advanced executes, stands⟩

end Stands

/-! ### Units that end the process -/

/-- The next instruction of a process halts or faults, or calls a native that fails. -/
inductive Breaks (engine : Engine) (pid : ProcessId) : Prop where
  | halts {p reason} (found : engine.find? pid = some p) (runs : p.status = .running)
      (stopped : (p.machine.step engine.scheduler.memory).stop = some (.halt reason))
  | faults {p cause} (found : engine.find? pid = some p) (runs : p.status = .running)
      (stopped : (p.machine.step engine.scheduler.memory).stop = some (.fault cause))
  | fails {p native args cause middle} (found : engine.find? pid = some p)
      (runs : p.status = .running)
      (stopped : (p.machine.step engine.scheduler.memory).stop = some (.native native args))
      (called : (native.call pid args).run (engine.afterStep pid p) =
        (.error (.fault cause), middle))

theorem Breaks.find? {engine : Engine} {pid : ProcessId} (breaks : engine.Breaks pid) :
    ∃ p, engine.find? pid = some p := by
  cases breaks with
  | halts found => exact ⟨_, found⟩
  | faults found => exact ⟨_, found⟩
  | fails found => exact ⟨_, found⟩

/-- An instruction that halts or faults is the last one of its process. -/
theorem Breaks.advance {engine : Engine} {pid : ProcessId} (breaks : engine.Breaks pid) :
    ∃ after, engine.advance pid = .over after ∧ after.find? pid = none := by
  cases breaks with
  | halts found runs stopped =>
      rw [advance_eq_afterRun found runs, stopped]
      exact ⟨_, rfl, Scheduler.find?_die_self _ pid _⟩
  | faults found runs stopped =>
      rw [advance_eq_afterRun found runs, stopped]
      exact ⟨_, rfl, Scheduler.find?_die_self _ pid _⟩
  | @fails p native args cause middle found runs stopped called =>
      have failed : (engine.afterStep pid p).callFor pid native args =
          .over (middle.dieOf pid cause) := by
        unfold callFor
        rw [called]
      rw [advance_eq_afterRun found runs, stopped]
      exact ⟨_, failed, Scheduler.find?_die_self _ pid _⟩

theorem machine?_eq_none_of_steps {engine later : Engine} {pid : ProcessId}
    (steps : Relation.ReflTransGen Step engine later) (ended : engine.machine? pid = none)
    (old : pid < engine.scheduler.processes.nextPid) :
    later.machine? pid = none ∧ pid < later.scheduler.processes.nextPid := by
  induction steps with
  | refl => exact ⟨ended, old⟩
  | tail _ step ih =>
      obtain ⟨stillEnded, stillOld⟩ := ih
      exact ⟨step.machine?_eq_none stillEnded stillOld,
        Nat.lt_of_lt_of_le stillOld step.transitions.next_le⟩

/-- A process that halts or faults is gone for good. -/
theorem Breaks.gone {engine : Engine} {pid : ProcessId} (breaks : engine.Breaks pid) :
    ∃ after, engine.advance pid = .over after ∧
      ∀ later, Relation.ReflTransGen Step after later → later.machine? pid = none := by
  obtain ⟨p, found⟩ := breaks.find?
  obtain ⟨after, isOver, gone⟩ := breaks.advance
  refine ⟨after, isOver, ?_⟩
  intro later steps
  have step : engine.Step after := .instruction pid (by rw [isOver]; rfl)
  have old := Nat.lt_of_lt_of_le (Scheduler.lt_nextPid found) step.transitions.next_le
  have ended : after.machine? pid = none := Option.map_eq_none_iff.2 gone
  exact (machine?_eq_none_of_steps steps ended old).1

/-! ### Loaded units -/

/-- The stages through which a process goes along a run of an engine. -/
structure Stages (pid : ProcessId) (units : List Template) (stack : List Value)
    (returns : List Return) (path : Nat → Engine) (stages : Nat → Stage) : Prop where
  starts : stages 0 = .first units [] stack
  stands : ∀ i, Stands pid returns (path i) (stages i)
  order : ∀ i, (stages i).Next (stages (i + 1))
  /-- The units entered so far are the first ones, and each was entered once. -/
  entered : ∀ n, (List.range n).flatMap (fun i => (stages i).entry) <+: units
  /-- As long as units leave one value each, the next unit finds the stack of the first. -/
  on : ∀ n, (∀ i < n, (stages i).LeavesOne stack) → (stages n).On stack

/-- Units run first to last in a process that is about to enter them on a stack, with `returns`
saved. -/
structure InOrder (pid : ProcessId) (units : List Template) (stack : List Value)
    (returns : List Return) (start : Engine) : Prop where
  /-- Whatever happens, the process goes from stage to stage. -/
  stages : ∀ path : Nat → Engine, path 0 = start → (∀ i, (path i).Step (path (i + 1))) →
    ∃ stages, Stages pid units stack returns path stages
  /-- On the way to a unit, the next instructions of the process enter it. -/
  enters : ∀ engine unit others env stack,
    Stands pid returns engine (.approaching unit others env stack) →
    ∃ executed after frame, Executes pid executed engine after ∧
      Stands pid returns after (.entered unit others (frame :: env) stack)
  /-- When a unit returned with a value, the next instructions of the process lead to the others. -/
  proceeds : ∀ engine others env v stack,
    Stands pid returns engine (.returned others env (v :: stack)) →
    ∃ executed after, Executes pid executed engine after ∧
      Stands pid returns after (.first others env stack)
  /-- When a unit halts or faults, the process is gone for good, and so no other unit is entered. -/
  ends : ∀ engine : Engine, engine.Breaks pid → ∃ after, engine.advance pid = .over after ∧
    ∀ later, Relation.ReflTransGen Step after later → later.machine? pid = none

theorem Chain.inOrder {template : Template} {units : List Template} (chain : Chain template units)
    {start : Engine} {pid : ProcessId} {stack : List Value} {returns : List Return}
    (isMachine : start.machine? pid = some (.entering template [] stack returns)) :
    InOrder pid units stack returns start where
  stages := by
    rintro path rfl steps
    obtain ⟨stages, starts, along⟩ := (chain.stands isMachine nofun).run steps
    have order : ∀ i, (stages i).Next (stages (i + 1)) := fun i => (along i).2
    exact ⟨stages, starts, fun i => (along i).1, order, entered_prefix starts order,
      on_of_leavesOne starts order⟩
  enters := by
    intro engine unit others env stack stands
    cases stands with
    | approaching wraps empty isMachine approach =>
        exact ⟨_, approach.executes wraps empty isMachine⟩
  proceeds := by
    intro engine others env v stack stands
    cases stands with
    | returned wraps empty isMachine departure =>
        exact ⟨_, departure.executes wraps empty isMachine⟩
  ends := fun _ breaks => breaks.gone

/-- Units that link are loaded as one template, and a process that enters it runs them first to
last. No units at all cannot be loaded. -/
theorem load_runs_in_order (engine : Engine) :
    engine.load [] = (faulting (.wire .emptyPayload), engine) ∧
      ∀ units templates linked, Links engine units templates linked → units ≠ [] →
        ∃ template after, engine.load units = (.ok template, after) ∧
          ∀ start pid stack returns,
            start.machine? pid = some (.entering template [] stack returns) →
            InOrder pid templates stack returns start := by
  refine ⟨rfl, ?_⟩
  intro units templates linked links present
  obtain ⟨template, after, loaded, chain⟩ := load_of_links links present
  exact ⟨template, after, loaded, fun start pid stack returns => chain.inOrder⟩

theorem machine?_spawn (engine : Engine) (f : Closure) :
    (engine.spawn f).2.machine? (engine.spawn f).1 =
      some (.entering f.template f.env [] [⟨.epilogue (engine.spawn f).1, [], 0⟩]) :=
  machine?_eq_some.2 ⟨_, (Scheduler.find?_spawn _ _ f).trans (if_pos rfl), rfl⟩

/-- A unit whose value is nil. -/
def nilUnit (id : Nat) : Template := ⟨.linked id, #[.args 0, .const .nil, .ret]⟩

/-- Two units are loaded, and a new process runs them first to last. -/
theorem load_runs_in_order_two :
    ∃ template after, load [.template (nilUnit 0), .template (nilUnit 1)] {} =
        (.ok template, after) ∧
      InOrder (after.spawn ⟨0, template, []⟩).1 [nilUnit 0, nilUnit 1] []
        [⟨.epilogue (after.spawn ⟨0, template, []⟩).1, [], 0⟩]
        (after.spawn ⟨0, template, []⟩).2 := by
  have links : Links {} [.template (nilUnit 0), .template (nilUnit 1)] [nilUnit 0, nilUnit 1] {} :=
    .cons rfl (.cons rfl .nil)
  obtain ⟨template, after, loaded, runs⟩ :=
    (load_runs_in_order {}).2 _ _ _ links (List.cons_ne_nil _ _)
  exact ⟨template, after, loaded, runs _ _ _ _ (machine?_spawn after ⟨0, template, []⟩)⟩

end ActorMachine.Engine
