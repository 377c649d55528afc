import ActorMachine.Proofs.Engine.Reachable

set_option autoImplicit false

/-!
Where bursts end does not matter.

A turn looks neither at the number of tasks that a burst may do nor at what the latest burst came
to: no instruction and no native does. So turns are the same whatever bursts they are in, and a
burst of `m` tasks and one of `n` are a burst of `m + n`, as long as the clock stands. Main
statement: `run_add`.
-/

namespace ActorMachine

open Argument

namespace Engine

/-- The engine with another limit on the tasks of a burst, and another answer of the latest one. -/
def reset (limit : Option Nat) (rearm : Rearm) (engine : Engine) : Engine :=
  { engine with config := { engine.config with taskLimit := limit }, rearm }

/-- The engine with a limit on the tasks of a burst. -/
def limited (limit : Nat) (engine : Engine) : Engine := engine.reset (some limit) engine.rearm

/-- A step that does the same whatever the bursts are. -/
def Blind {α : Type} (act : EngineM α) : Prop :=
  ∀ limit rearm engine,
    act.run (reset limit rearm engine) =
      ((act.run engine).1, (act.run engine).2.reset limit rearm)

section Blind

variable {α β : Type}

theorem blind_ofOutcome (outcome : Outcome α) : Blind (ofOutcome outcome) := fun _ _ _ => rfl

theorem blind_pure (a : α) : Blind (pure a) := fun _ _ _ => rfl

theorem blind_refuse (cause : Fault) : Blind (refuse cause : EngineM α) := blind_ofOutcome _

theorem blind_missing (expected : Nat) (args : List Value) :
    Blind (missing expected args : EngineM α) := blind_ofOutcome _

theorem blind_onScheduler (f : Scheduler → α × Scheduler) : Blind (EngineM.onScheduler f) :=
  fun _ _ _ => rfl

theorem blind_onStore (act : Action Store α) : Blind (EngineM.onStore act) := fun _ _ _ => rfl

theorem blind_changeHost (f : Host → Host) : Blind (EngineM.changeHost f) := fun _ _ _ => rfl

theorem blind_modify {f : Engine → Engine}
    (same : ∀ limit rearm engine, f (reset limit rearm engine) = (f engine).reset limit rearm) :
    Blind (modify f : EngineM PUnit) := by
  intro limit rearm engine
  exact Prod.ext rfl (same limit rearm engine)

theorem Blind.bind {act : EngineM α} {next : α → EngineM β} (first : Blind act)
    (rest : ∀ a, Blind (next a)) : Blind (act >>= next) := by
  intro limit rearm engine
  rw [run_bind, run_bind, first limit rearm engine]
  cases act.run engine with
  | mk outcome after =>
      cases outcome with
      | ok a => exact rest a limit rearm after
      | error failure => rfl

/-- Steps after a look at the engine that does not see the bursts. -/
theorem blind_get_bind {next : Engine → EngineM β}
    (same : ∀ limit rearm engine, next (reset limit rearm engine) = next engine)
    (rest : ∀ engine, Blind (next engine)) : Blind (get >>= next) := by
  intro limit rearm engine
  have looked : (get >>= next : EngineM β).run (reset limit rearm engine) =
      (next (reset limit rearm engine)).run (reset limit rearm engine) := rfl
  rw [looked, same]
  exact rest engine limit rearm engine

theorem blind_elements (v : Value) : Blind (EngineM.elements v) :=
  blind_get_bind (fun _ _ _ => rfl) fun _ => blind_ofOutcome _

/-! ### Natives -/

theorem blind_nameOp (op : NameOp) (args : List Value) : Blind (op.run args) := by
  unfold NameOp.run
  split
  · exact (blind_ofOutcome _).bind fun _ => blind_onScheduler _
  · exact (blind_ofOutcome _).bind fun _ => blind_onScheduler _
  · exact (blind_ofOutcome _).bind fun _ =>
      (blind_modify fun _ _ _ => rfl).bind fun _ => blind_pure _
  · exact (blind_ofOutcome _).bind fun _ =>
      (blind_modify fun _ _ _ => rfl).bind fun _ => blind_pure _
  · exact (blind_ofOutcome _).bind fun _ =>
      blind_get_bind (fun _ _ _ => rfl) fun _ => blind_pure _
  · refine (blind_ofOutcome _).bind fun name =>
      blind_get_bind (fun _ _ _ => rfl) fun engine => ?_
    cases engine.global? name with
    | some x => exact blind_pure _
    | none => exact blind_refuse _
  · exact blind_get_bind (fun _ _ _ => rfl) fun _ => blind_onScheduler _
  · refine Blind.bind ?_ fun _ => blind_pure _
    exact fun _ _ _ => rfl
  · exact blind_missing _ _

theorem blind_linkTo (a b : ProcessId) : Blind (ProcessOp.run.linkTo a b) := by
  refine (blind_onScheduler _).bind fun linked => ?_
  cases linked with
  | ok _ => exact blind_pure _
  | error cause => exact blind_refuse _

theorem blind_processOp (op : ProcessOp) (me : ProcessId) (args : List Value) :
    Blind (op.run me args) := by
  unfold ProcessOp.run
  split
  · refine (blind_ofOutcome _).bind fun pid =>
      blind_get_bind (fun _ _ _ => rfl) fun engine => ?_
    cases engine.find? pid with
    | none => exact blind_refuse _
    | some p => exact blind_onScheduler _
  · exact (blind_ofOutcome _).bind fun _ => (blind_onScheduler _).bind fun _ => blind_pure _
  · exact (blind_ofOutcome _).bind fun _ => (blind_onScheduler _).bind fun _ =>
      (blind_linkTo _ _).bind fun _ => blind_pure _
  · exact (blind_ofOutcome _).bind fun _ => (blind_linkTo _ _).bind fun _ => blind_pure _
  · exact (blind_ofOutcome _).bind fun _ => (blind_onScheduler _).bind fun _ => blind_pure _
  · exact (blind_onScheduler _).bind fun _ => blind_pure _
  · exact (blind_ofOutcome _).bind fun _ => (blind_ofOutcome _).bind fun _ =>
      blind_get_bind (fun _ _ _ => rfl) fun _ => (blind_ofOutcome _).bind fun _ =>
        (blind_onScheduler _).bind fun _ => blind_pure _
  · exact blind_pure _
  · exact blind_get_bind (fun _ _ _ => rfl) fun _ => blind_onScheduler _
  · exact (blind_ofOutcome _).bind fun _ => (blind_onScheduler _).bind fun _ => blind_pure _
  · exact blind_get_bind (fun _ _ _ => rfl) fun _ => blind_pure _
  · exact blind_missing _ _

theorem blind_requestResource (me : ProcessId) (method resource : Value) (body : Option Value) :
    Blind (requestResource me method resource body) := by
  refine (blind_ofOutcome _).bind fun method => (blind_elements _).bind fun parts => ?_
  split
  · refine (blind_ofOutcome _).bind fun node => (blind_ofOutcome _).bind fun part =>
      (blind_ofOutcome _).bind fun request => blind_get_bind (fun _ _ _ => rfl) fun engine => ?_
    cases engine.host.resource me node request with
    | error cause => exact blind_refuse _
    | ok served =>
        refine (blind_modify fun _ _ _ => rfl).bind fun _ => ?_
        cases served.1 with
        | some text => exact blind_pure _
        | none => exact blind_pure _
  · exact blind_refuse _

theorem blind_hostOp (op : HostOp) (me : ProcessId) (args : List Value) :
    Blind (op.run me args) := by
  unfold HostOp.run
  split
  · exact (blind_ofOutcome _).bind fun _ => (blind_changeHost _).bind fun _ => blind_pure _
  · exact blind_get_bind (fun _ _ _ => rfl) fun _ => blind_pure _
  · exact blind_get_bind (fun _ _ _ => rfl) fun _ =>
      (blind_modify fun _ _ _ => rfl).bind fun _ => blind_pure _
  · exact (blind_ofOutcome _).bind fun _ => (blind_ofOutcome _).bind fun _ =>
      (blind_elements _).bind fun _ => (blind_ofOutcome _).bind fun _ =>
        (blind_changeHost _).bind fun _ => blind_pure _
  · refine (blind_elements _).bind fun parts => ?_
    split
    · exact blind_requestResource _ _ _ _
    · exact blind_requestResource _ _ _ _
    · exact blind_refuse _
  · exact (blind_ofOutcome _).bind fun _ => (blind_changeHost _).bind fun _ => blind_pure _
  · exact blind_missing _ _

theorem blind_hostAction (action : HostAction) : Blind action.run := by
  induction action with
  | done result =>
      cases result with
      | ok v => exact blind_pure v
      | error cause => exact blind_refuse cause
  | look next ih => exact blind_get_bind (fun _ _ _ => rfl) fun _ => ih _ _ _
  | changeHost f next ih => exact (blind_changeHost f).bind fun _ => ih
  | list items next ih => exact (blind_onScheduler _).bind fun v => ih v
  | define name v next ih => exact (blind_onScheduler _).bind fun _ => ih
  | spawn f next ih => exact (blind_onScheduler _).bind fun pid => ih pid
  | send receiver message next ih => exact (blind_onScheduler _).bind fun _ => ih

theorem blind_callRegistered (index : Nat) (me : ProcessId) (args : List Value) :
    Blind (callRegistered index me args) := by
  refine blind_get_bind (fun _ _ _ => rfl) fun engine => ?_
  split
  · exact blind_hostAction _
  · exact blind_missing _ _

/-- No native looks at the bursts. -/
theorem blind_call (native : Native) (me : ProcessId) (args : List Value) :
    Blind (native.call me args) := by
  unfold Native.call
  split
  · unfold Operation.run
    split
    · exact (blind_ofOutcome _).bind fun _ => (blind_ofOutcome _).bind fun _ => blind_pure _
    · exact (blind_ofOutcome _).bind fun _ => (blind_ofOutcome _).bind fun _ => blind_pure _
    · exact blind_pure _
    · exact blind_pure _
    · exact blind_onStore _
    · exact blind_nameOp _ _
    · exact blind_processOp _ _ _
    · exact blind_hostOp _ _ _
    · exact (blind_ofOutcome _).bind fun _ => (blind_changeHost _).bind fun _ => blind_pure _
    · exact blind_callRegistered _ _ _
    · exact blind_missing _ _
  · exact blind_refuse _

end Blind

/-! ### Turns -/

/-- The progress with a changed engine. -/
def Progress.map (f : Engine → Engine) : Progress → Progress
  | .more engine => .more (f engine)
  | .over engine => .over (f engine)
  | .endless => .endless

/-- The turn with a changed engine. -/
def Turn.map (f : Engine → Engine) : Turn → Turn
  | .idle engine => .idle (f engine)
  | .next engine => .next (f engine)
  | .endless => .endless

section Reset

variable (limit : Option Nat) (rearm : Rearm)

theorem callFor_reset (engine : Engine) (pid : ProcessId) (native : Native) (args : List Value) :
    (engine.reset limit rearm).callFor pid native args =
      (engine.callFor pid native args).map (reset limit rearm) := by
  unfold callFor
  rw [blind_call native pid args limit rearm engine]
  cases (native.call pid args).run engine with
  | mk outcome after =>
      cases outcome with
      | ok v =>
          have same : (after.reset limit rearm).find? pid = after.find? pid := rfl
          dsimp only
          rw [same]
          cases after.find? pid with
          | none => rfl
          | some p =>
              dsimp only
              split
              · rfl
              · rfl
      | error failure =>
          cases failure with
          | fault cause => rfl
          | endless => rfl

theorem advance_reset (engine : Engine) (pid : ProcessId) :
    (engine.reset limit rearm).advance pid = (engine.advance pid).map (reset limit rearm) := by
  have sameProcess : (engine.reset limit rearm).find? pid = engine.find? pid := rfl
  have stepped : ∀ p, (engine.reset limit rearm).stepMachine pid p =
      ((engine.stepMachine pid p).1, (engine.stepMachine pid p).2.reset limit rearm) :=
    fun _ => rfl
  unfold advance
  rw [sameProcess]
  cases engine.find? pid with
  | none => rfl
  | some p =>
      dsimp only
      split
      · rw [stepped]
        cases engine.stepMachine pid p with
        | mk stop after =>
            cases stop with
            | none => rfl
            | some stop =>
                cases stop with
                | native native args => exact callFor_reset limit rearm after pid native args
                | _ => rfl
      · rfl

theorem slice_reset (pid : ProcessId) (quota : Nat) (engine : Engine) :
    slice pid quota (engine.reset limit rearm) =
      (slice pid quota engine).map (reset limit rearm) := by
  induction quota generalizing engine with
  | zero => rfl
  | succ quota ih =>
      unfold slice
      rw [advance_reset]
      cases engine.advance pid with
      | more after => exact ih after
      | _ => rfl

theorem tryScheduler_reset (f : Scheduler → Option Scheduler) (engine : Engine) :
    (engine.reset limit rearm).tryScheduler f =
      (engine.tryScheduler f).map (reset limit rearm) := by
  have same : (engine.reset limit rearm).scheduler = engine.scheduler := rfl
  unfold tryScheduler
  dsimp only
  rw [same]
  cases f engine.scheduler with
  | none => rfl
  | some s => rfl

theorem execute_reset (engine : Engine) (pid : ProcessId) :
    (engine.reset limit rearm).execute pid = (engine.execute pid).map (reset limit rearm) := by
  unfold execute
  have sameLive : (engine.reset limit rearm).scheduler.isLive pid = engine.scheduler.isLive pid :=
    rfl
  have begun : slice pid (engine.reset limit rearm).config.quota
      ((engine.reset limit rearm).mapScheduler fun s => s.beginSlice pid) =
        (slice pid engine.config.quota (engine.mapScheduler fun s => s.beginSlice pid)).map
          (reset limit rearm) :=
    slice_reset limit rearm pid engine.config.quota (engine.mapScheduler fun s => s.beginSlice pid)
  rw [sameLive, begun]
  split
  · cases slice pid engine.config.quota (engine.mapScheduler fun s => s.beginSlice pid) with
    | none => rfl
    | some after => exact tryScheduler_reset limit rearm _ after
  · rfl

theorem Turn.ofOption_map (f : Engine → Engine) (result : Option Engine) :
    Turn.ofOption (result.map f) = (Turn.ofOption result).map f := by
  cases result with
  | none => rfl
  | some engine => rfl

/-- A turn does the same whatever the bursts are. -/
theorem turn_reset (engine : Engine) :
    (engine.reset limit rearm).turn = engine.turn.map (reset limit rearm) := by
  have sameDue :
      (engine.reset limit rearm).scheduler.popDue? (engine.reset limit rearm).host.clock =
      engine.scheduler.popDue? engine.host.clock := rfl
  have onRest : ∀ s : Scheduler, { engine.reset limit rearm with scheduler := s } =
      { engine with scheduler := s }.reset limit rearm := fun _ => rfl
  unfold turn
  rw [sameDue]
  obtain ⟨timer, s⟩ := engine.scheduler.popDue? engine.host.clock
  cases timer with
  | some timer =>
      dsimp only
      rw [onRest, tryScheduler_reset, Turn.ofOption_map]
  | none =>
      dsimp only
      cases s.popTask? with
      | none => rfl
      | some result =>
          obtain ⟨task, rest⟩ := result
          cases task with
          | run pid =>
              dsimp only
              rw [onRest, execute_reset, Turn.ofOption_map]
          | deliver pid message =>
              dsimp only
              rw [onRest, tryScheduler_reset, Turn.ofOption_map]

theorem turns_succ (start : Number) (count : Nat) (engine : Engine) :
    turns start (count + 1) engine =
      if engine.isSpent start then some (true, engine)
      else
        match engine.turn with
        | .idle engine => some (true, engine)
        | .next engine => turns start count engine
        | .endless => none := rfl

theorem turns_reset (start : Number) (count : Nat) (engine : Engine) :
    turns start count (engine.reset limit rearm) =
      (turns start count engine).map (Prod.map id (reset limit rearm)) := by
  have sameSpent : ∀ engine, (reset limit rearm engine).isSpent start = engine.isSpent start :=
    fun _ => rfl
  induction count generalizing engine with
  | zero => rfl
  | succ count ih =>
      rw [turns_succ, turns_succ, sameSpent, turn_reset]
      split
      · rfl
      · cases engine.turn with
        | idle after => rfl
        | next after => exact ih after
        | endless => rfl

end Reset

/-! ### Cancelled timers -/

/-- An engine without the cancelled timers on top of its heap. -/
def pruned (engine : Engine) : Engine := { engine with scheduler := engine.scheduler.prune }

/-- A turn throws away the cancelled timers anyway. -/
theorem turn_pruned (engine : Engine) : engine.pruned.turn = engine.turn := by
  have sameDue := engine.scheduler.popDue?_prune engine.host.clock
  unfold turn
  rw [show engine.pruned.scheduler.popDue? engine.pruned.host.clock = _ from sameDue]
  rfl

/-- What does not depend on cancelled timers is the same after turns of either engine. -/
theorem turns_pruned {α : Type} (f : Engine → α) {engine : Engine}
    (same : f engine.pruned = f engine) (start : Number) (count : Nat) :
    (turns start count engine.pruned).map (fun result => f result.2) =
      (turns start count engine).map fun result => f result.2 := by
  have sameSpent : engine.pruned.isSpent start = engine.isSpent start := rfl
  cases count with
  | zero => exact congrArg some same
  | succ count =>
      rw [turns_succ, turns_succ, turn_pruned, sameSpent]
      by_cases spent : engine.isSpent start = true
      · rw [if_pos spent, if_pos spent]
        exact congrArg some same
      · rw [if_neg spent, if_neg spent]

/-- The engine at the end of a burst, but for the answer. -/
def rested (engine : Engine) : Engine :=
  { engine with scheduler := (nextRearm engine.scheduler).2 }

theorem rested_cases (engine : Engine) :
    engine.rested = engine ∨ engine.rested = engine.pruned ∧
      nextRearm engine.scheduler.prune = nextRearm engine.scheduler := by
  have samePruned : engine.scheduler.queue.toList = [] →
      nextRearm engine.scheduler.prune = nextRearm engine.scheduler := by
    intro empty
    have isEmpty := (Fifo.isEmpty_iff _).2 empty
    unfold nextRearm
    rw [if_pos isEmpty, if_pos (show engine.scheduler.prune.queue.isEmpty = true from isEmpty),
      Scheduler.nextDeadline_prune]
  unfold rested
  rcases nextRearm_cases engine.scheduler with
    ⟨_, isYield⟩ | ⟨empty, ⟨_, _, isAlarm⟩ | ⟨_, isIdle⟩⟩
  · rw [isYield]
    exact .inl rfl
  · refine .inr ⟨?_, samePruned empty⟩
    rw [isAlarm]
    rfl
  · refine .inr ⟨?_, samePruned empty⟩
    rw [isIdle]
    rfl

/-! ### Bursts -/

/-- What turns and the end of the burst come to is the same when the burst before was ended. -/
theorem turns_rested (start : Number) (count limit : Nat) (engine : Engine) :
    (turns start count engine.rested).map (fun result => (result.2.limited limit).settle) =
      (turns start count engine).map fun result => (result.2.limited limit).settle := by
  rcases rested_cases engine with same | ⟨same, sameRearm⟩
  · rw [same]
  · rw [same]
    refine turns_pruned (fun engine => (engine.limited limit).settle) ?_ start count
    unfold settle
    rw [show nextRearm (engine.pruned.limited limit).scheduler = _ from sameRearm]
    rfl

/-- Turns that are done when the time is spent or when nothing is left to do change nothing. -/
theorem turns_of_stopped {start : Number} {engine : Engine}
    (stopped : engine.isSpent start = true ∨ engine.turn = .idle engine) (count : Nat) :
    (turns start count engine).map Prod.snd = some engine := by
  cases count with
  | zero => rfl
  | succ count =>
      rw [turns_succ]
      rcases stopped with spent | idle
      · rw [if_pos spent]
        rfl
      · rw [idle]
        split
        · rfl
        · rfl

/-- A number of turns and then another number of them. -/
theorem turns_add (start : Number) (m n : Nat) (engine : Engine) :
    (turns start (m + n) engine).map Prod.snd =
      (turns start m engine).bind fun result => (turns start n result.2).map Prod.snd := by
  induction m generalizing engine with
  | zero =>
      rw [Nat.zero_add]
      rfl
  | succ m ih =>
      rw [Nat.add_right_comm]
      by_cases spent : engine.isSpent start = true
      · rw [turns_of_stopped (.inl spent), turns_succ, if_pos spent]
        exact (turns_of_stopped (.inl spent) n).symm
      · cases next : engine.turn with
        | idle after =>
            have isPruned : after = engine.pruned := eq_of_turn_idle next
            have idle : after.turn = .idle after := by rw [isPruned, turn_pruned, next, isPruned]
            rw [turns_succ, turns_succ, if_neg spent, if_neg spent, next]
            exact (turns_of_stopped (.inr idle) n).symm
        | next after =>
            rw [turns_succ, turns_succ, if_neg spent, if_neg spent, next]
            exact ih after
        | endless =>
            rw [turns_succ, turns_succ, if_neg spent, if_neg spent, next]
            rfl

/-- Whatever turns lead to, the clock is as it was. -/
def ClockStands (engine : Engine) : Prop :=
  ∀ later, Relation.ReflTransGen (fun before after => before.turn = .next after) engine later →
    later.host.clock = engine.host.clock

theorem clockStands_of_idle {engine same : Engine} (idle : engine.turn = .idle same) :
    engine.ClockStands := by
  intro later leads
  rcases leads.cases_head with rfl | ⟨after, next, _⟩
  · rfl
  · rw [idle] at next
    cases next

theorem clockStands_of_next {engine after : Engine} (next : engine.turn = .next after)
    (same : after.host.clock = engine.host.clock) (stands : after.ClockStands) :
    engine.ClockStands := by
  intro later leads
  rcases leads.cases_head with rfl | ⟨second, isNext, rest⟩
  · rfl
  · rw [next] at isNext
    cases isNext
    exact (stands later rest).trans same

/-- Turns leave the clock as it was where it stands. -/
theorem turns_clock {start : Number} {count : Nat} {engine after : Engine} {ended : Bool}
    (stands : engine.ClockStands) (turned : turns start count engine = some (ended, after)) :
    after.host.clock = engine.host.clock := by
  induction count generalizing engine with
  | zero =>
      cases turned
      rfl
  | succ count ih =>
      unfold turns at turned
      split at turned
      · cases turned
        rfl
      · cases next : engine.turn with
        | idle same =>
            rw [next] at turned
            cases turned
            rw [eq_of_turn_idle next]
        | next middle =>
            rw [next] at turned
            have sameClock := stands middle (.single next)
            have further : middle.ClockStands := fun later leads =>
              (stands later (.head next leads)).trans sameClock.symm
            exact (ih further turned).trans sameClock
        | endless =>
            rw [next] at turned
            cases turned

/-- A burst with a limit on its tasks, told by its turns. -/
theorem run_limited (limit fuel : Nat) (engine : Engine) :
    (engine.limited limit).run fuel =
      match turns engine.host.clock limit engine with
      | some (_, after) => .ok (after.limited limit).settle
      | none => .error .endless := by
  have started : (engine.limited limit).run fuel =
      match turns engine.host.clock limit (engine.reset (some limit) .yield) with
      | some (_, after) => .ok after.settle
      | none => .error .endless := rfl
  rw [started, turns_reset]
  cases turns engine.host.clock limit engine with
  | none => rfl
  | some result => rfl

/-- A burst of at most `m` tasks and one of at most `n` leave what one of at most `m + n` leaves,
the limit apart, while the clock stands. When a circular list is walked in one of them, both ways
have no result. -/
theorem run_add {engine : Engine} (stands : engine.ClockStands) (m n fuel : Nat) :
    ((engine.limited m).run fuel).bind (fun middle => (middle.limited n).run fuel) =
      ((engine.limited (m + n)).run fuel).map (limited n) := by
  have joined := turns_add engine.host.clock m n engine
  rw [run_limited, run_limited]
  cases first : turns engine.host.clock m engine with
  | none =>
      rw [first] at joined
      rw [Option.map_eq_none_iff.1 joined]
      rfl
  | some result =>
      obtain ⟨_, middle⟩ := result
      rw [first] at joined
      -- The second burst starts at the time at which the first one started.
      have stood : middle.host.clock = engine.host.clock := turns_clock stands first
      have sameClock : (middle.rested.reset (some m) (nextRearm middle.scheduler).1).host.clock =
          engine.host.clock := stood
      have second :=
        run_limited n fuel (middle.rested.reset (some m) (nextRearm middle.scheduler).1)
      rw [sameClock, turns_reset] at second
      refine second.trans ?_
      have rested := turns_rested engine.host.clock n n middle
      change _ = (turns engine.host.clock n middle).map Prod.snd at joined
      cases last : turns engine.host.clock n middle with
      | none =>
          rw [last] at joined rested
          rw [Option.map_eq_none_iff.1 joined, Option.map_eq_none_iff.1 rested]
          rfl
      | some result =>
          rw [last] at joined rested
          obtain ⟨whole, isWhole, same⟩ := Option.map_eq_some_iff.1 joined
          obtain ⟨late, isLate, sameSettled⟩ := Option.map_eq_some_iff.1 rested
          rw [isWhole, isLate]
          dsimp only [Option.map_some, Except.map, Prod.map]
          rw [same]
          exact congrArg Except.ok sameSettled

/-- Two processes that are about to wait, when the clock shows zero. -/
def twoSleepers : Engine :=
  let engine := (create ⟨1, ⟨1⟩, some 1⟩).mapHost fun host => host.setClock ⟨0⟩
  ((engine.spawn sleeper).2.spawn sleeper).2

theorem clockStands_twoSleepers : twoSleepers.ClockStands := by
  refine clockStands_of_next rfl ?_ ?_
  · rfl
  · refine clockStands_of_next rfl ?_ ?_
    · rfl
    · exact clockStands_of_idle rfl

/-- Two `sleeper`s start to wait, one in each of two bursts. -/
theorem run_add_sleepers :
    twoSleepers.ClockStands ∧ ∃ middle last, (twoSleepers.limited 1).run 0 = .ok middle ∧
      (middle.limited 1).run 0 = .ok last ∧
      ((twoSleepers.limited 2).run 0).map (limited 1) = .ok last :=
  ⟨clockStands_twoSleepers, _, _, rfl, rfl, (run_add clockStands_twoSleepers 1 1 0).symm⟩

end Engine

end ActorMachine
