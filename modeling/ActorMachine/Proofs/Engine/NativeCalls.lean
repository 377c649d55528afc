import ActorMachine.Proofs.Engine.Machines
import ActorMachine.Proofs.Machine.Calls

set_option autoImplicit false

/-!
Calls of natives.

The parameter list of a native gives its arity, the arity gives the code under which the native is
bound, that code makes a frame of the arguments, and the native looks at the slots of the frame.
`Arity.Declares`, `Arity.Admits` and `Arity.Fills` say what each of these has to come to. Main
statement: `native_call`.
-/

namespace ActorMachine

/-! ### Arities -/

namespace Arity

/-- The parameter lists with an arity: a point before the last name makes that name the one for all
further arguments. -/
inductive Declares : Arity → List (List Char) → Prop where
  | rest (fixed : List (List Char)) (last : List Char) :
      Declares (.atLeast fixed.length) (fixed ++ [['.'], last])
  | plain {names : List (List Char)} (noRest : ∀ fixed last, names ≠ fixed ++ [['.'], last]) :
      Declares (.exact names.length) names

/-- Whether a call may have so many arguments. -/
def Admits : Arity → Nat → Prop
  | .exact n, count => count = n
  | .atLeast n, count => n ≤ count

/-- What a call with another number of arguments fails with. -/
def refusal : Arity → Nat → Fault
  | .exact n, count => .wrongCount n count
  | .atLeast n, count => .tooFew n count

/-- The slots for the arguments of a call: one for each parameter, and one for the list of all
further arguments. -/
inductive Fills (store : Store) : Arity → List Value → List Value → Prop where
  | exact (args : List Value) : Fills store (.exact args.length) args args
  | atLeast {fixed extra : List Value} {rest : Value} (listed : store.Spells rest (.leaves extra)) :
      Fills store (.atLeast fixed.length) (fixed ++ extra) (fixed ++ [rest])

theorem declares_ofParams (params : String) :
    (ofParams params).Declares (Text.words params.toList) := by
  unfold ofParams
  generalize reversed : (Text.words params.toList).reverse = names
  rw [List.reverse_eq_iff] at reversed
  rw [reversed]
  split
  · rename_i last fixed
    rw [List.reverse_cons, List.reverse_cons, List.append_assoc, ← List.length_reverse]
    exact .rest fixed.reverse last
  · rename_i noRest
    rw [← List.length_reverse]
    refine .plain fun fixed last same => ?_
    rw [List.reverse_eq_iff] at same
    refine noRest last fixed.reverse ?_
    rw [same, List.reverse_append]
    rfl

theorem Fills.length_eq {store : Store} {arity : Arity} {args slots : List Value}
    (filled : arity.Fills store args slots) : slots.length = arity.frameLength := by
  cases filled with
  | exact => rfl
  | atLeast listed => exact List.length_append

theorem Fills.newFrame {store : Store} {arity : Arity} {args slots : List Value}
    (filled : arity.Fills store args slots) (frame : Array Value) :
    arity.Fills (store.newFrame frame).2 args slots := by
  cases filled with
  | exact => exact .exact args
  | atLeast listed => exact .atLeast (listed.newFrame frame)

end Arity

/-! ### The code under which a native is bound -/

namespace Machine

section Entry

variable {m : Machine} {native : Native} {template : Template} {env : Env} {args stack : List Value}

theorem entryCode_exact {n : Nat} (isArity : native.arity = .exact n) :
    native.entryCode[0]? = some (.args n) := by
  unfold Native.entryCode
  rw [isArity]
  rfl

theorem entryCode_atLeast {n : Nat} (isArity : native.arity = .atLeast n) :
    native.entryCode[0]? = some (.argsRest n) := by
  unfold Native.entryCode
  rw [isArity]
  rfl

/-- A call with as many arguments as the native takes gets its frame. -/
theorem step_entry_of_admits (isEntry : template.code = native.entryCode)
    (admitted : native.arity.Admits args.length) (memory : Memory) :
    ∃ slots, ∃ filled : Memory, native.arity.Fills filled.store args slots ∧
      (m.entered template env args stack).step memory =
        goOn (m.inside template (filled.store.frames.size :: env) args.length 1 stack)
          (filled.withFrame slots) := by
  cases isArity : native.arity with
  | exact n =>
      rw [isArity] at admitted
      cases admitted
      refine ⟨args, memory, .exact args, ?_⟩
      rw [Engine.step_of_code isEntry (entryCode_exact isArity)]
      exact execute_args rfl rfl memory
  | atLeast n =>
      rw [isArity] at admitted
      obtain ⟨fixed, extra, rfl, rfl⟩ : ∃ fixed extra, args = fixed ++ extra ∧ fixed.length = n :=
        ⟨args.take n, args.drop n, (List.take_append_drop n args).symm,
          List.length_take_of_le admitted⟩
      refine ⟨_, ⟨_, memory.globals⟩, .atLeast (memory.store.spells_list_leaves extra), ?_⟩
      rw [Engine.step_of_code isEntry (entryCode_atLeast isArity)]
      exact execute_argsRest rfl rfl memory

/-- A call with any other number of arguments fails, and takes nothing from the stack. -/
theorem step_entry_of_not_admits (isEntry : template.code = native.entryCode)
    (refused : ¬native.arity.Admits args.length) (memory : Memory) :
    ∃ after, (m.entered template env args stack).step memory =
      fail after memory (native.arity.refusal args.length) := by
  cases isArity : native.arity with
  | exact n =>
      rw [isArity] at refused
      rw [Engine.step_of_code isEntry (entryCode_exact isArity)]
      refine ⟨_, execute_args_of_ne ?_ memory⟩
      exact refused
  | atLeast n =>
      rw [isArity] at refused
      rw [Engine.step_of_code isEntry (entryCode_atLeast isArity)]
      refine ⟨_, execute_argsRest_of_lt ?_ memory⟩
      exact Nat.lt_of_not_le refused

/-- The native gets the slots of the frame. -/
theorem step_native (isEntry : template.code = native.entryCode) (memory : Memory)
    (slots : List Value) :
    (m.inside template (memory.store.frames.size :: env) args.length 1 stack).step
        (memory.withFrame slots) =
      ⟨m.inside template (memory.store.frames.size :: env) args.length 2 stack,
        memory.withFrame slots, some (.native native slots)⟩ := by
  have isNative : native.entryCode[1]? = some (.native native) := rfl
  have isFrame : (memory.withFrame slots).store.frameAt memory.store.frames.size = slots.toArray :=
    memory.store.frameAt_newFrame slots.toArray
  rw [Engine.step_of_code isEntry isNative]
  unfold execute
  dsimp only [inside]
  rw [isFrame]

end Entry

end Machine

/-! ### Instructions of a process -/

namespace Engine

open Scheduler

variable {engine after : Engine} {pid : ProcessId} {p q : Process} {m : Machine} {memory : Memory}
  {native : Native} {args slots stack : List Value}

section Instruction

variable (found : engine.find? pid = some p) (runs : p.status = .running)
include found runs

theorem advance_of_goOn (steps : p.machine.step engine.scheduler.memory = m.goOn memory) :
    ∃ next, engine.advance pid = .more next ∧ next.find? pid = some { p with machine := m } ∧
      next.scheduler.memory = memory := by
  refine ⟨engine.afterStep pid p, ?_, ?_, congrArg Execution.memory steps⟩
  · rw [advance_eq_afterRun found runs, steps]
    rfl
  · have foundAfter : (engine.afterStep pid p).find? pid = _ := find?_stepped found
    rw [foundAfter, steps]
    rfl

theorem advance_of_fault {cause : Fault}
    (stopped : (p.machine.step engine.scheduler.memory).stop = some (.fault cause)) :
    engine.advance pid = .over ((engine.afterStep pid p).dieOf pid cause) := by
  rw [advance_eq_afterRun found runs, stopped]
  rfl

theorem advance_of_native
    (stopped : (p.machine.step engine.scheduler.memory).stop = some (.native native slots)) :
    engine.advance pid = (engine.afterStep pid p).callFor pid native slots := by
  rw [advance_eq_afterRun found runs, stopped]
  rfl

/-- What a native answers is pushed on the stack of a caller that is still there: whatever the
native does, it leaves the machine of the caller alone. -/
theorem advance_of_answer {v : Value}
    (stopped : (p.machine.step engine.scheduler.memory).stop = some (.native native slots))
    (called : (native.call pid slots).run (engine.afterStep pid p) = (.ok v, after))
    (alive : after.find? pid = some q) :
    ∃ next, engine.advance pid = .more next ∧ next.find? pid = some { q with
      machine := (p.machine.step engine.scheduler.memory).machine.push v } := by
  have spares := (native.spares_call pid slots (engine.afterStep pid p)).1
  rw [called] at spares
  have sameMachine := own_machine found spares alive
  -- A process that is there after its native still runs, for its machine ran before.
  have stillRuns : q.status = .running :=
    (congrArg Machine.status sameMachine).trans (status_step runs stopped)
  refine ⟨after.mapScheduler fun s => s.put pid { q with machine := q.machine.push v }, ?_, ?_⟩
  · rw [advance_of_native found runs stopped]
    unfold callFor
    rw [called]
    dsimp only
    rw [alive]
    exact if_pos stillRuns
  · rw [← sameMachine]
    exact find?_put_self alive _

end Instruction

/-! ### Calls -/

/-- The slots of a frame that was made for a call are as many as the native asks for. -/
theorem call_of_fills {store : Store} (filled : native.arity.Fills store args slots) :
    native.call pid slots = native.operation.run pid slots := by
  unfold Native.call
  exact if_pos filled.length_eq

/-- A process that entered the function of a native with as many arguments as it takes comes to the
native, with nothing left of the arguments but what its frame has. -/
theorem ready_of_admits {template : Template} {env : Env}
    (found : engine.find? pid = some { p with machine := m.entered template env args stack })
    (isEntry : template.code = native.entryCode) (admitted : native.arity.Admits args.length) :
    ∃ ready slots frame, engine.advance pid = .more ready ∧
      ready.find? pid =
        some { p with machine := m.inside template (frame :: env) args.length 1 stack } ∧
      native.arity.Fills ready.store args slots ∧
      (m.inside template (frame :: env) args.length 1 stack).step ready.scheduler.memory =
        ⟨m.inside template (frame :: env) args.length 2 stack, ready.scheduler.memory,
          some (.native native slots)⟩ := by
  obtain ⟨slots, memory, filled, framed⟩ :=
    Machine.step_entry_of_admits isEntry admitted engine.scheduler.memory
  obtain ⟨ready, isReady, foundReady, readyMemory⟩ := advance_of_goOn found rfl framed
  refine ⟨ready, slots, memory.store.frames.size, isReady, foundReady, ?_, ?_⟩
  · unfold Engine.store
    rw [readyMemory]
    exact filled.newFrame _
  · rw [readyMemory]
    exact Machine.step_native isEntry memory slots

/-- The function of a native is called, on any stack. The parameters are counted as the parameter
list declares them. If the native takes so many arguments then, with the arguments gone from the
stack, its operation is carried out on slots that hold them, and what it answers is the only new
value on the stack when the process comes to its `RETURN`. Otherwise the process ends of a fault
that names both numbers. -/
theorem native_call {f : Closure} (found : engine.find? pid = some p)
    (calls : p.machine.Calls (.function f) args stack)
    (isEntry : f.template.code = native.entryCode) :
    (∀ params, native.arity = .ofParams params →
      native.arity.Declares (Text.words params.toList)) ∧
    ∃ entered q, engine.advance pid = .more entered ∧ entered.find? pid = some q ∧
      (native.arity.Admits args.length → ∃ ready r slots,
        entered.advance pid = .more ready ∧ ready.find? pid = some r ∧
        r.machine.stack = stack ∧ native.arity.Fills ready.store args slots ∧
        ready.advance pid = (ready.afterStep pid r).callFor pid native slots ∧
        native.call pid slots = native.operation.run pid slots ∧
        ∀ v after alive,
          (native.operation.run pid slots).run (ready.afterStep pid r) = (.ok v, after) →
          after.find? pid = some alive → ∃ answered last,
            ready.advance pid = .more answered ∧ answered.find? pid = some last ∧
            last.status = .running ∧
            last.machine.template.code[last.machine.pc]? = some .ret ∧
            last.machine.stack = v :: stack ∧ last.machine.returns = p.machine.returns) ∧
      (¬native.arity.Admits args.length →
        entered.advance pid = .over
          ((entered.afterStep pid q).dieOf pid (native.arity.refusal args.length))) := by
  refine ⟨fun params declared => declared ▸ Arity.declares_ofParams params, ?_⟩
  obtain ⟨entered, isEntered, foundEntered, _⟩ :=
    advance_of_goOn found calls.runs (calls.step_of_callee rfl _)
  refine ⟨entered, _, isEntered, foundEntered, ?_, ?_⟩
  · intro admitted
    obtain ⟨ready, slots, frame, isReady, foundReady, filled, stepped⟩ :=
      ready_of_admits foundEntered isEntry admitted
    have stopped := congrArg Execution.stop stepped
    refine ⟨ready, _, slots, isReady, foundReady, rfl, filled,
      advance_of_native foundReady rfl stopped, call_of_fills filled, ?_⟩
    intro v after alive called foundAlive
    -- The guard of the native lets slots of this length pass.
    rw [← call_of_fills filled] at called
    obtain ⟨answered, isAnswered, foundAnswered⟩ :=
      advance_of_answer foundReady rfl stopped called foundAlive
    rw [stepped] at foundAnswered
    refine ⟨answered, _, isAnswered, foundAnswered, rfl, ?_, rfl, rfl⟩
    dsimp only [Machine.inside, Machine.push]
    rw [isEntry]
    rfl
  · intro refused
    obtain ⟨after, failed⟩ := Machine.step_entry_of_not_admits isEntry refused
      entered.scheduler.memory
    exact advance_of_fault foundEntered rfl (congrArg Execution.stop failed)

/-- A native that answers the list of its slots. -/
def packer : Native := ⟨"pack", .ofParams "first . rest", .registered 0⟩

def packerFunction : Closure := (Store.newProcedure {} packer.entryCode).1

/-- An engine whose only process calls `packer`. -/
def packing (args : List Value) : Engine :=
  let p : Process := { machine := .caller (.function packerFunction) args }
  { scheduler := { processes := ⟨#[none, some p]⟩ }
    functions := #[fun _ slots => .list slots fun packed => .done (.ok packed)] }

/-- Three arguments go into two slots, and no argument is one too few. -/
theorem native_call_packer :
    packer.arity = .atLeast 1 ∧
    (∃ entered ready r slots,
      (packing [.nil, .symbol "x", .symbol "y"]).advance 1 = .more entered ∧
      entered.advance 1 = .more ready ∧
      packer.arity.Fills ready.store [.nil, .symbol "x", .symbol "y"] slots ∧
      ready.advance 1 = (ready.afterStep 1 r).callFor 1 packer slots) ∧
    ∃ entered q, (packing []).advance 1 = .more entered ∧
      entered.advance 1 = .over ((entered.afterStep 1 q).dieOf 1 (.tooFew 1 0)) := by
  have isArity : packer.arity = .atLeast 1 := by cbv
  have called : ∀ args, _ := fun args =>
    (native_call (show (packing args).find? 1 = _ from rfl)
      (Machine.calls_caller (.function packerFunction) args)
      (show packerFunction.template.code = packer.entryCode from rfl)).2
  refine ⟨isArity, ?_, ?_⟩
  · obtain ⟨entered, _, isEntered, _, admits, _⟩ := called [.nil, .symbol "x", .symbol "y"]
    obtain ⟨ready, r, slots, isReady, _, _, filled, isCalled, _⟩ :=
      admits (by rw [isArity]; exact Nat.le_add_left 1 2)
    exact ⟨entered, ready, r, slots, isEntered, isReady, filled, isCalled⟩
  · obtain ⟨entered, q, isEntered, _, _, refuses⟩ := called []
    have isRefused := refuses (by rw [isArity]; exact Nat.not_succ_le_zero 0)
    rw [isArity] at isRefused
    exact ⟨entered, q, isEntered, isRefused⟩

end Engine

end ActorMachine
