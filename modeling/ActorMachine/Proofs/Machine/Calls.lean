import ActorMachine.Proofs.Engine.Slices
import ActorMachine.Proofs.Engine.Wrappers
import ActorMachine.Proofs.Store.Chains

set_option autoImplicit false

/-!
Calls.

A call finds what it calls on top of its arguments, and a call that spreads a list puts the items of
the list where the arguments of another call stand. `apply` is code: it takes a frame, loads the
list and the function from it and spreads. Main statement: `apply_eq_call`, by which it comes to
what the call with the items as arguments comes to.
-/

namespace ActorMachine

/-! ### What frames do not change -/

namespace Store

variable (store : Store) (slots : Array Value)

theorem spineFrom_newFrame (fuel : Nat) (seen : List Value) (v : Value) :
    (store.newFrame slots).2.spineFrom fuel seen v = store.spineFrom fuel seen v := by
  induction fuel generalizing seen v with
  | zero => cases v <;> rfl
  | succ fuel ih =>
      cases v with
      | pair ref => exact ih (store.carAt ref :: seen) (store.cdrAt ref)
      | _ => rfl

theorem spine_newFrame (v : Value) : (store.newFrame slots).2.spine v = store.spine v :=
  store.spineFrom_newFrame slots store.pairs.size [] v

theorem writeRest_newFrame (item : String → Value → String) (left : Nat) (out : String)
    (v : Value) :
    (store.newFrame slots).2.writeRest item left out v = store.writeRest item left out v := by
  induction left generalizing out v with
  | zero => cases v <;> rfl
  | succ left ih =>
      cases v with
      | pair ref => exact ih (item (out.push ' ') (store.carAt ref)) (store.cdrAt ref)
      | _ => rfl

theorem writeValue_newFrame (depth : Nat) (out : String) (v : Value) :
    (store.newFrame slots).2.writeValue depth out v = store.writeValue depth out v := by
  induction depth generalizing out v with
  | zero => cases v <;> rfl
  | succ depth ih =>
      have sameItem : (store.newFrame slots).2.writeValue depth = store.writeValue depth :=
        funext fun out => funext fun v => ih out v
      cases v with
      | pair ref =>
          unfold writeValue
          rw [sameItem]
          exact store.writeRest_newFrame slots _ _ _ _
      | _ => rfl

theorem render_newFrame (v : Value) : (store.newFrame slots).2.render v = store.render v :=
  store.writeValue_newFrame slots maxDepth "" v

theorem frameAt_newFrame : (store.newFrame slots).2.frameAt store.frames.size = slots := by
  unfold frameAt newFrame
  rw [Array.getD_eq_getD_getElem?, Array.getElem?_push_size]
  rfl

theorem getLocal?_newFrame (env : Env) (index : Nat) :
    (store.newFrame slots).2.getLocal? (store.frames.size :: env) 0 index = slots[index]? :=
  congrArg (·[index]?) (store.frameAt_newFrame slots)

end Store

/-- The memory with a frame that has the given slots. -/
def Memory.withFrame (memory : Memory) (slots : List Value) : Memory :=
  ⟨(memory.store.newFrame slots.toArray).2, memory.globals⟩

/-! ### Calls -/

/-- The code that a call of a value enters, with its environment. Only functions and templates can
be called. -/
def Value.callee? : Value → Option (Template × Env)
  | .function f => some (f.template, f.env)
  | .template t => some (t, [])
  | _ => none

namespace Machine

/-- A machine is about to call a value with arguments that were pushed in order. -/
structure Calls (m : Machine) (callee : Value) (args stack : List Value) : Prop where
  runs : m.status = .running
  next : m.template.code[m.pc]? = some (.call (.fixed args.length))
  pushed : m.stack = callee :: (args.reverse ++ stack)

/-- The machine inside of what it called with `nargs` arguments. -/
def inside (m : Machine) (template : Template) (env : Env) (nargs pc : Nat) (stack : List Value) :
    Machine :=
  ⟨template, pc, env, stack, m.returns, nargs, .running⟩

/-- The machine after a call. -/
def entered (m : Machine) (template : Template) (env : Env) (args stack : List Value) : Machine :=
  m.inside template env args.length 0 (args.reverse ++ stack)

section Calls

variable {m : Machine} {callee : Value} {args stack : List Value} {template : Template} {env : Env}

theorem enter_of_callee (isCallee : callee.callee? = some (template, env)) (store : Store)
    (globals : Globals) (n : Nat) :
    m.enter store globals callee n =
      goOn { m with nargs := n, template, env, pc := 0 } ⟨store, globals⟩ := by
  cases callee with
  | function f =>
      cases isCallee
      rfl
  | template t =>
      cases isCallee
      rfl
  | _ => cases isCallee

theorem enter_of_not_callee (notCallee : callee.callee? = none) (store : Store)
    (globals : Globals) (n : Nat) :
    m.enter store globals callee n =
      fail { m with nargs := n } ⟨store, globals⟩ (.notCallable (store.render callee)) := by
  cases callee with
  | function f => cases notCallee
  | template t => cases notCallee
  | _ => rfl

theorem Calls.step_eq (calls : m.Calls callee args stack) (memory : Memory) :
    m.step memory = { m with pc := m.pc + 1, stack := args.reverse ++ stack }.enter memory.store
      memory.globals callee args.length := by
  unfold step
  rw [calls.next]
  unfold execute
  rw [calls.pushed]

theorem Calls.step_of_callee (calls : m.Calls callee args stack)
    (isCallee : callee.callee? = some (template, env)) (memory : Memory) :
    m.step memory = goOn (m.entered template env args stack) memory := by
  rw [calls.step_eq, enter_of_callee isCallee, entered, inside, ← calls.runs]

end Calls

/-! ### Frames -/

/-- The top of a stack is taken in the order in which it was pushed. -/
theorem takeTop?_append (top taken stack : List Value) :
    takeTop? top.length taken (top ++ stack) = some (top.reverse ++ taken, stack) := by
  induction top generalizing taken with
  | nil => rfl
  | cons v top ih =>
      rw [List.reverse_cons, List.append_assoc]
      exact ih (v :: taken)

theorem takeTop?_reverse (items taken stack : List Value) :
    takeTop? items.length taken (items.reverse ++ stack) = some (items ++ taken, stack) := by
  have top := takeTop?_append items.reverse taken stack
  rw [List.length_reverse, List.reverse_reverse] at top
  exact top

section Frames

variable {m : Machine} {n : Nat} {args fixed extra stack : List Value}

/-- The machine with a frame for what it took from its stack. -/
def framed (m : Machine) (frame : Ref) (stack : List Value) : Machine :=
  { m with stack, env := frame :: m.env }

theorem execute_args (counted : m.nargs = args.length) (pushed : m.stack = args.reverse ++ stack)
    (memory : Memory) :
    m.execute (.args args.length) memory =
      goOn (m.framed memory.store.frames.size stack) (memory.withFrame args) := by
  unfold execute
  dsimp only
  rw [if_neg (not_not_intro counted), pushed, takeTop?_reverse, List.append_nil]
  rfl

theorem execute_args_of_ne (other : m.nargs ≠ n) (memory : Memory) :
    m.execute (.args n) memory = fail m memory (.wrongCount n m.nargs) := by
  unfold execute
  exact if_pos other

theorem execute_argsRest (counted : m.nargs = (fixed ++ extra).length)
    (pushed : m.stack = (fixed ++ extra).reverse ++ stack) (memory : Memory) :
    let made := memory.store.list extra
    m.execute (.argsRest fixed.length) memory =
      goOn (m.framed made.2.frames.size stack)
        (Memory.withFrame ⟨made.2, memory.globals⟩ (fixed ++ [made.1])) := by
  rw [List.length_append] at counted
  rw [List.reverse_append, List.append_assoc] at pushed
  -- The further arguments are on top, so the stack is taken in two parts, the list first.
  have extras : m.nargs - fixed.length = extra.length := by omega
  unfold execute
  dsimp only
  rw [if_neg (by omega), extras, pushed, takeTop?_reverse, List.append_nil]
  dsimp only
  rw [takeTop?_reverse]
  rfl

theorem execute_argsRest_of_lt (few : m.nargs < n) (memory : Memory) :
    m.execute (.argsRest n) memory = fail m memory (.tooFew n m.nargs) := by
  unfold execute
  exact if_pos few

end Frames

/-! ### Runs -/

section Runs

variable {m next : Machine} {memory after : Memory}

theorem runFrom_of_goOn (runs : m.status = .running) (steps : m.step memory = goOn next after)
    (executed quota : Nat) :
    runFrom executed (quota + 1) m memory = runFrom (executed + 1) quota next after := by
  rw [runFrom, if_pos runs, steps]
  rfl

theorem runFrom_of_stop {stop : Stop} (runs : m.status = .running)
    (steps : m.step memory = ⟨next, after, some stop⟩) (executed quota : Nat) :
    runFrom executed (quota + 1) m memory = ⟨executed + 1, next, after, .stopped stop⟩ := by
  rw [runFrom, if_pos runs, steps]

theorem step_of_loadLocal {code : Array Instruction} {v : Local} {x : Value}
    (isCode : m.template.code = code) (isLoad : code[m.pc]? = some (.loadLocal v))
    (found : memory.store.getLocal? m.env v.depth v.index = some x) :
    m.step memory = goOn { m with pc := m.pc + 1, stack := x :: m.stack } memory := by
  rw [Engine.step_of_code isCode isLoad]
  unfold execute
  dsimp only
  rw [found]
  rfl

end Runs

section Calls

variable {m : Machine} {callee : Value} {args stack : List Value}

theorem Calls.run_of_callee {template : Template} {env : Env} (calls : m.Calls callee args stack)
    (isCallee : callee.callee? = some (template, env)) (memory : Memory) :
    m.run 1 memory = ⟨1, m.entered template env args stack, memory, .quota⟩ := by
  unfold run
  rw [runFrom_of_goOn calls.runs (calls.step_of_callee isCallee memory)]
  rfl

theorem Calls.run_of_not_callee (calls : m.Calls callee args stack)
    (notCallee : callee.callee? = none) (memory : Memory) :
    ∃ after, m.run 1 memory =
      ⟨1, after, memory, .stopped (.fault (.notCallable (memory.store.render callee)))⟩ := by
  unfold run
  rw [runFrom_of_stop calls.runs]
  · exact ⟨_, rfl⟩
  · rw [calls.step_eq]
    exact enter_of_not_callee notCallee _ _ _

end Calls

/-! ### Apply -/

section Apply

variable {m direct : Machine} {apply : Closure} {f list : Value} {args stack : List Value}

/-- The machine inside of `apply`, which has a frame. -/
def applying (m : Machine) (apply : Closure) (frame : Ref) (pc : Nat) (stack : List Value) :
    Machine :=
  m.inside apply.template (frame :: apply.env) 2 pc stack

/-- The first four instructions of a call of `apply` lead to the one that spreads. -/
theorem run_apply (calls : m.Calls (.function apply) [f, list] stack)
    (isApply : apply.template.code = applyCode) (memory : Memory) :
    m.run 5 memory = runFrom 4 1
      (m.applying apply memory.store.frames.size 3 (f :: list :: stack))
      (memory.withFrame [f, list]) := by
  let frame := memory.store.frames.size
  have entry : m.step memory = goOn _ memory := calls.step_of_callee rfl memory
  have makeFrame : (m.entered apply.template apply.env [f, list] stack).step memory =
      goOn (m.applying apply frame 1 stack) (memory.withFrame [f, list]) := by
    have isArgs : applyCode[0]? = some (.args [f, list].length) := rfl
    rw [Engine.step_of_code isApply isArgs]
    exact execute_args rfl rfl memory
  have loadList : (m.applying apply frame 1 stack).step (memory.withFrame [f, list]) =
      goOn (m.applying apply frame 2 (list :: stack)) (memory.withFrame [f, list]) :=
    step_of_loadLocal isApply rfl (memory.store.getLocal?_newFrame #[f, list] apply.env 1)
  have loadFunction : (m.applying apply frame 2 (list :: stack)).step (memory.withFrame [f, list]) =
      goOn (m.applying apply frame 3 (f :: list :: stack)) (memory.withFrame [f, list]) :=
    step_of_loadLocal isApply rfl (memory.store.getLocal?_newFrame #[f, list] apply.env 0)
  unfold run
  rw [runFrom_of_goOn calls.runs entry, runFrom_of_goOn rfl makeFrame,
    runFrom_of_goOn rfl loadList, runFrom_of_goOn rfl loadFunction]

/-- What spreading comes to is told by the list as it is in the memory before. -/
theorem step_spreading (isApply : apply.template.code = applyCode) (memory : Memory)
    (frame : Ref) :
    (m.applying apply frame 3 (f :: list :: stack)).step (memory.withFrame [f, list]) =
      match memory.store.spine list with
      | .proper items =>
          (m.applying apply frame 4 (items.reverse ++ stack)).enter
            (memory.withFrame [f, list]).store
            memory.globals f items.length
      | .improper =>
          fail (m.applying apply frame 4 stack) (memory.withFrame [f, list])
            (.wrongKind "apply" "a proper list of arguments")
      | .circular =>
          ⟨m.applying apply frame 4 stack, memory.withFrame [f, list], some .endless⟩ := by
  rw [← memory.store.spine_newFrame #[f, list] list, Engine.step_of_code isApply rfl]
  rfl

section Spread

variable (calls : m.Calls (.function apply) [f, list] stack)
  (isApply : apply.template.code = applyCode) (memory : Memory)
include calls isApply

theorem run_apply_of_callee {template : Template} {env : Env}
    (listed : memory.store.Spells list (.leaves args))
    (isCallee : f.callee? = some (template, env)) :
    m.run 5 memory =
      ⟨5, m.entered template env args stack, memory.withFrame [f, list], .quota⟩ := by
  rw [run_apply calls isApply, runFrom_of_goOn rfl]
  · rfl
  · rw [step_spreading isApply, Store.spine_of_leaves listed]
    exact enter_of_callee isCallee _ _ _

theorem run_apply_of_not_callee (listed : memory.store.Spells list (.leaves args))
    (notCallee : f.callee? = none) :
    ∃ after, m.run 5 memory = ⟨5, after, memory.withFrame [f, list],
      .stopped (.fault (.notCallable (memory.store.render f)))⟩ := by
  rw [run_apply calls isApply, runFrom_of_stop rfl]
  · exact ⟨_, rfl⟩
  · rw [step_spreading isApply, Store.spine_of_leaves listed,
      ← memory.store.render_newFrame #[f, list] f]
    exact enter_of_not_callee notCallee _ _ _

theorem run_apply_of_improper {items : List Value} {last : Value}
    (chain : memory.store.Chain list items last) (improper : last ≠ .nil) :
    ∃ after, m.run 5 memory = ⟨5, after, memory.withFrame [f, list],
      .stopped (.fault (.wrongKind "apply" "a proper list of arguments"))⟩ := by
  rw [run_apply calls isApply, runFrom_of_stop rfl]
  · exact ⟨_, rfl⟩
  · rw [step_spreading isApply, Store.spine_of_improper chain improper]
    rfl

theorem run_apply_of_endless (endless : ∀ items last, ¬memory.store.Chain list items last) :
    ∃ after, m.run 5 memory = ⟨5, after, memory.withFrame [f, list], .stopped .endless⟩ := by
  rw [run_apply calls isApply, runFrom_of_stop rfl]
  · exact ⟨_, rfl⟩
  · rw [step_spreading isApply, Store.spine_of_endless endless]

end Spread

/-- A call of `apply` with a list comes in five instructions to the machine to which the call with
the items of the list as arguments comes in one, and what cannot be called makes both fail alike.
Only the frame of `apply` is left behind. If the chain of pairs ends in something else than nil then
the list is turned down; if it never ends then neither does the last of the five instructions. -/
theorem apply_eq_call (calls : m.Calls (.function apply) [f, list] stack)
    (isApply : apply.template.code = applyCode) (memory : Memory) :
    (∀ args, ∀ direct : Machine, memory.store.Spells list (.leaves args) →
      direct.Calls f args stack → direct.returns = m.returns →
      (∀ template env, f.callee? = some (template, env) →
        let after := m.entered template env args stack
        m.run 5 memory = ⟨5, after, memory.withFrame [f, list], .quota⟩ ∧
          direct.run 1 memory = ⟨1, after, memory, .quota⟩) ∧
      (f.callee? = none → ∃ applied called,
        let fault := Fault.notCallable (memory.store.render f)
        m.run 5 memory = ⟨5, applied, memory.withFrame [f, list], .stopped (.fault fault)⟩ ∧
          direct.run 1 memory = ⟨1, called, memory, .stopped (.fault fault)⟩)) ∧
    (∀ items last, memory.store.Chain list items last → last ≠ .nil → ∃ after,
      m.run 5 memory = ⟨5, after, memory.withFrame [f, list],
        .stopped (.fault (.wrongKind "apply" "a proper list of arguments"))⟩) ∧
    ((∀ items last, ¬memory.store.Chain list items last) → ∃ after,
      m.run 5 memory = ⟨5, after, memory.withFrame [f, list], .stopped .endless⟩) := by
  refine ⟨?_, fun items last => run_apply_of_improper calls isApply memory,
    run_apply_of_endless calls isApply memory⟩
  intro args direct listed callsDirectly sameReturns
  constructor
  · intro template env isCallee
    have called := callsDirectly.run_of_callee isCallee memory
    rw [entered, inside, sameReturns] at called
    exact ⟨run_apply_of_callee calls isApply memory listed isCallee, called⟩
  · intro notCallee
    obtain ⟨applied, isApplied⟩ := run_apply_of_not_callee calls isApply memory listed notCallee
    obtain ⟨called, isCalled⟩ := callsDirectly.run_of_not_callee notCallee memory
    exact ⟨applied, called, isApplied, isCalled⟩

/-- A machine that calls a value with nothing else on its stack. -/
def caller (callee : Value) (args : List Value) : Machine :=
  ⟨⟨.linked 0, #[.call (.fixed args.length)]⟩, 0, [], callee :: args.reverse, [], 0, .running⟩

theorem calls_caller (callee : Value) (args : List Value) :
    (caller callee args).Calls callee args [] :=
  ⟨rfl, rfl, congrArg (callee :: ·) (List.append_nil _).symm⟩

/-- A template is called with a symbol and a number, through `apply` and at once. -/
theorem apply_eq_call_pair :
    let apply := (Store.newProcedure {} applyCode).1
    let f := Value.template (.epilogue 1)
    let items := [Value.symbol "x", .ofNat 2]
    let made := Store.list {} items
    let m := caller (.function apply) [f, made.1]
    m.Calls (.function apply) [f, made.1] [] ∧ made.2.Spells made.1 (.leaves items) ∧
      (m.run 5 ⟨made.2, {}⟩).machine = ((caller f items).run 1 ⟨made.2, {}⟩).machine := by
  intro apply f items made m
  have calls := calls_caller (.function apply) [f, made.1]
  have listed : made.2.Spells made.1 (.leaves items) := Store.spells_list_leaves {} items
  have both := ((apply_eq_call calls rfl ⟨made.2, {}⟩).1 items _ listed
    (calls_caller f items) rfl).1 _ _ rfl
  obtain ⟨applied, called⟩ := both
  exact ⟨calls, listed, by rw [applied, called]⟩

/-- A pair that is its own second part is not a proper list, but `apply` does not fail with it: its
last instruction walks the pair for ever. -/
theorem apply_without_end :
    let apply := (Store.newProcedure {} applyCode).1
    let knot : Store := { pairs := #[(.symbol "x", .pair 0)] }
    let m := caller (.function apply) [.template (.epilogue 1), .pair 0]
    m.Calls (.function apply) [.template (.epilogue 1), .pair 0] [] ∧
      (∀ items, ¬knot.Spells (.pair 0) (.leaves items)) ∧
      (m.run 5 ⟨knot, {}⟩).ending = .stopped .endless := by
  intro apply knot m
  refine ⟨calls_caller _ _, ?_, rfl⟩
  intro items listed
  have walked : knot.spine (.pair 0) = .circular := rfl
  rw [Store.spine_of_leaves listed] at walked
  cases walked

end Apply

end Machine

end ActorMachine
