import ActorMachine.Engine.Load
import ActorMachine.Proofs.Store.Tags

set_option autoImplicit false

/-!
The code around loaded units.

Units that link become one template, in which every unit but the last has a wrapper. `Approach` and
`Departure` are the states of a machine on the way to a unit and on the way from it to the rest.
Main statements: `load_of_links`, and `Approach.step`, `Departure.step` and `Departure.fault`, which
say what each instruction of a wrapper does.
-/

namespace ActorMachine

/-- A machine that enters a template without arguments. -/
def Machine.entering (t : Template) (env : Env) (stack : List Value) (returns : List Return) :
    Machine :=
  ⟨t, 0, env, stack, returns, 0, .running⟩

namespace Engine

/-- An environment is made of frames without slots. -/
def EmptyFrames (engine : Engine) (env : Env) : Prop :=
  ∀ frame ∈ env, engine.store.frames[frame]? = some #[]

/-! ### Linked units -/

/-- Units link to templates, one after the other. -/
inductive Links : Engine → List Value → List Template → Engine → Prop where
  | nil {engine : Engine} : Links engine [] [] engine
  | cons {engine middle after unit units template templates}
      (linked : engine.linkFunction unit = (.ok template, middle))
      (others : Links middle units templates after) :
      Links engine (unit :: units) (template :: templates) after

/-- A template is for units that run first to last. -/
inductive Chain : Template → List Template → Prop where
  | last (unit : Template) : Chain unit [unit]
  | more {wrapper unit rest others} (code : wrapper.code = sequenceCode unit rest)
      (chain : Chain rest others) : Chain wrapper (unit :: others)

theorem linkAll_of_links {engine after : Engine} {units : List Value} {templates : List Template}
    (links : Links engine units templates after) (done : List Template) :
    engine.linkAll done units = (.ok (templates.reverse ++ done), after) := by
  induction links generalizing done with
  | nil => rfl
  | cons linked _ ih =>
      unfold linkAll
      rw [linked]
      dsimp only
      rw [ih, List.reverse_cons, List.append_assoc, List.singleton_append]

theorem chain_chain {rest : Template} {others : List Template} (chained : Chain rest others)
    (units : List Template) (store : Store) :
    Chain (chain rest units store).1 (units.reverse ++ others) := by
  induction units generalizing rest others store with
  | nil => exact chained
  | cons unit units ih =>
      rw [List.reverse_cons, List.append_assoc, List.singleton_append]
      exact ih (.more rfl chained) _

/-- Units that link are loaded as one template, unless there are none. -/
theorem load_of_links {engine linked : Engine} {units : List Value} {templates : List Template}
    (links : Links engine units templates linked) (present : units ≠ []) :
    ∃ template after, engine.load units = (.ok template, after) ∧ Chain template templates := by
  have done := linkAll_of_links links []
  rw [List.append_nil] at done
  have some : templates ≠ [] := by
    cases links with
    | nil => exact absurd rfl present
    | cons => exact List.cons_ne_nil _ _
  obtain ⟨last, before, isReversed⟩ := List.exists_cons_of_ne_nil (List.reverse_ne_nil_iff.2 some)
  have isTemplates : templates = before.reverse ++ [last] := by
    rw [← List.reverse_reverse templates, isReversed, List.reverse_cons]
  unfold load
  rw [done, isReversed]
  refine ⟨_, _, rfl, ?_⟩
  rw [isTemplates]
  exact chain_chain (.last last) before _

/-! ### The code around a unit -/

/-- On the way to `unit`: as many instructions of the wrapper are still to come. -/
inductive Approach (wrapper unit : Template) (env : Env) (stack : List Value)
    (returns : List Return) (store : Store) : Nat → Machine → Prop where
  | start : Approach wrapper unit env stack returns store 4 (.entering wrapper env stack returns)
  | framed {frame : Ref} (empty : store.frames[frame]? = some #[]) :
      Approach wrapper unit env stack returns store 3
        ⟨wrapper, 1, frame :: env, stack, returns, 0, .running⟩
  | saved {frame : Ref} (empty : store.frames[frame]? = some #[]) :
      Approach wrapper unit env stack returns store 2
        ⟨wrapper, 2, frame :: env, stack, ⟨wrapper, frame :: env, 4⟩ :: returns, 0, .running⟩
  | made {frame : Ref} (empty : store.frames[frame]? = some #[]) (id : Nat) :
      Approach wrapper unit env stack returns store 1
        ⟨wrapper, 3, frame :: env, .function ⟨id, unit, frame :: env⟩ :: stack,
          ⟨wrapper, frame :: env, 4⟩ :: returns, 0, .running⟩
  | there {frame : Ref} (empty : store.frames[frame]? = some #[]) :
      Approach wrapper unit env stack returns store 0
        (.entering unit (frame :: env) stack (⟨wrapper, frame :: env, 4⟩ :: returns))

/-- On the way from a unit that left its values on the stack to the `rest`: as many instructions of
the wrapper are still to come. -/
inductive Departure (wrapper rest : Template) (env : Env) (returns : List Return) :
    List Value → Nat → Machine → Prop where
  | back {left nargs} :
      Departure wrapper rest env returns left 3 ⟨wrapper, 4, env, left, returns, nargs, .running⟩
  | dropped {v stack nargs} :
      Departure wrapper rest env returns (v :: stack) 2
        ⟨wrapper, 5, env, stack, returns, nargs, .running⟩
  | made {v stack nargs} (id : Nat) :
      Departure wrapper rest env returns (v :: stack) 1
        ⟨wrapper, 6, env, .function ⟨id, rest, env⟩ :: stack, returns, nargs, .running⟩
  | there {v stack} :
      Departure wrapper rest env returns (v :: stack) 0 (.entering rest env stack returns)

section Wrapper

variable {wrapper unit rest : Template} {env : Env} {stack left : List Value}
  {returns : List Return} {store : Store} {m : Machine} {remaining : Nat}

theorem Approach.runs (approach : Approach wrapper unit env stack returns store remaining m) :
    m.status = .running := by
  cases approach <;> rfl

theorem Approach.mono {after : Store}
    (approach : Approach wrapper unit env stack returns store remaining m)
    (empties : store.KeepsEmptyFrames after) :
    Approach wrapper unit env stack returns after remaining m := by
  cases approach with
  | start => exact .start
  | framed empty => exact .framed (empties _ empty)
  | saved empty => exact .saved (empties _ empty)
  | made empty id => exact .made (empties _ empty) id
  | there empty => exact .there (empties _ empty)

theorem step_of_code {code : Array Instruction} {instruction : Instruction}
    (isCode : m.template.code = code) (next : code[m.pc]? = some instruction) (memory : Memory) :
    m.step memory = { m with pc := m.pc + 1 }.execute instruction memory := by
  unfold Machine.step
  rw [isCode, next]

/-- An instruction on the way to a unit, whatever is in the memory. -/
theorem Approach.step {memory : Memory} (code : wrapper.code = sequenceCode unit rest)
    (approach : Approach wrapper unit env stack returns memory.store (remaining + 1) m) :
    (m.step memory).stop = none ∧ Approach wrapper unit env stack returns
      (m.step memory).memory.store remaining (m.step memory).machine := by
  obtain ⟨store, globals⟩ := memory
  cases approach with
  | start =>
      rw [step_of_code code rfl]
      refine ⟨rfl, .framed ?_⟩
      exact Array.getElem?_push_size
  | framed empty =>
      rw [step_of_code code rfl]
      exact ⟨rfl, .saved empty⟩
  | saved empty =>
      rw [step_of_code code rfl]
      refine ⟨rfl, .made ?_ _⟩
      exact empty
  | made empty id =>
      rw [step_of_code code rfl]
      exact ⟨rfl, .there empty⟩

theorem Departure.runs (departure : Departure wrapper rest env returns left remaining m) :
    m.status = .running := by
  cases departure <;> rfl

/-- An instruction on the way from a unit that left a value. -/
theorem Departure.step {memory : Memory} (code : wrapper.code = sequenceCode unit rest)
    (departure : Departure wrapper rest env returns left (remaining + 1) m) (some : left ≠ []) :
    (m.step memory).stop = none ∧
      Departure wrapper rest env returns left remaining (m.step memory).machine := by
  obtain ⟨store, globals⟩ := memory
  cases departure with
  | back =>
      obtain ⟨v, stack, rfl⟩ := List.exists_cons_of_ne_nil some
      rw [step_of_code code rfl]
      exact ⟨rfl, .dropped⟩
  | dropped =>
      rw [step_of_code code rfl]
      exact ⟨rfl, .made _⟩
  | made id =>
      rw [step_of_code code rfl]
      exact ⟨rfl, .there⟩

/-- There has to be a value to drop. -/
theorem Departure.fault {memory : Memory} (code : wrapper.code = sequenceCode unit rest)
    (departure : Departure wrapper rest env returns left (remaining + 1) m) (none : left = []) :
    ∃ cause, (m.step memory).stop = some (.fault cause) := by
  obtain ⟨store, globals⟩ := memory
  cases departure with
  | back =>
      subst none
      rw [step_of_code code rfl]
      exact ⟨.stackUnderflow, rfl⟩
  | dropped => cases none
  | made id => cases none

end Wrapper

end Engine

end ActorMachine
