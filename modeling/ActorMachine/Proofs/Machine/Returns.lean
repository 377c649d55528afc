import ActorMachine.Proofs.Store.Tags

set_option autoImplicit false

/-!
The bottom of the saved returns.

Guest code saves returns and takes them as it likes, balanced or not. The first return was saved
before any code ran, though, and the code that it leads to takes none. So a `RETURN` always finds
one, in whatever order a machine is run, resumed, handed values and halted. Main statement:
`returns_never_run_out`.
-/

namespace ActorMachine.Machine

/-- The machines that come of one about to enter `f`. A run may have any quota and any memory, so
the machines between two instructions of a run are among them. A machine that refuses to be resumed
stays as it was. -/
inductive Driven (owner : ProcessId) (f : Closure) : Machine → Prop where
  | start : Driven owner f (.start owner f)
  | run {m} (quota : Nat) (memory : Memory) :
      Driven owner f m → Driven owner f (m.run quota memory).machine
  | push {m} (v : Value) : Driven owner f m → Driven owner f (m.push v)
  | resume {m after} {store : Store} {entry : Template} {args : Value} :
      Driven owner f m → m.resume store entry args = .ok after → Driven owner f after
  | halt {m} : Driven owner f m → Driven owner f m.halt

/-- The first return is still saved, or it was the last one taken and the machine is in the code to
which it leads. -/
inductive Grounded (owner : ProcessId) (m : Machine) : Prop where
  | saved (bottom : m.returns.getLast? = some ⟨.epilogue owner, [], 0⟩)
  | taken (none : m.returns = []) (inEpilogue : m.template = .epilogue owner) (within : m.pc ≤ 3)
      (awake : m.status ≠ .waiting)

section Grounded

variable {owner : ProcessId} {m after : Machine}

/-- No instruction of the epilogue saves a return, takes one, jumps or waits. -/
theorem Grounded.step_epilogue (none : m.returns = []) (inEpilogue : m.template = .epilogue owner)
    (within : m.pc ≤ 3) (awake : m.status ≠ .waiting) (memory : Memory) :
    (m.step memory).machine.Grounded owner := by
  obtain ⟨store, globals⟩ := memory
  obtain ⟨template, pc, env, stack, returns, nargs, status⟩ := m
  subst none inEpilogue
  match pc, within with
  | 0, _ =>
      cases stack with
      | nil => exact .taken rfl rfl (by change 1 ≤ 3; decide) awake
      | cons v stack => exact .taken rfl rfl (by change 1 ≤ 3; decide) awake
  | 1, _ => exact .taken rfl rfl (by change 2 ≤ 3; decide) awake
  | 2, _ =>
      cases stack with
      | nil => exact .taken rfl rfl (by change 3 ≤ 3; decide) awake
      | cons reason stack => exact .taken rfl rfl (by change 3 ≤ 3; decide) nofun
  | 3, _ => exact .taken rfl rfl (by change 3 ≤ 3; decide) awake

/-- An instruction of a machine that runs. -/
theorem Grounded.step (grounded : m.Grounded owner) (runs : m.status = .running)
    (memory : Memory) : (m.step memory).machine.Grounded owner := by
  cases grounded with
  | taken none inEpilogue within awake =>
      exact step_epilogue none inEpilogue within awake memory
  | saved bottom =>
      have unwinds := (m.follows_step memory).unwinds
      generalize m.step memory = execution at unwinds
      cases unwinds with
      | kept same => exact .saved (by rw [same]; exact bottom)
      | saved one =>
          refine .saved ?_
          rw [one, List.getLast?_cons, bottom]
          rfl
      | @returned memory back returns isSaved =>
          rw [isSaved] at bottom
          cases returns with
          | nil =>
              cases bottom
              exact .taken rfl rfl (Nat.zero_le 3) (by rw [goOn, runs]; nofun)
          | cons next returns => exact .saved bottom

theorem Grounded.runFrom (grounded : m.Grounded owner) (executed quota : Nat) (memory : Memory) :
    (m.runFrom executed quota memory).machine.Grounded owner := by
  induction quota generalizing m executed memory with
  | zero => exact grounded
  | succ quota ih =>
      unfold Machine.runFrom
      by_cases runs : m.status = .running
      · rw [if_pos runs]
        have stepped := grounded.step runs memory
        cases shape : m.step memory with
        | mk next memory stop =>
            rw [shape] at stepped
            cases stop with
            | none => exact ih stepped _ _
            | some stop => exact stepped
      · rw [if_neg runs]
        exact grounded

theorem Grounded.resume (grounded : m.Grounded owner) {store : Store} {entry : Template}
    {args : Value} (resumed : m.resume store entry args = .ok after) : after.Grounded owner := by
  unfold Machine.resume at resumed
  split at resumed
  · rename_i waits
    split at resumed
    · cases resumed
      cases grounded with
      | saved bottom => exact .saved bottom
      | taken none inEpilogue within awake => exact absurd waits awake
    · cases resumed
  · cases resumed

theorem Driven.grounded {f : Closure} (driven : Driven owner f m) : m.Grounded owner := by
  induction driven with
  | start => exact .saved rfl
  | run quota memory _ ih => exact ih.runFrom 0 quota memory
  | push v _ ih =>
      cases ih with
      | saved bottom => exact .saved bottom
      | taken none inEpilogue within awake => exact .taken none inEpilogue within awake
  | resume _ resumed ih => exact ih.resume resumed
  | halt _ ih =>
      cases ih with
      | saved bottom => exact .saved bottom
      | taken none inEpilogue within awake => exact .taken none inEpilogue within nofun

/-- A return is taken only where one is saved. -/
theorem Grounded.returns_ne_nil (grounded : m.Grounded owner)
    (next : m.template.code[m.pc]? = some .ret) : m.returns ≠ [] := by
  cases grounded with
  | saved bottom =>
      intro none
      rw [none] at bottom
      cases bottom
  | taken none inEpilogue within awake =>
      rw [inEpilogue] at next
      generalize m.pc = pc at next within
      match pc, within with
      | 0, _ => cases next
      | 1, _ => cases next
      | 2, _ => cases next
      | 3, _ => cases next

end Grounded

/-- Whatever code a machine runs and however it is driven, the return to the epilogue is at the
bottom of its returns, or none is left and the machine is in the epilogue and does not wait. So a
`RETURN` that comes next takes a return and goes on there. -/
theorem returns_never_run_out {owner : ProcessId} {f : Closure} {m : Machine}
    (driven : Driven owner f m) :
    (m.returns.getLast? = some ⟨.epilogue owner, [], 0⟩ ∨
      m.returns = [] ∧ m.template = .epilogue owner ∧ m.pc ≤ 3 ∧ m.status ≠ .waiting) ∧
    (m.template.code[m.pc]? = some .ret → ∃ back returns, m.returns = back :: returns ∧
      ∀ memory, m.step memory = goOn { m with
        template := back.template
        env := back.env
        pc := back.pc
        returns } memory) := by
  have grounded := driven.grounded
  constructor
  · cases grounded with
    | saved bottom => exact .inl bottom
    | taken none inEpilogue within awake => exact .inr ⟨none, inEpilogue, within, awake⟩
  · intro next
    obtain ⟨back, returns, isSaved⟩ := List.exists_cons_of_ne_nil (grounded.returns_ne_nil next)
    refine ⟨back, returns, isSaved, fun memory => ?_⟩
    unfold step
    rw [next]
    simp only [execute, isSaved]

/-- A function that returns at once, without a result. -/
def returner : Closure := ⟨0, ⟨.linked 0, #[.ret]⟩, []⟩

/-- `returner` faults in the epilogue, which has no result to drop. Then it is handed one and told
to run again. -/
theorem returns_never_run_out_returner :
    ∃ m, Driven 1 returner m ∧ m.returns = [] ∧ m.status = .running ∧
      m.template = .epilogue 1 ∧ m.pc ≤ 3 := by
  have fresh : Driven 1 returner (.start 1 returner) := .start
  have driven := (fresh.run 2 {}).push .nil
  refine ⟨_, driven, rfl, rfl, ?_⟩
  rcases (returns_never_run_out driven).1 with bottom | ⟨_, inEpilogue, within, _⟩
  · cases bottom
  · exact ⟨inEpilogue, within⟩

end ActorMachine.Machine
