import ActorMachine.Proofs.Code.Endings
import ActorMachine.Proofs.Engine.Slices

set_option autoImplicit false

/-!
What never ends.

An instruction ends unless it walks a circular list or links a listing that has itself in it. So the
quota bounds a slice as long as the values that the instructions of the process look into have no
circles. Main statement: `endless_walks`. Guest code can make a circular list and hang the engine
with one instruction: `looper` does.
-/

namespace ActorMachine

open Argument EngineM

/-! ### Linking -/

namespace Engine

variable {engine : Engine}

/-- Linking a circular listing never ends. -/
theorem linkFunction_of_circular {x : Value} (circular : engine.store.Circular x) :
    (engine.linkFunction x).1 = .error .endless := by
  let source : Link.Source := ⟨engine.store, engine.natives⟩
  have endless : ((source.function (engine.store.pairs.size + 1) x).run
      ⟨engine.globals, engine.store.stamps⟩).1 = .error .endless :=
    Link.Source.function_of_circular circular _
  exact endless

/-- A listing without circles is linked or found wrong. -/
theorem linkFunction_ends {x : Value} (acyclic : engine.store.Acyclic x) :
    (engine.linkFunction x).1 ≠ .error .endless := by
  let source : Link.Source := ⟨engine.store, engine.natives⟩
  have ends : Ends (source.function (engine.store.pairs.size + 1) x) :=
    Link.Source.ends_function acyclic.below
  exact ends ⟨engine.globals, engine.store.stamps⟩

end Engine

/-! ### Natives -/

namespace EngineM

variable {α β : Type} {engine : Engine}

theorem ends_onScheduler (f : Scheduler → α × Scheduler) : Ends (onScheduler f) := fun _ => nofun

theorem ends_changeScheduler (f : Scheduler → Scheduler) : Ends (changeScheduler f) :=
  ends_onScheduler _

theorem ends_onGlobals (f : Globals → α × Globals) : Ends (onGlobals f) := ends_onScheduler _

theorem ends_changeHost (f : Host → Host) : Ends (changeHost f) := fun _ => nofun

theorem endsAt_onStore {act : Action Store α} (ends : EndsAt engine.store act) :
    EndsAt engine (onStore act) :=
  ends

/-- Steps after the walk along a list without circles. -/
theorem endsAt_elements_bind {v : Value} {next : List Value → EngineM β}
    (acyclic : engine.store.Acyclic v)
    (rest : ∀ items, (∀ item ∈ items, engine.store.Acyclic item) → EndsAt engine (next items)) :
    EndsAt engine (elements v >>= next) := by
  change EndsAt engine (ofOutcome (engine.store.elements v) >>= next)
  refine endsAt_ofOutcome_bind acyclic.settled_elements fun items walked => rest items ?_
  have isList := ((engine.store.elements_spine v).1 items).1 walked
  exact fun item member => acyclic.item isList member

end EngineM

/-- Operations on names end: only `link` walks lists, those of the listing. -/
theorem NameOp.ends_run {engine : Engine} (op : NameOp) {args : List Value}
    (acyclic : ∀ v ∈ args, engine.store.Acyclic v) : EndsAt engine (op.run args) := by
  unfold run
  split
  · exact (ends_ofOutcome (settled_symbol _ _)).bind (fun _ => ends_onGlobals _) engine
  · exact (ends_ofOutcome (settled_symbol _ _)).bind (fun _ => ends_onGlobals _) engine
  · exact (ends_ofOutcome (settled_symbol _ _)).bind
      (fun _ => (ends_modify _).bind fun _ => ends_pure _) engine
  · exact (ends_ofOutcome (settled_symbol _ _)).bind
      (fun _ => (ends_modify _).bind fun _ => ends_pure _) engine
  · exact (ends_ofOutcome (settled_symbol _ _)).bind
      (fun _ => ends_get.bind fun _ => ends_pure _) engine
  · refine (ends_ofOutcome (settled_symbol _ _)).bind
      (fun name => ends_get.bind fun found => ?_) engine
    split
    · exact ends_pure _
    · exact ends_refuse _
  · exact ends_get.bind (fun _ => ends_onScheduler _) engine
  · have linked : EndsAt engine (ExceptT.mk (Engine.linkFunction _)) :=
      Engine.linkFunction_ends (acyclic _ List.mem_cons_self)
    exact linked.bind fun template after _ => ends_pure _ after
  · exact ends_missing _ _ engine

theorem ProcessOp.ends_linkTo (a b : ProcessId) : Ends (ProcessOp.run.linkTo a b) := by
  refine (ends_onScheduler _).bind fun linked => ?_
  cases linked with
  | ok _ => exact ends_pure _
  | error cause => exact ends_refuse _

theorem ProcessOp.ends_run (op : ProcessOp) (me : ProcessId) (args : List Value) :
    Ends (op.run me args) := by
  unfold run
  split
  · refine (ends_ofOutcome (settled_process _ _)).bind fun pid => ends_get.bind fun engine => ?_
    split
    · exact ends_refuse _
    · exact ends_onScheduler _
  · exact (ends_ofOutcome (settled_function _ _)).bind fun _ =>
      (ends_onScheduler _).bind fun _ => ends_pure _
  · exact (ends_ofOutcome (settled_function _ _)).bind fun _ =>
      (ends_onScheduler _).bind fun _ => (ends_linkTo _ _).bind fun _ => ends_pure _
  · exact (ends_ofOutcome (settled_process _ _)).bind fun _ =>
      (ends_linkTo _ _).bind fun _ => ends_pure _
  · exact (ends_ofOutcome (settled_process _ _)).bind fun _ =>
      (ends_changeScheduler _).bind fun _ => ends_pure _
  · exact (ends_changeScheduler _).bind fun _ => ends_pure _
  · exact (ends_ofOutcome (settled_process _ _)).bind fun _ =>
      (ends_ofOutcome (settled_pair _ _)).bind fun _ => ends_get.bind fun _ =>
        (ends_ofOutcome (settled_symbol _ _)).bind fun _ =>
          (ends_changeScheduler _).bind fun _ => ends_pure _
  · exact ends_pure _
  · exact ends_get.bind fun _ => ends_onScheduler _
  · exact (ends_ofOutcome (settled_process _ _)).bind fun _ =>
      (ends_changeScheduler _).bind fun _ => ends_pure _
  · exact ends_get.bind fun _ => ends_pure _
  · exact ends_missing _ _

theorem settled_map {α β : Type} {outcome : Outcome α} (settled : Settled outcome) (f : α → β) :
    Settled (outcome.map f) := by
  cases outcome with
  | ok a => nofun
  | error failure => exact settled.error

theorem settled_httpRequest (method url : String) (rest : List Value) :
    Settled (httpRequest method url rest) := by
  unfold httpRequest
  extract_lets body
  have settledBody : Settled body := by
    unfold body
    split
    · exact settled_string _ _
    · exact settled_faulting _
  split
  · split
    · nofun
    · exact settled_faulting _
  · split
    · exact settled_map settledBody _
    · split
      · exact settled_map settledBody _
      · exact settled_faulting _

theorem settled_resourceRequest (method part : String) (body : Option Value) :
    Settled (resourceRequest method part body) := by
  unfold resourceRequest
  cases body with
  | none =>
      dsimp only
      repeat' split
      all_goals nofun
  | some v =>
      have text := settled_string "doc" v
      have event := settled_symbol "doc" v
      dsimp only
      repeat' split
      · nofun
      · exact settled_map text _
      · exact settled_map text _
      · exact settled_map event _
      · exact settled_faulting _
      · exact settled_faulting _

theorem ends_requestResource {engine : Engine} (me : ProcessId) (method : Value) {resource : Value}
    (body : Option Value) (acyclic : engine.store.Acyclic resource) :
    EndsAt engine (requestResource me method resource body) := by
  unfold requestResource
  refine endsAt_ofOutcome_bind (settled_symbol _ _) fun method _ => ?_
  refine endsAt_elements_bind acyclic fun parts _ => ?_
  split
  · refine (ends_ofOutcome (settled_symbol _ _)).bind (fun node =>
      (ends_ofOutcome (settled_symbol _ _)).bind fun part =>
        (ends_ofOutcome (settled_resourceRequest _ _ _)).bind fun request =>
          ends_get.bind fun found => ?_) engine
    split
    · exact ends_refuse _
    · refine (ends_modify _).bind fun _ => ?_
      split
      · exact ends_pure _
      · exact ends_pure _
  · exact ends_refuse _ engine

/-- Operations on the host end: `http` walks its last argument, and `resource` its only one and the
list that is the second item of that. -/
theorem HostOp.ends_run {engine : Engine} (op : HostOp) (me : ProcessId) {args : List Value}
    (acyclic : ∀ v ∈ args, engine.store.Acyclic v) : EndsAt engine (op.run me args) := by
  unfold run
  split
  · exact (ends_ofOutcome (settled_string _ _)).bind
      (fun _ => (ends_changeHost _).bind fun _ => ends_pure _) engine
  · exact ends_get.bind (fun _ => ends_pure _) engine
  · exact ends_get.bind (fun _ => (ends_modify _).bind fun _ => ends_pure _) engine
  · rename_i method url rest
    refine endsAt_ofOutcome_bind (settled_symbol _ _) fun _ _ => ?_
    refine endsAt_ofOutcome_bind (settled_string _ _) fun _ _ => ?_
    refine endsAt_elements_bind (acyclic rest (by simp)) fun items _ => ?_
    exact (ends_ofOutcome (settled_httpRequest _ _ _)).bind
      (fun _ => (ends_changeHost _).bind fun _ => ends_pure _) engine
  · rename_i request
    refine endsAt_elements_bind (acyclic request List.mem_cons_self) fun items each => ?_
    split
    · exact ends_requestResource _ _ _ (each _ (by simp))
    · exact ends_requestResource _ _ _ (each _ (by simp))
    · exact ends_refuse _ engine
  · exact (ends_ofOutcome (settled_process _ _)).bind
      (fun _ => (ends_changeHost _).bind fun _ => ends_pure _) engine
  · exact ends_missing _ _ engine

theorem HostAction.ends_run (action : HostAction) : Ends action.run := by
  induction action with
  | done result =>
      cases result with
      | ok v => exact ends_pure v
      | error cause => exact ends_refuse cause
  | look next ih => exact ends_get.bind fun _ => ih _ _ _
  | changeHost f next ih => exact (ends_changeHost f).bind fun _ => ih
  | list items next ih => exact (ends_onScheduler _).bind fun v => ih v
  | define name v next ih => exact (ends_onScheduler _).bind fun _ => ih
  | spawn f next ih => exact (ends_onScheduler _).bind fun pid => ih pid
  | send receiver message next ih => exact (ends_changeScheduler _).bind fun _ => ih

theorem ends_callRegistered (index : Nat) (me : ProcessId) (args : List Value) :
    Ends (callRegistered index me args) := by
  refine ends_get.bind fun engine => ?_
  split
  · exact HostAction.ends_run _
  · exact ends_missing _ _

theorem Operation.ends_run {engine : Engine} (operation : Operation) (me : ProcessId)
    {args : List Value} (acyclic : ∀ v ∈ args, engine.store.Acyclic v) :
    EndsAt engine (operation.run me args) := by
  unfold run
  split
  · exact (ends_ofOutcome (settled_number _ _)).bind (fun _ =>
      (ends_ofOutcome (settled_number _ _)).bind fun _ => ends_pure _) engine
  · exact (ends_ofOutcome (settled_number _ _)).bind (fun _ =>
      (ends_ofOutcome (settled_number _ _)).bind fun _ => ends_pure _) engine
  · exact ends_pure _ engine
  · exact ends_pure _ engine
  · exact endsAt_onStore (DataOp.ends_run _ acyclic)
  · exact NameOp.ends_run _ acyclic
  · exact ProcessOp.ends_run _ _ _ engine
  · exact HostOp.ends_run _ _ acyclic
  · exact (ends_ofOutcome (settled_string _ _)).bind
      (fun _ => (ends_changeHost _).bind fun _ => ends_pure _) engine
  · exact ends_callRegistered _ _ _ engine
  · exact ends_missing _ _ engine

/-- A native whose arguments have no circles gives a result or faults. -/
theorem Native.ends_call {engine : Engine} (native : Native) (me : ProcessId) {args : List Value}
    (acyclic : ∀ v ∈ args, engine.store.Acyclic v) : EndsAt engine (native.call me args) := by
  unfold call
  split
  · exact Operation.ends_run _ _ acyclic
  · exact ends_refuse _ engine

/-! ### Instructions -/

namespace Machine

/-- The slots of the innermost frame. -/
def slots (m : Machine) (store : Store) : List Value :=
  match m.env with
  | [] => []
  | frame :: _ => (store.frameAt frame).toList

/-- What an instruction of the machine can look into: the operands and the slots of the innermost
frame, which natives get. -/
def operands (m : Machine) (store : Store) : List Value := m.stack ++ m.slots store

end Machine

/-- What an instruction looks into: only a call with a list of arguments can be endless, and only a
native asks for one to be called, with the slots of the frame. -/
structure Execution.Looks (execution : Execution) (m : Machine) (memory : Memory) : Prop where
  walks : execution.stop = some .endless → ∃ callee args stack,
    m.stack = callee :: args :: stack ∧ memory.store.spine args = .circular
  calls : ∀ native args, execution.stop = some (.native native args) →
    args = m.slots memory.store ∧ execution.memory = memory

namespace Machine

variable {m : Machine} {memory : Memory}

theorem looks_goOn (next : Machine) (after : Memory) : (goOn next after).Looks m memory :=
  ⟨nofun, fun _ _ => nofun⟩

theorem looks_fail (next : Machine) (after : Memory) (cause : Fault) :
    (fail next after cause).Looks m memory :=
  ⟨nofun, fun _ _ => nofun⟩

theorem looks_enter (next : Machine) (store : Store) (globals : Globals) (callee : Value)
    (n : Nat) : (next.enter store globals callee n).Looks m memory := by
  cases callee with
  | function f => exact looks_goOn _ _
  | template t => exact looks_goOn _ _
  | _ => exact looks_fail _ _ _

theorem looks_execute (m : Machine) (instruction : Instruction) (memory : Memory) :
    (m.execute instruction memory).Looks m memory := by
  obtain ⟨store, globals⟩ := memory
  unfold execute
  cases instruction with
  | args n =>
      dsimp only
      split
      · exact looks_fail _ _ _
      · split
        · exact looks_fail _ _ _
        · exact looks_goOn _ _
  | argsRest n =>
      dsimp only
      split
      · exact looks_fail _ _ _
      · split
        · exact looks_fail _ _ _
        · split
          · exact looks_fail _ _ _
          · exact looks_goOn _ _
  | storeLocal v =>
      dsimp only
      split
      · exact looks_fail _ _ _
      · split
        · exact looks_goOn _ _
        · exact looks_fail _ _ _
  | storeGlobal g =>
      dsimp only
      split
      · exact looks_fail _ _ _
      · split
        · exact looks_goOn _ _
        · exact looks_fail _ _ _
  | call mode =>
      cases mode with
      | fixed n =>
          dsimp only
          split
          · exact looks_fail _ _ _
          · exact looks_enter _ _ _ _ _
      | spread =>
          dsimp only
          split
          · exact looks_fail _ _ _
          · exact looks_fail _ _ _
          · rename_i callee args stack isStack
            cases walked : store.spine args with
            | proper items => exact looks_enter _ _ _ _ _
            | improper => exact looks_fail _ _ _
            | circular =>
                exact ⟨fun _ => ⟨callee, args, stack, isStack, walked⟩, fun _ _ => nofun⟩
  | native n =>
      refine ⟨nofun, fun native args stopped => ?_⟩
      cases stopped
      exact ⟨rfl, rfl⟩
  | halt =>
      dsimp only
      split
      · exact looks_fail _ _ _
      · exact ⟨nofun, fun _ _ => nofun⟩
  | receive table => exact ⟨nofun, fun _ _ => nofun⟩
  | const x => exact looks_goOn _ _
  | jump label => exact looks_goOn _ _
  | save label => exact looks_goOn _ _
  | function t => exact looks_goOn _ _
  | _ =>
      dsimp only
      split
      all_goals first
        | exact looks_fail _ _ _
        | exact looks_goOn _ _

theorem looks_step (m : Machine) (memory : Memory) : (m.step memory).Looks m memory := by
  unfold step
  split
  · exact looks_fail _ _ _
  · rename_i instruction _
    obtain ⟨walks, calls⟩ := looks_execute { m with pc := m.pc + 1 } instruction memory
    exact ⟨walks, calls⟩

theorem stop_enter (m : Machine) (store : Store) (globals : Globals) (callee : Value) (n : Nat) :
    (m.enter store globals callee n).stop = none ∨
      ∃ cause, (m.enter store globals callee n).stop = some (.fault cause) := by
  cases callee with
  | function f => exact .inl rfl
  | template t => exact .inl rfl
  | _ => exact .inr ⟨_, rfl⟩

/-- A call with a list of arguments goes on or faults, unless the list is circular. -/
theorem stop_spread {callee args : Value} {stack : List Value} (memory : Memory)
    (next : m.template.code[m.pc]? = some (.call .spread))
    (isStack : m.stack = callee :: args :: stack) :
    (memory.store.spine args = .circular → (m.step memory).stop = some .endless) ∧
    (memory.store.spine args ≠ .circular → (m.step memory).stop = none ∨
      ∃ cause, (m.step memory).stop = some (.fault cause)) := by
  obtain ⟨store, globals⟩ := memory
  unfold step
  rw [next]
  unfold execute
  dsimp only
  rw [isStack]
  dsimp only
  cases store.spine args with
  | proper items => exact ⟨nofun, fun _ => stop_enter _ _ _ _ _⟩
  | improper => exact ⟨nofun, fun _ => .inr ⟨_, rfl⟩⟩
  | circular => exact ⟨fun _ => rfl, fun other => absurd rfl other⟩

/-- A machine that waits goes on with a message or faults, unless its payload is circular. -/
theorem resume_endless_iff {store : Store} {args : Value} (waits : m.status = .waiting)
    (entry : Template) (intact : store.Intact args) :
    m.resume store entry args = .error .endless ↔ store.Circular args := by
  rw [← intact.elements_iff.2.2]
  unfold resume
  rw [if_pos waits]
  cases store.elements args with
  | ok items => exact ⟨nofun, nofun⟩
  | error failure => exact ⟨fun same => by cases same; rfl, fun same => by cases same; rfl⟩

end Machine

namespace Engine

variable {engine : Engine} {pid : ProcessId} {p : Process}

theorem callFor_ends {native : Native} {args : List Value}
    (ends : EndsAt engine (native.call pid args)) : engine.callFor pid native args ≠ .endless := by
  unfold callFor
  have settled : Settled ((native.call pid args).run engine).1 := ends
  generalize (native.call pid args).run engine = called at settled
  obtain ⟨outcome, after⟩ := called
  cases outcome with
  | ok v =>
      dsimp only
      split
      · split
        · nofun
        · nofun
      · nofun
  | error failure =>
      cases failure with
      | fault cause => nofun
      | endless => exact absurd rfl settled

/-- An instruction ends if what it can look into has no circles. -/
theorem advance_ends (found : engine.find? pid = some p)
    (acyclic : ∀ v ∈ p.machine.operands engine.store, engine.store.Acyclic v) :
    engine.advance pid ≠ .endless := by
  have looks := p.machine.looks_step engine.scheduler.memory
  unfold advance
  rw [found]
  dsimp only
  split
  · rw [stepMachine_eq]
    cases stopped : (p.machine.step engine.scheduler.memory).stop with
    | none => nofun
    | some stop =>
        cases stop with
        | endless =>
            obtain ⟨callee, args, stack, isStack, circular⟩ := looks.walks stopped
            have operand : args ∈ p.machine.operands engine.store := by
              simp [Machine.operands, isStack]
            exact absurd circular (acyclic args operand).spine_ne_circular
        | native native args =>
            obtain ⟨rfl, sameMemory⟩ := looks.calls native args stopped
            apply callFor_ends
            apply native.ends_call pid
            intro v isSlot
            change (p.machine.step engine.scheduler.memory).memory.store.Acyclic v
            rw [sameMemory]
            exact acyclic v (List.mem_append_right _ isSlot)
        | _ => nofun
  · nofun

/-- Along so many instructions of a process, what they can look into has no circles. -/
def Uncircled (engine : Engine) (pid : ProcessId) (quota : Nat) : Prop :=
  ∀ executed middle p, executed < quota → Executes pid executed engine middle →
    middle.find? pid = some p → ∀ v ∈ p.machine.operands middle.store, middle.store.Acyclic v

/-- The quota bounds a slice in which the values that the instructions can look into have no
circles.
-/
theorem Uncircled.slice_ends {quota : Nat} (uncircled : Uncircled engine pid quota) :
    ∃ after, slice pid quota engine = some after := by
  have sliced := sliced_slice pid quota engine
  cases result : slice pid quota engine with
  | some after => exact ⟨after, rfl⟩
  | none =>
      rw [result] at sliced
      cases sliced with
      | @endless executed middle within executes endless =>
          have runs : middle.Runs pid := by
            by_contra stands
            rw [advance_of_not_runs stands] at endless
            cases endless
          obtain ⟨p, found, _⟩ := runs
          have acyclic := uncircled executed middle p within executes found
          exact absurd endless (advance_ends found acyclic)

/-- A call with a list of arguments is endless if the list is circular, and only then. -/
theorem advance_spread_iff {callee args : Value} {stack : List Value}
    (found : engine.find? pid = some p) (runs : p.status = .running)
    (next : p.machine.template.code[p.machine.pc]? = some (.call .spread))
    (isStack : p.machine.stack = callee :: args :: stack) (intact : engine.store.Intact args) :
    engine.advance pid = .endless ↔ engine.store.Circular args := by
  have stops := Machine.stop_spread engine.scheduler.memory next isStack
  rw [← intact.spine_iff.2.2]
  unfold advance
  rw [found]
  dsimp only
  rw [if_pos runs, stepMachine_eq]
  by_cases circular : engine.store.spine args = .circular
  · rw [stops.1 circular]
    exact ⟨fun _ => circular, fun _ => rfl⟩
  · rcases stops.2 circular with goesOn | ⟨cause, faults⟩
    · rw [goesOn]
      exact ⟨nofun, fun isCircular => absurd isCircular circular⟩
    · rw [faults]
      exact ⟨nofun, fun isCircular => absurd isCircular circular⟩

/-- What walks along lists come to. The items of a list of the store are its elements if it is
proper, an improper one faults, and a circular one never gives a result: neither to a call with the
list as its arguments, nor to a machine that goes on with a message, nor to linking. What has no
circles never keeps an instruction from ending, so that the quota bounds the slice. -/
theorem endless_walks (engine : Engine) :
    (∀ v, engine.store.Intact v →
      (∀ items, engine.store.elements v = .ok items ↔ engine.store.ProperList v items) ∧
      (engine.store.elements v = .error (.fault (.wrongKind "list" "proper list")) ↔
        ∃ items last, engine.store.Chain v items last ∧ last ≠ .nil) ∧
      (engine.store.elements v = .error .endless ↔ engine.store.Circular v)) ∧
    (∀ pid p callee args stack, engine.find? pid = some p → p.status = .running →
      p.machine.template.code[p.machine.pc]? = some (.call .spread) →
      p.machine.stack = callee :: args :: stack → engine.store.Intact args →
      (engine.advance pid = .endless ↔ engine.store.Circular args)) ∧
    (∀ (m : Machine) entry args, m.status = .waiting → engine.store.Intact args →
      (m.resume engine.store entry args = .error .endless ↔ engine.store.Circular args)) ∧
    (∀ x, (engine.store.Circular x → (engine.linkFunction x).1 = .error .endless) ∧
      (engine.store.Acyclic x → (engine.linkFunction x).1 ≠ .error .endless)) ∧
    ∀ pid quota, Uncircled engine pid quota → ∃ after, slice pid quota engine = some after := by
  refine ⟨fun _ => Store.Intact.elements_iff, ?_, ?_, ?_, fun _ _ => Uncircled.slice_ends⟩
  · intro pid p callee args stack found runs next isStack intact
    exact advance_spread_iff found runs next isStack intact
  · intro m entry args waits intact
    exact Machine.resume_endless_iff waits entry intact
  · exact fun x => ⟨linkFunction_of_circular, linkFunction_ends⟩

/-- An engine with nothing but a store in it. -/
def holding (store : Store) : Engine := { scheduler := { memory := { store } } }

/-- A store with one pair, which is its own second part. -/
def knotted : Store := { pairs := #[(.nil, .pair 0)] }

/-- The elements of a list of one item, and a walk along one pair that never ends. -/
theorem endless_walks_pair :
    (({} : Store).list [.nil]).2.elements (({} : Store).list [.nil]).1 = .ok [.nil] ∧
    knotted.Circular (.pair 0) ∧ knotted.elements (.pair 0) = .error .endless := by
  constructor
  · have spelled := ({} : Store).spells_list_leaves [.nil]
    have acyclic : (({} : Store).list [.nil]).2.Acyclic (({} : Store).list [.nil]).1 :=
      ⟨.leaves [.nil], ⟨nofun, nofun⟩, spelled⟩
    have walks := (endless_walks (holding (({} : Store).list [.nil]).2)).1 _ acyclic.intact
    exact (walks.1 [.nil]).2 (Store.properList_of_spells spelled)
  · have circular : knotted.Circular (.pair 0) := by
      intro n
      refine ⟨0, ?_⟩
      induction n with
      | zero => rfl
      | succ n ih => exact ih
    have intact : knotted.Intact (.pair 0) := by
      have reached : ∀ x, knotted.Reaches (.pair 0) x → x = .pair 0 ∨ x = .nil := by
        intro x leads
        induction leads with
        | refl => exact .inl rfl
        | tail _ isPart ih =>
            obtain ⟨ref, isPair, isPart⟩ := isPart
            rcases ih with rfl | rfl
            · cases isPair
              exact isPart.symm
            · cases isPair
      intro ref leads
      rcases reached _ leads with same | other
      · cases same
        exact Nat.zero_lt_one
      · cases other
    exact ⟨circular, ((endless_walks (holding knotted)).1 _ intact).2.2.2 circular⟩

/-! ### Guest code that never ends -/

/-- Calls a native with two arguments, and then `next` with its result. -/
def stage (native : Native) (next : Template) : Template :=
  ⟨.linked 1, #[.args 2, .native native, .function next, .call (.fixed 1)]⟩

/-- Calls `next` with two values. -/
def pass (arity : Nat) (first second : Instruction) (next : Template) : Template :=
  ⟨.linked 1, #[.args arity, first, second, .function next, .call (.fixed 2)]⟩

def consNative : Native := ⟨"cons", .exact 2, .data .cons⟩

def setCdrNative : Native := ⟨"setcdr", .exact 2, .data .setCdr⟩

def linkNative : Native := ⟨"boxfn", .exact 1, .name .link⟩

/-- A variable of the frame so many frames out. -/
def variableAt (depth : Nat) : Instruction := .loadLocal ⟨depth, 0, none⟩

/-- Makes a pair, makes it its own second part, and calls a function with it as the list of its
arguments. -/
def looper : Closure :=
  let tie : Template := ⟨.linked 1, #[.args 2, .native setCdrNative, .function default,
    .call .spread]⟩
  ⟨1, pass 0 (.const .nil) (.const .nil) <| stage consNative <|
    pass 1 (variableAt 0) (variableAt 0) tie, []⟩

/-- Makes the listing `(code (FN))`, makes it the operand of its own instruction, and links it. -/
def nester : Closure :=
  let tie : Template := ⟨.linked 1, #[.args 2, .native setCdrNative, .pop, variableAt 3,
    .function ⟨.linked 1, #[.args 1, .native linkNative]⟩, .call (.fixed 1)]⟩
  ⟨1, pass 0 (.const (.symbol "FN")) (.const .nil) <| stage consNative <|
    pass 1 (variableAt 0) (.const .nil) <| stage consNative <|
    pass 1 (.const (.symbol "code")) (variableAt 0) <| stage consNative <|
    pass 1 (variableAt 0) (.const .nil) <| stage consNative <|
    pass 1 (variableAt 6) (variableAt 0) tie, []⟩

/-- One instruction of either never ends, so no quota bounds its slice. -/
theorem slices_without_end :
    slice 1 100 ((create {}).spawn looper).2 = none ∧
    slice 1 100 ((create {}).spawn nester).2 = none := by
  refine ⟨rfl, ?_⟩
  have none : (slice 1 100 ((create {}).spawn nester).2).isNone = true := by decide +kernel
  exact Option.isNone_iff_eq_none.1 none

end Engine

end ActorMachine
