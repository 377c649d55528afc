import ActorMachine.Engine.Burst
import ActorMachine.Proofs.Native.Actions
import ActorMachine.Proofs.Scheduler.Bystanders
import ActorMachine.Proofs.Scheduler.Mail
import ActorMachine.Proofs.Store.Spelling
import Mathlib.Logic.Relation

set_option autoImplicit false

/-!
What an instruction can do to a scheduler.

Guest code reaches the scheduler through natives, through `RECV` and by ending. `Effect` lists the
few ways in which it does so, and `advance_effects` says that an instruction is a sequence of them.
Whatever is proved of all guest code goes over these cases, and never over natives.
-/

namespace ActorMachine

namespace Scheduler

/-- What an instruction of the process `me` can do. `overwritten` is the pair that the instruction
overwrites the first part of, if it does; such an instruction sends nothing and ends nobody. -/
inductive Effect (me : ProcessId) (overwritten : Option Ref) : Scheduler → Scheduler → Prop where
  | memory {s} (memory : Memory) (kept : s.store.KeepsCars memory.store) :
      Effect me overwritten s { s with memory }
  | overwrite {s ref} (isThat : overwritten = some ref) (v : Value) :
      Effect me overwritten s (s.onStore fun store => ((), store.setCar ref v)).2
  | spawn {s} (f : Closure) : Effect me overwritten s (s.spawn f).2
  | link {s} (a b : ProcessId) : Effect me overwritten s (s.link a b).2
  | unlink {s} (peer : ProcessId) : Effect me overwritten s (s.unlink me peer)
  | trapExits {s} : Effect me overwritten s (s.update me fun p => { p with trapsExits := true })
  | send {s} (onlyThat : overwritten = none) (receiver : ProcessId) {message : Value}
      (held : s.store.Holds message) : Effect me overwritten s (s.send receiver message)
  | die {s} (onlyThat : overwritten = none) (pid : ProcessId) (reason : Value) :
      Effect me overwritten s (s.die pid reason)
  /-- The machine goes on. -/
  | carryOn {s p} {machine : Machine} (found : s.find? me = some p) (runs : p.status = .running)
      (goesOn : machine.status = .running) : Effect me overwritten s (s.put me { p with machine })
  /-- The process starts to wait. -/
  | wait {s p} {machine : Machine} (receivers : ReceiveTable) (found : s.find? me = some p)
      (runs : p.status = .running) (waits : machine.status = .waiting) :
      Effect me overwritten s (s.put me { p with machine, receivers })
  | addTimeout {s p} (deadline : Number) (entry : Template) (found : s.find? me = some p)
      (waits : p.status = .waiting) : Effect me overwritten s (s.addTimeout me deadline entry)
  /-- The process ends by itself. -/
  | halt {s p} (onlyThat : overwritten = none) (machine : Machine) (reason : Value)
      (found : s.find? me = some p) (runs : p.status = .running) :
      Effect me overwritten s ((s.put me { p with machine }).die me reason)

/-- A sequence of effects. -/
def Effects (me : ProcessId) (overwritten : Option Ref) : Scheduler → Scheduler → Prop :=
  Relation.ReflTransGen (Effect me overwritten)

/-- What a native of the process `me` can ask of the scheduler. -/
inductive Request (me : ProcessId) : Scheduler → Scheduler → Prop where
  | memory {s} (memory : Memory) (kept : s.store.KeepsCarsAndFrames memory.store) :
      Request me s { s with memory }
  | spawn {s} (f : Closure) : Request me s (s.spawn f).2
  | link {s} (a b : ProcessId) : Request me s (s.link a b).2
  | unlink {s} (peer : ProcessId) : Request me s (s.unlink me peer)
  | trapExits {s} : Request me s (s.update me fun p => { p with trapsExits := true })
  | send {s} (receiver : ProcessId) {message : Value} (held : s.store.Holds message) :
      Request me s (s.send receiver message)
  | die {s} (pid : ProcessId) (reason : Value) : Request me s (s.die pid reason)

/-- A sequence of requests. -/
def Requests (me : ProcessId) : Scheduler → Scheduler → Prop :=
  Relation.ReflTransGen (Request me)

theorem put_put (s : Scheduler) (pid : ProcessId) (p q : Process) :
    (s.put pid p).put pid q = s.put pid q := by
  simp [put, ProcessTable.put]

/-- What effects come to for the machines and the mail of processes. -/
inductive Disturbance (me : ProcessId) (s : Scheduler) : Scheduler → Prop where
  | undisturbed {after} (undisturbed : s.Undisturbed after) : Disturbance me s after
  | spawned (f : Closure) : Disturbance me s (s.spawn f).2
  | carriedOn {p} {machine : Machine} (found : s.find? me = some p) (runs : p.status = .running)
      (goesOn : machine.status = .running) : Disturbance me s (s.put me { p with machine })
  | waited {p} {machine : Machine} (receivers : ReceiveTable) (found : s.find? me = some p)
      (runs : p.status = .running) (waits : machine.status = .waiting) :
      Disturbance me s (s.put me { p with machine, receivers })

section Effect

variable {me : ProcessId} {overwritten : Option Ref} {s after : Scheduler}

theorem Effect.disturbance (effect : Effect me overwritten s after) : Disturbance me s after := by
  cases effect with
  | memory memory kept => exact .undisturbed (undisturbed_of_eq rfl rfl rfl)
  | overwrite isThat v => exact .undisturbed (undisturbed_of_eq rfl rfl rfl)
  | spawn f => exact .spawned f
  | link a b => exact .undisturbed (undisturbed_link s a b)
  | unlink peer => exact .undisturbed (undisturbed_unlink s me peer)
  | trapExits => exact .undisturbed (undisturbed_update me fun _ => rfl)
  | send onlyThat receiver held => exact .undisturbed (undisturbed_send held receiver)
  | die onlyThat pid reason => exact .undisturbed (undisturbed_die s pid reason)
  | carryOn found runs goesOn => exact .carriedOn found runs goesOn
  | wait receivers found runs waits => exact .waited receivers found runs waits
  | addTimeout deadline entry found waits =>
      exact .undisturbed (undisturbed_addTimeout found deadline entry)
  | halt onlyThat machine reason found runs =>
      exact .undisturbed (undisturbed_put_die found _ rfl rfl (List.suffix_refl _) reason)

/-- Effects keep the first parts of all pairs but the one that is overwritten. -/
theorem Effect.cars (effect : Effect me overwritten s after) :
    Store.KeepsCarsBut overwritten s.store after.store := by
  have same : s.store.KeepsCars s.store := .refl _
  cases effect with
  | memory memory kept => exact kept.but _
  | overwrite isThat v =>
      rw [isThat]
      exact s.store.keepsCarsBut_setCar _ v
  | spawn f => exact same.but _
  | link a b =>
      rw [link_eq]
      exact same.but _
  | unlink peer =>
      rw [unlink_eq]
      exact same.but _
  | trapExits =>
      rw [update_eq]
      exact same.but _
  | send onlyThat receiver held => exact same.but _
  | die onlyThat pid reason => exact (deathFrame_die s pid reason).grown.keepsCars.but _
  | carryOn found runs goesOn => exact same.but _
  | wait receivers found runs waits => exact same.but _
  | addTimeout deadline entry found waits =>
      rw [addTimeout_eq]
      exact same.but _
  | halt onlyThat machine reason found runs =>
      exact (deathFrame_die (s.put me _) me reason).grown.keepsCars.but _

theorem Request.effect (request : Request me s after) : Effect me none s after := by
  cases request with
  | memory memory kept => exact .memory memory kept.cars
  | spawn f => exact .spawn f
  | link a b => exact .link a b
  | unlink peer => exact .unlink peer
  | trapExits => exact .trapExits
  | send receiver held => exact .send rfl receiver held
  | die pid reason => exact .die rfl pid reason

theorem Requests.effects (requests : Requests me s after) : Effects me none s after :=
  Relation.ReflTransGen.mono (fun _ _ => Request.effect) _ _ requests

end Effect

/-- Frames are as they were, and so is the machine of every process that is still there. -/
structure Spares (before after : Scheduler) : Prop where
  frames_eq : after.store.frames = before.store.frames
  next_le : before.processes.nextPid ≤ after.processes.nextPid
  survivor : ∀ pid q, pid < before.processes.nextPid → after.find? pid = some q →
    ∃ p, before.find? pid = some p ∧ q.machine = p.machine

theorem Spares.refl (s : Scheduler) : Spares s s :=
  ⟨rfl, Nat.le_refl _, fun _ q _ found => ⟨q, found, rfl⟩⟩

theorem Spares.trans {first middle last : Scheduler} (left : Spares first middle)
    (right : Spares middle last) : Spares first last where
  frames_eq := right.frames_eq.trans left.frames_eq
  next_le := Nat.le_trans left.next_le right.next_le
  survivor := by
    intro pid q old found
    obtain ⟨r, foundMiddle, rightEq⟩ :=
      right.survivor pid q (Nat.lt_of_lt_of_le old left.next_le) found
    obtain ⟨p, foundFirst, leftEq⟩ := left.survivor pid r old foundMiddle
    exact ⟨p, foundFirst, rightEq.trans leftEq⟩

theorem Undisturbed.spares {before after : Scheduler} (undisturbed : before.Undisturbed after)
    (same : after.store.frames = before.store.frames) : Spares before after where
  frames_eq := same
  next_le := Nat.le_of_eq undisturbed.nextPid_eq.symm
  survivor := by
    intro pid q _ found
    obtain ⟨p, foundBefore, isThat⟩ := undisturbed.survivor pid q found
    exact ⟨p, foundBefore, by rw [isThat]⟩

/-- A change outside the table of processes that keeps frames. -/
theorem spares_of_eq {before after : Scheduler} (sameProcesses : after.processes = before.processes)
    (same : after.store.frames = before.store.frames) : Spares before after where
  frames_eq := same
  next_le := Nat.le_of_eq (congrArg ProcessTable.nextPid sameProcesses).symm
  survivor := by
    intro pid q _ found
    refine ⟨q, ?_, rfl⟩
    rw [← found]
    simp only [find?, sameProcesses]

theorem spares_spawn (s : Scheduler) (f : Closure) : Spares s (s.spawn f).2 where
  frames_eq := rfl
  next_le := by
    rw [show (s.spawn f).2.processes.nextPid = s.processes.nextPid + 1 from
      ProcessTable.nextPid_add _ _]
    exact Nat.le_succ _
  survivor := by
    intro pid q old found
    rcases find?_spawn_cases found with ⟨isNew, _⟩ | ⟨_, foundBefore⟩
    · exact absurd isNew (Nat.ne_of_lt old)
    · exact ⟨q, foundBefore, rfl⟩

theorem spares_update {s : Scheduler} (pid : ProcessId) {f : Process → Process}
    (same : ∀ p, (f p).machine = p.machine) : Spares s (s.update pid f) where
  frames_eq := by
    rw [update_eq]
    rfl
  next_le := by
    unfold update
    split
    · exact Nat.le_of_eq (ProcessTable.nextPid_put _ _ _).symm
    · exact Nat.le_refl _
  survivor := by
    intro other q _ found
    rw [find?_update] at found
    by_cases isThat : pid = other
    · rw [if_pos isThat, Option.map_eq_some_iff] at found
      obtain ⟨p, foundBefore, rfl⟩ := found
      exact ⟨p, foundBefore, same p⟩
    · rw [if_neg isThat] at found
      exact ⟨q, found, rfl⟩

theorem Request.spares {me : ProcessId} {s after : Scheduler} (request : Request me s after) :
    Spares s after := by
  cases request with
  | memory memory kept => exact spares_of_eq rfl kept.frames_eq
  | spawn f => exact spares_spawn s f
  | link a b => exact (undisturbed_link s a b).spares (by rw [link_eq]; rfl)
  | unlink peer => exact (undisturbed_unlink s me peer).spares (by rw [unlink_eq]; rfl)
  | trapExits => exact spares_update me fun _ => rfl
  | send receiver held => exact spares_of_eq rfl rfl
  | die pid reason =>
      exact (undisturbed_die s pid reason).spares (deathFrame_die s pid reason).grown.frames_eq

theorem Requests.spares {me : ProcessId} {s after : Scheduler} (requests : Requests me s after) :
    Spares s after := by
  induction requests with
  | refl => exact .refl s
  | tail _ last ih => exact ih.trans last.spares

end Scheduler

open Argument Scheduler

/-! ### Natives -/

/-- A native on the engine changes the scheduler by requests, and executes no instructions. -/
structure Engine.Affected (me : ProcessId) (before after : Engine) : Prop where
  requests : Requests me before.scheduler after.scheduler
  cycles_eq : after.cycles = before.cycles

theorem Engine.Affected.refl (me : ProcessId) (engine : Engine) : Affected me engine engine :=
  ⟨.refl, rfl⟩

instance (me : ProcessId) : IsPreorder Engine (Engine.Affected me) where
  refl := .refl me
  trans := fun _ _ _ left right =>
    ⟨left.requests.trans right.requests, right.cycles_eq.trans left.cycles_eq⟩

namespace EngineM

variable {α : Type} {me : ProcessId}

theorem keeps_onScheduler {f : Scheduler → α × Scheduler} (asks : ∀ s, Request me s (f s).2) :
    Keeps (Engine.Affected me) (onScheduler f) :=
  fun engine => ⟨.single (asks engine.scheduler), rfl⟩

theorem keeps_changeScheduler {f : Scheduler → Scheduler} (asks : ∀ s, Request me s (f s)) :
    Keeps (Engine.Affected me) (changeScheduler f) :=
  keeps_onScheduler asks

theorem keeps_onStore {act : Action Store α} (kept : Keeps Store.KeepsCarsAndFrames act) :
    Keeps (Engine.Affected me) (onStore act) :=
  fun engine => ⟨.single (.memory _ (kept engine.store)), rfl⟩

theorem keeps_alloc {f : Store → α × Store} (grown : ∀ store : Store, store.Grows (f store).2) :
    Keeps (Engine.Affected me) (onScheduler (Scheduler.onStore f)) :=
  keeps_onScheduler fun s => .memory _ (grown s.store).keepsCarsAndFrames

theorem keeps_onGlobals (f : Globals → α × Globals) :
    Keeps (Engine.Affected me) (onGlobals f) :=
  keeps_onScheduler fun _ => .memory _ ⟨.refl _, rfl⟩

/-- What is not in the scheduler may change, but for the count of instructions. -/
theorem keeps_modify {f : Engine → Engine}
    (same : ∀ engine, (f engine).scheduler = engine.scheduler)
    (sameCycles : ∀ engine, (f engine).cycles = engine.cycles) :
    Keeps (Engine.Affected me) (modify f : EngineM PUnit) := by
  intro engine
  refine ⟨?_, sameCycles engine⟩
  change Requests me engine.scheduler (f engine).scheduler
  rw [same]
  exact .refl

theorem keeps_changeHost (f : Host → Host) : Keeps (Engine.Affected me) (changeHost f) :=
  fun _ => ⟨.refl, rfl⟩

theorem keeps_elements (v : Value) : Keeps (Engine.Affected me) (elements v) :=
  keeps_get.bind fun _ => keeps_ofOutcome _

end EngineM

open EngineM

variable {me : ProcessId}

theorem NameOp.keeps_run (op : NameOp) (args : List Value) :
    Keeps (Engine.Affected me) (op.run args) := by
  unfold run
  split
  · exact (keeps_ofOutcome _).bind fun _ => keeps_onGlobals _
  · exact (keeps_ofOutcome _).bind fun _ => keeps_onGlobals _
  · exact (keeps_ofOutcome _).bind fun _ =>
      (keeps_modify (fun _ => by rfl) fun _ => by rfl).bind fun _ => keeps_pure _
  · exact (keeps_ofOutcome _).bind fun _ =>
      (keeps_modify (fun _ => by rfl) fun _ => by rfl).bind fun _ => keeps_pure _
  · exact (keeps_ofOutcome _).bind fun _ => keeps_get.bind fun _ => keeps_pure _
  · refine (keeps_ofOutcome _).bind fun name => keeps_get.bind fun engine => ?_
    cases engine.global? name with
    | some x => exact keeps_pure _
    | none => exact keeps_refuse _
  · exact keeps_get.bind fun _ => keeps_alloc fun store => store.grows_list _
  · refine Keeps.bind ?_ fun _ => keeps_pure _
    exact fun engine =>
      ⟨.single (.memory _ ⟨Store.keepsCars_of_pairs_eq rfl, rfl⟩), rfl⟩
  · exact keeps_missing _ _

theorem ProcessOp.keeps_linkTo (a b : ProcessId) :
    Keeps (Engine.Affected me) (ProcessOp.run.linkTo a b) := by
  refine Keeps.bind (keeps_onScheduler fun s => .link a b) fun linked => ?_
  cases linked with
  | ok _ => exact keeps_pure _
  | error cause => exact keeps_refuse _

/-- What is sent is a pair with a symbol in front, so it is one that the store has. -/
theorem Store.holds_of_tagged {store : Store} {ref : Ref} {name : String}
    (tagged : store.carAt ref = .symbol name) : store.Holds (.pair ref) := by
  intro other same
  cases same
  apply Classical.byContradiction
  intro outside
  rw [Store.carAt, Store.pairAt, Array.getD_eq_getD_getElem?,
    Array.getElem?_eq_none (Nat.le_of_not_lt outside)] at tagged
  cases tagged

theorem Argument.eq_pair_of_ok {who : String} {v : Value} {ref : Ref}
    (taken : pair who v = .ok ref) : v = .pair ref := by
  cases v with
  | pair other =>
      cases taken
      rfl
  | _ => cases taken

theorem ProcessOp.keeps_send (v message : Value) :
    Keeps (Engine.Affected me) (ProcessOp.run .send me [v, message]) := by
  refine (keeps_ofOutcome _).bind fun receiver => keeps_ofOutcome_bind fun ref taken => ?_
  rw [eq_pair_of_ok taken]
  refine keeps_get_bind fun engine => ?_
  cases tagged : engine.store.carAt ref with
  | symbol name => exact ⟨.single (.send receiver (Store.holds_of_tagged tagged)), rfl⟩
  | _ => exact .refl me engine

theorem ProcessOp.keeps_run (op : ProcessOp) (args : List Value) :
    Keeps (Engine.Affected me) (op.run me args) := by
  unfold run
  split
  · refine (keeps_ofOutcome _).bind fun pid => keeps_get.bind fun engine => ?_
    cases engine.find? pid with
    | none => exact keeps_refuse _
    | some p => exact keeps_alloc (p.machine.allocates_snapshot pid)
  · exact (keeps_ofOutcome _).bind fun f =>
      (keeps_onScheduler fun s => .spawn f).bind fun _ => keeps_pure _
  · exact (keeps_ofOutcome _).bind fun f =>
      (keeps_onScheduler fun s => .spawn f).bind fun child =>
        (keeps_linkTo child me).bind fun _ => keeps_pure _
  · exact (keeps_ofOutcome _).bind fun peer => (keeps_linkTo me peer).bind fun _ => keeps_pure _
  · exact (keeps_ofOutcome _).bind fun peer =>
      (keeps_changeScheduler fun s => .unlink peer).bind fun _ => keeps_pure _
  · exact (keeps_changeScheduler fun s => .trapExits).bind fun _ => keeps_pure _
  · exact keeps_send _ _
  · exact keeps_pure _
  · exact keeps_get.bind fun _ => keeps_alloc fun store => store.grows_list _
  · exact (keeps_ofOutcome _).bind fun pid =>
      (keeps_changeScheduler fun s => .die pid _).bind fun _ => keeps_pure _
  · exact keeps_get.bind fun _ => keeps_pure _
  · exact keeps_missing _ _

theorem keeps_requestResource (method resource : Value) (body : Option Value) :
    Keeps (Engine.Affected me) (requestResource me method resource body) := by
  refine (keeps_ofOutcome _).bind fun method => (keeps_elements _).bind fun parts => ?_
  split
  · refine (keeps_ofOutcome _).bind fun node => (keeps_ofOutcome _).bind fun part =>
      (keeps_ofOutcome _).bind fun request => keeps_get.bind fun engine => ?_
    cases engine.host.resource me node request with
    | error cause => exact keeps_refuse _
    | ok served =>
        obtain ⟨answer, host⟩ := served
        refine (keeps_modify (fun _ => by rfl) fun _ => by rfl).bind fun _ => ?_
        cases answer with
        | some text => exact keeps_pure _
        | none => exact keeps_pure _
  · exact keeps_refuse _

theorem HostOp.keeps_run (op : HostOp) (args : List Value) :
    Keeps (Engine.Affected me) (op.run me args) := by
  unfold run
  split
  · exact (keeps_ofOutcome _).bind fun _ => (keeps_changeHost _).bind fun _ => keeps_pure _
  · exact keeps_get.bind fun _ => keeps_pure _
  · exact keeps_get.bind fun _ =>
      (keeps_modify (fun _ => by rfl) fun _ => by rfl).bind fun _ => keeps_pure _
  · exact (keeps_ofOutcome _).bind fun _ => (keeps_ofOutcome _).bind fun _ =>
      (keeps_elements _).bind fun _ => (keeps_ofOutcome _).bind fun _ =>
        (keeps_changeHost _).bind fun _ => keeps_pure _
  · refine (keeps_elements _).bind fun parts => ?_
    split
    · exact keeps_requestResource _ _ _
    · exact keeps_requestResource _ _ _
    · exact keeps_refuse _
  · exact (keeps_ofOutcome _).bind fun _ => (keeps_changeHost _).bind fun _ => keeps_pure _
  · exact keeps_missing _ _

theorem HostAction.keeps_run (action : HostAction) : Keeps (Engine.Affected me) action.run := by
  induction action with
  | done result =>
      cases result with
      | ok v => exact keeps_pure v
      | error cause => exact keeps_refuse cause
  | look next ih => exact keeps_get.bind fun _ => ih _ _ _
  | changeHost f next ih => exact (keeps_changeHost f).bind fun _ => ih
  | list items next ih =>
      exact (keeps_alloc fun store => store.grows_list items).bind fun v => ih v
  | define name v next ih => exact (keeps_onGlobals _).bind fun _ => ih
  | spawn f next ih => exact (keeps_onScheduler fun _ => .spawn f).bind fun pid => ih pid
  | send receiver message next ih =>
      refine Keeps.bind ?_ fun _ => ih
      intro engine
      refine ⟨?_, rfl⟩
      change Requests me engine.scheduler (if engine.scheduler.store.isHeld message = true
        then engine.scheduler.send receiver message else engine.scheduler)
      split
      · rename_i isHeld
        exact .single (.send receiver ((Store.isHeld_iff _ _).1 isHeld))
      · exact .refl

theorem keeps_callRegistered (index : Nat) (args : List Value) :
    Keeps (Engine.Affected me) (callRegistered index me args) := by
  refine keeps_get.bind fun engine => ?_
  split
  · exact HostAction.keeps_run _
  · exact keeps_missing _ _

/-- The pair that a native overwrites the first part of. -/
def Native.overwrites? (native : Native) (args : List Value) : Option Ref :=
  if args.length = native.arity.frameLength then
    match native.operation with
    | .data op => op.overwrites? args
    | _ => none
  else none

theorem Operation.keeps_run {operation : Operation} {args : List Value}
    (harmless : ∀ op, operation = .data op → op.overwrites? args = none) :
    Keeps (Engine.Affected me) (operation.run me args) := by
  unfold run
  split
  · exact (keeps_ofOutcome _).bind fun _ => (keeps_ofOutcome _).bind fun _ => keeps_pure _
  · exact (keeps_ofOutcome _).bind fun _ => (keeps_ofOutcome _).bind fun _ => keeps_pure _
  · exact keeps_pure _
  · exact keeps_pure _
  · exact keeps_onStore (DataOp.keeps_run (harmless _ rfl))
  · exact NameOp.keeps_run _ _
  · exact ProcessOp.keeps_run _ _
  · exact HostOp.keeps_run _ _
  · exact (keeps_ofOutcome _).bind fun _ => (keeps_changeHost _).bind fun _ => keeps_pure _
  · exact keeps_callRegistered _ _
  · exact keeps_missing _ _

/-- Natives change the scheduler only by requests. -/
theorem Native.keeps_call {native : Native} {args : List Value}
    (harmless : native.overwrites? args = none) :
    Keeps (Engine.Affected me) (native.call me args) := by
  unfold call
  unfold overwrites? at harmless
  by_cases fits : args.length = native.arity.frameLength
  · rw [if_pos fits] at harmless ⊢
    apply Operation.keeps_run
    intro op isData
    rw [isData] at harmless
    exact harmless
  · rw [if_neg fits]
    exact keeps_refuse _

/-- The native that overwrites the first part of a pair does nothing else, and succeeds. -/
theorem Native.call_of_overwrites {native : Native} {args : List Value} {ref : Ref}
    (overwrites : native.overwrites? args = some ref) (engine : Engine) :
    ∃ v, (native.call me args).run engine =
      (.ok v, engine.mapScheduler fun s =>
        (s.onStore fun store => ((), store.setCar ref v)).2) := by
  unfold overwrites? at overwrites
  unfold call
  by_cases fits : args.length = native.arity.frameLength
  · rw [if_pos fits] at overwrites ⊢
    cases operation : native.operation with
    | data op =>
        rw [operation] at overwrites
        change op.overwrites? args = some ref at overwrites
        unfold DataOp.overwrites? at overwrites
        split at overwrites
        · cases overwrites
          exact ⟨_, rfl⟩
        · cases overwrites
    | _ =>
        rw [operation] at overwrites
        cases overwrites
  · rw [if_neg fits] at overwrites
    cases overwrites

/-- Whatever a native does, it spares machines and frames, and executes no instructions. -/
theorem Native.spares_call (native : Native) (me : ProcessId) (args : List Value)
    (engine : Engine) :
    Spares engine.scheduler ((native.call me args).run engine).2.scheduler ∧
      ((native.call me args).run engine).2.cycles = engine.cycles := by
  cases overwrites : native.overwrites? args with
  | none =>
      have affected : Engine.Affected me engine _ := Native.keeps_call overwrites engine
      exact ⟨affected.requests.spares, affected.cycles_eq⟩
  | some ref =>
      obtain ⟨v, called⟩ := Native.call_of_overwrites overwrites engine
      rw [called]
      exact ⟨spares_of_eq rfl rfl, rfl⟩

/-! ### Instructions -/

namespace Engine

/-- The engine that an instruction of a slice leaves. -/
def Progress.engine? : Progress → Option Engine
  | .more engine => some engine
  | .over engine => some engine
  | .endless => none

/-- The pair that the next instruction of a process overwrites the first part of. -/
def overwrites? (engine : Engine) (pid : ProcessId) : Option Ref :=
  match engine.find? pid with
  | none => none
  | some p =>
      match (p.machine.step engine.scheduler.memory).stop with
      | some (.native native args) => native.overwrites? args
      | _ => none

/-- The scheduler after the machine of a process carried out an instruction. -/
def stepped (s : Scheduler) (pid : ProcessId) (p : Process) : Scheduler :=
  let execution := p.machine.step s.memory
  { s with memory := execution.memory }.put pid { p with machine := execution.machine }

theorem stepMachine_eq (engine : Engine) (pid : ProcessId) (p : Process) :
    engine.stepMachine pid p =
      ((p.machine.step engine.scheduler.memory).stop,
        { engine with
          scheduler := stepped engine.scheduler pid p
          cycles := engine.cycles + 1 }) := rfl

section Step

variable {s : Scheduler} {pid : ProcessId} {p : Process} {overwritten : Option Ref}

theorem effect_memory_step (s : Scheduler) (pid : ProcessId) (p : Process)
    (overwritten : Option Ref) :
    Effect pid overwritten s { s with memory := (p.machine.step s.memory).memory } :=
  .memory _ (p.machine.follows_step s.memory).kept.cars

/-- The status after an instruction of a running process. -/
theorem status_step (runs : p.status = .running) {stop : Option Stop}
    (stopped : (p.machine.step s.memory).stop = stop) :
    (p.machine.step s.memory).machine.status = Stop.statusFrom .running stop := by
  have status := (p.machine.follows_step s.memory).status_eq
  rw [stopped] at status
  rw [status]
  exact congrArg (Stop.statusFrom · stop) runs

theorem find?_stepped (found : s.find? pid = some p) :
    (stepped s pid p).find? pid =
      some { p with machine := (p.machine.step s.memory).machine } :=
  find?_put_self found _

theorem effects_stepped (found : s.find? pid = some p) (runs : p.status = .running)
    (goesOn : (p.machine.step s.memory).machine.status = .running) :
    Effects pid overwritten s (stepped s pid p) :=
  (Relation.ReflTransGen.single (effect_memory_step s pid p overwritten)).tail
    (.carryOn found runs goesOn)

/-- A process that starts to wait gets its receive table, and a timer if the table has a timeout. -/
theorem effects_install {engine : Engine} (found : s.find? pid = some p)
    (runs : p.status = .running)
    (waits : (p.machine.step s.memory).machine.status = .waiting) (table : ReceiveTable)
    (isStepped : engine.scheduler = stepped s pid p) :
    Effects pid overwritten s (engine.install pid table).scheduler := by
  have updated : (stepped s pid p).update pid (fun q => { q with receivers := table }) =
      { s with memory := (p.machine.step s.memory).memory }.put pid { p with
        machine := (p.machine.step s.memory).machine
        receivers := table } := by
    unfold update
    rw [find?_stepped found]
    exact put_put _ _ _ _
  have waiting : Effects pid overwritten s
      ((stepped s pid p).update pid fun q => { q with receivers := table }) := by
    rw [updated]
    exact (Relation.ReflTransGen.single (effect_memory_step s pid p overwritten)).tail
      (.wait table found runs waits)
  unfold install mapScheduler
  rw [isStepped]
  dsimp only
  cases table.timeout with
  | none => exact waiting
  | some timeout =>
      have ready : ((stepped s pid p).update pid fun q => { q with receivers := table }).find? pid =
          some { p with
            machine := (p.machine.step s.memory).machine
            receivers := table } := by
        rw [updated]
        exact find?_put_self found _
      exact waiting.tail (.addTimeout _ _ ready waits)

end Step

/-- A process that starts to wait keeps its machine while its table is put in place. -/
theorem spares_install (engine : Engine) (pid : ProcessId) (table : ReceiveTable) :
    Spares engine.scheduler (engine.install pid table).scheduler := by
  let listening := engine.scheduler.update pid fun p => { p with receivers := table }
  have updated : Spares engine.scheduler listening := spares_update pid fun _ => rfl
  unfold install mapScheduler
  dsimp only
  cases table.timeout with
  | none => exact updated
  | some timeout =>
      change Spares _ (listening.addTimeout pid _ _)
      cases found : listening.find? pid with
      | none =>
          unfold addTimeout
          rw [found]
          exact updated
      | some p =>
          refine updated.trans ((undisturbed_addTimeout found _ _).spares ?_)
          rw [addTimeout_eq]
          rfl

/-- A native and what becomes of its result. -/
theorem callFor_effects {engine after : Engine} {pid : ProcessId} {native : Native}
    {args : List Value} (moved : (engine.callFor pid native args).engine? = some after) :
    Effects pid (native.overwrites? args) engine.scheduler after.scheduler := by
  have affects : Effects pid (native.overwrites? args) engine.scheduler
      ((native.call pid args).run engine).2.scheduler := by
    cases overwrites : native.overwrites? args with
    | none => exact (Native.keeps_call overwrites engine).requests.effects
    | some ref =>
        obtain ⟨v, called⟩ := Native.call_of_overwrites overwrites engine
        rw [called]
        exact .single (.overwrite rfl v)
  unfold callFor at moved
  cases called : (native.call pid args).run engine with
  | mk outcome middle =>
      rw [called] at moved affects
      cases outcome with
      | ok v =>
          dsimp only at moved
          cases found : middle.find? pid with
          | none =>
              rw [found] at moved
              cases moved
              exact affects
          | some p =>
              rw [found] at moved
              dsimp only at moved
              by_cases runs : p.status = .running
              · rw [if_pos runs] at moved
                cases moved
                exact affects.tail (.carryOn found runs runs)
              · rw [if_neg runs] at moved
                cases moved
                exact affects
      | error failure =>
          cases failure with
          | fault cause =>
              cases moved
              have quiet : native.overwrites? args = none := by
                cases overwrites : native.overwrites? args with
                | none => rfl
                | some ref =>
                    obtain ⟨v, succeeds⟩ := Native.call_of_overwrites overwrites engine
                    rw [called] at succeeds
                    cases succeeds
              exact affects.tail (.die quiet pid _)
          | endless => cases moved

/-- Every instruction of a slice changes the scheduler by effects. -/
theorem advance_effects {engine after : Engine} {pid : ProcessId}
    (moved : (engine.advance pid).engine? = some after) :
    Effects pid (engine.overwrites? pid) engine.scheduler after.scheduler := by
  unfold advance at moved
  unfold overwrites?
  cases found : engine.find? pid with
  | none =>
      rw [found] at moved
      cases moved
      exact .refl
  | some p =>
      rw [found] at moved
      dsimp only at moved ⊢
      by_cases runs : p.status = .running
      · rw [if_pos runs, stepMachine_eq] at moved
        cases stopped : (p.machine.step engine.scheduler.memory).stop with
        | none =>
            rw [stopped] at moved
            cases moved
            exact effects_stepped found runs (status_step runs stopped)
        | some stop =>
            rw [stopped] at moved
            cases stop with
            | fault cause =>
                cases moved
                exact (effects_stepped found runs (status_step runs stopped)).tail
                  (.die rfl pid _)
            | endless => cases moved
            | halt reason =>
                cases moved
                exact (Relation.ReflTransGen.single (effect_memory_step _ pid p none)).tail
                  (.halt rfl _ reason found runs)
            | receive table =>
                cases moved
                exact effects_install found runs (status_step runs stopped) table rfl
            | native native args =>
                exact (effects_stepped found runs (status_step runs stopped)).trans
                  (callFor_effects moved)
      · rw [if_neg runs] at moved
        cases moved
        exact .refl

end Engine

end ActorMachine
