import ActorMachine.Engine.Load
import ActorMachine.Proofs.Engine.Effects

set_option autoImplicit false

/-!
The states of an engine.

An engine is reached step by step: the host prepares code, makes processes and sends messages,
timers fire, messages are delivered, and processes run slices of instructions. The steps are smaller
than the turns of a burst, so that states within a slice are told apart from those between two turns
by the process that runs. Turns, bursts and the calls of the host are made of these steps, and an
invariant of schedulers is proved step by step, in `Reachable.invariant`.
-/

namespace ActorMachine

/-- What can happen to a scheduler apart from instructions, between turns or, with the process whose
slice it is, within one. -/
inductive Scheduler.Move :
    Option ProcessId → Scheduler → Option ProcessId → Scheduler → Prop where
  /-- The host loads code and data, and defines globals. -/
  | memory {s} (memory : Memory) (kept : s.store.KeepsCars memory.store) :
      Move none s none { s with memory }
  | spawn {s} (f : Closure) : Move none s none (s.spawn f).2
  | send {s} (receiver : ProcessId) {message : Value} (held : s.store.Holds message) :
      Move none s none (s.send receiver message)
  /-- Cancelled timers are thrown away. -/
  | prune {s} : Move none s none s.prune
  | fire {s rest after now timer} (due : s.popDue? now = (some timer, rest))
      (expired : rest.expire timer = some after) : Move none s none after
  | deliver {s rest after pid message} (popped : s.popTask? = some (.deliver pid message, rest))
      (delivered : rest.deliver pid message = some after) : Move none s none after
  /-- A slice of a dead process. -/
  | skip {s rest pid} (popped : s.popTask? = some (.run pid, rest))
      (dead : rest.isLive pid = false) : Move none s none rest
  | beginSlice {s rest pid} (popped : s.popTask? = some (.run pid, rest))
      (live : rest.isLive pid = true) : Move none s (some pid) (rest.beginSlice pid)
  | endSlice {s after pid} (ended : s.endSlice pid = some after) : Move (some pid) s none after

namespace Engine

open Scheduler

/-- The engines that are reached between two turns or, with the process whose slice it is, within
one. Guest code overwrites the first parts of pairs only as `mayOverwrite` allows. -/
inductive Reachable (mayOverwrite : Scheduler → Ref → Prop) : Option ProcessId → Engine → Prop where
  | create (config : Config) : Reachable mayOverwrite none (create config)
  /-- The clock, the configuration and all else outside the scheduler change. -/
  | outside {phase engine after} : Reachable mayOverwrite phase engine →
      after.scheduler = engine.scheduler → Reachable mayOverwrite phase after
  | move {phase engine phase' s} : Reachable mayOverwrite phase engine →
      Move phase engine.scheduler phase' s →
      Reachable mayOverwrite phase' { engine with scheduler := s }
  | instruction {pid engine after} : Reachable mayOverwrite (some pid) engine →
      (∀ ref, engine.overwrites? pid = some ref → mayOverwrite engine.scheduler ref) →
      (engine.advance pid).engine? = some after → Reachable mayOverwrite (some pid) after

/-- Guest code may overwrite any pair. -/
def AnyPair (_ : Scheduler) (_ : Ref) : Prop := True

/-- Guest code overwrites no pair that was sent as a message. -/
def UnsentPair (s : Scheduler) (ref : Ref) : Prop := ∀ pid, .sent pid (.pair ref) ∉ s.journal

/-- What holds at first and is kept by every move and every effect holds in every engine that is
reached. -/
theorem Reachable.invariant {mayOverwrite : Scheduler → Ref → Prop} {phase : Option ProcessId}
    {engine : Engine} (reachable : Reachable mayOverwrite phase engine)
    (holds : Option ProcessId → Scheduler → Prop) (first : holds none { memory := initialMemory })
    (move : ∀ {phase phase' s after}, Move phase s phase' after → holds phase s →
      holds phase' after)
    (effect : ∀ {pid overwritten s after},
      (∀ ref, overwritten = some ref → mayOverwrite s ref) → Effect pid overwritten s after →
      holds (some pid) s → holds (some pid) after)
    (stable : ∀ {pid ref s after}, Effect pid (some ref) s after → mayOverwrite s ref →
      mayOverwrite after ref) :
    holds phase engine.scheduler := by
  induction reachable with
  | create config => exact first
  | outside _ same ih =>
      rw [same]
      exact ih
  | move _ moved ih => exact move moved ih
  | @instruction pid engine after _ may moved ih =>
      have along : ∀ {s}, Effects pid (engine.overwrites? pid) engine.scheduler s →
          (∀ ref, engine.overwrites? pid = some ref → mayOverwrite s ref) ∧
            holds (some pid) s := by
        intro s effects
        induction effects with
        | refl => exact ⟨may, ih⟩
        | tail _ last so =>
            refine ⟨?_, effect so.1 last so.2⟩
            intro ref isThat
            rw [isThat] at last
            exact stable last (so.1 ref isThat)
      exact (along (advance_effects moved)).2

/-! ### Turns -/

/-- What a turn of a burst does. Where no timer is due, cancelled timers are thrown away first. -/
inductive Turned (engine : Engine) : Engine → Prop where
  | fired {timer rest s} (due : engine.scheduler.popDue? engine.host.clock = (some timer, rest))
      (expired : rest.expire timer = some s) : Turned engine { engine with scheduler := s }
  | delivered {pid message rest s}
      (notDue : (engine.scheduler.popDue? engine.host.clock).1 = none)
      (popped : engine.scheduler.prune.popTask? = some (.deliver pid message, rest))
      (delivered : rest.deliver pid message = some s) : Turned engine { engine with scheduler := s }
  | skipped {pid rest} (notDue : (engine.scheduler.popDue? engine.host.clock).1 = none)
      (popped : engine.scheduler.prune.popTask? = some (.run pid, rest))
      (dead : rest.isLive pid = false) : Turned engine { engine with scheduler := rest }
  | sliced {pid rest middle s} (notDue : (engine.scheduler.popDue? engine.host.clock).1 = none)
      (popped : engine.scheduler.prune.popTask? = some (.run pid, rest))
      (live : rest.isLive pid = true)
      (sliced : slice pid engine.config.quota { engine with scheduler := rest.beginSlice pid } =
        some middle)
      (ended : middle.scheduler.endSlice pid = some s) :
      Turned engine { middle with scheduler := s }

theorem tryScheduler_eq_some {engine after : Engine} {f : Scheduler → Option Scheduler}
    (changed : engine.tryScheduler f = some after) :
    ∃ s, f engine.scheduler = some s ∧ after = { engine with scheduler := s } := by
  unfold tryScheduler at changed
  cases result : f engine.scheduler with
  | none =>
      simp only [result] at changed
      cases changed
  | some s =>
      simp only [result] at changed
      cases changed
      exact ⟨s, rfl, rfl⟩

theorem Turn.ofOption_eq_next {result : Option Engine} {after : Engine}
    (next : Turn.ofOption result = .next after) : result = some after := by
  cases result with
  | none => cases next
  | some engine =>
      cases next
      rfl

theorem turn_turned {engine after : Engine} (next : engine.turn = .next after) :
    engine.Turned after := by
  unfold turn at next
  split at next
  · rename_i due
    obtain ⟨s, expired, rfl⟩ := tryScheduler_eq_some (Turn.ofOption_eq_next next)
    exact .fired due expired
  · rename_i isNone
    have notDue : (engine.scheduler.popDue? engine.host.clock).1 = none := by rw [isNone]
    rw [(popDue?_none isNone).1] at next
    cases popped : engine.scheduler.prune.popTask? with
    | none =>
        rw [popped] at next
        cases next
    | some result =>
        obtain ⟨task, rest⟩ := result
        rw [popped] at next
        cases task with
        | deliver pid message =>
            obtain ⟨s, delivered, rfl⟩ := tryScheduler_eq_some (Turn.ofOption_eq_next next)
            exact .delivered notDue popped delivered
        | run pid =>
            have executed := Turn.ofOption_eq_next next
            unfold execute at executed
            cases live : rest.isLive pid with
            | false =>
                simp only [live, Bool.false_eq_true, if_false] at executed
                cases executed
                exact .skipped notDue popped live
            | true =>
                simp only [live, if_true] at executed
                cases sliced : slice pid engine.config.quota
                    { engine with scheduler := rest.beginSlice pid } with
                | none =>
                    simp only [mapScheduler, sliced] at executed
                    cases executed
                | some middle =>
                    simp only [mapScheduler, sliced] at executed
                    obtain ⟨s, ended, rfl⟩ := tryScheduler_eq_some executed
                    exact .sliced notDue popped live sliced ended

theorem Turn.ofOption_ne_idle (result : Option Engine) (after : Engine) :
    Turn.ofOption result ≠ .idle after := by
  cases result with
  | none => exact fun impossible => by cases impossible
  | some engine => exact fun impossible => by cases impossible

/-- A turn with nothing to do only throws away cancelled timers. -/
theorem eq_of_turn_idle {engine after : Engine} (idle : engine.turn = .idle after) :
    after = { engine with scheduler := engine.scheduler.prune } := by
  unfold turn at idle
  split at idle
  · exact absurd idle (Turn.ofOption_ne_idle _ _)
  · rename_i notDue
    rw [(popDue?_none notDue).1] at idle
    split at idle
    · cases idle
      rfl
    · exact absurd idle (Turn.ofOption_ne_idle _ _)
    · exact absurd idle (Turn.ofOption_ne_idle _ _)

/-- A property of engines, between turns and within slices, that every step keeps. -/
structure Kept (holds : Option ProcessId → Engine → Prop) : Prop where
  outside : ∀ {phase engine after}, holds phase engine → after.scheduler = engine.scheduler →
    holds phase after
  move : ∀ {phase engine phase' s}, holds phase engine → Move phase engine.scheduler phase' s →
    holds phase' { engine with scheduler := s }
  instruction : ∀ {pid engine after}, holds (some pid) engine →
    (engine.advance pid).engine? = some after → holds (some pid) after

theorem kept_reachable : Kept (Reachable AnyPair) where
  outside := .outside
  move := .move
  instruction := fun reachable moved => reachable.instruction (fun _ _ => trivial) moved

/-- A property of schedulers is kept when every move and every effect keeps it. -/
theorem kept_of_scheduler {holds : Option ProcessId → Scheduler → Prop}
    (move : ∀ {phase phase' s after}, Move phase s phase' after → holds phase s →
      holds phase' after)
    (effect : ∀ {pid overwritten s after}, Effect pid overwritten s after →
      holds (some pid) s → holds (some pid) after) :
    Kept fun phase engine => holds phase engine.scheduler where
  outside := by
    intro phase engine after held same
    rw [same]
    exact held
  move := fun held moved => move moved held
  instruction := by
    intro pid engine after held moved
    have along : ∀ {s}, Effects pid (engine.overwrites? pid) engine.scheduler s →
        holds (some pid) s := by
      intro s effects
      induction effects with
      | refl => exact held
      | tail _ last ih => exact effect last ih
    exact along (advance_effects moved)

/-- A slice changes the scheduler by effects of its process. -/
theorem slice_effects {pid : ProcessId} {quota : Nat} {engine after : Engine}
    (sliced : slice pid quota engine = some after) :
    Relation.ReflTransGen (fun s next => ∃ overwritten, Effect pid overwritten s next)
      engine.scheduler after.scheduler := by
  have widen : ∀ {overwritten s next}, Effects pid overwritten s next →
      Relation.ReflTransGen (fun s next => ∃ overwritten, Effect pid overwritten s next) s next :=
    fun effects => Relation.ReflTransGen.mono (fun _ _ effect => ⟨_, effect⟩) _ _ effects
  induction quota generalizing engine with
  | zero =>
      cases sliced
      exact .refl
  | succ quota ih =>
      unfold Engine.slice at sliced
      match advanced : engine.advance pid with
      | .more middle =>
          rw [advanced] at sliced
          have moved : (engine.advance pid).engine? = some middle := by
            rw [advanced]
            rfl
          exact (widen (advance_effects moved)).trans (ih sliced)
      | .over middle =>
          rw [advanced] at sliced
          cases sliced
          have moved : (engine.advance pid).engine? = some after := by
            rw [advanced]
            rfl
          exact widen (advance_effects moved)
      | .endless =>
          rw [advanced] at sliced
          cases sliced

section Turns

variable {holds : Option ProcessId → Engine → Prop} (kept : Kept holds)
include kept

theorem Kept.slice {pid : ProcessId} {quota : Nat} {engine after : Engine}
    (held : holds (some pid) engine) (sliced : slice pid quota engine = some after) :
    holds (some pid) after := by
  induction quota generalizing engine with
  | zero =>
      cases sliced
      exact held
  | succ quota ih =>
      unfold Engine.slice at sliced
      match advanced : engine.advance pid with
      | .more middle =>
          rw [advanced] at sliced
          apply ih _ sliced
          refine kept.instruction held ?_
          rw [advanced]
          rfl
      | .over middle =>
          rw [advanced] at sliced
          cases sliced
          refine kept.instruction held ?_
          rw [advanced]
          rfl
      | .endless =>
          rw [advanced] at sliced
          cases sliced

theorem Kept.turn {engine after : Engine} (held : holds none engine)
    (next : engine.turn = .next after) : holds none after := by
  have pruned := kept.move held .prune
  cases turn_turned next with
  | fired due expired => exact kept.move held (.fire due expired)
  | delivered _ popped delivered =>
      have moved := kept.move pruned (.deliver popped delivered)
      exact moved
  | skipped _ popped dead =>
      have moved := kept.move pruned (.skip popped dead)
      exact moved
  | sliced _ popped live sliced ended =>
      have begun := kept.move pruned (.beginSlice popped live)
      exact kept.move (kept.slice begun sliced) (.endSlice ended)

theorem Kept.turns {start : Number} {limit : Nat} {engine after : Engine} {ended : Bool}
    (held : holds none engine) (turned : turns start limit engine = some (ended, after)) :
    holds none after := by
  induction limit generalizing engine with
  | zero =>
      cases turned
      exact held
  | succ limit ih =>
      unfold Engine.turns at turned
      by_cases spent : engine.isSpent start = true
      · rw [if_pos spent] at turned
        cases turned
        exact held
      · rw [if_neg spent] at turned
        cases next : engine.turn with
        | idle same =>
            rw [next] at turned
            cases turned
            rw [eq_of_turn_idle next]
            exact kept.move held .prune
        | next middle =>
            rw [next] at turned
            exact ih (kept.turn held next) turned
        | endless =>
            rw [next] at turned
            cases turned

end Turns

/-! ### Calls of the host -/

/-- A burst that comes to an end is a number of turns, after which the engine is settled. -/
theorem run_settles {fuel : Nat} {engine after : Engine} (ran : engine.run fuel = .ok after) :
    ∃ limit ended last,
      turns engine.host.clock limit { engine with rearm := .yield } = some (ended, last) ∧
        after = last.settle := by
  unfold Engine.run at ran
  cases limited : engine.config.taskLimit with
  | some limit =>
      simp only [limited] at ran
      cases turned : Engine.turns engine.host.clock limit { engine with rearm := .yield } with
      | none =>
          simp only [turned] at ran
          cases ran
      | some result =>
          obtain ⟨ended, last⟩ := result
          simp only [turned] at ran
          cases ran
          exact ⟨limit, ended, last, turned, rfl⟩
  | none =>
      simp only [limited] at ran
      cases turned : Engine.turns engine.host.clock fuel { engine with rearm := .yield } with
      | none =>
          simp only [turned] at ran
          cases ran
      | some result =>
          obtain ⟨ended, last⟩ := result
          simp only [turned] at ran
          cases ended with
          | false => cases ran
          | true =>
              cases ran
              exact ⟨fuel, true, last, turned, rfl⟩

/-- The answer says whether the queue is empty. -/
theorem nextRearm_cases (s : Scheduler) :
    (s.queue.toList ≠ [] ∧ nextRearm s = (.yield, s)) ∨
      s.queue.toList = [] ∧
        ((∃ deadline, s.nextDeadline.1 = some deadline ∧
            nextRearm s = (.alarm deadline, s.prune)) ∨
          (s.timers = [] ∧ nextRearm s = (.idle, s.prune))) := by
  unfold nextRearm
  by_cases empty : s.queue.toList = []
  · rw [if_pos ((Fifo.isEmpty_iff _).2 empty), nextDeadline_eq]
    refine .inr ⟨empty, ?_⟩
    cases isHead : s.timers.head? with
    | some timer => exact .inl ⟨timer.deadline, rfl, rfl⟩
    | none => exact .inr ⟨List.head?_eq_none_iff.1 isHead, rfl⟩
  · rw [if_neg (fun isEmpty => empty ((Fifo.isEmpty_iff _).1 isEmpty))]
    exact .inl ⟨empty, rfl⟩

theorem settle_eq {engine : Engine} {rearm : Rearm} {s : Scheduler}
    (next : nextRearm engine.scheduler = (rearm, s)) :
    engine.settle = { engine with rearm, scheduler := s } := by
  unfold settle
  rw [next]

theorem map_eq_ok {α β : Type} {result : Except Unfinished α} {f : α → β} {b : β}
    (mapped : result.map f = .ok b) : ∃ a, result = .ok a ∧ f a = b := by
  cases result with
  | error why => cases mapped
  | ok a =>
      cases mapped
      exact ⟨a, rfl, rfl⟩

theorem pairs_chain (rest : Template) (units : List Template) (store : Store) :
    (chain rest units store).2.pairs = store.pairs := by
  induction units generalizing rest store with
  | nil => rfl
  | cons unit units ih =>
      unfold chain
      exact (ih _ _).trans rfl

section Calls

variable {holds : Option ProcessId → Engine → Prop} (kept : Kept holds) {engine after : Engine}
include kept

theorem Kept.settle (held : holds none engine) : holds none engine.settle := by
  have pruned := kept.move held .prune
  rcases nextRearm_cases engine.scheduler with ⟨_, isYield⟩ | ⟨_, ⟨_, _, isAlarm⟩ | ⟨_, isIdle⟩⟩
  · rw [settle_eq isYield]
    exact kept.outside held rfl
  · rw [settle_eq isAlarm]
    exact kept.outside pruned rfl
  · rw [settle_eq isIdle]
    exact kept.outside pruned rfl

theorem Kept.run (held : holds none engine) {fuel : Nat} (ran : engine.run fuel = .ok after) :
    holds none after := by
  obtain ⟨limit, ended, last, turned, rfl⟩ := run_settles ran
  have started : holds none { engine with rearm := .yield } := kept.outside held rfl
  exact kept.settle (kept.turns started turned)

theorem Kept.launch (held : holds none engine) {fuel : Nat} {f : Closure} {pid : ProcessId}
    (launched : engine.launch fuel f = .ok (pid, after)) : holds none after := by
  obtain ⟨last, ran, same⟩ := map_eq_ok launched
  cases same
  exact kept.run (kept.move held (.spawn f)) ran

theorem Kept.addMessage (held : holds none engine) {fuel : Nat} {pid : ProcessId}
    {message : Value} (stored : engine.store.Holds message) {ran : Bool}
    (added : engine.addMessage fuel pid message = .ok (ran, after)) : holds none after := by
  have sent : holds none (engine.mapScheduler fun s => s.send pid message) :=
    kept.move held (.send pid stored)
  unfold Engine.addMessage at added
  dsimp only at added
  split at added
  · cases added
    exact sent
  · obtain ⟨last, burst, same⟩ := map_eq_ok added
    cases same
    exact kept.run sent burst

theorem Kept.onStore {α : Type} (held : holds none engine) (f : Store → α × Store)
    (cars : engine.store.KeepsCars (f engine.store).2) : holds none (engine.onStore f).2 :=
  kept.move held (.memory _ cars)

theorem Kept.addList (held : holds none engine) {fuel : Nat} {pid : ProcessId}
    {parts : List Value} {ran : Bool} (added : engine.addList fuel pid parts = .ok (ran, after)) :
    holds none after := by
  have listed := kept.onStore held (fun store => store.list parts)
    (engine.store.grows_list parts).keepsCars
  exact kept.addMessage listed (engine.store.holds_list parts) added

theorem Kept.requestEvaluation (held : holds none engine) {fuel : Nat} {pid : ProcessId}
    {text : String} {request : Nat} {ran : Bool}
    (requested : engine.requestEvaluation fuel pid text = .ok (request, ran, after)) :
    holds none after := by
  have counted : holds none { engine with requests := engine.requests + 1 } :=
    kept.outside held rfl
  let callback : Native := ⟨"eval-callback", .exact 1, .answer (engine.requests + 1)⟩
  have prepared := kept.onStore counted (fun store => store.newProcedure callback.entryCode)
    (Store.keepsCars_of_pairs_eq rfl)
  obtain ⟨result, added, same⟩ := map_eq_ok requested
  cases same
  exact kept.addList prepared added

theorem Kept.linkFunction (held : holds none engine) (listing : Value) :
    holds none (engine.linkFunction listing).2 :=
  kept.move held (.memory _ (Store.keepsCars_of_pairs_eq rfl))

theorem Kept.linkAll (units : List Value) (linked : List Template) (held : holds none engine) :
    holds none (engine.linkAll linked units).2 := by
  induction units generalizing engine linked with
  | nil => exact held
  | cons unit rest ih =>
      unfold Engine.linkAll
      have first := kept.linkFunction held unit
      cases done : engine.linkFunction unit with
      | mk outcome middle =>
          rw [done] at first
          cases outcome with
          | ok template => exact ih (template :: linked) first
          | error failure => exact first

theorem Kept.load (held : holds none engine) (units : List Value) :
    holds none (engine.load units).2 := by
  have linked := kept.linkAll units [] held
  unfold Engine.load
  cases done : engine.linkAll [] units with
  | mk outcome middle =>
      rw [done] at linked
      cases outcome with
      | error failure => exact linked
      | ok templates =>
          cases templates with
          | nil => exact linked
          | cons last units =>
              exact kept.onStore linked (chain last units)
                (Store.keepsCars_of_pairs_eq (pairs_chain last units _))

theorem Kept.loadPayload (held : holds none engine) (payload : String) :
    holds none (engine.loadPayload payload).2 := by
  unfold Engine.loadPayload
  cases Wire.readPayload payload with
  | error fault => exact held
  | ok data =>
      have stored := kept.onStore held (fun store => store.loadAll data)
        (engine.store.grows_loadAll data).keepsCars
      exact kept.load stored _

theorem Kept.boot (held : holds none engine) {fuel : Nat} {payload : String}
    {outcome : Outcome ProcessId} (booted : engine.boot fuel payload = .ok (outcome, after)) :
    holds none after := by
  have loaded := kept.loadPayload held payload
  unfold Engine.boot at booted
  cases done : engine.loadPayload payload with
  | mk result middle =>
      rw [done] at loaded booted
      cases result with
      | error failure =>
          cases booted
          exact loaded
      | ok template =>
          have prepared := kept.onStore loaded (fun store => store.newFunction template [])
            (Store.keepsCars_of_pairs_eq rfl)
          obtain ⟨launched, ran, same⟩ := map_eq_ok booted
          cases same
          exact kept.launch prepared ran

theorem Kept.assemble (held : holds none engine) (text : String) :
    holds none (engine.assemble text).2 := by
  unfold Engine.assemble
  cases Datum.read text with
  | error error => exact held
  | ok datum =>
      have stored := kept.onStore held (fun store => store.load datum)
        (engine.store.grows_load datum).keepsCars
      exact kept.linkFunction stored _

end Calls

/-- The calls with which a host prepares and drives an engine, with the engine that each leaves. -/
inductive HostCall (engine : Engine) : Engine → Prop where
  | register (name params : String) (f : HostFunction) :
      HostCall engine (engine.register name params f)
  | defineGlobal (name : String) (v : Value) : HostCall engine (engine.defineGlobal name v)
  | assemble (text : String) : HostCall engine (engine.assemble text).2
  | newFunction (template : Template) : HostCall engine (engine.newFunction template).2
  | moveClock (ms : Number) : HostCall engine (engine.mapHost fun host => host.setClock ms)
  | configure (config : Config) : HostCall engine { engine with config }
  | spawn (f : Closure) : HostCall engine (engine.spawn f).2
  | launch {fuel f pid after} :
      engine.launch fuel f = .ok (pid, after) → HostCall engine after
  | boot {fuel payload outcome after} :
      engine.boot fuel payload = .ok (outcome, after) → HostCall engine after
  | run {fuel after} : engine.run fuel = .ok after → HostCall engine after
  | addMessage {fuel pid message ran after} (held : engine.store.Holds message) :
      engine.addMessage fuel pid message = .ok (ran, after) → HostCall engine after
  | postEvent {fuel pid event ran after} :
      engine.postEvent fuel pid event = .ok (ran, after) → HostCall engine after
  | postResponse {fuel pid status body ran after} :
      engine.postResponse fuel pid status body = .ok (ran, after) → HostCall engine after
  | requestEvaluation {fuel pid text request ran after} :
      engine.requestEvaluation fuel pid text = .ok (request, ran, after) → HostCall engine after

/-- What every step keeps, every call of the host keeps. -/
theorem HostCall.keeps {holds : Option ProcessId → Engine → Prop} (kept : Kept holds)
    {engine after : Engine} (call : engine.HostCall after) (held : holds none engine) :
    holds none after := by
  cases call with
  | register name params f =>
      have extended : holds none { engine with
          natives := engine.natives.insert
            ⟨name, .ofParams params, .registered engine.functions.size⟩
          functions := engine.functions.push f } :=
        kept.outside held rfl
      exact kept.move extended (.memory _ (Store.keepsCars_of_pairs_eq rfl))
  | defineGlobal name v => exact kept.move held (.memory _ (Store.keepsCars_of_pairs_eq rfl))
  | assemble text => exact kept.assemble held text
  | newFunction template =>
      exact kept.onStore held (fun store => store.newFunction template [])
        (Store.keepsCars_of_pairs_eq rfl)
  | moveClock ms => exact kept.outside held rfl
  | configure config => exact kept.outside held rfl
  | spawn f => exact kept.move held (.spawn f)
  | launch launched => exact kept.launch held launched
  | boot booted => exact kept.boot held booted
  | run ran => exact kept.run held ran
  | addMessage stored added => exact kept.addMessage held stored added
  | postEvent posted => exact kept.addList held posted
  | postResponse posted => exact kept.addList held posted
  | requestEvaluation requested => exact kept.requestEvaluation held requested

/-- However a host drives an engine, it is one that is reached. -/
theorem HostCall.reachable {engine after : Engine} (call : engine.HostCall after)
    (reachable : Reachable AnyPair none engine) : Reachable AnyPair none after :=
  call.keeps kept_reachable reachable

theorem Reachable.turn {engine after : Engine} (reachable : Reachable AnyPair none engine)
    (next : engine.turn = .next after) : Reachable AnyPair none after :=
  kept_reachable.turn reachable next

theorem Reachable.spawn {engine : Engine} (reachable : Reachable AnyPair none engine)
    (f : Closure) : Reachable AnyPair none (engine.spawn f).2 :=
  reachable.move (.spawn f)

/-- A function that waits for the message `wake`. -/
def sleeper : Closure := ⟨0, ⟨.linked 0, #[.receive ⟨[⟨"wake", ⟨.linked 1, #[]⟩⟩], none⟩]⟩, []⟩

end Engine

end ActorMachine
