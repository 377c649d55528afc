import ActorMachine.Process
import ActorMachine.Proofs.Store.Growth

set_option autoImplicit false

/-!
The first parts of pairs, where the tags of messages stand.

Guest code changes frames, cells, arrays and second parts of pairs at will. All of it keeps the
first parts of pairs, and so does every instruction of a machine. Beside that, an instruction fills
no frame that has no slots, saves or takes at most one return, and leaves a status that is told by
the way in which it stops the machine.
-/

namespace ActorMachine

namespace Store

/-- The pairs of a store keep their first parts; there may be more pairs. -/
structure KeepsCars (before after : Store) : Prop where
  size_le : before.pairs.size ≤ after.pairs.size
  carAt_eq : ∀ ref, ref < before.pairs.size → after.carAt ref = before.carAt ref

theorem KeepsCars.refl (store : Store) : store.KeepsCars store := ⟨Nat.le_refl _, fun _ _ => rfl⟩

theorem KeepsCars.trans {first middle last : Store} (left : first.KeepsCars middle)
    (right : middle.KeepsCars last) : first.KeepsCars last where
  size_le := Nat.le_trans left.size_le right.size_le
  carAt_eq := by
    intro ref inside
    rw [right.carAt_eq ref (Nat.lt_of_lt_of_le inside left.size_le), left.carAt_eq ref inside]

theorem Grows.keepsCars {before after : Store} (grown : before.Grows after) :
    before.KeepsCars after :=
  ⟨grown.size_le, fun _ => grown.carAt_eq⟩

theorem keepsCars_of_pairs_eq {before after : Store} (same : after.pairs = before.pairs) :
    before.KeepsCars after := by
  constructor
  · exact Nat.le_of_eq (congrArg Array.size same).symm
  · intro ref _
    simp only [carAt, pairAt, same]

theorem keepsCars_setCdr (store : Store) (ref : Ref) (v : Value) :
    store.KeepsCars (store.setCdr ref v) where
  size_le := by simp [setCdr]
  carAt_eq := by
    intro other inside
    simp only [carAt, pairAt, setCdr, Array.getD_eq_getD_getElem?, Array.getElem?_modify]
    by_cases same : ref = other
    · simp [same, inside]
    · simp [same]

/-- Frames without slots stay so. -/
def KeepsEmptyFrames (before after : Store) : Prop :=
  ∀ ref : Ref, before.frames[ref]? = some #[] → after.frames[ref]? = some #[]

theorem keepsEmptyFrames_of_frames_eq {before after : Store} (same : after.frames = before.frames) :
    before.KeepsEmptyFrames after := by
  intro ref empty
  rw [same]
  exact empty

/-- The pairs of a store keep their first parts, and its frames are as they were. -/
structure KeepsCarsAndFrames (before after : Store) : Prop where
  cars : before.KeepsCars after
  frames_eq : after.frames = before.frames

theorem Grows.keepsCarsAndFrames {before after : Store} (grown : before.Grows after) :
    before.KeepsCarsAndFrames after :=
  ⟨grown.keepsCars, grown.frames_eq⟩

/-- The pairs of a store keep their first parts, and frames without slots stay so. -/
structure KeepsCarsAndEmpties (before after : Store) : Prop where
  cars : before.KeepsCars after
  empties : before.KeepsEmptyFrames after

theorem KeepsCarsAndEmpties.refl (store : Store) : store.KeepsCarsAndEmpties store :=
  ⟨.refl store, fun _ empty => empty⟩

theorem KeepsCarsAndEmpties.trans {first middle last : Store}
    (left : first.KeepsCarsAndEmpties middle) (right : middle.KeepsCarsAndEmpties last) :
    first.KeepsCarsAndEmpties last :=
  ⟨left.cars.trans right.cars, fun ref empty => right.empties ref (left.empties ref empty)⟩

theorem Grows.keepsCarsAndEmpties {before after : Store} (grown : before.Grows after) :
    before.KeepsCarsAndEmpties after :=
  ⟨grown.keepsCars, keepsEmptyFrames_of_frames_eq grown.frames_eq⟩

theorem keepsCarsAndEmpties_newFrame (store : Store) (slots : Array Value) :
    store.KeepsCarsAndEmpties (store.newFrame slots).2 where
  cars := keepsCars_of_pairs_eq rfl
  empties := by
    intro ref empty
    obtain ⟨inside, _⟩ := Array.getElem?_eq_some_iff.1 empty
    simp only [newFrame, Array.getElem?_push, if_neg (Nat.ne_of_lt inside)]
    exact empty

theorem pairs_setLocal (store : Store) (env : Env) (depth index : Nat) (v : Value) :
    (store.setLocal env depth index v).pairs = store.pairs := by
  unfold setLocal
  cases env[depth]? <;> rfl

/-- A slot that is changed is one that there is, so a frame without slots is not touched. -/
theorem keepsCarsAndEmpties_setLocal (store : Store) (env : Env) (depth index : Nat) (v : Value) :
    store.KeepsCarsAndEmpties (store.setLocal env depth index v) where
  cars := keepsCars_of_pairs_eq (pairs_setLocal ..)
  empties := by
    intro ref empty
    unfold setLocal
    split
    · rename_i changed _
      simp only [Array.getElem?_modify]
      by_cases same : changed = ref
      · rw [if_pos same, empty]
        rfl
      · rw [if_neg same]
        exact empty
    · exact empty

/-- The pairs of a store keep their first parts, all but one that may be overwritten. -/
structure KeepsCarsBut (overwritten : Option Ref) (before after : Store) : Prop where
  size_le : before.pairs.size ≤ after.pairs.size
  carAt_eq : ∀ ref, ref < before.pairs.size → overwritten ≠ some ref →
    after.carAt ref = before.carAt ref

theorem KeepsCars.but {before after : Store} (kept : before.KeepsCars after)
    (overwritten : Option Ref) : KeepsCarsBut overwritten before after :=
  ⟨kept.size_le, fun ref inside _ => kept.carAt_eq ref inside⟩

theorem keepsCarsBut_setCar (store : Store) (ref : Ref) (v : Value) :
    KeepsCarsBut (some ref) store (store.setCar ref v) where
  size_le := by simp [setCar]
  carAt_eq := by
    intro other _ different
    have notThat : ref ≠ other := fun same => different (congrArg some same)
    simp [carAt, pairAt, setCar, Array.getElem?_modify, notThat]

/-- Whether a message is accepted depends on its tag alone. -/
theorem KeepsCarsBut.accepts?_eq {overwritten : Option Ref} {before after : Store}
    (kept : KeepsCarsBut overwritten before after) {message : Value} (held : before.Holds message)
    (spared : ∀ ref, message = .pair ref → overwritten ≠ some ref) (table : ReceiveTable) :
    table.accepts? after message = table.accepts? before message := by
  unfold ReceiveTable.accepts?
  cases message with
  | pair ref =>
      have same := kept.carAt_eq ref (held ref rfl) (spared ref rfl)
      simp only [car?, same]
  | _ => rfl

end Store

/-! ### Instructions -/

/-- The status of a machine that had the given one when its instruction stopped it, or not. -/
def Stop.statusFrom (status : Status) : Option Stop → Status
  | some (.halt _) => .halted
  | some (.receive _) => .waiting
  | _ => status

/-- What an instruction of `m` does to the saved returns. -/
inductive Machine.Unwinds (m : Machine) : Execution → Prop where
  | kept {execution} (same : execution.machine.returns = m.returns) : Unwinds m execution
  | saved {execution back} (saved : execution.machine.returns = back :: m.returns) :
      Unwinds m execution
  /-- The machine goes on where the latest return says. -/
  | returned {memory back returns} (saved : m.returns = back :: returns) :
      Unwinds m (goOn { m with
        template := back.template
        env := back.env
        pc := back.pc
        returns } memory)

/-- What every instruction keeps to. -/
structure Execution.Follows (execution : Execution) (m : Machine) (store : Store) : Prop where
  kept : store.KeepsCarsAndEmpties execution.memory.store
  status_eq : execution.machine.status = Stop.statusFrom m.status execution.stop
  unwinds : m.Unwinds execution

namespace Machine

/-- It does not matter where the machine is in its code. -/
theorem Unwinds.of_pc {m : Machine} {pc : Nat} {execution : Execution}
    (unwinds : Unwinds { m with pc } execution) : m.Unwinds execution := by
  cases unwinds with
  | kept same => exact .kept same
  | saved saved => exact .saved saved
  | returned saved => exact .returned saved

section Follows

variable {m after : Machine} {store : Store} {memory : Memory}
  (alike : after.status = m.status ∧ after.returns = m.returns)
include alike

theorem follows_goOn (kept : store.KeepsCarsAndEmpties memory.store) :
    (goOn after memory).Follows m store :=
  ⟨kept, alike.1, .kept alike.2⟩

theorem follows_fail (kept : store.KeepsCarsAndEmpties memory.store) (cause : Fault) :
    (fail after memory cause).Follows m store :=
  ⟨kept, alike.1, .kept alike.2⟩

theorem follows_enterFrame {inner : Store} (globals : Globals) (slots : List Value)
    (kept : store.KeepsCarsAndEmpties inner) :
    (enterFrame after inner globals slots).Follows m store :=
  ⟨kept.trans (inner.keepsCarsAndEmpties_newFrame _), alike.1, .kept alike.2⟩

theorem follows_enter (globals : Globals) (callee : Value) (n : Nat) :
    (enter after store globals callee n).Follows m store := by
  have same : store.KeepsCarsAndEmpties store := .refl store
  unfold enter
  cases callee with
  | function f => exact ⟨same, alike.1, .kept alike.2⟩
  | template t => exact ⟨same, alike.1, .kept alike.2⟩
  | _ => exact ⟨same, alike.1, .kept alike.2⟩

end Follows

theorem follows_execute (m : Machine) (instruction : Instruction) (memory : Memory) :
    (m.execute instruction memory).Follows m memory.store := by
  obtain ⟨store, globals⟩ := memory
  have same : store.KeepsCarsAndEmpties store := .refl store
  have alike : ∀ stack, { m with stack }.status = m.status ∧ { m with stack }.returns = m.returns :=
    fun _ => ⟨rfl, rfl⟩
  unfold execute
  cases instruction with
  | args n =>
      dsimp only
      split
      · exact follows_fail ⟨rfl, rfl⟩ same _
      · split
        · exact follows_fail ⟨rfl, rfl⟩ same _
        · exact follows_enterFrame (alike _) globals _ same
  | argsRest n =>
      dsimp only
      split
      · exact follows_fail ⟨rfl, rfl⟩ same _
      · split
        · exact follows_fail ⟨rfl, rfl⟩ same _
        · rename_i extra stack taken
          have grown := (store.grows_list extra).keepsCarsAndEmpties
          split
          · exact follows_fail (alike _) grown _
          · exact follows_enterFrame (alike _) globals _ grown
  | loadLocal v =>
      dsimp only
      split
      · exact ⟨same, rfl, .kept rfl⟩
      · exact follows_fail ⟨rfl, rfl⟩ same _
  | storeLocal v =>
      dsimp only
      split
      · exact follows_fail ⟨rfl, rfl⟩ same _
      · split
        · exact follows_goOn ⟨rfl, rfl⟩ (store.keepsCarsAndEmpties_setLocal ..)
        · exact follows_fail ⟨rfl, rfl⟩ same _
  | loadGlobal g =>
      dsimp only
      split
      · exact ⟨same, rfl, .kept rfl⟩
      · exact follows_fail ⟨rfl, rfl⟩ same _
  | storeGlobal g =>
      dsimp only
      split
      · exact follows_fail ⟨rfl, rfl⟩ same _
      · split
        · exact follows_goOn ⟨rfl, rfl⟩ same
        · exact follows_fail ⟨rfl, rfl⟩ same _
  | pop =>
      dsimp only
      split
      · exact follows_fail ⟨rfl, rfl⟩ same _
      · exact ⟨same, rfl, .kept rfl⟩
  | const x => exact ⟨same, rfl, .kept rfl⟩
  | jump label => exact ⟨same, rfl, .kept rfl⟩
  | jumpIfNil label =>
      dsimp only
      split
      · exact follows_fail ⟨rfl, rfl⟩ same _
      · exact ⟨same, rfl, .kept rfl⟩
  | jumpUnlessNil label =>
      dsimp only
      split
      · exact follows_fail ⟨rfl, rfl⟩ same _
      · exact ⟨same, rfl, .kept rfl⟩
  | save label => exact ⟨same, rfl, .saved rfl⟩
  | ret =>
      dsimp only
      split
      · exact follows_fail ⟨rfl, rfl⟩ same _
      · rename_i saved
        exact ⟨same, rfl, .returned saved⟩
  | call mode =>
      cases mode with
      | fixed n =>
          dsimp only
          split
          · exact follows_fail ⟨rfl, rfl⟩ same _
          · exact follows_enter (alike _) globals _ n
      | spread =>
          dsimp only
          split
          · exact follows_fail ⟨rfl, rfl⟩ same _
          · exact follows_fail (alike _) same _
          · split
            · exact follows_enter (alike _) globals _ _
            · exact follows_fail (alike _) same _
            · exact ⟨same, rfl, .kept rfl⟩
  | function t => exact ⟨⟨Store.keepsCars_of_pairs_eq rfl, fun _ empty => empty⟩, rfl, .kept rfl⟩
  | native n => exact ⟨same, rfl, .kept rfl⟩
  | halt =>
      dsimp only
      split
      · exact follows_fail ⟨rfl, rfl⟩ same _
      · exact ⟨same, rfl, .kept rfl⟩
  | receive table => exact ⟨same, rfl, .kept rfl⟩

theorem follows_step (m : Machine) (memory : Memory) :
    (m.step memory).Follows m memory.store := by
  unfold step
  cases m.template.code[m.pc]? with
  | none => exact follows_fail ⟨rfl, rfl⟩ (.refl _) _
  | some instruction =>
      obtain ⟨kept, status_eq, unwinds⟩ :=
        follows_execute { m with pc := m.pc + 1 } instruction memory
      exact ⟨kept, status_eq, unwinds.of_pc⟩

end Machine

end ActorMachine
