import ActorMachine.Globals
import Mathlib.Data.List.Nodup

set_option autoImplicit false

/-!
The table of globals as a directory.

A `Directory` is what the table stands for: the names in the order of first use, each of which has
its place among them as its slot, and a value for some of them. Whatever operations are carried out,
the table answers as the directory does. This needs no more of the interner than that it numbers
names in the order of first use. Main statement: `Represents.performAll`.
-/

namespace ActorMachine

namespace Globals

variable {I : Type} [Interner I]

/-! ### Operations -/

/-- The operations on a table. -/
inductive Op where
  | intern (name : String)
  | lookup (name : String)
  | define (name : String) (v : Value)
  | defineSelf (name : String)
  | undefine (name : String)
  | get (slot : Slot)
  | set (slot : Slot) (v : Value)
  | value (name : String)

/-- What operations answer. -/
inductive Answer where
  | slot (slot : Slot)
  | slot? (slot : Option Slot)
  | isNew (new : Bool)
  | nothing
  | outcome (outcome : Except Fault Value)
  | fault? (fault : Option Fault)
  | value? (v : Option Value)

/-- Carries out an operation. A failed assignment leaves the table as it was. -/
def perform (table : Globals I) : Op → Answer × Globals I
  | .intern name => (.slot (table.intern name).1, (table.intern name).2)
  | .lookup name => (.slot? (table.lookup? name), table)
  | .define name v => (.slot (table.define name v).1, (table.define name v).2)
  | .defineSelf name => (.isNew (table.defineSelf name).1, (table.defineSelf name).2)
  | .undefine name => (.nothing, table.undefine name)
  | .get slot => (.outcome (table.get slot), table)
  | .set slot v =>
      match table.set slot v with
      | .ok after => (.fault? none, after)
      | .error fault => (.fault? (some fault), table)
  | .value name => (.value? (table.value? name), table)

/-- Carries out operations in order. -/
def performAll (table : Globals I) : List Op → List Answer × Globals I
  | [] => ([], table)
  | operation :: rest =>
      let (answer, table) := table.perform operation
      let (answers, table) := table.performAll rest
      (answer :: answers, table)

end Globals

/-! ### Directories -/

/-- Names in the order of first use, and the values that some of them have. -/
structure Directory where
  names : List String := []
  value : String → Option Value := fun _ => none

namespace Directory

open Globals (Op Answer)

/-- A name gets the next place at its first use. -/
def note (d : Directory) (name : String) : Directory :=
  if name ∈ d.names then d else { d with names := d.names ++ [name] }

/-- The slot of a name is its place. -/
def slot (d : Directory) (name : String) : Slot := d.names.idxOf name

/-- Gives a name a value, or takes it away. -/
def bind (d : Directory) (name : String) (v : Option Value) : Directory :=
  { d with value := fun other => if other = name then v else d.value other }

/-- The name that has a slot. -/
def nameAt (d : Directory) (slot : Slot) : String := d.names[slot]?.getD "?"

/-- The value of the name that has a slot. -/
def valueAt? (d : Directory) (slot : Slot) : Option Value := d.names[slot]?.bind d.value

/-- Carries out an operation. -/
def perform (d : Directory) : Op → Answer × Directory
  | .intern name => (.slot ((d.note name).slot name), d.note name)
  | .lookup name => (.slot? (if name ∈ d.names then some (d.slot name) else none), d)
  | .define name v => (.slot ((d.note name).slot name), (d.note name).bind name (some v))
  | .defineSelf name =>
      if (d.value name).isSome then (.isNew false, d)
      else (.isNew true, (d.note name).bind name (some (.symbol name)))
  | .undefine name => (.nothing, d.bind name none)
  | .get slot =>
      (.outcome (match d.valueAt? slot with
        | some v => .ok v
        | none => .error (.unbound (d.nameAt slot))), d)
  | .set slot v =>
      if (d.valueAt? slot).isSome then (.fault? none, d.bind (d.nameAt slot) (some v))
      else (.fault? (some (.unbound (d.nameAt slot))), d)
  | .value name => (.value? (d.value name), d)

/-- Carries out operations in order. -/
def performAll (d : Directory) : List Op → List Answer × Directory
  | [] => ([], d)
  | operation :: rest =>
      let (answer, d) := d.perform operation
      let (answers, d) := d.performAll rest
      (answer :: answers, d)

end Directory

/-! ### Names, slots and values of a table -/

namespace Globals

variable {I : Type} [Interner I]

/-- The names of a table in the order of their slots. -/
def names (table : Globals I) : List String := Interner.texts table.interner

section Slots

variable {table : Globals I} {name : String} {slot : Slot}

theorem nodup_names (table : Globals I) : table.names.Nodup := Interner.nodup_texts table.interner

theorem lookup?_eq (table : Globals I) (name : String) :
    table.lookup? name =
      if name ∈ table.names then some (table.names.idxOf name) else none :=
  Interner.find?_eq table.interner name

theorem nameAt_eq (table : Globals I) (slot : Slot) :
    table.nameAt slot = table.names[slot]?.getD "?" :=
  congrArg (Option.getD · "?") (Interner.text?_eq table.interner slot)

/-- A name that was used has its place as its slot. -/
theorem lookup?_iff : table.lookup? name = some slot ↔ table.names[slot]? = some name := by
  rw [lookup?_eq]
  constructor
  · intro found
    split at found
    · rename_i member
      rw [← Option.some.inj found]
      exact List.getElem?_idxOf member
    · cases found
  · intro placed
    obtain ⟨inside, rfl⟩ := List.getElem?_eq_some_iff.1 placed
    rw [if_pos (List.getElem_mem inside), table.nodup_names.idxOf_getElem]

/-- What stands in a slot is the value of the name that has it. -/
theorem valueAt?_eq (table : Globals I) (slot : Slot) :
    table.valueAt? slot = table.names[slot]?.bind table.value? := by
  cases placed : table.names[slot]? with
  | none =>
      have outside : table.slots.size ≤ slot := by
        rw [table.sized]
        exact List.getElem?_eq_none_iff.1 placed
      unfold valueAt?
      rw [Array.getElem?_eq_none outside]
      rfl
  | some name =>
      rw [Option.bind_some, value?, lookup?_iff.2 placed]
      rfl

/-- The value in a slot, or that its name has none. -/
theorem get_eq {v : Option Value} : table.valueAt? slot = v → table.nameAt slot = name →
    table.get slot = match v with
      | some v => .ok v
      | none => .error (.unbound name) := by
  rintro rfl rfl
  rfl

theorem valueAt?_put (table : Globals I) (slot : Slot) (v : Option Value) (other : Slot) :
    (table.put slot v).valueAt? other =
      if slot = other ∧ slot < table.names.length then v else table.valueAt? other := by
  have sized : table.slots.size = table.names.length := table.sized
  unfold valueAt? put
  rw [Array.getElem?_setIfInBounds, sized]
  by_cases same : slot = other
  · subst same
    by_cases inside : slot < table.names.length
    · simp [inside]
    · have outside := Array.getElem?_eq_none (Nat.le_of_not_lt (sized ▸ inside))
      simp [inside, outside]
  · simp [same]

/-- Filling or emptying the slot of a name changes the value of that name alone. -/
theorem value?_put (found : table.lookup? name = some slot) (v : Option Value) (other : String) :
    (table.put slot v).value? other = if other = name then v else table.value? other := by
  have placed := lookup?_iff.1 found
  have inside := (List.getElem?_eq_some_iff.1 placed).1
  have sameLookup : (table.put slot v).lookup? other = table.lookup? other := rfl
  unfold value?
  rw [sameLookup]
  cases elsewhere : table.lookup? other with
  | none =>
      have different : other ≠ name := by
        rintro rfl
        rw [found] at elsewhere
        cases elsewhere
      rw [if_neg different]
      rfl
  | some place =>
      rw [Option.bind_some, Option.bind_some, valueAt?_put]
      have samePlace : slot = place ↔ other = name := by
        constructor
        · rintro rfl
          rw [lookup?_iff.1 elsewhere] at placed
          exact Option.some.inj placed
        · rintro rfl
          exact Option.some.inj (found.symm.trans elsewhere)
      simp only [samePlace, inside, and_true]

/-! ### Giving slots to names -/

theorem eq_of_parts {after : Globals I} (sameInterner : after.interner = table.interner)
    (sameSlots : after.slots = table.slots) : after = table := by
  cases after
  cases table
  cases sameInterner
  cases sameSlots
  rfl

theorem names_intern (table : Globals I) (name : String) :
    (table.intern name).2.names =
      if name ∈ table.names then table.names else table.names ++ [name] := by
  change Interner.texts (Interner.intern table.interner name).2 = _
  split
  · rename_i used
    rw [Interner.intern_of_mem _ _ used]
    rfl
  · rename_i unused
    exact (Interner.intern_of_new _ _ unused).2

/-- A name that was used before has its slot, and nothing changes. -/
theorem intern_of_mem (used : name ∈ table.names) :
    table.intern name = (table.names.idxOf name, table) := by
  have known : Interner.intern table.interner name = (table.names.idxOf name, table.interner) :=
    Interner.intern_of_mem _ _ used
  have inside : ¬table.slots.size ≤ table.names.idxOf name := by
    rw [table.sized]
    exact Nat.not_le_of_lt (List.idxOf_lt_length_iff.2 used)
  have sameSlots : reach table.slots (Interner.intern table.interner name).1 = table.slots := by
    rw [known]
    exact if_neg inside
  have sameSlot : (table.intern name).1 = table.names.idxOf name := congrArg Prod.fst known
  exact Prod.ext sameSlot (eq_of_parts (congrArg Prod.snd known) sameSlots)

theorem intern_of_lookup? (known : table.lookup? name = some slot) :
    table.intern name = (slot, table) := by
  rw [lookup?_eq] at known
  split at known
  · rename_i used
    rw [intern_of_mem used, Option.some.inj known]
  · cases known

theorem lookup?_intern (table : Globals I) (name : String) :
    (table.intern name).2.lookup? name = some (table.intern name).1 := by
  by_cases used : name ∈ table.names
  · rw [intern_of_mem used, lookup?_eq, if_pos used]
  · have isLast : (table.intern name).1 = table.names.length :=
      (Interner.intern_of_new _ _ used).1
    rw [lookup?_iff, names_intern, if_neg used, isLast, List.getElem?_concat_length]

/-- Names keep their slots. -/
theorem lookup?_intern_of_known {other : String} (known : table.lookup? other = some slot)
    (name : String) : (table.intern name).2.lookup? other = some slot := by
  have placed := lookup?_iff.1 known
  rw [lookup?_iff, names_intern]
  split
  · exact placed
  · exact (List.getElem?_append_left (List.getElem?_eq_some_iff.1 placed).1).trans placed

/-- The slots that are made are empty. -/
theorem join_getElem?_reach (slots : Array (Option Value)) (slot other : Slot) :
    (reach slots slot)[other]?.join = slots[other]?.join := by
  unfold reach
  split
  · rw [Array.getElem?_append, Array.getElem?_replicate]
    by_cases inside : other < slots.size
    · rw [if_pos inside]
    · rw [if_neg inside, Array.getElem?_eq_none (Nat.le_of_not_lt inside)]
      split
      · rfl
      · rfl
  · rfl

theorem valueAt?_intern (table : Globals I) (name : String) (slot : Slot) :
    (table.intern name).2.valueAt? slot = table.valueAt? slot :=
  join_getElem?_reach table.slots _ slot

/-- A name that is used for the first time has no value yet. -/
theorem value?_intern (table : Globals I) (name other : String) :
    (table.intern name).2.value? other = table.value? other := by
  unfold value?
  cases known : table.lookup? other with
  | some slot =>
      rw [lookup?_intern_of_known known]
      exact table.valueAt?_intern name slot
  | none =>
      cases found : (table.intern name).2.lookup? other with
      | none => rfl
      | some slot =>
          -- Its slot is the new one.
          have placed := lookup?_iff.1 found
          have outside : table.slots.size ≤ slot := by
            rw [table.sized]
            apply Nat.le_of_not_lt
            intro (inside : slot < table.names.length)
            rw [names_intern] at placed
            have wasPlaced : table.names[slot]? = some other := by
              split at placed
              · exact placed
              · rw [List.getElem?_append_left inside] at placed
                exact placed
            rw [lookup?_iff.2 wasPlaced] at known
            cases known
          rw [Option.bind_some, valueAt?_intern, valueAt?, Array.getElem?_eq_none outside]
          rfl

end Slots

/-! ### Tables and directories -/

/-- A table stands for a directory. -/
structure Represents (table : Globals I) (d : Directory) : Prop where
  names_eq : table.names = d.names
  distinct : table.names.Nodup
  value_eq : ∀ name, table.value? name = d.value name

theorem represents_empty : Represents ({} : Globals I) {} where
  names_eq := Interner.texts_empty
  distinct := nodup_names _
  value_eq := by
    intro name
    have unused : name ∉ ({} : Globals I).names := by simp [names, Interner.texts_empty]
    rw [value?, lookup?_eq, if_neg unused]
    rfl

namespace Represents

variable {table : Globals I} {d : Directory} (stands : table.Represents d)
include stands

theorem intern (name : String) :
    (table.intern name).1 = (d.note name).slot name ∧
      (table.intern name).2.Represents (d.note name) := by
  have noted : (table.intern name).2.names = (d.note name).names := by
    rw [names_intern, stands.names_eq]
    unfold Directory.note
    split
    · rfl
    · rfl
  have found := table.lookup?_intern name
  rw [lookup?_eq] at found
  refine ⟨?_, noted, nodup_names _, ?_⟩
  · unfold Directory.slot
    rw [← noted]
    split at found
    · exact (Option.some.inj found).symm
    · cases found
  · intro other
    rw [value?_intern, stands.value_eq]
    unfold Directory.note
    split
    · rfl
    · rfl

theorem put {name : String} {slot : Slot} (found : table.lookup? name = some slot)
    (v : Option Value) : (table.put slot v).Represents (d.bind name v) where
  names_eq := stands.names_eq
  distinct := nodup_names _
  value_eq := by
    intro other
    rw [value?_put found, stands.value_eq]
    rfl

theorem define (name : String) (v : Value) :
    (table.define name v).1 = (d.note name).slot name ∧
      (table.define name v).2.Represents ((d.note name).bind name (some v)) :=
  ⟨(stands.intern name).1, (stands.intern name).2.put (table.lookup?_intern name) (some v)⟩

theorem undefine (name : String) : (table.undefine name).Represents (d.bind name none) := by
  unfold Globals.undefine
  cases found : table.lookup? name with
  | some slot => exact stands.put found none
  | none =>
      refine ⟨stands.names_eq, stands.distinct, fun other => ?_⟩
      by_cases same : other = name
      · have unbound : table.value? name = none := by rw [value?, found, Option.bind_none]
        rw [same, unbound]
        exact (if_pos rfl).symm
      · exact (stands.value_eq other).trans (if_neg same).symm

theorem nameAt (slot : Slot) : table.nameAt slot = d.nameAt slot := by
  rw [nameAt_eq, stands.names_eq]
  rfl

theorem valueAt? (slot : Slot) : table.valueAt? slot = d.valueAt? slot := by
  rw [valueAt?_eq, stands.names_eq, funext stands.value_eq]
  rfl

/-- An operation answers as it does on the directory, and leaves the table of what it leaves of the
directory. -/
theorem perform (op : Op) :
    (table.perform op).1 = (d.perform op).1 ∧ (table.perform op).2.Represents (d.perform op).2 := by
  cases op with
  | intern name => exact ⟨congrArg Answer.slot (stands.intern name).1, (stands.intern name).2⟩
  | lookup name =>
      refine ⟨congrArg Answer.slot? ?_, stands⟩
      rw [lookup?_eq, stands.names_eq]
      rfl
  | define name v => exact ⟨congrArg Answer.slot (stands.define name v).1, (stands.define name v).2⟩
  | defineSelf name =>
      unfold Globals.perform Directory.perform defineSelf isDefined
      dsimp only
      rw [stands.value_eq]
      split
      · exact ⟨rfl, stands⟩
      · exact ⟨rfl, (stands.define name _).2⟩
  | undefine name => exact ⟨rfl, stands.undefine name⟩
  | get slot =>
      exact ⟨congrArg Answer.outcome (get_eq (stands.valueAt? slot) (stands.nameAt slot)), stands⟩
  | set slot v =>
      dsimp only [Globals.perform, Directory.perform]
      unfold set isBoundAt
      rw [stands.valueAt?, stands.nameAt]
      cases bound : d.valueAt? slot with
      | none => exact ⟨rfl, stands⟩
      | some old =>
          -- Only a slot that a name has can hold a value.
          unfold Directory.valueAt? at bound
          cases placed : d.names[slot]? with
          | none =>
              rw [placed] at bound
              cases bound
          | some name =>
              have found : table.lookup? name = some slot := by
                rw [lookup?_iff, stands.names_eq]
                exact placed
              refine ⟨rfl, ?_⟩
              have named : d.nameAt slot = name := by
                unfold Directory.nameAt
                rw [placed]
                rfl
              rw [named]
              exact stands.put found (some v)
  | value name => exact ⟨congrArg Answer.value? (stands.value_eq name), stands⟩

theorem performAll (ops : List Op) :
    (table.performAll ops).1 = (d.performAll ops).1 ∧
      (table.performAll ops).2.Represents (d.performAll ops).2 := by
  induction ops generalizing table d with
  | nil => exact ⟨rfl, stands⟩
  | cons op rest ih =>
      obtain ⟨same, next⟩ := stands.perform op
      obtain ⟨sameRest, last⟩ := ih next
      exact ⟨congrArg₂ List.cons same sameRest, last⟩

end Represents

end Globals

end ActorMachine
