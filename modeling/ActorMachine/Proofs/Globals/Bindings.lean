import ActorMachine.Machine
import ActorMachine.Proofs.Code.Linking

set_option autoImplicit false

/-!
The table of globals as a map with permanent slots.

Operations on a name change the value of that name alone, and a name keeps its slot whatever else is
done. So code that was linked at any time acts on what its name is bound to now. Main statement:
`refines_directory`.
-/

namespace ActorMachine

namespace Globals

variable {I : Type} [Interner I]

/-! ### Tables as maps -/

/-- What operations on one name do to the values of all names, and the names that have a value. -/
structure IsMap (table : Globals I) : Prop where
  intern : ∀ name other, (table.intern name).2.value? other = table.value? other
  define : ∀ name v other, (table.define name v).2.value? other =
    if other = name then some v else table.value? other
  defineSelf_of_bound : ∀ name, (table.value? name).isSome → table.defineSelf name = (false, table)
  defineSelf_of_unbound : ∀ name, table.value? name = none → (table.defineSelf name).1 = true ∧
    ∀ other, (table.defineSelf name).2.value? other =
      if other = name then some (.symbol name) else table.value? other
  undefine : ∀ name other, (table.undefine name).value? other =
    if other = name then none else table.value? other
  definedNames_eq : table.definedNames = table.names.filter fun name => (table.value? name).isSome
  mem_definedNames : ∀ name, name ∈ table.definedNames ↔ (table.value? name).isSome
  nodup_definedNames : table.definedNames.Nodup

/-- What holds of a slot that a name has been given. -/
structure Permanent (table : Globals) (name : String) (slot : Slot) : Prop where
  intern_eq : table.intern name = (slot, table)
  nameAt_eq : table.nameAt slot = name
  alone : ∀ other, (table.intern other).1 = slot → other = name
  get_eq : table.get slot = match table.value? name with
    | some v => .ok v
    | none => .error (.unbound name)
  set_of_bound : ∀ v, (table.value? name).isSome → ∃ after, table.set slot v = .ok after ∧
    ∀ other, after.value? other = if other = name then some v else table.value? other
  set_of_unbound : ∀ v, table.value? name = none → table.set slot v = .error (.unbound name)
  /-- An instruction that loads the global. -/
  load : ∀ (m : Machine) store, m.execute (.loadGlobal ⟨name, slot⟩) ⟨store, table⟩ =
    match table.value? name with
    | some v => (m.push v).goOn ⟨store, table⟩
    | none => m.fail ⟨store, table⟩ (.unbound name)
  /-- An instruction that stores into the global. -/
  store : ∀ (m : Machine) store v below, m.stack = v :: below →
    m.execute (.storeGlobal ⟨name, slot⟩) ⟨store, table⟩ = match table.set slot v with
    | .ok after => m.goOn ⟨store, after⟩
    | .error cause => m.fail ⟨store, table⟩ cause

section Laws

variable {table : Globals I} {name : String} {slot : Slot}

/-- The directory that a table stands for. -/
def directory (table : Globals I) : Directory := ⟨table.names, table.value?⟩

theorem represents_directory (table : Globals I) : table.Represents table.directory :=
  ⟨rfl, table.nodup_names, fun _ => rfl⟩

theorem value_note (d : Directory) (name : String) : (d.note name).value = d.value := by
  unfold Directory.note
  split
  · rfl
  · rfl

theorem value?_define (table : Globals I) (name : String) (v : Value) (other : String) :
    (table.define name v).2.value? other =
      if other = name then some v else table.value? other := by
  have bound := (table.represents_directory.define name v).2.value_eq other
  rw [bound]
  unfold Directory.bind
  dsimp only
  rw [value_note]
  rfl

/-- The names that have a value are those whose slot has one. -/
theorem definedNames_eq (table : Globals I) :
    table.definedNames = table.names.filter fun name => (table.value? name).isSome := by
  have sameValue : ∀ place ∈ table.names.zipIdx,
      (table.valueAt? place.2).isSome = (table.value? place.1).isSome := by
    rintro ⟨name, slot⟩ member
    have placed : table.names[slot]? = some name := List.mk_mem_zipIdx_iff_getElem?.1 member
    rw [valueAt?_eq, placed, Option.bind_some]
  have filtered : table.definedNames =
      (table.names.zipIdx.filter fun place => (table.value? place.1).isSome).map Prod.fst :=
    congrArg (List.map Prod.fst) (List.filter_congr sameValue)
  have named : table.names.zipIdx.map Prod.fst = table.names := List.zipIdx_map_fst 0 table.names
  rw [filtered]
  conv_rhs => rw [← named, List.filter_map]
  rfl

theorem isMap (table : Globals I) : table.IsMap where
  intern := table.value?_intern
  define := table.value?_define
  defineSelf_of_bound := by
    intro name bound
    exact if_pos bound
  defineSelf_of_unbound := by
    intro name unbound
    have isNew : table.defineSelf name = (true, (table.define name (.symbol name)).2) := by
      unfold defineSelf isDefined
      rw [unbound]
      rfl
    rw [isNew]
    exact ⟨rfl, table.value?_define name _⟩
  undefine := fun name => (table.represents_directory.undefine name).value_eq
  definedNames_eq := table.definedNames_eq
  mem_definedNames := by
    intro name
    rw [definedNames_eq, List.mem_filter, and_iff_right_iff_imp]
    intro bound
    -- A name that was never used has no slot and so no value.
    apply Classical.byContradiction
    intro unused
    rw [value?, lookup?_eq, if_neg unused] at bound
    cases bound
  nodup_definedNames := by
    rw [definedNames_eq]
    exact table.nodup_names.filter _

theorem permanent {table : Globals} (found : table.lookup? name = some slot) :
    table.Permanent name slot := by
  have placed := lookup?_iff.1 found
  have named : table.nameAt slot = name := by
    rw [nameAt_eq, placed]
    rfl
  have value : table.valueAt? slot = table.value? name := by
    rw [valueAt?_eq, placed]
    rfl
  have got : table.get slot = match table.value? name with
      | some v => .ok v
      | none => .error (.unbound name) := get_eq value named
  refine ⟨intern_of_lookup? found, named, ?_, got, ?_, ?_, ?_, ?_⟩
  · intro other same
    have foundOther := table.lookup?_intern other
    have here := lookup?_iff.1 (lookup?_intern_of_known found other)
    rw [same] at foundOther
    rw [lookup?_iff.1 foundOther] at here
    exact Option.some.inj here
  · intro v bound
    refine ⟨table.put slot (some v), ?_, value?_put found (some v)⟩
    unfold set isBoundAt
    rw [value]
    exact if_pos bound
  · intro v unbound
    unfold set isBoundAt
    rw [value, unbound, named]
    rfl
  · intro m store
    unfold Machine.execute
    dsimp only
    rw [got]
    cases table.value? name with
    | some v => rfl
    | none => rfl
  · intro m store v below onStack
    unfold Machine.execute set
    dsimp only
    rw [onStack]
    dsimp only
    cases table.isBoundAt slot with
    | true => rfl
    | false => rfl

end Laws

/-! ### Any operations at any time -/

/-- Names keep their places in a directory. -/
theorem prefix_names_performAll (d : Directory) (ops : List Op) :
    d.names <+: (d.performAll ops).2.names := by
  have noted : ∀ (d : Directory) name, d.names <+: (d.note name).names := by
    intro d name
    unfold Directory.note
    split
    · exact List.prefix_refl _
    · exact List.prefix_append _ _
  have step : ∀ (d : Directory) op, d.names <+: (d.perform op).2.names := by
    intro d op
    cases op with
    | intern name => exact noted d name
    | define name v => exact noted d name
    | defineSelf name =>
        unfold Directory.perform
        dsimp only
        split
        · exact List.prefix_refl _
        · exact noted d name
    | set slot v =>
        unfold Directory.perform
        dsimp only
        split
        · exact List.prefix_refl _
        · exact List.prefix_refl _
    | _ => exact List.prefix_refl _
  induction ops generalizing d with
  | nil => exact List.prefix_refl _
  | cons op rest ih => exact (step d op).trans (ih _)

/-- A slot that a name has been given stays its slot. -/
theorem lookup?_performAll {table : Globals I} {name : String} {slot : Slot}
    (found : table.lookup? name = some slot) (ops : List Op) :
    (table.performAll ops).2.lookup? name = some slot := by
  have stands := (table.represents_directory.performAll ops).2
  obtain ⟨further, isNames⟩ := prefix_names_performAll table.directory ops
  have placed := lookup?_iff.1 found
  have inside := (List.getElem?_eq_some_iff.1 placed).1
  rw [lookup?_iff, stands.names_eq, ← isNames]
  exact (List.getElem?_append_left inside).trans placed

/-- The table of globals is a map with permanent slots, over any interner. After any operations it
stands for the directory that they lead to, and each of them was answered as it is on the directory.
A global that is linked then has the slot of its name, and after any further operations that slot is
still the name's and no other's, and acts on what the name is bound to. -/
theorem refines_directory (ops : List Op) :
    (∀ (I : Type) [Interner I],
      let table := (performAll ({} : Globals I) ops).2
      (performAll ({} : Globals I) ops).1 = (Directory.performAll {} ops).1 ∧
        table.Represents (Directory.performAll {} ops).2 ∧ table.IsMap) ∧
    let table := (performAll ({} : Globals) ops).2
    ∀ name, ∃ slot linked,
      (∀ (source : Link.Source) stamps, (source.global (.symbol name)).run ⟨table, stamps⟩ =
        (.ok ⟨name, slot⟩, ⟨linked, stamps⟩)) ∧
      table.intern name = (slot, linked) ∧
      ∀ later, (linked.performAll later).2.Permanent name slot := by
  constructor
  · intro I _ table
    obtain ⟨sameAnswers, stands⟩ := (represents_empty (I := I)).performAll ops
    exact ⟨sameAnswers, stands, table.isMap⟩
  · intro table name
    refine ⟨(table.intern name).1, (table.intern name).2, fun _ _ => rfl, rfl, fun later => ?_⟩
    exact permanent (lookup?_performAll (table.lookup?_intern name) later)

end Globals

end ActorMachine
