import ActorMachine.Proofs.Globals.Bindings

set_option autoImplicit false

/-!
What linking changes.

Linking gives names slots and gives out identities, and does nothing else to the tables, whether it
succeeds or fails at any instruction of any function in a listing. So it keeps to every relation
that these two steps keep to (`keeps_function`). In particular the bindings of all names stay as
they are.
-/

namespace ActorMachine

open Argument

namespace Globals

/-- Gives slots to names, in order. -/
def internAll (table : Globals) (names : List String) : Globals :=
  names.foldl (fun table name => (table.intern name).2) table

/-- The second table comes from the first by giving slots to names, which have no value then. -/
structure Interns (before after : Globals) : Prop where
  names : ∃ names, after = before.internAll names
  /-- Names keep their slots. -/
  slot_eq : ∀ name slot, before.lookup? name = some slot → after.lookup? name = some slot
  value_eq : ∀ name, after.value? name = before.value? name
  definedNames_eq : after.definedNames = before.definedNames

theorem Interns.refl (table : Globals) : table.Interns table :=
  ⟨⟨[], rfl⟩, fun _ _ => id, fun _ => rfl, rfl⟩

theorem Interns.trans {first middle last : Globals} (left : first.Interns middle)
    (right : middle.Interns last) : first.Interns last where
  names := by
    obtain ⟨names, rfl⟩ := left.names
    obtain ⟨more, rfl⟩ := right.names
    exact ⟨names ++ more, List.foldl_append.symm⟩
  slot_eq := fun name slot found => right.slot_eq name slot (left.slot_eq name slot found)
  value_eq := fun name => (right.value_eq name).trans (left.value_eq name)
  definedNames_eq := right.definedNames_eq.trans left.definedNames_eq

theorem definedNames_intern (table : Globals) (name : String) :
    (table.intern name).2.definedNames = table.definedNames := by
  have sameValues : (table.intern name).2.value? = table.value? :=
    funext (table.value?_intern name)
  rw [definedNames_eq, definedNames_eq, sameValues, names_intern]
  split
  · rfl
  · rename_i unused
    have unbound : table.value? name = none := by rw [value?, lookup?_eq, if_neg unused]; rfl
    rw [List.filter_append, List.filter_cons_of_neg (by simp [unbound])]
    exact List.append_nil _

theorem interns_intern (table : Globals) (name : String) :
    table.Interns (table.intern name).2 where
  names := ⟨[name], rfl⟩
  slot_eq := table.extends_intern name
  value_eq := table.value?_intern name
  definedNames_eq := table.definedNames_intern name

end Globals

/-! ### Steps of linking -/

namespace Argument

variable {σ α β : Type} {related : σ → σ → Prop} [IsPreorder σ related]

theorem keeps_throw (failure : Failure) : Keeps related (throw failure : Action σ α) :=
  fun state => refl_of related state

theorem keeps_mapM {f : α → Action σ β} (each : ∀ a, Keeps related (f a)) (items : List α) :
    Keeps related (items.mapM f) := by
  induction items with
  | nil => exact keeps_pure _
  | cons item items ih =>
      rw [List.mapM_cons]
      exact (each item).bind fun _ => ih.bind fun _ => keeps_pure _

end Argument

namespace Link.Source

variable {related : State → State → Prop} [IsPreorder State related] {source : Source}

theorem keeps_malformed {α : Type} (what : Malformation) (x : Value) :
    Keeps related (source.malformed what x : LinkM α) :=
  keeps_throw _

theorem keeps_index (x : Value) : Keeps related (source.index x) := by
  unfold index
  split
  · exact keeps_pure _
  · exact keeps_malformed _ _

theorem keeps_name (x : Value) : Keeps related (source.name x) := by
  unfold name
  split
  · exact keeps_pure _
  · exact keeps_malformed _ _

theorem keeps_itemsOr {x : Value} {improper : LinkM (List Value)} (fails : Keeps related improper) :
    Keeps related (source.itemsOr x improper) := by
  unfold itemsOr
  split
  · exact keeps_pure _
  · exact fails
  · exact keeps_throw _

theorem keeps_items (x : Value) : Keeps related (source.items x) := keeps_itemsOr (keeps_throw _)

theorem keeps_codeOf (x : Value) : Keeps related (source.codeOf x) := by
  unfold codeOf
  split
  · exact keeps_items _
  · refine (keeps_itemsOr (keeps_malformed _ _)).bind fun slots => ?_
    split
    · exact keeps_malformed _ _
    · refine (keeps_items _).bind fun parts => ?_
      split
      · exact keeps_items _
      · exact keeps_malformed _ _

theorem keeps_localVariable (depth index : Value) (name : Option Value) :
    Keeps related (source.localVariable depth index name) := by
  unfold localVariable
  refine (keeps_index depth).bind fun _ => (keeps_index index).bind fun _ => ?_
  split
  · exact keeps_pure _
  · exact (keeps_name _).bind fun _ => keeps_pure _

theorem keeps_label (x : Value) (operands : List Value) :
    Keeps related (source.label x operands) := by
  unfold label
  split
  · exact (keeps_name _).bind fun _ => (keeps_index _).bind fun _ => keeps_pure _
  · exact (keeps_index _).bind fun _ => keeps_pure _
  · exact keeps_malformed _ _

theorem keeps_native (x : Value) : Keeps related (source.native x) := by
  unfold native
  refine (keeps_name x).bind fun name => ?_
  split
  · exact keeps_pure _
  · exact keeps_throw _

/-- The two steps of linking that change its state keep to a relation. -/
structure Tolerates (related : State → State → Prop) : Prop where
  intern : ∀ state name, related state { state with globals := (state.globals.intern name).2 }
  stamp : ∀ state : State, related state { state with stamps := state.stamps + 1 }

section Tolerates

variable (tolerates : Tolerates related) {function : Value → LinkM Template}
  (each : ∀ f, Keeps related (function f))
include tolerates

theorem keeps_global (x : Value) : Keeps related (source.global x) := by
  refine (keeps_name x).bind fun name => Keeps.bind ?_ fun _ => keeps_pure _
  exact fun state => tolerates.intern state name

omit [IsPreorder State related] in
theorem keeps_template (code : List Instruction) : Keeps related (template code) :=
  fun state => tolerates.stamp state

include each

omit tolerates in
theorem keeps_receiver (x : Value) : Keeps related (source.receiver function x) := by
  unfold receiver
  refine (keeps_items x).bind fun items => ?_
  split
  · exact (keeps_name _).bind fun _ => (each _).bind fun _ => keeps_pure _
  · exact keeps_malformed _ _

omit tolerates in
theorem keeps_timeout (x : Value) : Keeps related (source.timeout function x) := by
  unfold timeout
  split
  · exact keeps_pure _
  · refine (keeps_items x).bind fun items => ?_
    split
    · split
      · exact (each _).bind fun _ => keeps_pure _
      · exact keeps_malformed _ _
    · exact keeps_malformed _ _

omit tolerates in
theorem keeps_receiveTable (receivers timeout : Value) :
    Keeps related (source.receiveTable function receivers timeout) := by
  unfold receiveTable
  refine (keeps_items receivers).bind fun entries => ?_
  refine (keeps_mapM (keeps_receiver each) entries).bind fun _ => ?_
  exact (keeps_timeout each timeout).bind fun _ => keeps_pure _

theorem keeps_operation (x : Value) (opcode : Opcode) (operands : List Value) :
    Keeps related (source.operation function x opcode operands) := by
  unfold operation
  -- One case for each opcode and number of operands that there is, and the last for all others.
  split
  · exact (keeps_index _).bind fun _ => keeps_pure _
  · exact (keeps_index _).bind fun _ => keeps_pure _
  · exact (keeps_localVariable _ _ _).bind fun _ => keeps_pure _
  · exact (keeps_localVariable _ _ _).bind fun _ => keeps_pure _
  · exact (keeps_localVariable _ _ _).bind fun _ => keeps_pure _
  · exact (keeps_localVariable _ _ _).bind fun _ => keeps_pure _
  · exact (keeps_global tolerates _).bind fun _ => keeps_pure _
  · exact (keeps_global tolerates _).bind fun _ => keeps_pure _
  · exact keeps_pure _
  · exact keeps_pure _
  · exact (keeps_label _ _).bind fun _ => keeps_pure _
  · exact (keeps_label _ _).bind fun _ => keeps_pure _
  · exact (keeps_label _ _).bind fun _ => keeps_pure _
  · exact (keeps_label _ _).bind fun _ => keeps_pure _
  · exact keeps_pure _
  · split
    · split
      · exact keeps_pure _
      · exact (keeps_index _).bind fun _ => keeps_pure _
    · exact (keeps_index _).bind fun _ => keeps_pure _
  · exact (each _).bind fun _ => keeps_pure _
  · exact (keeps_native _).bind fun _ => keeps_pure _
  · exact keeps_pure _
  · exact (keeps_receiveTable each _ _).bind fun _ => keeps_pure _
  · exact (keeps_receiveTable each _ _).bind fun _ => keeps_pure _
  · exact keeps_malformed _ _

theorem keeps_instruction (x : Value) : Keeps related (source.instruction function x) := by
  unfold instruction
  refine (keeps_itemsOr (keeps_malformed _ _)).bind fun items => ?_
  split
  · exact keeps_malformed _ _
  · split
    · exact keeps_malformed _ _
    · split
      · exact keeps_operation tolerates each _ _ _
      · exact keeps_malformed _ _

omit each in
/-- Linking a listing keeps to every relation that its two steps on the state keep to, also when it
fails. -/
theorem keeps_function (depth : Nat) (x : Value) : Keeps related (source.function depth x) := by
  induction depth generalizing x with
  | zero =>
      cases x with
      | template t => exact keeps_pure _
      | function f => exact keeps_pure _
      | _ => exact keeps_throw _
  | succ depth ih =>
      by_cases live : x.IsLive
      · cases x with
        | template t => exact keeps_pure _
        | function f => exact keeps_pure _
        | _ => cases live
      · rw [function_succ live]
        refine (keeps_codeOf x).bind fun code => ?_
        exact (keeps_mapM (keeps_instruction tolerates ih) code).bind fun _ =>
          keeps_template tolerates _

end Tolerates

instance : IsPreorder State fun before after => before.globals.Interns after.globals where
  refl := fun state => .refl state.globals
  trans := fun _ _ _ left right => left.trans right

theorem tolerates_interns :
    Tolerates fun before after => before.globals.Interns after.globals where
  intern := fun state name => state.globals.interns_intern name
  stamp := fun state => .refl state.globals

end Link.Source

/-- Linking gives slots to the names in a listing and leaves all bindings as they are. -/
theorem interns_link (natives : NativeTable) (store : Store) (globals : Globals) (listing : Value) :
    globals.Interns (link natives store globals listing).2.2 :=
  Link.Source.keeps_function Link.Source.tolerates_interns _ listing ⟨globals, store.stamps⟩

end ActorMachine
