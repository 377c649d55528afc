import ActorMachine.Proofs.Code.Linking
import ActorMachine.Proofs.Native.Endings

set_option autoImplicit false

/-!
Linking ends, or it never does.

Linking walks the lists that a listing is made of, and goes from a function to those in it. A
listing without circles is linked or found wrong, because what is in it is less high than the
listing itself. A circular listing is never done with. Main statements: `ends_function` and
`function_of_circular`.
-/

namespace ActorMachine.Link

open Argument

namespace Source

variable {source : Source}

/-! ### What is in a listing -/

theorem Lists.below {x : Value} {code : List Value} {bound : Nat} (lists : source.Lists x code)
    (below : source.store.Below (bound + 1) x) : ∀ item ∈ code, source.store.Below bound item := by
  intro item member
  cases lists with
  | short isShort items =>
      cases x with
      | pair ref => exact below.part.2.item items member
      | _ => cases isShort
  | long _ isList first isSlot items =>
      have slot := below.items isList _ (List.mem_of_find?_eq_some first)
      have body := slot.item isSlot (List.mem_cons_of_mem _ List.mem_cons_self)
      exact body.item items member

theorem HoldsFunction.below {x f : Value} {bound : Nat} (holds : source.HoldsFunction x f)
    (below : source.store.Below bound x) : source.store.Below bound f := by
  have second : ∀ {v : Value} {rest : List Value}, f ∈ v :: f :: rest :=
    List.mem_cons_of_mem _ List.mem_cons_self
  cases holds with
  | function items => exact below.item items second
  | receiver items isTable isEntry parts =>
      have table := below.item items (List.mem_cons_of_mem _ List.mem_cons_self)
      exact (table.item isTable isEntry).item parts second
  | timeout items parts =>
      have entry := below.item items
        (List.mem_cons_of_mem _ (List.mem_cons_of_mem _ List.mem_cons_self))
      exact entry.item parts second

/-! ### Steps of linking -/

theorem ends_malformed {α : Type} (what : Malformation) (x : Value) :
    Ends (source.malformed what x : LinkM α) :=
  fun _ => nofun

theorem ends_index (x : Value) : Ends (source.index x) := by
  unfold index
  split
  · exact ends_pure _
  · exact ends_malformed _ _

theorem ends_name (x : Value) : Ends (source.name x) := by
  unfold name
  split
  · exact ends_pure _
  · exact ends_malformed _ _

/-- A step whose result is known to have a property, and the steps after it. -/
theorem ends_bind {α β : Type} {act : LinkM α} {next : α → LinkM β} {holds : Globals → α → Prop}
    (first : Ends act) (ensures : ∀ globals, Ensures globals act holds)
    (rest : ∀ a globals, holds globals a → Ends (next a)) : Ends (act >>= next) := by
  intro state
  refine (first state).bind fun a after done => ?_
  exact rest a after.globals (ensures state.globals state.stamps a after done).2 after

theorem ends_mapM {α β : Type} {f : α → LinkM β} {items : List α}
    (each : ∀ item ∈ items, Ends (f item)) : Ends (items.mapM f) := by
  induction items with
  | nil => exact ends_pure _
  | cons item items ih =>
      rw [List.mapM_cons]
      refine (each item List.mem_cons_self).bind fun b => ?_
      have rest := ih fun other member => each other (List.mem_cons_of_mem _ member)
      exact rest.bind fun _ => ends_pure _

theorem ends_itemsOr {x : Value} {improper : LinkM (List Value)}
    (acyclic : source.store.Acyclic x) (ends : Ends improper) :
    Ends (source.itemsOr x improper) := by
  unfold itemsOr
  cases walked : source.store.spine x with
  | proper items => exact ends_pure _
  | improper => exact ends
  | circular => exact absurd walked acyclic.spine_ne_circular

theorem ends_items {x : Value} (acyclic : source.store.Acyclic x) : Ends (source.items x) :=
  ends_itemsOr acyclic fun _ => nofun

theorem acyclic_nil (store : Store) : store.Acyclic .nil := ⟨.leaf .nil, nofun, rfl⟩

theorem ends_codeOf {x : Value} (acyclic : source.store.Acyclic x) : Ends (source.codeOf x) := by
  unfold codeOf
  split
  · apply ends_items
    cases x with
    | pair ref => exact acyclic.below.part.2.acyclic
    | _ => exact acyclic_nil _
  · refine ends_bind (ends_itemsOr acyclic (ends_malformed _ _))
      (fun _ => ensures_itemsOr fun _ => ensures_malformed _ _) fun slots _ isList => ?_
    cases first : slots.find? source.isCode with
    | none => exact ends_malformed _ _
    | some slot =>
        have slotAcyclic := acyclic.item isList (List.mem_of_find?_eq_some first)
        refine ends_bind (ends_items slotAcyclic) (fun _ => ensures_items slot)
          fun parts _ isSlot => ?_
        split
        · exact ends_items (slotAcyclic.item isSlot (List.mem_cons_of_mem _ List.mem_cons_self))
        · exact ends_malformed _ _

theorem ends_localVariable (depth index : Value) (name : Option Value) :
    Ends (source.localVariable depth index name) := by
  unfold localVariable
  refine (ends_index depth).bind fun _ => (ends_index index).bind fun _ => ?_
  split
  · exact ends_pure _
  · exact (ends_name _).bind fun _ => ends_pure _

theorem ends_global (x : Value) : Ends (source.global x) := by
  unfold global
  refine (ends_name x).bind fun _ => Ends.bind ?_ fun _ => ends_pure _
  exact fun _ => nofun

theorem ends_label (x : Value) (operands : List Value) : Ends (source.label x operands) := by
  unfold label
  split
  · exact (ends_name _).bind fun _ => (ends_index _).bind fun _ => ends_pure _
  · exact (ends_index _).bind fun _ => ends_pure _
  · exact ends_malformed _ _

theorem ends_native (x : Value) : Ends (source.native x) := by
  unfold native
  refine (ends_name x).bind fun name => ?_
  split
  · exact ends_pure _
  · exact fun _ => nofun

theorem ends_template (code : List Instruction) : Ends (template code) := fun _ => nofun

section Functions

variable {function : Value → LinkM Template} {x : Value}

theorem ends_receiver (acyclic : source.store.Acyclic x)
    (each : ∀ tag f, source.store.spine x = .proper [tag, f] → Ends (function f)) :
    Ends (source.receiver function x) := by
  unfold receiver
  refine ends_bind (ends_items acyclic) (fun _ => ensures_items x) fun items _ isList => ?_
  split
  · rename_i tag f
    exact (ends_name _).bind fun _ => (each _ f isList).bind fun _ => ends_pure _
  · exact ends_malformed _ _

theorem ends_timeout (acyclic : source.store.Acyclic x)
    (each : ∀ ms f, source.store.spine x = .proper [ms, f] → Ends (function f)) :
    Ends (source.timeout function x) := by
  unfold timeout
  split
  · exact ends_pure _
  · refine ends_bind (ends_items acyclic) (fun _ => ensures_items x) fun items _ isList => ?_
    split
    · rename_i ms f
      split
      · exact (each _ f isList).bind fun _ => ends_pure _
      · exact ends_malformed _ _
    · exact ends_malformed _ _

theorem ends_receiveTable {receivers timeout : Value} {more : List Value}
    (items : source.store.spine x = .proper (.opcode .receive :: receivers :: more))
    (isTimeout : timeout = .nil ∨ more = [timeout]) (acyclic : source.store.Acyclic x)
    (each : ∀ f, source.HoldsFunction x f → Ends (function f)) :
    Ends (source.receiveTable function receivers timeout) := by
  unfold receiveTable
  have table := acyclic.item items (List.mem_cons_of_mem _ List.mem_cons_self)
  refine ends_bind (ends_items table) (fun _ => ensures_items receivers) fun entries _ isTable => ?_
  refine (ends_mapM fun entry isEntry => ?_).bind fun receivers => ?_
  · exact ends_receiver (table.item isTable isEntry) fun tag f parts =>
      each f (.receiver items isTable isEntry parts)
  · refine Ends.bind ?_ fun _ => ends_pure _
    rcases isTimeout with rfl | rfl
    · exact ends_pure _
    · exact ends_timeout
        (acyclic.item items (List.mem_cons_of_mem _ (List.mem_cons_of_mem _ List.mem_cons_self)))
        fun ms f parts => each f (.timeout items parts)

theorem ends_operation {opcode : Opcode} {operands : List Value}
    (items : source.store.spine x = .proper (.opcode opcode :: operands))
    (acyclic : source.store.Acyclic x)
    (each : ∀ f, source.HoldsFunction x f → Ends (function f)) :
    Ends (source.operation function x opcode operands) := by
  unfold operation
  -- One case for each opcode and number of operands that there is, and the last for all others.
  split
  · exact (ends_index _).bind fun _ => ends_pure _
  · exact (ends_index _).bind fun _ => ends_pure _
  · exact (ends_localVariable _ _ _).bind fun _ => ends_pure _
  · exact (ends_localVariable _ _ _).bind fun _ => ends_pure _
  · exact (ends_localVariable _ _ _).bind fun _ => ends_pure _
  · exact (ends_localVariable _ _ _).bind fun _ => ends_pure _
  · exact (ends_global _).bind fun _ => ends_pure _
  · exact (ends_global _).bind fun _ => ends_pure _
  · exact ends_pure _
  · exact ends_pure _
  · exact (ends_label _ _).bind fun _ => ends_pure _
  · exact (ends_label _ _).bind fun _ => ends_pure _
  · exact (ends_label _ _).bind fun _ => ends_pure _
  · exact (ends_label _ _).bind fun _ => ends_pure _
  · exact ends_pure _
  · split
    · split
      · exact ends_pure _
      · exact (ends_index _).bind fun _ => ends_pure _
    · exact (ends_index _).bind fun _ => ends_pure _
  · exact (each _ (.function items)).bind fun _ => ends_pure _
  · exact (ends_native _).bind fun _ => ends_pure _
  · exact ends_pure _
  · exact (ends_receiveTable items (.inl rfl) acyclic each).bind fun _ => ends_pure _
  · exact (ends_receiveTable items (.inr rfl) acyclic each).bind fun _ => ends_pure _
  · exact ends_malformed _ _

theorem ends_instruction (acyclic : source.store.Acyclic x)
    (each : ∀ f, source.HoldsFunction x f → Ends (function f)) :
    Ends (source.instruction function x) := by
  unfold instruction
  refine ends_bind (ends_itemsOr acyclic (ends_malformed _ _))
    (fun _ => ensures_itemsOr fun _ => ensures_malformed _ _) fun items _ isList => ?_
  cases items with
  | nil => exact ends_malformed _ _
  | cons opcode operands =>
      cases opcode with
      | symbol name =>
          dsimp only [Value.symbol?]
          cases known : Opcode.ofName? name with
          | none => exact ends_malformed _ _
          | some opcode =>
              have isNamed := List.find?_some known
              have sameName : opcode.name = name := beq_iff_eq.1 isNamed
              rw [← sameName] at isList
              exact ends_operation isList acyclic each
      | _ => exact ends_malformed _ _

end Functions

/-- A listing that is less high than functions may enclose each other is linked or found wrong. -/
theorem ends_function {depth : Nat} {x : Value} (below : source.store.Below depth x) :
    Ends (source.function depth x) := by
  induction depth generalizing x with
  | zero =>
      obtain ⟨_, _, _, impossible⟩ := below
      cases impossible
  | succ depth ih =>
      by_cases live : x.IsLive
      · cases x with
        | template t => exact ends_pure t
        | function f => exact ends_pure f.template
        | _ => exact absurd live id
      · rw [function_succ live]
        refine ends_bind (ends_codeOf below.acyclic) (fun _ => ensures_codeOf x)
          fun code _ lists => ?_
        have each := lists.below below
        refine (ends_mapM fun listing member => ?_).bind fun _ => ends_template _
        exact ends_instruction (each listing member).acyclic fun f holds =>
          ih (holds.below (each listing member))

/-! ### Circular listings -/

theorem itemsOr_of_circular {x : Value} (circular : source.store.Circular x)
    (improper : LinkM (List Value)) : source.itemsOr x improper = throw .endless := by
  unfold itemsOr
  rw [Store.spine_of_endless (Store.circular_iff.1 circular)]

theorem not_isLive_of_circular {x : Value} (circular : source.store.Circular x) : ¬x.IsLive := by
  obtain ⟨ref, isPair⟩ := circular 0
  cases x with
  | pair ref => exact id
  | _ => cases isPair

/-- Linking never gets past a circular list. -/
theorem function_of_circular {depth : Nat} {x : Value} (circular : source.store.Circular x)
    (state : State) : ((source.function depth x).run state).1 = .error .endless := by
  have notLive := not_isLive_of_circular circular
  cases depth with
  | zero =>
      rw [function_zero notLive]
      rfl
  | succ depth =>
      have endless : source.codeOf x = throw .endless := by
        unfold codeOf
        split
        · obtain ⟨ref, isPair⟩ := circular 0
          cases x with
          | pair ref => exact itemsOr_of_circular circular.cdrAt _
          | _ => cases isPair
        · rw [itemsOr_of_circular circular]
          rfl
      rw [function_succ notLive, endless]
      rfl

end Source

end ActorMachine.Link
