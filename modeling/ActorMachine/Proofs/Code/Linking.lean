import ActorMachine.Code.Link
import ActorMachine.Proofs.Code.Listings
import ActorMachine.Proofs.Globals.Tables
import ActorMachine.Proofs.Native.Actions
import Mathlib.Logic.Relation

set_option autoImplicit false

/-!
What linking makes.

Counts and coordinates of linked code fit an index, its globals have the slots that the table gives
their names, and its natives are those that the table of natives has under their names. Names keep
their slots while linking goes on, so this holds in the table that linking leaves. Code that stands
for itself in a listing was not linked from it, and nothing is said about it.
-/

namespace ActorMachine

open Argument

namespace Globals

/-- Names keep their slots. -/
def Extends (before after : Globals) : Prop :=
  ∀ name slot, before.lookup? name = some slot → after.lookup? name = some slot

theorem Extends.refl (globals : Globals) : globals.Extends globals := fun _ _ => id

theorem Extends.trans {first middle last : Globals} (left : first.Extends middle)
    (right : middle.Extends last) : first.Extends last :=
  fun name slot found => right name slot (left name slot found)

theorem extends_intern (globals : Globals) (name : String) :
    globals.Extends (globals.intern name).2 :=
  fun _ _ known => lookup?_intern_of_known known name

end Globals

/-! ### Linked code -/

/-- The operands of an instruction are those that linking gives, the templates in it apart. -/
def Instruction.Fits (natives : NativeTable) (globals : Globals) : Instruction → Prop
  | .args n => n ≤ Number.maxIndex
  | .argsRest n => n ≤ Number.maxIndex
  | .loadLocal v => v.depth ≤ Number.maxIndex ∧ v.index ≤ Number.maxIndex
  | .storeLocal v => v.depth ≤ Number.maxIndex ∧ v.index ≤ Number.maxIndex
  | .loadGlobal g => globals.lookup? g.name = some g.slot
  | .storeGlobal g => globals.lookup? g.name = some g.slot
  | .jump label => label.pc ≤ Number.maxIndex
  | .jumpIfNil label => label.pc ≤ Number.maxIndex
  | .jumpUnlessNil label => label.pc ≤ Number.maxIndex
  | .save label => label.pc ≤ Number.maxIndex
  | .call (.fixed n) => n ≤ Number.maxIndex
  | .native n => natives.find? n.name = some n
  | .receive table => ∀ timeout ∈ table.timeout,
      (timeout.ms.isFinite && Number.atMost 0 timeout.ms) = true
  | _ => True

theorem Instruction.Fits.mono {natives : NativeTable} {before after : Globals}
    (grown : before.Extends after) {instruction : Instruction}
    (fits : instruction.Fits natives before) : instruction.Fits natives after := by
  cases instruction with
  | loadGlobal g => exact grown g.name g.slot fits
  | storeGlobal g => exact grown g.name g.slot fits
  | call args =>
      cases args with
      | fixed n => exact fits
      | spread => exact fits
  | _ => exact fits

/-- All instructions of a template, and of the templates that they hold, fit the tables. -/
inductive Template.Linked (natives : NativeTable) (globals : Globals) : Template → Prop where
  | intro {t : Template}
      (own : ∀ instruction ∈ t.code.toList, instruction.Fits natives globals)
      (nested : ∀ instruction ∈ t.code.toList, ∀ f ∈ instruction.entries,
        Linked natives globals f) :
      Linked natives globals t

theorem Template.Linked.mono {natives : NativeTable} {before after : Globals}
    (grown : before.Extends after) {t : Template} (linked : t.Linked natives before) :
    t.Linked natives after := by
  induction linked with
  | intro own _ ih =>
      exact .intro (fun instruction member => (own instruction member).mono grown) ih

/-- An instruction fits the tables, and so do all in the templates that it holds. -/
def Instruction.Linked (natives : NativeTable) (globals : Globals) (instruction : Instruction) :
    Prop :=
  instruction.Fits natives globals ∧ ∀ f ∈ instruction.entries, f.Linked natives globals

theorem Instruction.Linked.mono {natives : NativeTable} {before after : Globals}
    {instruction : Instruction} (linked : instruction.Linked natives before)
    (grown : before.Extends after) : instruction.Linked natives after :=
  ⟨linked.1.mono grown, fun f member => (linked.2 f member).mono grown⟩

/-- An instruction without templates. -/
theorem Instruction.Fits.linked {natives : NativeTable} {globals : Globals}
    {instruction : Instruction} (fits : instruction.Fits natives globals)
    (none : instruction.entries = []) : instruction.Linked natives globals := by
  refine ⟨fits, ?_⟩
  rw [none]
  exact fun _ => nofun

/-- A value that is code, and stands for itself where a function is expected. -/
def Value.IsLive : Value → Prop
  | .template _ => True
  | .function _ => True
  | _ => False

instance : DecidablePred Value.IsLive
  | .template _ | .function _ => .isTrue trivial
  | .nil | .symbol _ | .number _ | .string _ | .pair _ | .cell _ | .array _ | .process _ =>
      .isFalse id

namespace Store

variable {store : Store}

theorem spine_nil (store : Store) : store.spine .nil = .proper [] := by
  unfold spine spineFrom
  rfl

theorem carAt_holds (holds : Value → Prop) (nil : holds .nil)
    (each : ∀ pair ∈ store.pairs, holds pair.1) (ref : Ref) : holds (store.carAt ref) := by
  unfold carAt pairAt
  by_cases inside : ref < store.pairs.size
  · rw [Array.getD, dif_pos inside]
    exact each _ (Array.getElem_mem inside)
  · rw [Array.getD, dif_neg inside]
    exact nil

/-- The items of a list are first parts of pairs. -/
theorem spineFrom_holds (holds : Value → Prop) (each : ∀ ref, holds (store.carAt ref)) {fuel : Nat}
    {seen items : List Value} {x : Value} (isList : store.spineFrom fuel seen x = .proper items)
    (before : ∀ item ∈ seen, holds item) : ∀ item ∈ items, holds item := by
  fun_induction spineFrom with
  | case1 fuel seen =>
      cases isList
      exact fun item member => before item (List.mem_reverse.1 member)
  | case2 => cases isList
  | case3 seen fuel ref ih =>
      refine ih isList fun item member => ?_
      rcases List.mem_cons.1 member with rfl | earlier
      · exact each ref
      · exact before item earlier
  | case4 => cases isList

end Store

namespace Link

/-! ### Function positions -/

namespace Source

variable (source : Source)

/-- The listings of the instructions in a function listing. -/
inductive Lists (x : Value) : List Value → Prop where
  | short {code} (isShort : source.isCode x = true)
      (items : source.store.spine ((source.store.cdr? x).getD .nil) = .proper code) : Lists x code
  | long {slots slot key body code} (isLong : source.isCode x = false)
      (isList : source.store.spine x = .proper slots)
      (first : slots.find? source.isCode = some slot)
      (isSlot : source.store.spine slot = .proper [key, body])
      (items : source.store.spine body = .proper code) : Lists x code

/-- The values that stand where an instruction has a function. -/
inductive HoldsFunction (x : Value) : Value → Prop where
  | function {f} (items : source.store.spine x = .proper [.opcode .function, f]) :
      HoldsFunction x f
  | receiver {receivers more entries entry tag f}
      (items : source.store.spine x = .proper (.opcode .receive :: receivers :: more))
      (isTable : source.store.spine receivers = .proper entries) (isEntry : entry ∈ entries)
      (parts : source.store.spine entry = .proper [tag, f]) : HoldsFunction x f
  | timeout {receivers timeout ms f}
      (items : source.store.spine x = .proper [.opcode .receive, receivers, timeout])
      (parts : source.store.spine timeout = .proper [ms, f]) : HoldsFunction x f

/-- A function listing has the other value in function position in one of its instructions. -/
def Encloses (x f : Value) : Prop :=
  ∃ code instruction, source.Lists x code ∧ instruction ∈ code ∧ source.HoldsFunction instruction f

/-- A listing without live code in function position, at any depth. -/
def Plain (x : Value) : Prop := ∀ f, Relation.ReflTransGen source.Encloses x f → ¬f.IsLive

variable {source}

theorem HoldsFunction.item {x f : Value} (holds : source.HoldsFunction x f) :
    ∃ y items, source.store.spine y = .proper items ∧ f ∈ items := by
  cases holds with
  | function items => exact ⟨x, _, items, List.mem_cons_of_mem _ List.mem_cons_self⟩
  | receiver _ _ _ parts => exact ⟨_, _, parts, List.mem_cons_of_mem _ List.mem_cons_self⟩
  | timeout _ parts => exact ⟨_, _, parts, List.mem_cons_of_mem _ List.mem_cons_self⟩

/-- Where no pair holds live code, no listing has any: for instance in a store that was read from
text. -/
theorem plain_of_pairs (each : ∀ pair ∈ source.store.pairs, ¬pair.1.IsLive) {x : Value}
    (notLive : ¬x.IsLive) : source.Plain x := by
  intro f leads
  cases leads with
  | refl => exact notLive
  | tail _ encloses =>
      obtain ⟨_, _, _, _, holds⟩ := encloses
      obtain ⟨y, items, isList, member⟩ := holds.item
      exact Store.spineFrom_holds (¬·.IsLive) (Store.carAt_holds (¬·.IsLive) id each) isList
        (fun _ => nofun) f member

end Source

/-! ### Steps of linking -/

section Ensures

variable {α β : Type}

/-- Whatever a step of linking that starts with the given table comes to, names keep their slots,
and the result has the property in the table that is left. -/
def Ensures (globals : Globals) (act : LinkM α) (holds : Globals → α → Prop) : Prop :=
  ∀ stamps a after, act.run ⟨globals, stamps⟩ = (.ok a, after) →
    globals.Extends after.globals ∧ holds after.globals a

variable {globals : Globals} {holds : Globals → α → Prop}

theorem ensures_pure {a : α} (fact : holds globals a) : Ensures globals (pure a) holds := by
  intro stamps b after done
  cases done
  exact ⟨.refl _, fact⟩

theorem ensures_throw (failure : Failure) : Ensures globals (throw failure) holds := by
  intro stamps a after done
  cases done

theorem Ensures.imp {act : LinkM α} {result : Globals → α → Prop}
    (first : Ensures globals act holds)
    (weaken : ∀ a middle, globals.Extends middle → holds middle a → result middle a) :
    Ensures globals act result := by
  intro stamps a after done
  obtain ⟨grown, fact⟩ := first stamps a after done
  exact ⟨grown, weaken a after.globals grown fact⟩

theorem Ensures.bind {act : LinkM α} {next : α → LinkM β} {result : Globals → β → Prop}
    (first : Ensures globals act holds)
    (rest : ∀ a middle, globals.Extends middle → holds middle a →
      Ensures middle (next a) result) : Ensures globals (act >>= next) result := by
  intro stamps b after done
  rw [run_bind] at done
  cases ran : act.run ⟨globals, stamps⟩ with
  | mk outcome middle =>
      rw [ran] at done
      cases outcome with
      | error failure => cases done
      | ok a =>
          obtain ⟨grown, fact⟩ := first stamps a middle ran
          obtain ⟨further, conclusion⟩ :=
            rest a middle.globals grown fact middle.stamps b after done
          exact ⟨grown.trans further, conclusion⟩

/-- A step whose result is put into place. -/
theorem Ensures.map {act : LinkM α} {f : α → β} {result : Globals → β → Prop}
    (first : Ensures globals act holds) (put : ∀ a middle, holds middle a → result middle (f a)) :
    Ensures globals (act >>= fun a => pure (f a)) result :=
  first.bind fun a middle _ fact => ensures_pure (put a middle fact)

theorem ensures_mapM {f : α → LinkM β} {each : Globals → β → Prop}
    (mono : ∀ {b before after}, each before b → Globals.Extends before after → each after b)
    {items : List α} (steps : ∀ item ∈ items, ∀ globals, Ensures globals (f item) each)
    (globals : Globals) :
    Ensures globals (items.mapM f) fun globals results => ∀ b ∈ results, each globals b := by
  induction items generalizing globals with
  | nil => exact ensures_pure fun _ => nofun
  | cons item items ih =>
      rw [List.mapM_cons]
      refine (steps item List.mem_cons_self globals).bind fun b middle _ first => ?_
      have rest := ih (fun other member => steps other (List.mem_cons_of_mem _ member)) middle
      refine rest.bind fun results after grown all => ensures_pure ?_
      intro other member
      rcases List.mem_cons.1 member with rfl | later
      · exact mono first grown
      · exact all other later

end Ensures

namespace Source

variable {source : Source} {globals : Globals}

theorem ensures_malformed {α : Type} {holds : Globals → α → Prop} (what : Malformation)
    (x : Value) : Ensures globals (source.malformed what x) holds :=
  ensures_throw _

theorem ensures_index (x : Value) :
    Ensures globals (source.index x) fun _ n => n ≤ Number.maxIndex := by
  unfold index
  split
  · rename_i n isIndex
    apply ensures_pure
    cases x with
    | number x =>
        change x.index? = some n at isIndex
        unfold Number.index? at isIndex
        split at isIndex
        · cases isIndex
        · split at isIndex
          · cases isIndex
            assumption
          · cases isIndex
    | _ => cases isIndex
  · exact ensures_malformed _ _

theorem ensures_name (x : Value) :
    Ensures globals (source.name x) fun _ name => x = .symbol name := by
  unfold name
  cases x with
  | symbol name => exact ensures_pure rfl
  | _ => exact ensures_malformed _ _

theorem ensures_itemsOr {x : Value} {improper : LinkM (List Value)}
    (fails : ∀ holds, Ensures globals improper holds) :
    Ensures globals (source.itemsOr x improper) fun _ items =>
      source.store.spine x = .proper items := by
  unfold itemsOr
  cases source.store.spine x with
  | proper items => exact ensures_pure rfl
  | improper => exact fails _
  | circular => exact ensures_throw _

theorem ensures_items (x : Value) :
    Ensures globals (source.items x) fun _ items => source.store.spine x = .proper items :=
  ensures_itemsOr fun _ => ensures_throw _

theorem ensures_codeOf (x : Value) :
    Ensures globals (source.codeOf x) fun _ code => source.Lists x code := by
  unfold codeOf
  split
  · rename_i isShort
    exact (ensures_items _).imp fun _ _ _ items => .short isShort items
  · rename_i isLong
    refine (ensures_itemsOr fun _ => ensures_malformed _ _).bind fun slots middle _ isList => ?_
    cases first : slots.find? source.isCode with
    | none => exact ensures_malformed _ _
    | some slot =>
        refine (ensures_items slot).bind fun parts middle _ isSlot => ?_
        split
        · exact (ensures_items _).imp fun _ _ _ items =>
            .long (Bool.eq_false_iff.2 isLong) isList first isSlot items
        · exact ensures_malformed _ _

theorem ensures_localVariable (depth index : Value) (name : Option Value) :
    Ensures globals (source.localVariable depth index name) fun _ v =>
      v.depth ≤ Number.maxIndex ∧ v.index ≤ Number.maxIndex := by
  unfold localVariable
  refine (ensures_index depth).bind fun depth _ _ depthFits => ?_
  refine (ensures_index index).bind fun index _ _ indexFits => ?_
  cases name with
  | none => exact ensures_pure ⟨depthFits, indexFits⟩
  | some name => exact (ensures_name name).map fun _ _ _ => ⟨depthFits, indexFits⟩

theorem ensures_global (x : Value) :
    Ensures globals (source.global x) fun globals g => globals.lookup? g.name = some g.slot := by
  unfold global
  refine (ensures_name x).bind fun name middle _ _ => ?_
  intro stamps g after done
  cases done
  exact ⟨middle.extends_intern name, middle.lookup?_intern name⟩

theorem ensures_label (x : Value) (operands : List Value) :
    Ensures globals (source.label x operands) fun _ label => label.pc ≤ Number.maxIndex := by
  unfold label
  split
  · exact (ensures_name _).bind fun _ _ _ _ => (ensures_index _).map fun _ _ fits => fits
  · exact (ensures_index _).map fun _ _ fits => fits
  · exact ensures_malformed _ _

theorem ensures_native (x : Value) :
    Ensures globals (source.native x) fun _ native =>
      source.natives.find? native.name = some native := by
  unfold native
  refine (ensures_name x).bind fun name _ _ _ => ?_
  cases found : source.natives.find? name with
  | none => exact ensures_throw _
  | some native =>
      apply ensures_pure
      have isNamed := List.find?_some found
      have sameName : native.name = name := beq_iff_eq.1 isNamed
      rw [sameName]
      exact found

section Functions

variable {function : Value → LinkM Template}

/-- What stands in a function position is linked to code that fits the tables. -/
def Links (source : Source) (function : Value → LinkM Template) (f : Value) : Prop :=
  ∀ globals, Ensures globals (function f) fun globals t => t.Linked source.natives globals

/-- The code in an entry of a receive table is linked if what stands there is. -/
theorem ensures_receiver {x : Value}
    (each : ∀ tag f, source.store.spine x = .proper [tag, f] → source.Links function f) :
    Ensures globals (source.receiver function x) fun globals receiver =>
      receiver.entry.Linked source.natives globals := by
  unfold receiver
  refine (ensures_items x).bind fun items _ _ isList => ?_
  split
  · rename_i tag f
    refine (ensures_name tag).bind fun tag middle _ _ => ?_
    exact (each _ f isList middle).map fun _ _ linked => linked
  · exact ensures_malformed _ _

theorem ensures_timeout {x : Value}
    (each : ∀ ms f, source.store.spine x = .proper [ms, f] → source.Links function f) :
    Ensures globals (source.timeout function x) fun globals found => ∀ timeout ∈ found,
      (timeout.ms.isFinite && Number.atMost 0 timeout.ms) = true ∧
        timeout.entry.Linked source.natives globals := by
  unfold timeout
  split
  · exact ensures_pure fun _ => nofun
  · refine (ensures_items x).bind fun items middle _ isList => ?_
    split
    · rename_i ms f
      split
      · rename_i inRange
        refine (each _ f isList middle).map fun t after linked => ?_
        rintro timeout ⟨⟩
        exact ⟨inRange, linked⟩
      · exact ensures_malformed _ _
    · exact ensures_malformed _ _

theorem ensures_receiveTable {x receivers timeout : Value} {more : List Value}
    (items : source.store.spine x = .proper (.opcode .receive :: receivers :: more))
    (isTimeout : timeout = .nil ∨ more = [timeout])
    (each : ∀ f, source.HoldsFunction x f → source.Links function f) :
    Ensures globals (source.receiveTable function receivers timeout) fun globals table =>
      (Instruction.receive table).Linked source.natives globals := by
  unfold receiveTable
  refine (ensures_items receivers).bind fun entries middle _ isTable => ?_
  have eachReceiver : ∀ entry ∈ entries, ∀ globals,
      Ensures globals (source.receiver function entry) fun globals receiver =>
        receiver.entry.Linked source.natives globals := by
    intro entry isEntry globals
    exact ensures_receiver fun tag f parts => each f (.receiver items isTable isEntry parts)
  refine (ensures_mapM (fun linked grown => linked.mono grown) eachReceiver middle).bind
    fun receivers middle _ linkedReceivers => ?_
  have atTimeout : ∀ ms f, source.store.spine timeout = .proper [ms, f] →
      source.Links function f := by
    intro ms f parts
    rcases isTimeout with rfl | rfl
    · rw [Store.spine_nil] at parts
      cases parts
    · exact each f (.timeout items parts)
  -- The receivers were linked first, and names met in the timeout may have slots since then.
  refine (ensures_timeout atTimeout).bind fun found after grown linkedTimeout => ensures_pure ?_
  refine ⟨fun timeout member => (linkedTimeout timeout member).1, ?_⟩
  intro f member
  rcases List.mem_append.1 member with inReceivers | inTimeout
  · obtain ⟨receiver, isReceiver, rfl⟩ := List.mem_map.1 inReceivers
    exact (linkedReceivers receiver isReceiver).mono grown
  · obtain ⟨timeout, isFound, rfl⟩ := Option.map_eq_some_iff.1 (Option.mem_toList.1 inTimeout)
    exact (linkedTimeout timeout isFound).2

theorem ensures_operation {x : Value} {opcode : Opcode} {operands : List Value}
    (items : source.store.spine x = .proper (.opcode opcode :: operands))
    (each : ∀ f, source.HoldsFunction x f → source.Links function f) :
    Ensures globals (source.operation function x opcode operands) fun globals instruction =>
      instruction.Linked source.natives globals := by
  unfold operation
  -- One case for each opcode and number of operands that there is, and the last for all others.
  split
  · exact (ensures_index _).map fun _ _ fits => Instruction.Fits.linked fits rfl
  · exact (ensures_index _).map fun _ _ fits => Instruction.Fits.linked fits rfl
  · exact (ensures_localVariable _ _ _).map fun _ _ fits => Instruction.Fits.linked fits rfl
  · exact (ensures_localVariable _ _ _).map fun _ _ fits => Instruction.Fits.linked fits rfl
  · exact (ensures_localVariable _ _ _).map fun _ _ fits => Instruction.Fits.linked fits rfl
  · exact (ensures_localVariable _ _ _).map fun _ _ fits => Instruction.Fits.linked fits rfl
  · exact (ensures_global _).map fun _ _ fits => Instruction.Fits.linked fits rfl
  · exact (ensures_global _).map fun _ _ fits => Instruction.Fits.linked fits rfl
  · exact ensures_pure (Instruction.Fits.linked trivial rfl)
  · exact ensures_pure (Instruction.Fits.linked trivial rfl)
  · exact (ensures_label _ _).map fun _ _ fits => Instruction.Fits.linked fits rfl
  · exact (ensures_label _ _).map fun _ _ fits => Instruction.Fits.linked fits rfl
  · exact (ensures_label _ _).map fun _ _ fits => Instruction.Fits.linked fits rfl
  · exact (ensures_label _ _).map fun _ _ fits => Instruction.Fits.linked fits rfl
  · exact ensures_pure (Instruction.Fits.linked trivial rfl)
  · split
    · split
      · exact ensures_pure (Instruction.Fits.linked trivial rfl)
      · exact (ensures_index _).map fun _ _ fits => Instruction.Fits.linked fits rfl
    · exact (ensures_index _).map fun _ _ fits => Instruction.Fits.linked fits rfl
  · rename_i f
    refine (each f (.function items) globals).map fun t _ linked => ⟨trivial, ?_⟩
    intro g member
    cases List.mem_singleton.1 member
    exact linked
  · exact (ensures_native _).map fun _ _ fits => Instruction.Fits.linked fits rfl
  · exact ensures_pure (Instruction.Fits.linked trivial rfl)
  · exact (ensures_receiveTable items (.inl rfl) each).map fun _ _ linked => linked
  · exact (ensures_receiveTable items (.inr rfl) each).map fun _ _ linked => linked
  · exact ensures_malformed _ _

theorem ensures_instruction {x : Value}
    (each : ∀ f, source.HoldsFunction x f → source.Links function f) :
    Ensures globals (source.instruction function x) fun globals instruction =>
      instruction.Linked source.natives globals := by
  unfold instruction
  refine (ensures_itemsOr fun _ => ensures_malformed _ _).bind fun items middle _ isList => ?_
  cases items with
  | nil => exact ensures_malformed _ _
  | cons opcode operands =>
      cases opcode with
      | symbol name =>
          dsimp only [Value.symbol?]
          cases known : Opcode.ofName? name with
          | none => exact ensures_malformed _ _
          | some opcode =>
              have isNamed := List.find?_some known
              have sameName : opcode.name = name := beq_iff_eq.1 isNamed
              rw [← sameName] at isList
              exact ensures_operation isList each
      | _ => exact ensures_malformed _ _

end Functions

theorem ensures_template (code : List Instruction) :
    Ensures globals (template code) fun _ t => t.code.toList = code := by
  intro stamps t after done
  cases done
  exact ⟨.refl _, rfl⟩

theorem Plain.encloses {x f : Value} (plain : source.Plain x) (encloses : source.Encloses x f) :
    source.Plain f :=
  fun g leads => plain g (.head encloses leads)

theorem function_zero {x : Value} (notLive : ¬x.IsLive) :
    source.function 0 x = throw .endless := by
  cases x with
  | template t => exact absurd trivial notLive
  | function f => exact absurd trivial notLive
  | _ => rfl

/-- How a listing is linked, unless it is code that stands for itself. -/
theorem function_succ {x : Value} (notLive : ¬x.IsLive) (depth : Nat) :
    source.function (depth + 1) x = (do
      let code ← source.codeOf x
      template (← code.mapM (source.instruction (source.function depth)))) := by
  cases x with
  | template t => exact absurd trivial notLive
  | function f => exact absurd trivial notLive
  | _ => rfl

/-- What is linked from a listing without live code in function position fits the tables. -/
theorem links_function (depth : Nat) {x : Value} (plain : source.Plain x) :
    source.Links (source.function depth) x := by
  induction depth generalizing x with
  | zero =>
      intro globals
      rw [function_zero (plain x .refl)]
      exact ensures_throw _
  | succ depth ih =>
      intro globals
      rw [function_succ (plain x .refl)]
      refine (ensures_codeOf x).bind fun listings middle _ lists => ?_
      have each : ∀ listing ∈ listings, ∀ globals,
          Ensures globals (source.instruction (source.function depth) listing)
            fun globals instruction => instruction.Linked source.natives globals := by
        intro listing isListing globals
        apply ensures_instruction
        intro f holds
        exact ih (plain.encloses ⟨listings, listing, lists, isListing, holds⟩)
      refine (ensures_mapM (fun linked grown => linked.mono grown) each middle).bind
        fun code middle _ linked => ?_
      refine (ensures_template code).imp fun t after grown isCode => ?_
      have linkedCode : ∀ instruction ∈ t.code.toList,
          instruction.Linked source.natives after := by
        rw [isCode]
        exact fun instruction member => (linked instruction member).mono grown
      exact .intro (fun instruction member => (linkedCode instruction member).1)
        fun instruction member => (linkedCode instruction member).2

end Source

end Link

end ActorMachine
