import ActorMachine.Proofs.Code.Linking
import ActorMachine.Proofs.Number.Indices
import Mathlib

set_option autoImplicit false

/-!
Listings and code say the same.

The listing of linked code is linked to the same code again, whichever of its forms the code was
linked from: the listing spells out what the short forms leave away, all names in it have their
slots already, and its counts are read back exactly. Only the identities of templates are new. Main
statement: `link_unlink`.
-/

namespace ActorMachine

/-! ### Code up to identities -/

mutual

/-- The template with all identities taken away. Constants stay as they are. -/
def Template.anonymous : Template → Template
  | ⟨_, code⟩ => ⟨.linked 0, anonymousCode code⟩
termination_by structural template => template

def anonymousCode : Array Instruction → Array Instruction
  | ⟨instructions⟩ => ⟨anonymousInstructions instructions⟩
termination_by structural code => code

def anonymousInstructions : List Instruction → List Instruction
  | [] => []
  | instruction :: rest => instruction.anonymous :: anonymousInstructions rest
termination_by structural instructions => instructions

def Instruction.anonymous : Instruction → Instruction
  | .function f => .function f.anonymous
  | .receive table => .receive table.anonymous
  | instruction => instruction
termination_by structural instruction => instruction

def ReceiveTable.anonymous : ReceiveTable → ReceiveTable
  | ⟨receivers, timeout⟩ => ⟨anonymousReceivers receivers, anonymousTimeout timeout⟩
termination_by structural table => table

def anonymousReceivers : List Receiver → List Receiver
  | [] => []
  | receiver :: rest => receiver.anonymous :: anonymousReceivers rest
termination_by structural receivers => receivers

def Receiver.anonymous : Receiver → Receiver
  | ⟨tag, entry⟩ => ⟨tag, entry.anonymous⟩
termination_by structural receiver => receiver

def anonymousTimeout : Option Timeout → Option Timeout
  | none => none
  | some timeout => some timeout.anonymous
termination_by structural timeout => timeout

def Timeout.anonymous : Timeout → Timeout
  | ⟨ms, entry⟩ => ⟨ms, entry.anonymous⟩
termination_by structural timeout => timeout

end

theorem anonymousInstructions_eq (instructions : List Instruction) :
    anonymousInstructions instructions = instructions.map Instruction.anonymous := by
  induction instructions with
  | nil => rfl
  | cons instruction rest ih => exact congrArg _ ih

theorem anonymousReceivers_eq (receivers : List Receiver) :
    anonymousReceivers receivers = receivers.map Receiver.anonymous := by
  induction receivers with
  | nil => rfl
  | cons receiver rest ih => exact congrArg _ ih

theorem Template.anonymous_eq (t : Template) :
    t.anonymous = ⟨.linked 0, (t.code.toList.map Instruction.anonymous).toArray⟩ := by
  obtain ⟨id, ⟨instructions⟩⟩ := t
  rw [← anonymousInstructions_eq]
  rfl

theorem Instruction.tree_anonymous (instruction : Instruction)
    (each : ∀ f ∈ instruction.entries, f.anonymous.tree = f.tree) :
    instruction.anonymous.tree = instruction.tree := by
  cases instruction with
  | function f =>
      have same := each f List.mem_cons_self
      change Tree.list [_, f.anonymous.tree] = Tree.list [_, f.tree]
      rw [same]
      rfl
  | receive table =>
      obtain ⟨receivers, timeout⟩ := table
      have sameReceivers : receiverTrees (anonymousReceivers receivers) =
          receiverTrees receivers := by
        rw [anonymousReceivers_eq, receiverTrees_eq, receiverTrees_eq, List.map_map]
        apply List.map_congr_left
        rintro ⟨tag, entry⟩ member
        have same := each entry
          (List.mem_append_left _ (List.mem_map_of_mem (f := Receiver.entry) member))
        change Tree.list [_, entry.anonymous.tree] = Tree.list [_, entry.tree]
        rw [same]
      have sameTimeout : timeoutTree (anonymousTimeout timeout) = timeoutTree timeout := by
        cases timeout with
        | none => rfl
        | some timeout =>
            obtain ⟨ms, entry⟩ := timeout
            have same := each entry (List.mem_append_right _ List.mem_cons_self)
            change Tree.list [_, entry.anonymous.tree] = Tree.list [_, entry.tree]
            rw [same]
      change Tree.list [_, .list (receiverTrees (anonymousReceivers receivers)),
        timeoutTree (anonymousTimeout timeout)] =
          Tree.list [_, .list (receiverTrees receivers), timeoutTree timeout]
      rw [sameReceivers, sameTimeout]
      rfl
  | _ => rfl

/-- The listing of a template does not show its identity. -/
theorem Template.tree_anonymous (t : Template) : t.anonymous.tree = t.tree := by
  induction t using Template.induction with
  | step t ih =>
      have same : t.code.toList.map (Instruction.tree ∘ Instruction.anonymous) =
          t.code.toList.map Instruction.tree :=
        List.map_congr_left fun instruction member =>
          instruction.tree_anonymous (ih instruction member)
      rw [t.anonymous_eq, Template.tree_eq, t.tree_eq, List.map_map, same]

/-! ### Lists that spell a tree -/

theorem Value.index?_ofNat {n : Nat} (fits : n ≤ Number.maxIndex) :
    (Value.ofNat n).index? = some n := by
  have isNumber : (Value.ofNat n).index? = (Number.ofNat n).index? := by
    unfold Value.ofNat
    rfl
  rw [isNumber]
  exact Number.index?_ofNat fits

namespace Store

variable {store : Store}

theorem spineFrom_of_spells {trees : List Tree} {x : Value} {fuel : Nat} (seen : List Value)
    (spelled : store.Spells x (.list trees)) (enough : trees.length ≤ fuel) :
    ∃ items, store.spineFrom fuel seen x = .proper (seen.reverse ++ items) ∧
      List.Forall₂ store.Spells items trees := by
  induction trees generalizing x fuel seen with
  | nil =>
      cases spelled
      refine ⟨[], ?_, .nil⟩
      unfold spineFrom
      rw [List.append_nil]
  | cons tree trees ih =>
      obtain ⟨ref, rfl, _, first, rest⟩ := spelled
      cases fuel with
      | zero => cases enough
      | succ fuel =>
          obtain ⟨items, isSpine, each⟩ := ih (store.carAt ref :: seen) rest
            (Nat.le_of_succ_le_succ enough)
          refine ⟨store.carAt ref :: items, ?_, .cons first each⟩
          unfold spineFrom
          rw [isSpine, List.reverse_cons, List.append_assoc]
          rfl

/-- A value that spells a list is a proper list of values that spell its items. -/
theorem spine_of_spells {trees : List Tree} {x : Value} (spelled : store.Spells x (.list trees))
    (enough : (Tree.list trees).size ≤ store.pairs.size) :
    ∃ items, store.spine x = .proper items ∧ List.Forall₂ store.Spells items trees := by
  rw [Tree.size_list] at enough
  exact spineFrom_of_spells [] spelled (by omega)

/-- The items of a spelled list, each with what it is a listing of. -/
theorem forall₂_of_spells {α : Type} {tree : α → Tree} {related : Value → α → Prop}
    {items : List Value} {targets : List α}
    (spelled : List.Forall₂ store.Spells items (targets.map tree))
    (each : ∀ item, ∀ target ∈ targets, store.Spells item (tree target) → related item target) :
    List.Forall₂ related items targets := by
  induction targets generalizing items with
  | nil =>
      cases spelled
      exact .nil
  | cons target targets ih =>
      obtain ⟨item, rest, first, restSpelled, rfl⟩ := List.forall₂_cons_right_iff.1 spelled
      refine .cons (each item target List.mem_cons_self first) (ih restSpelled ?_)
      exact fun item other member => each item other (List.mem_cons_of_mem _ member)

theorem eq_of_spells_leaves {items values : List Value}
    (spelled : List.Forall₂ store.Spells items (values.map .leaf)) : items = values := by
  induction values generalizing items with
  | nil =>
      cases spelled
      rfl
  | cons v values ih =>
      obtain ⟨item, rest, isItem, restSpelled, rfl⟩ := List.forall₂_cons_right_iff.1 spelled
      rw [ih restSpelled]
      exact congrArg (· :: values) isItem

/-- A list of two of which the first is a value. -/
theorem spine_of_spells_entry {v x : Value} {tree : Tree}
    (spelled : store.Spells x (.list [.leaf v, tree]))
    (enough : (Tree.list [.leaf v, tree]).size ≤ store.pairs.size) :
    ∃ y, store.spine x = .proper [v, y] ∧ store.Spells y tree := by
  obtain ⟨items, isList, each⟩ := spine_of_spells spelled enough
  obtain ⟨first, rest, rfl, restSpelled, rfl⟩ := List.forall₂_cons_right_iff.1 each
  obtain ⟨y, none, isTree, noneSpelled, rfl⟩ := List.forall₂_cons_right_iff.1 restSpelled
  cases noneSpelled
  exact ⟨y, isList, isTree⟩

end Store

namespace Link

open Argument

/-! ### Steps that succeed -/

section Yields

variable {α β : Type}

/-- A step of linking succeeds, needs no new slots, and its result has the property. -/
def Yields (globals : Globals) (act : LinkM α) (holds : α → Prop) : Prop :=
  ∀ stamps, ∃ a later, act.run ⟨globals, stamps⟩ = (.ok a, ⟨globals, later⟩) ∧ holds a

variable {globals : Globals} {holds : α → Prop}

theorem yields_pure {a : α} (fact : holds a) : Yields globals (pure a) holds :=
  fun stamps => ⟨a, stamps, rfl, fact⟩

theorem Yields.imp {act : LinkM α} {result : α → Prop} (first : Yields globals act holds)
    (weaken : ∀ a, holds a → result a) : Yields globals act result := by
  intro stamps
  obtain ⟨a, later, ran, fact⟩ := first stamps
  exact ⟨a, later, ran, weaken a fact⟩

theorem Yields.bind {act : LinkM α} {next : α → LinkM β} {result : β → Prop}
    (first : Yields globals act holds) (rest : ∀ a, holds a → Yields globals (next a) result) :
    Yields globals (act >>= next) result := by
  intro stamps
  obtain ⟨a, middle, ran, fact⟩ := first stamps
  obtain ⟨b, later, done, conclusion⟩ := rest a fact middle
  refine ⟨b, later, ?_, conclusion⟩
  rw [run_bind, ran]
  exact done

theorem Yields.map {act : LinkM α} {f : α → β} {result : β → Prop}
    (first : Yields globals act holds) (put : ∀ a, holds a → result (f a)) :
    Yields globals (act >>= fun a => pure (f a)) result :=
  first.bind fun a fact => yields_pure (put a fact)

/-- A step that yields one value. -/
theorem Yields.put {act : LinkM α} {a : α} {f : α → β} {result : β → Prop}
    (first : Yields globals act (· = a)) (fact : result (f a)) :
    Yields globals (act >>= fun a => pure (f a)) result := by
  refine first.map fun b same => ?_
  rw [same]
  exact fact

theorem yields_mapM {γ : Type} {f : α → LinkM β} {view : β → γ} {items : List α}
    {targets : List β}
    (each : List.Forall₂ (fun item target => Yields globals (f item) fun b => view b = view target)
      items targets) :
    Yields globals (items.mapM f) fun results => results.map view = targets.map view := by
  induction each with
  | nil => exact yields_pure rfl
  | cons first _ ih =>
      rw [List.mapM_cons]
      refine first.bind fun b same => ih.map fun results sameRest => ?_
      rw [List.map_cons, List.map_cons, same, sameRest]

end Yields

namespace Source

variable {source : Source} {globals : Globals}

theorem yields_of_index? {x : Value} {n : Nat} (isIndex : x.index? = some n) :
    Yields globals (source.index x) (· = n) := by
  unfold index
  rw [isIndex]
  exact yields_pure rfl

theorem yields_index {n : Nat} (fits : n ≤ Number.maxIndex) :
    Yields globals (source.index (.ofNat n)) (· = n) :=
  yields_of_index? (Value.index?_ofNat fits)

theorem yields_name (name : String) :
    Yields globals (source.name (.symbol name)) (· = name) :=
  yields_pure rfl

theorem yields_itemsOr {x : Value} {items : List Value} (improper : LinkM (List Value))
    (isList : source.store.spine x = .proper items) :
    Yields globals (source.itemsOr x improper) (· = items) := by
  unfold itemsOr
  rw [isList]
  exact yields_pure rfl

theorem yields_items {x : Value} {items : List Value}
    (isList : source.store.spine x = .proper items) :
    Yields globals (source.items x) (· = items) :=
  yields_itemsOr _ isList

theorem yields_global {g : Global} (known : globals.lookup? g.name = some g.slot) :
    Yields globals (source.global (.symbol g.name)) (· = g) := by
  intro stamps
  refine ⟨g, stamps, ?_, rfl⟩
  have interned := Globals.intern_of_lookup? known
  have ran : (source.global (.symbol g.name)).run ⟨globals, stamps⟩ =
      (.ok ⟨g.name, (globals.intern g.name).1⟩, ⟨(globals.intern g.name).2, stamps⟩) := rfl
  rw [ran, interned]

theorem yields_label (x : Value) {label : Label} (fits : label.pc ≤ Number.maxIndex) :
    Yields globals (source.label x [.symbol label.name, .ofNat label.pc]) (· = label) := by
  refine (yields_name label.name).bind fun name sameName => ?_
  exact (yields_index fits).put (by rw [sameName])

theorem yields_native {native : Native} (known : source.natives.find? native.name = some native) :
    Yields globals (source.native (.symbol native.name)) (· = native) := by
  refine (yields_name native.name).bind fun name sameName => ?_
  rw [sameName, known]
  exact yields_pure rfl

theorem yields_localVariable {v : Local}
    (fits : v.depth ≤ Number.maxIndex ∧ v.index ≤ Number.maxIndex) :
    Yields globals
      (source.localVariable (.ofNat v.depth) (.ofNat v.index) (v.name.map .symbol)) (· = v) := by
  obtain ⟨depth, index, name⟩ := v
  refine (yields_index fits.1).bind fun depth' sameDepth => ?_
  refine (yields_index fits.2).bind fun index' sameIndex => ?_
  rw [sameDepth, sameIndex]
  cases name with
  | none => exact yields_pure rfl
  | some name => exact (yields_name name).put rfl

/-- An instruction listing with a known opcode. -/
theorem instruction_of_spine {function : Value → LinkM Template} {x : Value} {opcode : Opcode}
    {operands : List Value} (isList : source.store.spine x = .proper (.opcode opcode :: operands)) :
    source.instruction function x = source.operation function x opcode operands := by
  unfold instruction itemsOr
  rw [isList, pure_bind]
  dsimp only [Value.opcode, Value.symbol?]
  rw [Opcode.ofName?_name]

section Functions

variable {function : Value → LinkM Template}

/-- Code of a template, up to its identity, is linked from each listing of it. -/
def Relinks (source : Source) (globals : Globals) (function : Value → LinkM Template)
    (f : Template) : Prop :=
  ∀ y, source.store.Spells y f.tree →
    Yields globals (function y) fun t => t.anonymous = f.anonymous

/-- An instruction on a local variable, with or without a name. -/
theorem yields_variable {x : Value} {opcode : Opcode} {make : Local → Instruction} {v : Local}
    {operands : List Value} {holds : Instruction → Prop}
    (short : ∀ i j, source.operation function x opcode [i, j] = (do
      pure (make (← source.localVariable i j none))))
    (long : ∀ i j name, source.operation function x opcode [i, j, name] = (do
      pure (make (← source.localVariable i j (some name)))))
    (fits : v.depth ≤ Number.maxIndex ∧ v.index ≤ Number.maxIndex)
    (spelled : List.Forall₂ source.store.Spells operands v.operandTrees) (fact : holds (make v)) :
    Yields globals (source.operation function x opcode operands) holds := by
  have read : Yields globals
      (source.localVariable (.ofNat v.depth) (.ofNat v.index) (v.name.map .symbol)) (· = v) :=
    yields_localVariable fits
  obtain ⟨depth, index, name⟩ := v
  cases name with
  | none =>
      obtain rfl : operands = [.ofNat depth, .ofNat index] := Store.eq_of_spells_leaves spelled
      rw [short]
      exact read.put fact
  | some name =>
      obtain rfl : operands = [.ofNat depth, .ofNat index, .symbol name] :=
        Store.eq_of_spells_leaves spelled
      rw [long]
      exact read.put fact

/-- A count is never taken for the mark of a call that spreads a list. -/
theorem yields_fixed (x : Value) {n : Nat} (fits : n ≤ Number.maxIndex) :
    Yields globals (source.operation function x .call [.ofNat n]) fun instruction =>
      instruction.anonymous = (Instruction.call (.fixed n)).anonymous := by
  have negative : (-1 : Number).order < 0 := by decide +kernel
  have isCall : source.operation function x .call [.ofNat n] = (do
      if (Number.ofNat n).sameValue (-1) then pure (.call .spread)
      else pure (.call (.fixed (← source.index (.ofNat n))))) := rfl
  rw [isCall, Number.sameValue_ofNat_negative negative n]
  exact (yields_index fits).put rfl

theorem yields_spread (x : Value) :
    Yields globals (source.operation function x .call [.number (-1)]) fun instruction =>
      instruction.anonymous = (Instruction.call .spread).anonymous := by
  have same : (-1 : Number).sameValue (-1) = true := by decide +kernel
  have isCall : source.operation function x .call [.number (-1)] = (do
      if (-1 : Number).sameValue (-1) then pure (.call .spread)
      else pure (.call (.fixed (← source.index (.number (-1)))))) := rfl
  rw [isCall, same]
  exact yields_pure rfl

theorem yields_receiver {x : Value} {target : Receiver}
    (spelled : source.store.Spells x target.tree)
    (enough : target.tree.size ≤ source.store.pairs.size)
    (relinks : source.Relinks globals function target.entry) :
    Yields globals (source.receiver function x) fun receiver =>
      receiver.anonymous = target.anonymous := by
  obtain ⟨tag, entry⟩ := target
  obtain ⟨y, isList, isEntry⟩ := Store.spine_of_spells_entry spelled enough
  refine (yields_items isList).bind fun items same => ?_
  rw [same]
  refine (yields_name tag).bind fun name sameName => ?_
  refine (relinks y isEntry).map fun t sameCode => ?_
  change Receiver.mk name t.anonymous = ⟨tag, entry.anonymous⟩
  rw [sameName, sameCode]

theorem yields_timeout {x : Value} {target : Option Timeout}
    (spelled : source.store.Spells x (timeoutTree target))
    (enough : (timeoutTree target).size ≤ source.store.pairs.size)
    (inRange : ∀ timeout ∈ target, (timeout.ms.isFinite && Number.atMost 0 timeout.ms) = true)
    (relinks : ∀ timeout ∈ target, source.Relinks globals function timeout.entry) :
    Yields globals (source.timeout function x) fun found =>
      anonymousTimeout found = anonymousTimeout target := by
  cases target with
  | none =>
      cases spelled
      exact yields_pure rfl
  | some target =>
      have ready := inRange target rfl
      have relinksEntry := relinks target rfl
      obtain ⟨ms, entry⟩ := target
      obtain ⟨y, isList, isEntry⟩ := Store.spine_of_spells_entry spelled enough
      obtain ⟨ref, rfl, _⟩ := spelled
      refine (yields_items isList).bind fun items same => ?_
      rw [same]
      dsimp only
      rw [if_pos ready]
      refine (relinksEntry y isEntry).map fun t sameCode => ?_
      change some (Timeout.mk ms t.anonymous) = some ⟨ms, entry.anonymous⟩
      rw [sameCode]

theorem yields_receiveTable {receivers timeout : Value} {target : ReceiveTable}
    (receiversSpelled : source.store.Spells receivers (.list (target.receivers.map Receiver.tree)))
    (timeoutSpelled : source.store.Spells timeout (timeoutTree target.timeout))
    (enough : (Instruction.receive target).tree.size ≤ source.store.pairs.size)
    (fits : (Instruction.receive target).Fits source.natives globals)
    (each : ∀ f ∈ (Instruction.receive target).entries, source.Relinks globals function f) :
    Yields globals (source.receiveTable function receivers timeout) fun table =>
      table.anonymous = target.anonymous := by
  have small : ∀ {tree}, tree ∈ [Tree.list (target.receivers.map Receiver.tree),
      timeoutTree target.timeout] → tree.size ≤ source.store.pairs.size := by
    intro tree isOperand
    rw [← target.operandTrees_eq] at isOperand
    have smaller := Tree.size_lt_of_mem
      (List.mem_cons_of_mem (.leaf (.opcode .receive)) isOperand)
    exact Nat.le_trans (Nat.le_of_lt smaller) enough
  have smallTable := small List.mem_cons_self
  obtain ⟨entries, isTable, spelled⟩ := Store.spine_of_spells receiversSpelled smallTable
  refine (yields_items isTable).bind fun items same => ?_
  rw [same]
  have eachEntry := Store.forall₂_of_spells spelled
    fun entry receiver isReceiver (entrySpelled : source.store.Spells entry receiver.tree) =>
      have smaller := Tree.size_lt_of_mem (List.mem_map_of_mem (f := Receiver.tree) isReceiver)
      have isEntry := List.mem_map_of_mem (f := Receiver.entry) isReceiver
      yields_receiver entrySpelled (Nat.le_trans (Nat.le_of_lt smaller) smallTable)
        (each receiver.entry (List.mem_append_left _ isEntry))
  refine (yields_mapM eachEntry).bind fun found sameReceivers => ?_
  have eachTimeout : ∀ timeout ∈ target.timeout,
      source.Relinks globals function timeout.entry := by
    intro timeout isTimeout
    apply each
    apply List.mem_append_right
    rw [isTimeout]
    exact List.mem_cons_self
  have smallTimeout := small (List.mem_cons_of_mem _ List.mem_cons_self)
  refine (yields_timeout timeoutSpelled smallTimeout fits eachTimeout).map
    fun timeout sameTimeout => ?_
  obtain ⟨targets, targetTimeout⟩ := target
  change ReceiveTable.mk (anonymousReceivers found) (anonymousTimeout timeout) =
    ⟨anonymousReceivers targets, anonymousTimeout targetTimeout⟩
  rw [anonymousReceivers_eq, anonymousReceivers_eq, sameReceivers, sameTimeout]

/-- The listing of an instruction that fits the tables is linked to that instruction. -/
theorem yields_instruction {x : Value} {target : Instruction}
    (spelled : source.store.Spells x target.tree)
    (enough : target.tree.size ≤ source.store.pairs.size)
    (fits : target.Fits source.natives globals)
    (each : ∀ f ∈ target.entries, source.Relinks globals function f) :
    Yields globals (source.instruction function x) fun instruction =>
      instruction.anonymous = target.anonymous := by
  obtain ⟨items, isList, itemsSpelled⟩ := Store.spine_of_spells spelled enough
  obtain ⟨_, operands, isOpcode, operandsSpelled, rfl⟩ :=
    List.forall₂_cons_right_iff.1 itemsSpelled
  cases isOpcode
  rw [instruction_of_spine isList]
  cases target with
  | args n =>
      obtain rfl : operands = [.ofNat n] := Store.eq_of_spells_leaves operandsSpelled
      exact (yields_index fits).put rfl
  | argsRest n =>
      obtain rfl : operands = [.ofNat n] := Store.eq_of_spells_leaves operandsSpelled
      exact (yields_index fits).put rfl
  | loadLocal v =>
      exact yields_variable (fun _ _ => rfl) (fun _ _ _ => rfl) fits operandsSpelled rfl
  | storeLocal v =>
      exact yields_variable (fun _ _ => rfl) (fun _ _ _ => rfl) fits operandsSpelled rfl
  | loadGlobal g =>
      obtain rfl : operands = [.symbol g.name] := Store.eq_of_spells_leaves operandsSpelled
      exact (yields_global fits).put rfl
  | storeGlobal g =>
      obtain rfl : operands = [.symbol g.name] := Store.eq_of_spells_leaves operandsSpelled
      exact (yields_global fits).put rfl
  | pop =>
      obtain rfl : operands = [] := Store.eq_of_spells_leaves operandsSpelled
      exact yields_pure rfl
  | const v =>
      obtain rfl : operands = [v] := Store.eq_of_spells_leaves operandsSpelled
      exact yields_pure rfl
  | jump label =>
      obtain rfl : operands = [.symbol label.name, .ofNat label.pc] :=
        Store.eq_of_spells_leaves operandsSpelled
      exact (yields_label x fits).put rfl
  | jumpIfNil label =>
      obtain rfl : operands = [.symbol label.name, .ofNat label.pc] :=
        Store.eq_of_spells_leaves operandsSpelled
      exact (yields_label x fits).put rfl
  | jumpUnlessNil label =>
      obtain rfl : operands = [.symbol label.name, .ofNat label.pc] :=
        Store.eq_of_spells_leaves operandsSpelled
      exact (yields_label x fits).put rfl
  | save label =>
      obtain rfl : operands = [.symbol label.name, .ofNat label.pc] :=
        Store.eq_of_spells_leaves operandsSpelled
      exact (yields_label x fits).put rfl
  | ret =>
      obtain rfl : operands = [] := Store.eq_of_spells_leaves operandsSpelled
      exact yields_pure rfl
  | call args =>
      cases args with
      | fixed n =>
          obtain rfl : operands = [.ofNat n] := Store.eq_of_spells_leaves operandsSpelled
          exact yields_fixed x fits
      | spread =>
          obtain rfl : operands = [.number (-1)] := Store.eq_of_spells_leaves operandsSpelled
          exact yields_spread x
  | function f =>
      obtain ⟨y, none, isListing, noneSpelled, rfl⟩ :=
        List.forall₂_cons_right_iff.1 operandsSpelled
      cases noneSpelled
      refine (each f List.mem_cons_self y isListing).map fun t sameCode => ?_
      exact congrArg Instruction.function sameCode
  | native n =>
      obtain rfl : operands = [.symbol n.name] := Store.eq_of_spells_leaves operandsSpelled
      exact (yields_native fits).put rfl
  | halt =>
      obtain rfl : operands = [] := Store.eq_of_spells_leaves operandsSpelled
      exact yields_pure rfl
  | receive table =>
      have isTable := table.operandTrees_eq
      change List.Forall₂ _ operands table.operandTrees at operandsSpelled
      rw [isTable] at operandsSpelled
      obtain ⟨receivers, rest, receiversSpelled, restSpelled, rfl⟩ :=
        List.forall₂_cons_right_iff.1 operandsSpelled
      obtain ⟨timeout, none, timeoutSpelled, noneSpelled, rfl⟩ :=
        List.forall₂_cons_right_iff.1 restSpelled
      cases noneSpelled
      refine (yields_receiveTable receiversSpelled timeoutSpelled enough fits each).map
        fun found sameTable => ?_
      exact congrArg Instruction.receive sameTable

end Functions

/-! ### Functions -/

theorem isCode_pair {ref : Ref} (isKey : source.store.carAt ref = .symbol "code") :
    source.isCode (.pair ref) = true := by
  unfold isCode
  dsimp only [Store.car?]
  rw [isKey]
  rfl

theorem not_isCode_pair {ref other : Ref} (isPair : source.store.carAt ref = .pair other) :
    source.isCode (.pair ref) = false := by
  unfold isCode
  dsimp only [Store.car?]
  rw [isPair]
  rfl

/-- The instructions are found in the listing of a template. -/
theorem yields_codeOf {x : Value} {t : Template} (spelled : source.store.Spells x t.tree)
    (enough : t.tree.size ≤ source.store.pairs.size) :
    Yields globals (source.codeOf x) fun items =>
      List.Forall₂ source.store.Spells items (t.code.toList.map Instruction.tree) := by
  rw [t.tree_eq] at spelled enough
  have smallSlot := Nat.le_trans (Nat.le_of_lt (Tree.size_lt_of_mem List.mem_cons_self)) enough
  have smallCode := Nat.le_trans (Nat.le_of_lt (Tree.size_lt_of_mem
    (List.mem_cons_of_mem _ List.mem_cons_self))) smallSlot
  obtain ⟨items, isList, itemsSpelled⟩ := Store.spine_of_spells spelled enough
  obtain ⟨slot, none, slotSpelled, noneSpelled, rfl⟩ := List.forall₂_cons_right_iff.1 itemsSpelled
  cases noneSpelled
  obtain ⟨body, isSlot, bodySpelled⟩ := Store.spine_of_spells_entry slotSpelled smallSlot
  obtain ⟨code, isCode, codeSpelled⟩ := Store.spine_of_spells bodySpelled smallCode
  obtain ⟨ref, rfl, _, ⟨first, isFirst, _⟩, _⟩ := spelled
  obtain ⟨other, rfl, _, isKey, _⟩ := slotSpelled
  unfold codeOf
  rw [not_isCode_pair isFirst]
  refine (yields_itemsOr _ isList).bind fun slots same => ?_
  rw [same, List.find?_cons_of_pos (isCode_pair isKey)]
  refine (yields_items isSlot).bind fun parts sameParts => ?_
  rw [sameParts]
  refine (yields_items isCode).imp fun found sameCode => ?_
  rw [sameCode]
  exact codeSpelled

theorem yields_template (code : List Instruction) :
    Yields globals (template code) fun t => t.code.toList = code :=
  fun stamps => ⟨⟨.linked stamps, code.toArray⟩, stamps + 1, rfl, rfl⟩

/-- The listing of linked code is linked to that code. -/
theorem relinks_function {t : Template} (linked : t.Linked source.natives globals)
    (enough : t.tree.size ≤ source.store.pairs.size) {depth : Nat} (deep : t.tree.size ≤ depth) :
    source.Relinks globals (source.function depth) t := by
  induction t using Template.induction generalizing depth with
  | step t ih =>
      intro x spelled
      obtain ⟨own, nested⟩ := linked
      have notLive : ¬x.IsLive := by
        rw [t.tree_eq] at spelled
        obtain ⟨ref, rfl, _⟩ := spelled
        exact id
      cases depth with
      | zero =>
          rw [t.tree_eq, Tree.size_list] at deep
          exact absurd deep (Nat.not_succ_le_zero _ ∘ Nat.le_trans (Nat.le_add_right 1 _))
      | succ depth =>
          rw [function_succ notLive]
          refine (yields_codeOf spelled enough).bind fun items itemsSpelled => ?_
          -- The depth lasts: a function in the listing has fewer pairs than the listing.
          have each := Store.forall₂_of_spells itemsSpelled
            fun item target isTarget (itemSpelled : source.store.Spells item target.tree) =>
              have smaller := Instruction.size_lt isTarget
              yields_instruction itemSpelled (Nat.le_trans (Nat.le_of_lt smaller) enough)
                (own target isTarget) fun f isEntry =>
                  have smallest := Template.size_lt isEntry
                  ih target isTarget f isEntry (nested target isTarget f isEntry) (by omega)
                    (show f.tree.size ≤ depth by omega)
          refine (yields_mapM each).bind fun instructions sameInstructions => ?_
          refine (yields_template instructions).imp fun again isCode => ?_
          rw [again.anonymous_eq, t.anonymous_eq, isCode, sameInstructions]

end Source

end Link

/-- What linking a listing is, by what the linking of its function comes to. -/
theorem link_of_run {natives : NativeTable} {store : Store} {globals : Globals} {listing : Value}
    {result : Outcome Template} {state : Link.State}
    (done : (Link.Source.function ⟨store, natives⟩ (store.pairs.size + 1) listing).run
      ⟨globals, store.stamps⟩ = (result, state)) :
    link natives store globals listing =
      (result, { store with stamps := state.stamps }, state.globals) := by
  unfold link
  dsimp only
  rw [done]

/-- Code that was linked from a listing without live code in function position fits the tables. -/
theorem linked_of_link {natives : NativeTable} {store after : Store}
    {globals linkedGlobals : Globals} {listing : Value} {t : Template}
    (plain : Link.Source.Plain ⟨store, natives⟩ listing)
    (linked : link natives store globals listing = (.ok t, after, linkedGlobals)) :
    t.Linked natives linkedGlobals := by
  rcases done : (Link.Source.function ⟨store, natives⟩ (store.pairs.size + 1) listing).run
    ⟨globals, store.stamps⟩ with ⟨result, state⟩
  rw [link_of_run done] at linked
  cases linked
  exact (Link.Source.links_function _ plain globals _ t state done).2

/-- Code that was linked from a listing without live code in function position is linked from its
own listing again, and no name needs a new slot then: all instructions are the same, those in
functions and receive tables included, and only identities are new. So the listing of the code that
was linked again spells the same as the first one. -/
theorem link_unlink {natives : NativeTable} {store after : Store} {globals linkedGlobals : Globals}
    {listing : Value} {t : Template} (plain : Link.Source.Plain ⟨store, natives⟩ listing)
    (linked : link natives store globals listing = (.ok t, after, linkedGlobals))
    (later : Store) :
    (Store.unlink t later).2.Spells (Store.unlink t later).1 t.tree ∧
      ∃ again last, link natives (Store.unlink t later).2 linkedGlobals (Store.unlink t later).1 =
          (.ok again, last, linkedGlobals) ∧
        again.anonymous = t.anonymous ∧
        (Store.unlink again last).2.Spells (Store.unlink again last).1 t.tree := by
  have made := Store.builds_unlink t later
  obtain ⟨spelled, _⟩ := List.forall₂_cons.1 made.spelled
  have fits := linked_of_link plain linked
  have enough : t.tree.size ≤ (Store.unlink t later).2.pairs.size :=
    Nat.le_trans (Nat.le_add_left _ _) made.sizes
  have relinks : Link.Source.Relinks ⟨(Store.unlink t later).2, natives⟩ linkedGlobals
      (Link.Source.function _ ((Store.unlink t later).2.pairs.size + 1)) t :=
    Link.Source.relinks_function fits enough (Nat.le_succ_of_le enough)
  obtain ⟨again, stamps, done, same⟩ := relinks _ spelled (Store.unlink t later).2.stamps
  have sameTree : again.tree = t.tree := by rw [← again.tree_anonymous, same, t.tree_anonymous]
  refine ⟨spelled, again, _, link_of_run done, same, ?_⟩
  rw [← sameTree]
  exact (List.forall₂_cons.1 (Store.builds_unlink again _).spelled).1

/-- The short listing `(code (GVAR x) (FN (code (HALT))) (RECV ((ping (code (RETURN))))))`. -/
def shortListing : Value × Store :=
  let listing : StateM Store Value := do
    let halt ← Store.allocList [.opcode .halt]
    let inner ← Store.allocList [.symbol "code", halt]
    let ret ← Store.allocList [.opcode .ret]
    let entry ← Store.allocList [.symbol "code", ret]
    let receiver ← Store.allocList [.symbol "ping", entry]
    let receivers ← Store.allocList [receiver]
    let load ← Store.allocList [.opcode .loadGlobal, .symbol "x"]
    let function ← Store.allocList [.opcode .function, inner]
    let receive ← Store.allocList [.opcode .receive, receivers]
    Store.allocList [.symbol "code", load, function, receive]
  listing {}

/-- What `shortListing` is linked to. -/
def shortCode : Template :=
  ⟨.linked 2, #[.loadGlobal ⟨"x", 0⟩, .function ⟨.linked 0, #[.halt]⟩,
    .receive ⟨[⟨"ping", ⟨.linked 1, #[.ret]⟩⟩], none⟩]⟩

/-- The full listing of `shortCode` is linked to it again, with slot and functions. -/
theorem link_unlink_short : ∃ globals again last,
    link {} (Store.unlink shortCode {}).2 globals (Store.unlink shortCode {}).1 =
        (.ok again, last, globals) ∧
      again.anonymous = shortCode.anonymous := by
  have plain : Link.Source.Plain ⟨shortListing.2, {}⟩ shortListing.1 :=
    Link.Source.plain_of_pairs (by decide) (by decide)
  have linked : link {} shortListing.2 {} shortListing.1 =
      (.ok shortCode, { shortListing.2 with stamps := 3 }, (Globals.intern {} "x").2) := by cbv
  obtain ⟨_, again, last, done, same, _⟩ := link_unlink plain linked {}
  exact ⟨_, again, last, done, same⟩

end ActorMachine
