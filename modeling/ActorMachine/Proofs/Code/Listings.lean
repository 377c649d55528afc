import ActorMachine.Proofs.Store.Spelling
import Mathlib.Algebra.GroupWithZero.Nat

set_option autoImplicit false

/-!
Listings as trees.

The listing of a template is made of fresh pairs, so what matters is the tree that it spells:
`Template.tree`, a function of the code alone. Unlinking spells that tree and makes one pair for
each of its pairs. Statements on templates are proved by `Template.induction`, from the templates
that are held by the instructions of a template to the template itself.
-/

namespace ActorMachine

/-! ### Templates within templates -/

/-- The templates that an instruction holds. -/
def Instruction.entries : Instruction → List Template
  | .function f => [f]
  | .receive table => table.receivers.map (·.entry) ++ (table.timeout.map (·.entry)).toList
  | _ => []

theorem Instruction.sizeOf_entry_lt {instruction : Instruction} {f : Template}
    (member : f ∈ instruction.entries) : sizeOf f < sizeOf instruction := by
  cases instruction with
  | function g =>
      cases List.mem_singleton.1 member
      simp
  | receive table =>
      obtain ⟨receivers, timeout⟩ := table
      rcases List.mem_append.1 member with inReceivers | inTimeout
      · obtain ⟨receiver, isReceiver, rfl⟩ := List.mem_map.1 inReceivers
        have smaller := List.sizeOf_lt_of_mem isReceiver
        obtain ⟨tag, entry⟩ := receiver
        simp at smaller ⊢
        omega
      · cases timeout with
        | none => cases inTimeout
        | some timeout =>
            obtain ⟨ms, entry⟩ := timeout
            cases List.mem_singleton.1 inTimeout
            simp
            omega
  | _ => cases member

theorem Template.sizeOf_instruction_lt {t : Template} {instruction : Instruction}
    (member : instruction ∈ t.code.toList) : sizeOf instruction < sizeOf t := by
  obtain ⟨id, ⟨instructions⟩⟩ := t
  have smaller := List.sizeOf_lt_of_mem member
  simp at smaller ⊢
  omega

/-- What holds of a template when it holds of all templates that its instructions hold, holds of
every template. -/
theorem Template.induction {holds : Template → Prop}
    (step : ∀ t : Template,
      (∀ instruction ∈ t.code.toList, ∀ f ∈ instruction.entries, holds f) → holds t)
    (t : Template) : holds t := by
  apply step t
  intro instruction isInstruction f isEntry
  exact Template.induction step f
termination_by sizeOf t
decreasing_by
  exact Nat.lt_trans (Instruction.sizeOf_entry_lt isEntry)
    (Template.sizeOf_instruction_lt isInstruction)

/-! ### Trees -/

/-- The operands of an instruction on a local variable. -/
def Local.operandTrees (v : Local) : List Tree :=
  [.leaf (.ofNat v.depth), .leaf (.ofNat v.index)] ++
    (v.name.map fun name => .leaf (.symbol name)).toList

/-- The operands of a jump. -/
def Label.operandTrees (label : Label) : List Tree :=
  [.leaf (.symbol label.name), .leaf (.ofNat label.pc)]

mutual

/-- The listing of a template. -/
def Template.tree : Template → Tree
  | ⟨_, code⟩ => .list [.list [.leaf (.symbol "code"), codeTree code]]
termination_by structural template => template

def codeTree : Array Instruction → Tree
  | ⟨instructions⟩ => .list (instructionTrees instructions)
termination_by structural code => code

def instructionTrees : List Instruction → List Tree
  | [] => []
  | instruction :: rest =>
      .list (.leaf (.opcode instruction.opcode) :: instruction.operandTrees) ::
        instructionTrees rest
termination_by structural instructions => instructions

/-- The operands of an instruction. -/
def Instruction.operandTrees : Instruction → List Tree
  | .args n => [.leaf (.ofNat n)]
  | .argsRest n => [.leaf (.ofNat n)]
  | .loadLocal v => v.operandTrees
  | .storeLocal v => v.operandTrees
  | .loadGlobal g => [.leaf (.symbol g.name)]
  | .storeGlobal g => [.leaf (.symbol g.name)]
  | .pop => []
  | .const v => [.leaf v]
  | .jump label => label.operandTrees
  | .jumpIfNil label => label.operandTrees
  | .jumpUnlessNil label => label.operandTrees
  | .save label => label.operandTrees
  | .ret => []
  | .call (.fixed n) => [.leaf (.ofNat n)]
  | .call .spread => [.leaf (.number (-1))]
  | .function f => [f.tree]
  | .native n => [.leaf (.symbol n.name)]
  | .halt => []
  | .receive table => table.operandTrees
termination_by structural instruction => instruction

def ReceiveTable.operandTrees : ReceiveTable → List Tree
  | ⟨receivers, timeout⟩ => [.list (receiverTrees receivers), timeoutTree timeout]
termination_by structural table => table

def receiverTrees : List Receiver → List Tree
  | [] => []
  | receiver :: rest => receiver.tree :: receiverTrees rest
termination_by structural receivers => receivers

def Receiver.tree : Receiver → Tree
  | ⟨tag, entry⟩ => .list [.leaf (.symbol tag), entry.tree]
termination_by structural receiver => receiver

def timeoutTree : Option Timeout → Tree
  | none => .leaf .nil
  | some timeout => timeout.tree
termination_by structural timeout => timeout

def Timeout.tree : Timeout → Tree
  | ⟨ms, entry⟩ => .list [.leaf (.number ms), entry.tree]
termination_by structural timeout => timeout

end

/-- The listing of an instruction. -/
def Instruction.tree (instruction : Instruction) : Tree :=
  .list (.leaf (.opcode instruction.opcode) :: instruction.operandTrees)

theorem instructionTrees_eq (instructions : List Instruction) :
    instructionTrees instructions = instructions.map Instruction.tree := by
  induction instructions with
  | nil => rfl
  | cons instruction rest ih => exact congrArg _ ih

theorem receiverTrees_eq (receivers : List Receiver) :
    receiverTrees receivers = receivers.map Receiver.tree := by
  induction receivers with
  | nil => rfl
  | cons receiver rest ih => exact congrArg _ ih

theorem Template.tree_eq (t : Template) :
    t.tree =
      .list [.list [.leaf (.symbol "code"), .list (t.code.toList.map Instruction.tree)]] := by
  obtain ⟨id, ⟨instructions⟩⟩ := t
  rw [← instructionTrees_eq]
  rfl

theorem ReceiveTable.operandTrees_eq (table : ReceiveTable) :
    table.operandTrees =
      [.list (table.receivers.map Receiver.tree), timeoutTree table.timeout] := by
  obtain ⟨receivers, timeout⟩ := table
  rw [← receiverTrees_eq]
  rfl

/-! ### Sizes -/

namespace Tree

/-- The number of pairs. -/
def size : Tree → Nat
  | .leaf _ => 0
  | .pair head tail => 1 + head.size + tail.size

theorem size_list (trees : List Tree) :
    (list trees).size = trees.length + (trees.map size).sum := by
  induction trees with
  | nil => rfl
  | cons tree trees ih =>
      change 1 + tree.size + (list trees).size = _
      rw [ih, List.length_cons, List.map_cons, List.sum_cons]
      omega

theorem size_lt_of_mem {tree : Tree} {trees : List Tree} (member : tree ∈ trees) :
    tree.size < (list trees).size := by
  induction trees with
  | nil => cases member
  | cons first trees ih =>
      change tree.size < 1 + first.size + (list trees).size
      rcases List.mem_cons.1 member with rfl | later
      · omega
      · have smaller := ih later
        omega

end Tree

theorem Instruction.size_lt {t : Template} {instruction : Instruction}
    (member : instruction ∈ t.code.toList) : instruction.tree.size < t.tree.size := by
  rw [t.tree_eq]
  have inCode := Tree.size_lt_of_mem (List.mem_map_of_mem (f := Instruction.tree) member)
  refine Nat.lt_trans inCode (Nat.lt_trans ?_ (Tree.size_lt_of_mem List.mem_cons_self))
  exact Tree.size_lt_of_mem (List.mem_cons_of_mem _ List.mem_cons_self)

theorem Template.size_lt {instruction : Instruction} {f : Template}
    (member : f ∈ instruction.entries) : f.tree.size < instruction.tree.size := by
  have operand : ∀ {tree}, tree ∈ instruction.operandTrees → tree.size < instruction.tree.size :=
    fun isOperand => Tree.size_lt_of_mem (List.mem_cons_of_mem _ isOperand)
  have second : ∀ {v : Value} {tree : Tree}, tree.size < (Tree.list [.leaf v, tree]).size :=
    Tree.size_lt_of_mem (List.mem_cons_of_mem _ List.mem_cons_self)
  cases instruction with
  | function g =>
      cases List.mem_singleton.1 member
      exact operand List.mem_cons_self
  | receive table =>
      have isOperand : ∀ {tree},
          tree ∈ [Tree.list (table.receivers.map Receiver.tree), timeoutTree table.timeout] →
            tree.size < (Instruction.receive table).tree.size := by
        intro tree isOne
        rw [← table.operandTrees_eq] at isOne
        exact operand isOne
      rcases List.mem_append.1 member with inReceivers | inTimeout
      · obtain ⟨receiver, isReceiver, rfl⟩ := List.mem_map.1 inReceivers
        have inTable := Tree.size_lt_of_mem (List.mem_map_of_mem (f := Receiver.tree) isReceiver)
        obtain ⟨tag, entry⟩ := receiver
        exact Nat.lt_trans second (Nat.lt_trans inTable (isOperand List.mem_cons_self))
      · cases isTimeout : table.timeout with
        | none =>
            rw [isTimeout] at inTimeout
            cases inTimeout
        | some timeout =>
            rw [isTimeout] at inTimeout isOperand
            cases List.mem_singleton.1 inTimeout
            obtain ⟨ms, entry⟩ := timeout
            exact Nat.lt_trans second
              (isOperand (List.mem_cons_of_mem _ List.mem_cons_self))
  | _ => cases member

/-! ### Unlinking -/

namespace Store

/-- Items that spell the given trees were made in `base`, by which the store has grown at least by
the pairs of the trees. -/
structure Built (base store : Store) (items : List Value) (trees : List Tree) : Prop where
  grown : base.Grows store
  spelled : List.Forall₂ store.Spells items trees
  sizes : base.pairs.size + (trees.map Tree.size).sum ≤ store.pairs.size

/-- A computation that makes the given tree. -/
def Builds (act : StateM Store Value) (tree : Tree) : Prop :=
  ∀ store, Built store (act store).2 [(act store).1] [tree]

section Built

variable {base store : Store} {items : List Value} {trees : List Tree}

theorem built_nil (base : Store) : Built base base [] [] :=
  ⟨.refl base, .nil, Nat.le_refl _⟩

theorem Built.leaf (built : Built base store items trees) (v : Value) :
    Built base store (v :: items) (.leaf v :: trees) where
  grown := built.grown
  spelled := .cons rfl built.spelled
  sizes := by
    rw [List.map_cons, List.sum_cons]
    exact Nat.le_trans (Nat.le_of_eq (by simp [Tree.size])) built.sizes

theorem Built.leaves (built : Built base store items trees) (more : List Value) :
    Built base store (more ++ items) (more.map .leaf ++ trees) := by
  induction more with
  | nil => exact built
  | cons v more ih => exact ih.leaf v

theorem Built.push {act : StateM Store Value} {tree : Tree} (built : Built base store items trees)
    (builds : Builds act tree) :
    Built base (act store).2 ((act store).1 :: items) (tree :: trees) := by
  have more := builds store
  have sizes := more.sizes
  have before := built.sizes
  refine ⟨built.grown.trans more.grown, ?_, ?_⟩
  · obtain ⟨first, _⟩ := List.forall₂_cons.1 more.spelled
    -- What was spelled before still is, because pairs are only added.
    exact .cons first (built.spelled.imp fun _ _ spelled => spelled.mono more.grown)
  · simp only [List.map_cons, List.map_nil, List.sum_cons, List.sum_nil] at sizes ⊢
    omega

theorem Built.reverse (built : Built base store items trees) :
    Built base store items.reverse trees.reverse where
  grown := built.grown
  spelled := List.rel_reverse built.spelled
  sizes := by
    rw [List.map_reverse, List.sum_reverse]
    exact built.sizes

theorem size_consReversed (store : Store) (tail : Value) (items : List Value) :
    (store.consReversed tail items).2.pairs.size = store.pairs.size + items.length := by
  induction items generalizing store tail with
  | nil => rfl
  | cons item items ih =>
      unfold consReversed
      rw [ih, List.length_cons]
      simp [cons]
      omega

theorem Built.list (built : Built base store items trees) :
    Built base (store.list items).2 [(store.list items).1] [.list trees] where
  grown := built.grown.trans (store.grows_list items)
  spelled := .cons (spells_list built.spelled) .nil
  sizes := by
    have before := built.sizes
    have length := built.spelled.length_eq
    have after := size_consReversed store .nil items.reverse
    simp only [List.map_cons, List.map_nil, List.sum_cons, List.sum_nil, Tree.size_list]
    rw [List.length_reverse] at after
    change _ ≤ (store.consReversed .nil items.reverse).2.pairs.size
    omega

end Built

theorem builds_leaves (items : List Value) : Builds (allocList items) (.leaves items) := by
  intro store
  have built := ((built_nil store).leaves items).list
  simp only [List.append_nil] at built
  exact built

/-- A walk over items whose listings are kept last one first, and then become a list. -/
theorem built_walk {α : Type} {walk : List Value → List α → StateM Store Value}
    {unlink : α → StateM Store Value} {tree : α → Tree}
    (last : ∀ seen, walk seen [] = allocList seen.reverse)
    (next : ∀ seen item rest, walk seen (item :: rest) = do
      let found ← unlink item
      walk (found :: seen) rest)
    {rest : List α} (each : ∀ item ∈ rest, Builds (unlink item) (tree item))
    {base store : Store} {seen : List Value} {trees : List Tree}
    (built : Built base store seen trees) :
    Built base (walk seen rest store).2 [(walk seen rest store).1]
      [.list (trees.reverse ++ rest.map tree)] := by
  induction rest generalizing store seen trees with
  | nil =>
      rw [last, List.map_nil, List.append_nil]
      exact built.reverse.list
  | cons item rest ih =>
      rw [next]
      have walked := ih (fun other member => each other (List.mem_cons_of_mem _ member))
        (built.push (each item List.mem_cons_self))
      rw [List.reverse_cons, List.append_assoc] at walked
      exact walked

theorem builds_unlinkAll {instructions : List Instruction}
    (each : ∀ instruction ∈ instructions,
      Builds (unlinkInstruction instruction) instruction.tree) :
    Builds (unlinkAll [] instructions) (.list (instructions.map Instruction.tree)) :=
  fun store => built_walk (fun _ => rfl) (fun _ _ _ => rfl) each (built_nil store)

theorem builds_unlinkReceivers {receivers : List Receiver}
    (each : ∀ receiver ∈ receivers, Builds (unlinkReceiver receiver) receiver.tree) :
    Builds (unlinkReceivers [] receivers) (.list (receivers.map Receiver.tree)) :=
  fun store => built_walk (fun _ => rfl) (fun _ _ _ => rfl) each (built_nil store)

/-- The listing of a part behind a value. -/
theorem builds_entry {f : Template} (builds : Builds (unlink f) f.tree) (v : Value) :
    Builds (do let listing ← unlink f; allocList [v, listing]) (.list [.leaf v, f.tree]) :=
  fun store => (((built_nil store).push builds).leaf v).list

theorem builds_unlinkTable (table : ReceiveTable)
    (each : ∀ f ∈ (Instruction.receive table).entries, Builds (unlink f) f.tree) :
    Builds (unlinkTable table) (Instruction.receive table).tree := by
  obtain ⟨receivers, timeout⟩ := table
  have eachReceiver : ∀ receiver ∈ receivers,
      Builds (unlinkReceiver receiver) receiver.tree := by
    rintro ⟨tag, entry⟩ member
    exact builds_entry (each entry
      (List.mem_append_left _ (List.mem_map_of_mem (f := Receiver.entry) member))) (.symbol tag)
  have theTimeout : Builds (unlinkTimeout? timeout) (timeoutTree timeout) := by
    cases timeout with
    | none => exact fun store => (built_nil store).leaf .nil
    | some timeout =>
        obtain ⟨ms, entry⟩ := timeout
        exact builds_entry (each entry (List.mem_append_right _ List.mem_cons_self)) (.number ms)
  intro store
  have listed := (built_nil store).push (builds_unlinkReceivers eachReceiver)
  have both := ((listed.push theTimeout).reverse.leaf (.opcode .receive)).list
  have tree : (Instruction.receive ⟨receivers, timeout⟩).tree =
      .list [.leaf (.opcode .receive), .list (receivers.map Receiver.tree),
        timeoutTree timeout] := by
    rw [← receiverTrees_eq]
    rfl
  rw [tree]
  exact both

theorem builds_unlinkInstruction (instruction : Instruction)
    (each : ∀ f ∈ instruction.entries, Builds (unlink f) f.tree) :
    Builds (unlinkInstruction instruction) instruction.tree := by
  cases instruction with
  | call args =>
      cases args with
      | fixed n => exact builds_leaves _
      | spread => exact builds_leaves _
  | loadLocal v =>
      obtain ⟨depth, index, name⟩ := v
      cases name with
      | none => exact builds_leaves _
      | some name => exact builds_leaves _
  | storeLocal v =>
      obtain ⟨depth, index, name⟩ := v
      cases name with
      | none => exact builds_leaves _
      | some name => exact builds_leaves _
  | function f => exact builds_entry (each f List.mem_cons_self) _
  | receive table => exact builds_unlinkTable table each
  | _ => exact builds_leaves _

/-- Unlinking makes the listing of a template. -/
theorem builds_unlink (t : Template) : Builds (unlink t) t.tree := by
  induction t using Template.induction with
  | step t ih =>
      intro store
      rw [t.tree_eq]
      obtain ⟨id, ⟨instructions⟩⟩ := t
      have code : Builds (unlinkAll [] instructions) (.list (instructions.map Instruction.tree)) :=
        builds_unlinkAll fun instruction member =>
          builds_unlinkInstruction instruction (ih instruction member)
      exact (((built_nil store).push code).leaf (.symbol "code")).list.list

end Store

end ActorMachine
