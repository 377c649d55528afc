import ActorMachine.Proofs.Code.Linking
import ActorMachine.Proofs.Store.Reach

set_option autoImplicit false

/-!
What expanding leaves of code.

Expanding puts the listing of code in its place and keeps everything else, but only down to
`maxDepth` steps from a pair to one of its parts, and an item of a list is as many steps away as
there are pairs up to it. Constants in a listing stay as they are. Main statement:
`expand_replaces_code`, which says where there is code in an expanded value. A long list keeps some,
and so does the snapshot of a machine with many saved returns (`code_in_snapshot`).
-/

namespace ActorMachine

/-! ### Constants -/

/-- The template, or one that its instructions hold, has the constant. -/
inductive Template.HasConstant : Template → Value → Prop where
  | own {t : Template} {v : Value} (here : .const v ∈ t.code.toList) : HasConstant t v
  | nested {t f : Template} {instruction : Instruction} {v : Value}
      (here : instruction ∈ t.code.toList) (isEntry : f ∈ instruction.entries)
      (within : HasConstant f v) : HasConstant t v

/-- A value of which operands in listings are made, constants apart. -/
def Value.IsMark : Value → Prop
  | .nil | .symbol _ | .number _ => True
  | _ => False

section Listings

variable {v : Value}

theorem Value.ne_of_not_isMark {mark : Value} (other : ¬v.IsMark) (isMark : mark.IsMark) :
    v ≠ mark := fun same => other (same ▸ isMark)

theorem Tree.not_holds_mark {mark : Value} (other : ¬v.IsMark) (isMark : mark.IsMark) :
    ¬(Tree.leaf mark).Holds v :=
  fun held => Value.ne_of_not_isMark other isMark (holds_leaf.1 held)

/-- What is on the leaves of a listing behind a mark. -/
theorem Tree.holds_marked (mark : Value) (tree : Tree) (other : ¬v.IsMark) (isMark : mark.IsMark) :
    (Tree.list [.leaf mark, tree]).Holds v ↔ tree.Holds v := by
  rw [holds_list (Value.ne_of_not_isMark other trivial)]
  simp [Value.ne_of_not_isMark other isMark]

theorem holds_receivers (receivers : List Receiver) (other : ¬v.IsMark) :
    (Tree.list (receivers.map Receiver.tree)).Holds v ↔
      ∃ f ∈ receivers.map (·.entry), f.tree.Holds v := by
  have each : ∀ receiver : Receiver, receiver.tree.Holds v ↔ receiver.entry.tree.Holds v := by
    rintro ⟨tag, entry⟩
    exact Tree.holds_marked (.symbol tag) entry.tree other trivial
  rw [Tree.holds_list (Value.ne_of_not_isMark other trivial)]
  simp [each]

theorem holds_timeout (timeout : Option Timeout) (other : ¬v.IsMark) :
    (timeoutTree timeout).Holds v ↔ ∃ f ∈ (timeout.map (·.entry)).toList, f.tree.Holds v := by
  cases timeout with
  | none => exact ⟨fun held => absurd held (Tree.not_holds_mark other trivial), nofun⟩
  | some timeout =>
      obtain ⟨ms, entry⟩ := timeout
      have marked := Tree.holds_marked (.number ms) entry.tree other trivial
      exact marked.trans (by simp)

theorem ReceiveTable.holds_tree_iff (table : ReceiveTable) (other : ¬v.IsMark) :
    (Instruction.receive table).tree.Holds v ↔
      ∃ f ∈ (Instruction.receive table).entries, f.tree.Holds v := by
  have tree : (Instruction.receive table).tree = .list [.leaf (.opcode .receive),
      .list (table.receivers.map Receiver.tree), timeoutTree table.timeout] :=
    congrArg (fun operands => Tree.list (.leaf (.opcode .receive) :: operands))
      table.operandTrees_eq
  have notOpcode : v ≠ .opcode .receive := Value.ne_of_not_isMark other trivial
  rw [tree, Tree.holds_list (Value.ne_of_not_isMark other trivial)]
  simp only [List.mem_cons, List.not_mem_nil, or_false, exists_eq_or_imp, exists_eq_left,
    Tree.holds_leaf, notOpcode, false_or, holds_receivers _ other, holds_timeout _ other]
  unfold Instruction.entries
  simp only [List.mem_append, or_and_right, exists_or]

/-- The listing of an instruction has on its leaves the operand of `CONST` and what the listings of
its templates have. -/
theorem Instruction.holds_tree_iff (instruction : Instruction) (other : ¬v.IsMark) :
    instruction.tree.Holds v ↔
      instruction = .const v ∨ ∃ f ∈ instruction.entries, f.tree.Holds v := by
  have notSymbol : ∀ name, v ≠ .symbol name := fun _ => Value.ne_of_not_isMark other trivial
  have notNumber : ∀ x, v ≠ .number x := fun _ => Value.ne_of_not_isMark other trivial
  have operands : instruction.tree.Holds v ↔
      ∃ tree ∈ instruction.operandTrees, tree.Holds v := by
    unfold Instruction.tree Value.opcode
    rw [Tree.holds_list (Value.ne_of_not_isMark other trivial)]
    simp [notSymbol]
  cases instruction with
  | receive table => exact (table.holds_tree_iff other).trans (by simp)
  | loadLocal v =>
      rw [operands]
      simp [operandTrees, entries, Local.operandTrees, Value.ofNat, notSymbol, notNumber]
  | storeLocal v =>
      rw [operands]
      simp [operandTrees, entries, Local.operandTrees, Value.ofNat, notSymbol, notNumber]
  | call args =>
      rw [operands]
      cases args <;> simp [operandTrees, entries, Value.ofNat, notNumber]
  | const x =>
      rw [operands]
      simp [operandTrees, entries, eq_comm]
  | _ =>
      rw [operands]
      simp [operandTrees, entries, Label.operandTrees, Value.ofNat, notSymbol, notNumber]

/-- Other than marks, the listing of a template has its constants on leaves. -/
theorem Template.holds_tree_iff (t : Template) (other : ¬v.IsMark) :
    t.tree.Holds v ↔ t.HasConstant v := by
  induction t using Template.induction with
  | step t ih =>
      have notNil : v ≠ .nil := Value.ne_of_not_isMark other trivial
      have inCode : t.tree.Holds v ↔ ∃ instruction ∈ t.code.toList, instruction.tree.Holds v := by
        rw [t.tree_eq, Tree.holds_list notNil]
        simp only [List.mem_singleton, exists_eq_left]
        rw [Tree.holds_marked (.symbol "code") _ other trivial, Tree.holds_list notNil]
        simp
      rw [inCode]
      constructor
      · rintro ⟨instruction, here, held⟩
        rcases (instruction.holds_tree_iff other).1 held with rfl | ⟨f, isEntry, held⟩
        · exact .own here
        · exact .nested here isEntry ((ih instruction here f isEntry).1 held)
      · intro constant
        cases constant with
        | own here => exact ⟨_, here, (Instruction.holds_tree_iff _ other).2 (.inl rfl)⟩
        | nested here isEntry within =>
            refine ⟨_, here, (Instruction.holds_tree_iff _ other).2 (.inr ⟨_, isEntry, ?_⟩)⟩
            exact (ih _ here _ isEntry).2 within

end Listings

/-! ### Expanded trees -/

/-- The code of a value that is code. -/
def Value.code? : Value → Option Template
  | .template t => some t
  | .function f => some f.template
  | _ => none

/-- A value, or the listing of its code. -/
def Value.listed (v : Value) : Tree :=
  match v.code? with
  | some t => t.tree
  | none => .leaf v

namespace Tree

/-- The listing is in the place of all code, and everything else is kept. -/
def listed : Tree → Tree
  | .leaf v => v.listed
  | .pair head tail => .pair head.listed tail.listed

/-- The same, down to so many steps from a pair to one of its parts. -/
def expanded : Nat → Tree → Tree
  | 0, tree => tree
  | _ + 1, .leaf v => v.listed
  | depth + 1, .pair head tail => .pair (head.expanded depth) (tail.expanded depth)

/-- The depth of lists in lists. An item is deeper than its list, and a later item no deeper than an
earlier one. -/
def nesting : Tree → Nat
  | .leaf _ => 0
  | .pair head tail => max (head.nesting + 1) tail.nesting

theorem nesting_list_le {trees : List Tree} {depth : Nat} :
    (list trees).nesting ≤ depth ↔ ∀ tree ∈ trees, tree.nesting < depth := by
  induction trees with
  | nil => exact ⟨fun _ => nofun, fun _ => Nat.zero_le depth⟩
  | cons tree trees ih =>
      change max (tree.nesting + 1) (list trees).nesting ≤ depth ↔ _
      rw [Nat.max_le, ih, List.forall_mem_cons]
      rfl

theorem listed_eq_self {tree : Tree} (none : ∀ v, tree.Holds v → ¬v.IsLive) :
    tree.listed = tree := by
  induction tree with
  | leaf v =>
      have notLive := none v (holds_leaf.2 rfl)
      cases v with
      | template t => exact absurd trivial notLive
      | function f => exact absurd trivial notLive
      | _ => rfl
  | pair head tail headIh tailIh =>
      have first := headIh fun v held => none v (holds_pair.2 (.inl held))
      have second := tailIh fun v held => none v (holds_pair.2 (.inr held))
      unfold listed
      rw [first, second]

/-- If no code is too far away then all of it is replaced. -/
theorem expanded_eq_listed {tree : Tree} {depth : Nat}
    (near : ∀ n v, tree.HasLeaf n v → v.IsLive → n < depth) :
    tree.expanded depth = tree.listed := by
  induction tree generalizing depth with
  | leaf v =>
      cases depth with
      | zero => exact (listed_eq_self fun x ⟨n, found⟩ live => nomatch near n x found live).symm
      | succ depth => rfl
  | pair head tail headIh tailIh =>
      cases depth with
      | zero => exact (listed_eq_self fun x ⟨n, found⟩ live => nomatch near n x found live).symm
      | succ depth =>
          have first := headIh fun n v found live =>
            Nat.lt_of_succ_lt_succ (near (n + 1) v (.inl found) live)
          have second := tailIh fun n v found live =>
            Nat.lt_of_succ_lt_succ (near (n + 1) v (.inr found) live)
          unfold expanded listed
          rw [first, second]

/-- What is on the leaves of an expanded tree: what is too far away, and what the listings of nearer
values have. -/
theorem holds_expanded_iff {tree : Tree} {depth : Nat} {v : Value} :
    (tree.expanded depth).Holds v ↔
      (∃ n, depth ≤ n ∧ tree.HasLeaf n v) ∨
        ∃ n y, n < depth ∧ tree.HasLeaf n y ∧ y.listed.Holds v := by
  induction depth generalizing tree with
  | zero =>
      constructor
      · rintro ⟨n, found⟩
        exact .inl ⟨n, Nat.zero_le n, found⟩
      · rintro (⟨n, _, found⟩ | ⟨n, y, impossible, _⟩)
        · exact ⟨n, found⟩
        · cases impossible
  | succ depth ih =>
      cases tree with
      | leaf x =>
          constructor
          · exact fun held => .inr ⟨0, x, Nat.succ_pos depth, ⟨rfl, rfl⟩, held⟩
          · rintro (⟨n, far, rfl, _⟩ | ⟨n, y, _, ⟨_, rfl⟩, held⟩)
            · cases far
            · exact held
      | pair head tail =>
          unfold expanded
          rw [holds_pair, ih, ih]
          constructor
          · rintro ((⟨n, far, found⟩ | ⟨n, y, near, found, held⟩) |
              (⟨n, far, found⟩ | ⟨n, y, near, found, held⟩))
            · exact .inl ⟨n + 1, Nat.succ_le_succ far, .inl found⟩
            · exact .inr ⟨n + 1, y, Nat.succ_lt_succ near, .inl found, held⟩
            · exact .inl ⟨n + 1, Nat.succ_le_succ far, .inr found⟩
            · exact .inr ⟨n + 1, y, Nat.succ_lt_succ near, .inr found, held⟩
          · rintro (⟨_ | n, far, found⟩ | ⟨_ | n, y, near, found, held⟩)
            · cases far
            · have far := Nat.le_of_succ_le_succ far
              exact found.imp (fun found => .inl ⟨n, far, found⟩) fun found => .inl ⟨n, far, found⟩
            · cases found
            · have near := Nat.lt_of_succ_lt_succ near
              exact found.imp (fun found => .inr ⟨n, y, near, found, held⟩)
                fun found => .inr ⟨n, y, near, found, held⟩

end Tree

/-! ### Expanding in a store -/

theorem Value.isLive_iff {v : Value} : v.IsLive ↔ ∃ t, v.code? = some t := by
  cases v with
  | template t => exact ⟨fun _ => ⟨t, rfl⟩, fun _ => trivial⟩
  | function f => exact ⟨fun _ => ⟨f.template, rfl⟩, fun _ => trivial⟩
  | _ => exact ⟨nofun, nofun⟩

namespace Store

variable {store : Store} {v : Value} {tree : Tree}

/-- The two parts of a pair are expanded one after the other, and the results make a new pair. -/
theorem expandWithin_pair (depth : Nat) (ref : Ref) (store : Store) :
    let first := expandWithin depth (store.carAt ref) store
    let second := expandWithin depth (store.cdrAt ref) first.2
    expandWithin (depth + 1) (.pair ref) store = second.2.cons first.1 second.1 := rfl

theorem allocates_expandWithin (depth : Nat) (v : Value) : Allocates (expandWithin depth v) := by
  induction depth generalizing v with
  | zero => exact allocates_pure v
  | succ depth ih =>
      cases v with
      | template t => exact allocates_unlink t
      | function f => exact allocates_unlink f.template
      | pair ref =>
          intro store
          rw [expandWithin_pair]
          exact ((ih _ _).trans (ih _ _)).trans (grows_cons _ _ _)
      | _ => exact allocates_pure _

theorem spells_unlink (t : Template) (store : Store) :
    (unlink t store).2.Spells (unlink t store).1 t.tree :=
  (List.forall₂_cons.1 (builds_unlink t store).spelled).1

/-- Expanding a value that spells a whole tree makes the expanded tree. -/
theorem spells_expandWithin (depth : Nat) (spelled : store.Spells v tree) (whole : tree.Whole) :
    (expandWithin depth v store).2.Spells (expandWithin depth v store).1 (tree.expanded depth) := by
  induction depth generalizing store v tree with
  | zero => exact spelled
  | succ depth ih =>
      cases tree with
      | leaf x =>
          cases spelled
          cases v with
          | template t => exact spells_unlink t store
          | function f => exact spells_unlink f.template store
          | pair ref => exact absurd rfl (whole ref)
          | _ => exact spells_leaf store _
      | pair head tail =>
          obtain ⟨ref, rfl, _, headSpelled, tailSpelled⟩ := spelled
          rw [expandWithin_pair]
          -- The second part is expanded in the store that the first one leaves.
          have first := ih headSpelled whole.1
          have grown := allocates_expandWithin depth (store.carAt ref) store
          have second := ih (tailSpelled.mono grown)
            whole.2
          exact spells_cons (first.mono (allocates_expandWithin depth _ _)) second

/-- No code is reached from a mark. -/
theorem Reaches.not_isMark {c x : Value} (leads : store.Reaches c x) (live : x.IsLive) :
    ¬c.IsMark := by
  intro isMark
  have same : x = c := leads.eq_of_noPair fun ref isPair => by
    rw [isPair] at isMark
    exact isMark
  rw [same] at live
  cases c with
  | nil => exact live
  | symbol name => exact live
  | number x => exact live
  | _ => exact isMark

/-- The code that is reached from an expanded value: what is too far away, and what is reached from
the constants of nearer code. -/
theorem reaches_expanded_iff {depth : Nat} {x : Value}
    (spelled : store.Spells v (tree.expanded depth)) (whole : tree.Whole) (live : x.IsLive) :
    store.Reaches v x ↔
      (∃ n, depth ≤ n ∧ tree.HasLeaf n x) ∨
        ∃ n y t c, n < depth ∧ tree.HasLeaf n y ∧ y.code? = some t ∧ t.HasConstant c ∧
          store.Reaches c x := by
  have noPair : ∀ ref, x ≠ .pair ref := by
    rintro ref rfl
    exact live
  rw [reaches_iff_of_spells spelled noPair]
  constructor
  · rintro ⟨c, held, leads⟩
    rcases Tree.holds_expanded_iff.1 held with ⟨n, far, found⟩ | ⟨n, y, near, found, listed⟩
    · cases leads.eq_of_noPair (whole.leaf_ne found)
      exact .inl ⟨n, far, found⟩
    · unfold Value.listed at listed
      split at listed
      · rename_i t isCode
        have constant := (t.holds_tree_iff (leads.not_isMark live)).1 listed
        exact .inr ⟨n, y, t, c, near, found, isCode, constant, leads⟩
      · rename_i notCode
        -- The leaf was kept, so it is no pair, and no code either.
        cases Tree.holds_leaf.1 listed
        cases leads.eq_of_noPair (whole.leaf_ne found)
        obtain ⟨t, isCode⟩ := Value.isLive_iff.1 live
        rw [isCode] at notCode
        cases notCode
  · rintro (⟨n, far, found⟩ | ⟨n, y, t, c, near, found, isCode, constant, leads⟩)
    · exact ⟨x, Tree.holds_expanded_iff.2 (.inl ⟨n, far, found⟩), .refl⟩
    · refine ⟨c, Tree.holds_expanded_iff.2 (.inr ⟨n, y, near, found, ?_⟩), leads⟩
      unfold Value.listed
      rw [isCode]
      exact (t.holds_tree_iff (leads.not_isMark live)).2 constant

/-- Expanding a value without circles puts the listing in the place of all code that is less than
`maxDepth` steps away and keeps everything else in place. So the code that is reached from the
result is what was too far away, and what the constants of the listed code lead to; and there is
none if all code was near enough and its constants lead to none. -/
theorem expand_replaces_code (spelled : store.Spells v tree) (whole : tree.Whole) :
    let result := expand v store
    store.Grows result.2 ∧
    result.2.Spells result.1 (tree.expanded maxDepth) ∧
    (∀ x, x.IsLive → (result.2.Reaches result.1 x ↔
      (∃ n, maxDepth ≤ n ∧ tree.HasLeaf n x) ∨
        ∃ n y t c, n < maxDepth ∧ tree.HasLeaf n y ∧ y.code? = some t ∧ t.HasConstant c ∧
          result.2.Reaches c x)) ∧
    ((∀ n y t, tree.HasLeaf n y → y.code? = some t →
        n < maxDepth ∧ ∀ c x, t.HasConstant c → result.2.Reaches c x → ¬x.IsLive) →
      result.2.Spells result.1 tree.listed ∧ ∀ x, result.2.Reaches result.1 x → ¬x.IsLive) := by
  intro result
  have expanded : result.2.Spells result.1 (tree.expanded maxDepth) :=
    spells_expandWithin maxDepth spelled whole
  refine ⟨allocates_expandWithin maxDepth v store, expanded,
    fun x live => reaches_expanded_iff expanded whole live, ?_⟩
  intro each
  have near : ∀ n y, tree.HasLeaf n y → y.IsLive → n < maxDepth := by
    intro n y found live
    obtain ⟨t, isCode⟩ := Value.isLive_iff.1 live
    exact (each n y t found isCode).1
  refine ⟨Tree.expanded_eq_listed near ▸ expanded, fun x leads live => ?_⟩
  rcases (reaches_expanded_iff expanded whole live).1 leads with
    ⟨n, far, found⟩ | ⟨n, y, t, c, _, found, isCode, constant, further⟩
  · exact absurd (near n x found live) (Nat.not_lt.2 far)
  · exact (each n y t found isCode).2 c x constant further live

/-- A template in a list of one item is near enough, and its one constant is a symbol. -/
theorem expand_replaces_code_singleton :
    let made := ({} : Store).list [.template (.epilogue 0)]
    let result := expand made.1 made.2
    made.2.Spells made.1 (.leaves [.template (.epilogue 0)]) ∧
      result.2.Spells result.1 (.list [(Template.epilogue 0).tree]) ∧
      ∀ x, result.2.Reaches result.1 x → ¬x.IsLive := by
  intro made result
  have spelled := ({} : Store).spells_list_leaves [.template (.epilogue 0)]
  have constants : ∀ c, (Template.epilogue 0).HasConstant c → c = .symbol "normal" := by
    intro c constant
    cases constant with
    | own here => simpa [Template.epilogue] using here
    | nested here isEntry =>
        have noEntries : ∀ instruction ∈ (Template.epilogue 0).code.toList,
            instruction.entries = [] := by
          simp [Template.epilogue, Instruction.entries]
        rw [noEntries _ here] at isEntry
        cases isEntry
  refine ⟨spelled, (expand_replaces_code spelled ⟨nofun, nofun⟩).2.2.2 ?_⟩
  rintro (_ | _ | n) y t found isCode
  · cases found
  · rcases found with ⟨_, rfl⟩ | ⟨_, rfl⟩
    · cases isCode
      refine ⟨by decide, fun c x constant leads => ?_⟩
      cases constants c constant
      cases leads.eq_of_noPair nofun
      exact id
    · cases isCode
  · rcases found with ⟨impossible, _⟩ | ⟨impossible, _⟩
    · cases impossible
    · cases impossible

end Store

/-! ### Snapshots -/

namespace Machine

variable {m : Machine} {pid : ProcessId} {store : Store}

/-- The template of a saved return is as far from a snapshot as there are returns after it. -/
theorem hasLeaf_snapshotTree {k : Nat} {back : Return} (saved : m.returns[k]? = some back) :
    (m.snapshotTree pid store).HasLeaf (k + 4) (.template back.template) := by
  unfold snapshotTree
  generalize Tree.list _ = current
  generalize m.returns = returns at saved
  induction returns generalizing k with
  | nil => cases saved
  | cons first returns ih =>
      cases k with
      | zero =>
          cases saved
          have here : (Tree.leaf (.template back.template)).HasLeaf 0 (.template back.template) :=
            ⟨rfl, rfl⟩
          have third : (back.tree store).HasLeaf 3 (.template back.template) :=
            Tree.hasLeaf_list (k := 2) rfl here
          exact Or.inl third
      | succ k => exact Or.inr (ih saved)

/-- A snapshot is whole if no slot of a frame is a pair. -/
theorem whole_snapshotTree (own : (store.envTree m.env).Whole)
    (saved : ∀ back ∈ m.returns, (store.envTree back.env).Whole) :
    (m.snapshotTree pid store).Whole := by
  unfold snapshotTree
  generalize m.returns = returns at saved
  induction returns with
  | nil =>
      change (Tree.list _).Whole
      simp [Tree.whole_list, Tree.leaves, Tree.Whole, own, Value.ofNat]
  | cons back returns ih =>
      refine ⟨?_, ih fun other member => saved other (List.mem_cons_of_mem _ member)⟩
      have env := saved back List.mem_cons_self
      simp [Return.tree, Tree.whole_list, Tree.Whole, env, Value.ofNat]

/-- A snapshot is nested two deeper than the lists of frames in it. -/
theorem nesting_snapshotTree_le {depth : Nat} (own : (store.envTree m.env).nesting ≤ depth)
    (saved : ∀ back ∈ m.returns, (store.envTree back.env).nesting ≤ depth) :
    (m.snapshotTree pid store).nesting ≤ depth + 2 := by
  unfold snapshotTree
  generalize m.returns = returns at saved
  induction returns with
  | nil =>
      change (Tree.list _).nesting ≤ depth + 2
      simpa [Tree.nesting_list_le, Tree.leaves, Tree.nesting, Nat.lt_succ_iff] using own
  | cons back returns ih =>
      refine Nat.max_le.2 ⟨?_, ih fun other member => saved other (List.mem_cons_of_mem _ member)⟩
      have env := saved back List.mem_cons_self
      simpa [Return.tree, Tree.nesting_list_le, Tree.nesting, Nat.lt_succ_iff] using env

/-- A machine with many saved returns has code in its expanded snapshot, however flat it is. -/
theorem code_in_snapshot (whole : (m.snapshotTree pid store).Whole) {k : Nat} {back : Return}
    (saved : m.returns[k]? = some back) (far : maxDepth ≤ k + 4) :
    let shot := m.snapshot pid store
    let result := Store.expand shot.1 shot.2
    shot.2.Spells shot.1 (m.snapshotTree pid store) ∧
      result.2.Reaches result.1 (.template back.template) := by
  intro shot result
  have spelled := m.spells_snapshot pid store
  have expanded := Store.spells_expandWithin maxDepth spelled whole
  have live : (Value.template back.template).IsLive := trivial
  exact ⟨spelled, (Store.reaches_expanded_iff expanded whole live).2
    (.inl ⟨k + 4, far, hasLeaf_snapshotTree saved⟩)⟩

/-- Code that saves a return and starts anew. -/
def saving : Template := ⟨.linked 0, #[.save ⟨"L0", 0⟩, .jump ⟨"L0", 0⟩]⟩

/-- Two instructions of it save one return. -/
theorem runFrom_saving (n executed : Nat) (env : Env) (stack : List Value) (returns : List Return)
    (nargs : Nat) (memory : Memory) :
    runFrom executed (2 * n) ⟨saving, 0, env, stack, returns, nargs, .running⟩ memory =
      ⟨executed + 2 * n,
        ⟨saving, 0, env, stack, List.replicate n ⟨saving, env, 0⟩ ++ returns, nargs, .running⟩,
        memory, .quota⟩ := by
  induction n generalizing executed returns with
  | zero => rfl
  | succ n ih =>
      have twice : runFrom executed (2 * (n + 1))
            ⟨saving, 0, env, stack, returns, nargs, .running⟩ memory =
          runFrom (executed + 2) (2 * n)
            ⟨saving, 0, env, stack, ⟨saving, env, 0⟩ :: returns, nargs, .running⟩ memory := rfl
      have count : executed + 2 + 2 * n = executed + 2 * (n + 1) := by omega
      rw [twice, ih, count, List.replicate_succ', List.append_assoc, List.singleton_append]

/-- The machine that has saved so many returns. -/
def backlog (n : Nat) : Machine where
  template := saving
  pc := 0
  env := []
  stack := []
  returns := List.replicate n ⟨saving, [], 0⟩ ++ [⟨.epilogue 1, [], 0⟩]
  nargs := 0
  status := .running

theorem run_saving (n : Nat) :
    (Machine.start 1 ⟨0, saving, []⟩).run (2 * n) {} = ⟨2 * n, backlog n, {}, .quota⟩ := by
  have ran := runFrom_saving n 0 [] [] [⟨.epilogue 1, [], 0⟩] 0 {}
  rw [Nat.zero_add] at ran
  exact ran

/-- No list in its snapshot is nested more than two deep, and code stays in the expanded one if
there are many returns. -/
theorem code_in_snapshot_backlog {n : Nat} (many : maxDepth ≤ n + 4) :
    let tree := (backlog (n + 1)).snapshotTree 1 {}
    let shot := (backlog (n + 1)).snapshot 1 {}
    let result := Store.expand shot.1 shot.2
    tree.Whole ∧ tree.nesting ≤ 2 ∧ shot.2.Spells shot.1 tree ∧
      result.2.Reaches result.1 (.template saving) := by
  have frames : ∀ back ∈ (backlog (n + 1)).returns, back.env = [] := by
    intro back member
    rcases List.mem_append.1 member with looped | last
    · rw [List.eq_of_mem_replicate looped]
    · rw [List.mem_singleton.1 last]
  have whole : ((backlog (n + 1)).snapshotTree 1 {}).Whole := by
    refine whole_snapshotTree nofun fun back member => ?_
    rw [frames back member]
    exact nofun
  have flat : ((backlog (n + 1)).snapshotTree 1 {}).nesting ≤ 2 := by
    refine nesting_snapshotTree_le (Nat.le_refl 0) fun back member => ?_
    rw [frames back member]
    exact Nat.le_refl 0
  have saved : (backlog (n + 1)).returns[n]? = some ⟨saving, [], 0⟩ := by
    have inside : n < (List.replicate (n + 1) (⟨saving, [], 0⟩ : Return)).length := by simp
    exact (List.getElem?_append_left inside).trans
      (List.getElem?_replicate_of_lt (Nat.lt_succ_self n))
  exact ⟨whole, flat, code_in_snapshot whole saved many⟩

/-- After 600 instructions 300 returns are saved, and the expanded snapshot keeps code. -/
theorem code_in_backlog :
    let report := (Machine.start 1 ⟨0, saving, []⟩).run (2 * 300) {}
    let store := report.memory.store
    let tree := report.machine.snapshotTree 1 store
    let shot := report.machine.snapshot 1 store
    let result := Store.expand shot.1 shot.2
    tree.Whole ∧ tree.nesting < maxDepth ∧ shot.2.Spells shot.1 tree ∧
      result.2.Reaches result.1 (.template saving) := by
  rw [run_saving]
  obtain ⟨whole, flat, kept⟩ := code_in_snapshot_backlog (n := 299) (by decide)
  exact ⟨whole, Nat.lt_of_le_of_lt flat (by decide), kept⟩

end Machine

end ActorMachine
