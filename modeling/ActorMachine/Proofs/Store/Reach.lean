import ActorMachine.Proofs.Store.Spelling
import Mathlib.Logic.Relation

set_option autoImplicit false

/-!
What is reached from a value through pairs.

The leaves of a tree that a value spells are reached from it, and all else that is reached is
reached from one of them. If the tree is whole then no leaf leads on. Main statement:
`reaches_iff_of_spells`.
-/

namespace ActorMachine

namespace Tree

/-- All pairs are written out, so a value that spells the tree has no circle in it. -/
def Whole : Tree → Prop
  | .leaf v => ∀ ref, v ≠ .pair ref
  | .pair head tail => head.Whole ∧ tail.Whole

/-- The value is on a leaf, so many steps from a pair to one of its parts away. -/
def HasLeaf : Tree → Nat → Value → Prop
  | .leaf x, n, v => n = 0 ∧ v = x
  | .pair _ _, 0, _ => False
  | .pair head tail, n + 1, v => head.HasLeaf n v ∨ tail.HasLeaf n v

/-- The value is on a leaf. -/
def Holds (tree : Tree) (v : Value) : Prop := ∃ n, tree.HasLeaf n v

theorem Whole.leaf_ne {tree : Tree} (whole : tree.Whole) {n : Nat} {v : Value}
    (found : tree.HasLeaf n v) (ref : Ref) : v ≠ .pair ref := by
  induction tree generalizing n with
  | leaf x =>
      obtain ⟨_, rfl⟩ := found
      exact whole ref
  | pair head tail headIh tailIh =>
      cases n with
      | zero => cases found
      | succ n => exact found.elim (headIh whole.1) (tailIh whole.2)

@[simp] theorem holds_leaf {x v : Value} : (leaf x).Holds v ↔ v = x :=
  ⟨fun ⟨_, _, same⟩ => same, fun same => ⟨0, rfl, same⟩⟩

@[simp] theorem holds_pair {head tail : Tree} {v : Value} :
    (pair head tail).Holds v ↔ head.Holds v ∨ tail.Holds v := by
  constructor
  · rintro ⟨_ | n, found⟩
    · cases found
    · exact found.imp (⟨n, ·⟩) (⟨n, ·⟩)
  · rintro (⟨n, found⟩ | ⟨n, found⟩)
    · exact ⟨n + 1, .inl found⟩
    · exact ⟨n + 1, .inr found⟩

theorem holds_list {trees : List Tree} {v : Value} (notNil : v ≠ .nil) :
    (list trees).Holds v ↔ ∃ tree ∈ trees, tree.Holds v := by
  induction trees with
  | nil => exact ⟨fun held => absurd (holds_leaf.1 held) notNil, nofun⟩
  | cons tree trees ih =>
      change (pair tree (list trees)).Holds v ↔ _
      rw [holds_pair, ih]
      simp

theorem whole_list {trees : List Tree} :
    (list trees).Whole ↔ ∀ tree ∈ trees, tree.Whole := by
  induction trees with
  | nil => exact ⟨fun _ => nofun, fun _ => nofun⟩
  | cons tree trees ih =>
      change tree.Whole ∧ (list trees).Whole ↔ _
      rw [ih]
      simp

/-- The item of a list is behind as many second parts as there are items before it. -/
theorem hasLeaf_list {trees : List Tree} {k n : Nat} {tree : Tree} {v : Value}
    (item : trees[k]? = some tree) (found : tree.HasLeaf n v) :
    (list trees).HasLeaf (k + n + 1) v := by
  induction trees generalizing k with
  | nil => cases item
  | cons first trees ih =>
      cases k with
      | zero =>
          cases item
          rw [Nat.zero_add]
          exact Or.inl found
      | succ k =>
          rw [Nat.add_right_comm k 1 n]
          exact Or.inr (ih item)

end Tree

namespace Store

variable {store : Store}

/-- The other value is a part of the value, which is a pair. -/
def HasPart (store : Store) (v part : Value) : Prop :=
  ∃ ref, v = .pair ref ∧ (part = store.carAt ref ∨ part = store.cdrAt ref)

/-- From the value, parts of pairs lead to the other one. -/
def Reaches (store : Store) : Value → Value → Prop := Relation.ReflTransGen store.HasPart

theorem reaches_pair_iff {ref : Ref} {x : Value} :
    store.Reaches (.pair ref) x ↔
      x = .pair ref ∨ store.Reaches (store.carAt ref) x ∨ store.Reaches (store.cdrAt ref) x := by
  constructor
  · intro leads
    rcases leads.cases_head with rfl | ⟨part, ⟨other, same, isPart⟩, rest⟩
    · exact .inl rfl
    · cases same
      rcases isPart with rfl | rfl
      · exact .inr (.inl rest)
      · exact .inr (.inr rest)
  · rintro (rfl | rest | rest)
    · exact .refl
    · exact .head ⟨ref, rfl, .inl rfl⟩ rest
    · exact .head ⟨ref, rfl, .inr rfl⟩ rest

/-- Nothing else is reached from a value that is no pair. -/
theorem Reaches.eq_of_noPair {v x : Value} (leads : store.Reaches v x)
    (noPair : ∀ ref, v ≠ .pair ref) : x = v := by
  rcases leads.cases_head with rfl | ⟨_, ⟨ref, same, _⟩, _⟩
  · rfl
  · exact absurd same (noPair ref)

/-- Other than pairs, what is reached from a value is what is reached from the leaves of a tree that
it spells. -/
theorem reaches_iff_of_spells {v x : Value} {tree : Tree} (spelled : store.Spells v tree)
    (noPair : ∀ ref, x ≠ .pair ref) :
    store.Reaches v x ↔ ∃ y, tree.Holds y ∧ store.Reaches y x := by
  induction tree generalizing v with
  | leaf expected =>
      cases spelled
      constructor
      · exact fun leads => ⟨_, Tree.holds_leaf.2 rfl, leads⟩
      · rintro ⟨y, held, leads⟩
        cases Tree.holds_leaf.1 held
        exact leads
  | pair head tail headIh tailIh =>
      obtain ⟨ref, rfl, _, first, second⟩ := spelled
      rw [reaches_pair_iff, headIh first, tailIh second]
      constructor
      · rintro (isPair | ⟨y, held, leads⟩ | ⟨y, held, leads⟩)
        · exact absurd isPair (noPair ref)
        · exact ⟨y, Tree.holds_pair.2 (.inl held), leads⟩
        · exact ⟨y, Tree.holds_pair.2 (.inr held), leads⟩
      · rintro ⟨y, held, leads⟩
        rcases Tree.holds_pair.1 held with held | held
        · exact .inr (.inl ⟨y, held, leads⟩)
        · exact .inr (.inr ⟨y, held, leads⟩)

end Store

end ActorMachine
