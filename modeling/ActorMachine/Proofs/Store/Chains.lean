import ActorMachine.Proofs.Store.Spelling
import Mathlib.Data.List.Basic
import Mathlib.Data.List.Perm.Subperm

set_option autoImplicit false

/-!
Following the second parts of pairs.

A chain of pairs leads to a value that is no pair, or it never ends. A chain that ends meets no pair
twice, so it has no more pairs than there are, and a walk with as much fuel reaches its end. Main
statements: `spine_of_leaves`, `spine_of_improper` and `spine_of_endless` for any value, and
`elements_of_properList`, `elements_of_chain` and `elements_of_endless` for second parts.
-/

namespace ActorMachine.Store

variable {store : Store}

/-- From a value, the second parts of pairs lead to `last`, which is no pair; `items` are the first
parts on the way. -/
inductive Chain (store : Store) : Value → List Value → Value → Prop where
  | ends {last} (isEnd : ∀ ref, last ≠ .pair ref) : Chain store last [] last
  | pair {ref items last} (further : Chain store (store.cdrAt ref) items last) :
      Chain store (.pair ref) (store.carAt ref :: items) last

/-- A proper list: the chain ends in nil. -/
def ProperList (store : Store) (v : Value) (items : List Value) : Prop := store.Chain v items .nil

theorem Chain.unique {v last otherLast : Value} {items others : List Value}
    (chain : store.Chain v items last) (other : store.Chain v others otherLast) :
    items = others ∧ last = otherLast := by
  induction chain generalizing others otherLast with
  | ends isEnd =>
      cases other with
      | ends _ => exact ⟨rfl, rfl⟩
      | pair _ => exact absurd rfl (isEnd _)
  | pair further ih =>
      cases other with
      | ends isEnd => exact absurd rfl (isEnd _)
      | pair otherFurther =>
          obtain ⟨sameItems, sameLast⟩ := ih otherFurther
          exact ⟨congrArg _ sameItems, sameLast⟩

/-- A pair outside the store reads as one item. -/
theorem cdrAt_of_outside {ref : Ref} (outside : store.pairs.size ≤ ref) :
    store.cdrAt ref = .nil := by
  unfold cdrAt pairAt
  rw [Array.getD, dif_neg (Nat.not_lt.2 outside)]

/-- The pairs of a chain that ends are distinct, because each is farther from the end than the next,
and all but the last one are in the store. What holds of a value and passes to second parts holds of
every pair on the way from it. -/
theorem Chain.refs {v last : Value} {items : List Value} (chain : store.Chain v items last) :
    ∃ refs : List Ref, refs.length = items.length ∧ refs.Nodup ∧
      (∀ ref ∈ refs.dropLast, ref < store.pairs.size) ∧
      ∀ holds : Value → Prop, holds v → (∀ ref, holds (.pair ref) → holds (store.cdrAt ref)) →
        ∀ ref ∈ refs, holds (.pair ref) := by
  induction chain with
  | ends _ => exact ⟨[], rfl, List.nodup_nil, nofun, fun _ _ _ => nofun⟩
  | @pair ref items last further ih =>
      obtain ⟨refs, sameLength, distinct, inside, passed⟩ := ih
      refine ⟨ref :: refs, congrArg (· + 1) sameLength, ?_, ?_, ?_⟩
      · refine List.nodup_cons.2 ⟨?_, distinct⟩
        intro again
        have near := passed (fun w => ∃ others, store.Chain w others last ∧
          others.length ≤ items.length) ⟨items, further, Nat.le_refl _⟩ ?_ ref again
        · obtain ⟨others, shorter, bound⟩ := near
          have same := (shorter.unique (.pair further)).1
          rw [same, List.length_cons] at bound
          omega
        · rintro other ⟨others, leads, bound⟩
          cases leads with
          | ends isEnd => exact absurd rfl (isEnd other)
          | pair leads => exact ⟨_, leads, Nat.le_of_succ_le bound⟩
      · intro other member
        cases refs with
        | nil => cases member
        | cons next refs =>
            rw [List.dropLast_cons_cons] at member
            rcases List.mem_cons.1 member with rfl | later
            · -- There is a further pair, so this one is not outside.
              refine Nat.lt_of_not_le fun outside => ?_
              rw [cdrAt_of_outside outside] at further
              cases further
              cases sameLength
            · exact inside other later
      · intro holds here passes other member
        rcases List.mem_cons.1 member with rfl | later
        · exact here
        · exact passed holds (passes ref here) passes other later

/-- Distinct pairs of the store are no more than there are. -/
theorem length_le_of_distinct {refs : List Ref} (distinct : refs.Nodup)
    (inside : ∀ ref ∈ refs, ref < store.pairs.size) : refs.length ≤ store.pairs.size := by
  have among : refs ⊆ List.range store.pairs.size :=
    fun ref member => List.mem_range.2 (inside ref member)
  have bound := (List.subperm_of_subset distinct among).length_le
  rw [List.length_range] at bound
  exact bound

theorem Chain.length_le {v last : Value} {items : List Value} (chain : store.Chain v items last) :
    items.length ≤ store.pairs.size + 1 := by
  obtain ⟨refs, sameLength, distinct, inside, _⟩ := chain.refs
  have bound := length_le_of_distinct (distinct.sublist (List.dropLast_sublist refs)) inside
  rw [List.length_dropLast] at bound
  omega

/-- If all pairs of a chain are in the store then they are no more than there are. -/
theorem Chain.length_le_of_inside {v last : Value} {items : List Value}
    (chain : store.Chain v items last) (holds : Value → Prop) (here : holds v)
    (passes : ∀ ref, holds (.pair ref) → holds (store.cdrAt ref))
    (inside : ∀ ref, holds (.pair ref) → ref < store.pairs.size) :
    items.length ≤ store.pairs.size := by
  obtain ⟨refs, sameLength, distinct, _, passed⟩ := chain.refs
  rw [← sameLength]
  refine length_le_of_distinct distinct fun ref member => inside ref ?_
  exact passed holds here passes ref member

/-- A pair outside the store ends a chain in nil, so a chain with another end has none. -/
theorem Chain.length_le_of_improper {v last : Value} {items : List Value}
    (chain : store.Chain v items last) (improper : last ≠ .nil) :
    items.length ≤ store.pairs.size := by
  refine chain.length_le_of_inside (fun w => ∃ others, store.Chain w others last) ⟨_, chain⟩ ?_ ?_
  · rintro ref ⟨others, leads⟩
    cases leads with
    | ends isEnd => exact absurd rfl (isEnd ref)
    | pair leads => exact ⟨_, leads⟩
  · rintro ref ⟨others, leads⟩
    refine Nat.lt_of_not_le fun outside => ?_
    cases leads with
    | ends isEnd => exact isEnd ref rfl
    | pair leads =>
        rw [cdrAt_of_outside outside] at leads
        cases leads
        exact improper rfl

theorem spineFrom_of_chain {v last : Value} {items : List Value}
    (chain : store.Chain v items last) {fuel : Nat} (enough : items.length ≤ fuel)
    (seen : List Value) :
    (last = .nil → store.spineFrom fuel seen v = .proper (seen.reverse ++ items)) ∧
      (last ≠ .nil → store.spineFrom fuel seen v = .improper) := by
  induction chain generalizing fuel seen with
  | @ends last isEnd =>
      cases last with
      | nil => exact ⟨fun _ => by rw [spineFrom, List.append_nil], fun other => absurd rfl other⟩
      | pair ref => exact absurd rfl (isEnd ref)
      | _ => exact ⟨nofun, fun _ => by cases fuel <;> rfl⟩
  | @pair ref _ _ _ ih =>
      cases fuel with
      | zero => cases enough
      | succ fuel =>
          have further := ih (Nat.le_of_succ_le_succ enough) (store.carAt ref :: seen)
          rw [List.reverse_cons, List.append_assoc, List.singleton_append] at further
          exact further

/-- A walk along a chain that never ends uses up its fuel. -/
theorem spineFrom_of_endless {v : Value} (endless : ∀ items last, ¬store.Chain v items last)
    (fuel : Nat) (seen : List Value) : store.spineFrom fuel seen v = .circular := by
  induction fuel generalizing v seen with
  | zero =>
      cases v with
      | pair ref => rfl
      | _ => exact absurd (.ends nofun) (endless _ _)
  | succ fuel ih =>
      cases v with
      | pair ref =>
          exact ih (fun items last further => endless _ _ (.pair further)) (store.carAt ref :: seen)
      | _ => exact absurd (.ends nofun) (endless _ _)

/-! ### Lists that the store holds -/

theorem properList_of_spells {v : Value} {items : List Value}
    (spelled : store.Spells v (.leaves items)) : store.ProperList v items := by
  induction items generalizing v with
  | nil =>
      cases spelled
      exact .ends nofun
  | cons item items ih =>
      obtain ⟨ref, rfl, _, isItem, rest⟩ := spelled
      cases isItem
      exact .pair (ih rest)

theorem length_le_of_spells {v : Value} {items : List Value}
    (spelled : store.Spells v (.leaves items)) : items.length ≤ store.pairs.size := by
  refine (properList_of_spells spelled).length_le_of_inside
    (fun w => ∃ others, store.Spells w (.leaves others)) ⟨items, spelled⟩ ?_ ?_
  · rintro ref ⟨_ | ⟨other, others⟩, spelled⟩
    · cases spelled
    · obtain ⟨_, same, _, _, rest⟩ := spelled
      cases same
      exact ⟨others, rest⟩
  · rintro ref ⟨_ | ⟨other, others⟩, spelled⟩
    · cases spelled
    · obtain ⟨_, same, inside, _, _⟩ := spelled
      cases same
      exact inside

theorem spine_of_leaves {v : Value} {items : List Value}
    (spelled : store.Spells v (.leaves items)) : store.spine v = .proper items :=
  (spineFrom_of_chain (properList_of_spells spelled) (length_le_of_spells spelled) []).1 rfl

theorem spine_of_improper {v last : Value} {items : List Value}
    (chain : store.Chain v items last) (improper : last ≠ .nil) : store.spine v = .improper :=
  (spineFrom_of_chain chain (chain.length_le_of_improper improper) []).2 improper

theorem spine_of_endless {v : Value} (endless : ∀ items last, ¬store.Chain v items last) :
    store.spine v = .circular :=
  spineFrom_of_endless endless _ []

/-! ### Elements -/

section Elements

variable {ref : Ref} {items : List Value} {last : Value}

/-- A chain from a second part has the pair before it, so it has fewer pairs than there are. -/
theorem Chain.length_le_of_cdrAt (chain : store.Chain (store.cdrAt ref) items last) :
    items.length ≤ store.pairs.size :=
  Nat.le_of_succ_le_succ (Chain.pair chain).length_le

theorem elements_of_properList (listed : store.ProperList (store.cdrAt ref) items) :
    store.elements (store.cdrAt ref) = .ok items := by
  have walked := (spineFrom_of_chain listed listed.length_le_of_cdrAt []).1 rfl
  unfold elements spine
  rw [walked]
  rfl

theorem elements_of_chain (chain : store.Chain (store.cdrAt ref) items last)
    (improper : last ≠ .nil) :
    store.elements (store.cdrAt ref) = .error (.fault (.wrongKind "list" "proper list")) := by
  unfold elements
  rw [spine_of_improper chain improper]
  rfl

theorem elements_of_endless {v : Value} (endless : ∀ items last, ¬store.Chain v items last) :
    store.elements v = .error .endless := by
  unfold elements
  rw [spine_of_endless endless]

end Elements

end ActorMachine.Store
