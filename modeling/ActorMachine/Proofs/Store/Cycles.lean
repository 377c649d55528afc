import ActorMachine.Proofs.Store.Chains
import ActorMachine.Proofs.Store.Reach

set_option autoImplicit false

/-!
Circular lists and values without circles.

A walk along the second parts of pairs ends, or it goes on forever because it comes back to a pair
that it met before. Main statement: `Intact.elements_iff`, which says what the items of a list are
in the three cases. A value without circles can be written out as a tree, which is no higher than
the store has pairs (`Acyclic.below`), and no walk in it is endless (`Acyclic.spine_ne_circular`).
-/

namespace ActorMachine

namespace Store

variable {store : Store} {v : Value}

/-! ### Walks that never end -/

/-- Where a walk along the second parts of pairs is after so many steps. -/
def follow (store : Store) : Nat → Value → Value
  | n + 1, .pair ref => store.follow n (store.cdrAt ref)
  | _, v => v

/-- The walk along the second parts of pairs never comes to its end. -/
def Circular (store : Store) (v : Value) : Prop := ∀ n, ∃ ref, store.follow n v = .pair ref

theorem Chain.last_ne {last : Value} {items : List Value} (chain : store.Chain v items last)
    (ref : Ref) : last ≠ .pair ref := by
  induction chain with
  | ends isEnd => exact isEnd ref
  | pair _ ih => exact ih

theorem Chain.follow_eq {last : Value} {items : List Value} (chain : store.Chain v items last) :
    store.follow items.length v = last := by
  induction chain with
  | @ends last isEnd =>
      cases last with
      | pair ref => exact absurd rfl (isEnd ref)
      | _ => rfl
  | pair further ih => exact ih

/-- A walk that ends follows a chain. -/
theorem chain_of_follow {n : Nat} (ended : ∀ ref, store.follow n v ≠ .pair ref) :
    ∃ items last, store.Chain v items last := by
  induction n generalizing v with
  | zero => exact ⟨[], v, .ends ended⟩
  | succ n ih =>
      cases v with
      | pair ref =>
          obtain ⟨items, last, further⟩ := ih ended
          exact ⟨_, last, .pair further⟩
      | _ => exact ⟨[], _, .ends nofun⟩

theorem circular_iff : store.Circular v ↔ ∀ items last, ¬store.Chain v items last := by
  constructor
  · intro circular items last chain
    obtain ⟨ref, isPair⟩ := circular items.length
    rw [chain.follow_eq] at isPair
    exact chain.last_ne ref isPair
  · intro endless n
    by_contra ended
    obtain ⟨items, last, chain⟩ := chain_of_follow fun ref isPair => ended ⟨ref, isPair⟩
    exact endless items last chain

/-- All of a circular list but its first pair is circular. -/
theorem Circular.cdrAt {ref : Ref} (circular : store.Circular (.pair ref)) :
    store.Circular (store.cdrAt ref) :=
  fun n => circular (n + 1)

/-- All pairs that are reached from the value are in the store. -/
def Intact (store : Store) (v : Value) : Prop :=
  ∀ ref, store.Reaches v (.pair ref) → ref < store.pairs.size

theorem Intact.cdrAt {ref : Ref} (intact : store.Intact (.pair ref)) :
    store.Intact (store.cdrAt ref) :=
  fun other leads => intact other (reaches_pair_iff.2 (.inr (.inr leads)))

theorem Intact.length_le {last : Value} {items : List Value} (intact : store.Intact v)
    (chain : store.Chain v items last) : items.length ≤ store.pairs.size :=
  chain.length_le_of_inside store.Intact intact (fun _ => Intact.cdrAt)
    fun ref inside => inside ref .refl

/-- What the walk along a list of the store comes to. -/
theorem Intact.spine_iff (intact : store.Intact v) :
    (∀ items, store.spine v = .proper items ↔ store.ProperList v items) ∧
    (store.spine v = .improper ↔ ∃ items last, store.Chain v items last ∧ last ≠ .nil) ∧
    (store.spine v = .circular ↔ store.Circular v) := by
  by_cases ends : ∃ items last, store.Chain v items last
  · obtain ⟨items, last, chain⟩ := ends
    have walked := spineFrom_of_chain chain (intact.length_le chain) []
    have notCircular : ¬store.Circular v := fun circular => circular_iff.1 circular items last chain
    by_cases isNil : last = .nil
    · have proper : store.spine v = .proper items := walked.1 isNil
      subst isNil
      rw [proper]
      refine ⟨fun others => ?_, ?_, ?_⟩
      · exact ⟨fun same => by cases same; exact chain, fun other => by rw [(chain.unique other).1]⟩
      · exact ⟨nofun, fun ⟨_, _, other, improper⟩ => absurd (chain.unique other).2.symm improper⟩
      · exact ⟨nofun, fun circular => absurd circular notCircular⟩
    · have improper : store.spine v = .improper := walked.2 isNil
      rw [improper]
      refine ⟨fun others => ?_, ?_, ?_⟩
      · exact ⟨nofun, fun other => absurd (chain.unique other).2 isNil⟩
      · exact ⟨fun _ => ⟨items, last, chain, isNil⟩, fun _ => rfl⟩
      · exact ⟨nofun, fun circular => absurd circular notCircular⟩
  · have endless : ∀ items last, ¬store.Chain v items last :=
      fun items last chain => ends ⟨items, last, chain⟩
    rw [spine_of_endless endless]
    refine ⟨fun items => ?_, ?_, ?_⟩
    · exact ⟨nofun, fun listed => absurd listed (endless _ _)⟩
    · exact ⟨nofun, fun ⟨_, _, chain, _⟩ => absurd chain (endless _ _)⟩
    · exact ⟨fun _ => circular_iff.2 endless, fun _ => rfl⟩

theorem elements_spine (store : Store) (v : Value) :
    (∀ items, store.elements v = .ok items ↔ store.spine v = .proper items) ∧
    (store.elements v = .error (.fault (.wrongKind "list" "proper list")) ↔
      store.spine v = .improper) ∧
    (store.elements v = .error .endless ↔ store.spine v = .circular) := by
  unfold elements
  cases store.spine v with
  | proper items => simp
  | improper => simp [faulting]
  | circular => simp

/-- The items of a proper list are its elements, an improper one faults, and a circular one never
gives a result. -/
theorem Intact.elements_iff (intact : store.Intact v) :
    (∀ items, store.elements v = .ok items ↔ store.ProperList v items) ∧
    (store.elements v = .error (.fault (.wrongKind "list" "proper list")) ↔
      ∃ items last, store.Chain v items last ∧ last ≠ .nil) ∧
    (store.elements v = .error .endless ↔ store.Circular v) := by
  obtain ⟨proper, improper, circular⟩ := intact.spine_iff
  obtain ⟨ok, fault, endless⟩ := store.elements_spine v
  exact ⟨fun items => (ok items).trans (proper items), fault.trans improper, endless.trans circular⟩

end Store

/-! ### Values without circles -/

namespace Tree

/-- The most steps from a pair to one of its parts, down to a leaf. -/
def height : Tree → Nat
  | .leaf _ => 0
  | .pair head tail => max head.height tail.height + 1

end Tree

namespace Store

variable {store : Store} {v : Value}

/-- What a value spells with all pairs written out is unique. -/
theorem Spells.unique {tree other : Tree} (spelled : store.Spells v tree) (whole : tree.Whole)
    (otherSpelled : store.Spells v other) (otherWhole : other.Whole) : tree = other := by
  induction tree generalizing v other with
  | leaf x =>
      cases spelled
      cases other with
      | leaf y =>
          cases otherSpelled
          rfl
      | pair head tail =>
          obtain ⟨ref, isPair, _⟩ := otherSpelled
          exact absurd isPair (whole ref)
  | pair head tail headIh tailIh =>
      obtain ⟨ref, rfl, _, first, second⟩ := spelled
      cases other with
      | leaf y => exact absurd otherSpelled.symm (otherWhole ref)
      | pair otherHead otherTail =>
          obtain ⟨_, same, _, otherFirst, otherSecond⟩ := otherSpelled
          cases same
          rw [headIh first whole.1 otherFirst otherWhole.1,
            tailIh second whole.2 otherSecond otherWhole.2]

/-- The value has no circles and all its pairs are in the store: written out, they are a tree, and
one that is less high than the bound. -/
def Below (store : Store) (bound : Nat) (v : Value) : Prop :=
  ∃ tree : Tree, tree.Whole ∧ store.Spells v tree ∧ tree.height < bound

/-- The value has no circles and all its pairs are in the store. -/
def Acyclic (store : Store) (v : Value) : Prop := ∃ tree : Tree, tree.Whole ∧ store.Spells v tree

theorem Below.mono {bound larger : Nat} (below : store.Below bound v) (le : bound ≤ larger) :
    store.Below larger v := by
  obtain ⟨tree, whole, spelled, low⟩ := below
  exact ⟨tree, whole, spelled, Nat.lt_of_lt_of_le low le⟩

/-- On the way to a leaf as far away as can be, no pair comes twice, because each is higher than the
next. -/
theorem refs_of_spells {tree : Tree} (spelled : store.Spells v tree) (whole : tree.Whole) :
    ∃ refs : List Ref, refs.length = tree.height ∧ refs.Nodup ∧
      ∀ ref ∈ refs, ref < store.pairs.size ∧ store.Below (tree.height + 1) (.pair ref) := by
  induction tree generalizing v with
  | leaf x => exact ⟨[], rfl, List.nodup_nil, nofun⟩
  | pair head tail headIh tailIh =>
      obtain ⟨ref, rfl, inside, first, second⟩ := spelled
      have spelled : store.Spells (.pair ref) (.pair head tail) := ⟨ref, rfl, inside, first, second⟩
      -- The way goes on in the part that is higher.
      have onward : ∃ refs : List Ref, refs.length = max head.height tail.height ∧ refs.Nodup ∧
          ∀ other ∈ refs, other < store.pairs.size ∧
            store.Below (max head.height tail.height + 1) (.pair other) := by
        rcases Nat.le_total tail.height head.height with higher | higher
        · rw [Nat.max_eq_left higher]
          exact headIh first whole.1
        · rw [Nat.max_eq_right higher]
          exact tailIh second whole.2
      obtain ⟨refs, sameLength, distinct, each⟩ := onward
      refine ⟨ref :: refs, congrArg (· + 1) sameLength, List.nodup_cons.2 ⟨?_, distinct⟩, ?_⟩
      · intro again
        obtain ⟨other, otherWhole, otherSpelled, low⟩ := (each ref again).2
        have same := otherSpelled.unique otherWhole spelled whole
        rw [same] at low
        exact Nat.lt_irrefl _ low
      · intro other member
        rcases List.mem_cons.1 member with rfl | later
        · exact ⟨inside, _, whole, spelled, Nat.lt_succ_self _⟩
        · exact ⟨(each other later).1, (each other later).2.mono (Nat.le_succ _)⟩

/-- A tree that is written out is no higher than the store has pairs. -/
theorem Acyclic.below (acyclic : store.Acyclic v) : store.Below (store.pairs.size + 1) v := by
  obtain ⟨tree, whole, spelled⟩ := acyclic
  obtain ⟨refs, sameLength, distinct, each⟩ := refs_of_spells spelled whole
  refine ⟨tree, whole, spelled, Nat.lt_succ_of_le ?_⟩
  rw [← sameLength]
  exact length_le_of_distinct distinct fun ref member => (each ref member).1

theorem Below.acyclic {bound : Nat} (below : store.Below bound v) : store.Acyclic v := by
  obtain ⟨tree, whole, spelled, _⟩ := below
  exact ⟨tree, whole, spelled⟩

/-- A part of a value is less high. -/
theorem Below.part {bound : Nat} {ref : Ref} (below : store.Below (bound + 1) (.pair ref)) :
    store.Below bound (store.carAt ref) ∧ store.Below bound (store.cdrAt ref) := by
  obtain ⟨tree, whole, spelled, low⟩ := below
  cases tree with
  | leaf x => exact absurd spelled.symm (whole ref)
  | pair head tail =>
      obtain ⟨_, same, _, first, second⟩ := spelled
      cases same
      have bounds := Nat.max_lt.1 (Nat.lt_of_succ_lt_succ low)
      exact ⟨⟨head, whole.1, first, bounds.1⟩, ⟨tail, whole.2, second, bounds.2⟩⟩

theorem Acyclic.reaches {x : Value} (acyclic : store.Acyclic v) (leads : store.Reaches v x) :
    store.Acyclic x := by
  induction leads with
  | refl => exact acyclic
  | tail _ isPart ih =>
      obtain ⟨ref, rfl, isPart⟩ := isPart
      have parts := ih.below.part
      rcases isPart with rfl | rfl
      · exact parts.1.acyclic
      · exact parts.2.acyclic

theorem Acyclic.intact (acyclic : store.Acyclic v) : store.Intact v := by
  intro ref leads
  obtain ⟨tree, whole, spelled⟩ := acyclic.reaches leads
  cases tree with
  | leaf x => exact absurd spelled.symm (whole ref)
  | pair head tail =>
      obtain ⟨_, same, inside, _⟩ := spelled
      cases same
      exact inside

/-- A walk along a value without circles ends. -/
theorem Acyclic.chain (acyclic : store.Acyclic v) : ∃ items last, store.Chain v items last := by
  obtain ⟨tree, whole, spelled⟩ := acyclic
  induction tree generalizing v with
  | leaf x =>
      cases spelled
      exact ⟨[], _, .ends whole⟩
  | pair head tail _ tailIh =>
      obtain ⟨ref, rfl, _, _, second⟩ := spelled
      obtain ⟨items, last, further⟩ := tailIh whole.2 second
      exact ⟨_, last, .pair further⟩

theorem Acyclic.spine_ne_circular (acyclic : store.Acyclic v) : store.spine v ≠ .circular := by
  obtain ⟨items, last, chain⟩ := acyclic.chain
  intro circular
  exact circular_iff.1 (acyclic.intact.spine_iff.2.2.1 circular) items last chain

theorem Below.items_of_chain {bound : Nat} {items : List Value} {last : Value}
    (below : store.Below (bound + 1) v) (chain : store.Chain v items last) :
    ∀ item ∈ items, store.Below bound item := by
  induction chain with
  | ends _ => exact nofun
  | pair further ih =>
      intro item member
      rcases List.mem_cons.1 member with rfl | later
      · exact below.part.1
      · exact ih (below.part.2.mono (Nat.le_succ bound)) item later

/-- The items of a list are less high than the list. -/
theorem Below.items {bound : Nat} {items : List Value} (below : store.Below (bound + 1) v)
    (walked : store.spine v = .proper items) : ∀ item ∈ items, store.Below bound item :=
  below.items_of_chain ((below.acyclic.intact.spine_iff.1 items).1 walked)

theorem Below.item {bound : Nat} {items : List Value} {item : Value} (below : store.Below bound v)
    (walked : store.spine v = .proper items) (member : item ∈ items) : store.Below bound item := by
  cases bound with
  | zero =>
      obtain ⟨_, _, _, impossible⟩ := below
      cases impossible
  | succ bound => exact (below.items walked item member).mono (Nat.le_succ bound)

theorem Acyclic.item {items : List Value} {item : Value} (acyclic : store.Acyclic v)
    (walked : store.spine v = .proper items) (member : item ∈ items) : store.Acyclic item :=
  (acyclic.below.item walked member).acyclic

end Store

end ActorMachine
