import ActorMachine.Proofs.Store.Growth
import Mathlib.Data.List.Forall2

set_option autoImplicit false

/-!
What a value spells.

A value that refers to fresh pairs says little by itself: the places of the pairs depend on what was
allocated before. `Tree` is such a value with its pairs written out, and `Spells` reads it off a
store. Main statement: a snapshot spells a tree that is a function of the machine and the frames.
-/

namespace ActorMachine

/-- A value with the pairs that it is made of. A leaf can be a pair that is shared. -/
inductive Tree where
  | leaf (v : Value)
  | pair (head tail : Tree)

namespace Tree

/-- A proper list. -/
def list (items : List Tree) : Tree := items.foldr pair (leaf .nil)

/-- A proper list of values. -/
def leaves (items : List Value) : Tree := list (items.map leaf)

end Tree

namespace Store

/-- Whether a value is the given tree, its pairs read off the store. -/
def Spells (store : Store) : Value → Tree → Prop
  | v, .leaf expected => v = expected
  | v, .pair head tail =>
      ∃ ref, v = .pair ref ∧ ref < store.pairs.size ∧
        store.Spells (store.carAt ref) head ∧ store.Spells (store.cdrAt ref) tail

/-- What a value spells does not change while the pairs stay as they are. -/
theorem Spells.of_pairAt_eq {before after : Store} (larger : before.pairs.size ≤ after.pairs.size)
    (same : ∀ ref, ref < before.pairs.size → after.pairAt ref = before.pairAt ref) {v : Value}
    {tree : Tree} (spelled : before.Spells v tree) : after.Spells v tree := by
  induction tree generalizing v with
  | leaf expected => exact spelled
  | pair head tail headIh tailIh =>
      obtain ⟨ref, rfl, inside, first, second⟩ := spelled
      refine ⟨ref, rfl, Nat.lt_of_lt_of_le inside larger, ?_, ?_⟩
      · rw [carAt, same ref inside]
        exact headIh first
      · rw [cdrAt, same ref inside]
        exact tailIh second

theorem Spells.mono {before after : Store} (grown : before.Grows after) {v : Value} {tree : Tree}
    (spelled : before.Spells v tree) : after.Spells v tree :=
  spelled.of_pairAt_eq grown.size_le grown.pairAt_eq

theorem Spells.newFrame {store : Store} {v : Value} {tree : Tree} (spelled : store.Spells v tree)
    (slots : Array Value) : (store.newFrame slots).2.Spells v tree := by
  have samePairs : (store.newFrame slots).2.pairs = store.pairs := rfl
  exact spelled.of_pairAt_eq (Nat.le_of_eq (congrArg Array.size samePairs.symm)) fun _ _ => rfl

theorem spells_leaf (store : Store) (v : Value) : store.Spells v (.leaf v) := rfl

theorem spells_cons {store : Store} {head tail : Value} {first second : Tree}
    (headSpelled : store.Spells head first) (tailSpelled : store.Spells tail second) :
    (store.cons head tail).2.Spells (store.cons head tail).1 (.pair first second) := by
  have grown := store.grows_cons head tail
  refine ⟨store.pairs.size, rfl, by simp [cons], ?_, ?_⟩
  · have here : (store.cons head tail).2.carAt store.pairs.size = head := by
      simp [cons, carAt, pairAt]
    rw [here]
    exact headSpelled.mono grown
  · have here : (store.cons head tail).2.cdrAt store.pairs.size = tail := by
      simp [cons, cdrAt, pairAt]
    rw [here]
    exact tailSpelled.mono grown

theorem spells_consReversed {store : Store} {tail : Value} {last : Tree} {items : List Value}
    {trees : List Tree} (tailSpelled : store.Spells tail last)
    (spelled : List.Forall₂ store.Spells items trees) :
    (store.consReversed tail items).2.Spells (store.consReversed tail items).1
      (trees.foldl (fun rest tree => .pair tree rest) last) := by
  induction items generalizing store tail last trees with
  | nil =>
      cases spelled
      exact tailSpelled
  | cons item items ih =>
      cases spelled with
      | cons itemSpelled restSpelled =>
          have grown := store.grows_cons item tail
          have result := ih (spells_cons itemSpelled tailSpelled)
            (restSpelled.imp fun _ _ here => here.mono grown)
          exact result

/-- A new list spells the list of what its items spell. -/
theorem spells_list {store : Store} {items : List Value} {trees : List Tree}
    (spelled : List.Forall₂ store.Spells items trees) :
    (store.list items).2.Spells (store.list items).1 (.list trees) := by
  have reversed : List.Forall₂ store.Spells items.reverse trees.reverse :=
    List.rel_reverse spelled
  have result := spells_consReversed (store.spells_leaf .nil) reversed
  rw [List.foldl_reverse] at result
  exact result

theorem spells_list_leaves (store : Store) (items : List Value) :
    (store.list items).2.Spells (store.list items).1 (.leaves items) := by
  apply spells_list
  induction items with
  | nil => exact .nil
  | cons item items ih => exact .cons rfl ih

/-! ### Environments and snapshots -/

/-- The frames of an environment as lists of their slots, innermost first. -/
def envTree (store : Store) (env : Env) : Tree :=
  .list (env.map fun ref => .leaves (store.frameAt ref).toList)

theorem Grows.envTree_eq {before after : Store} (grown : before.Grows after) (env : Env) :
    after.envTree env = before.envTree env := by
  unfold envTree
  simp only [grown.frameAt_eq]

theorem spells_frames (store : Store) (env : Env) :
    let frames := (env.mapM (fun ref => do
      let slots := (← get).frameAt ref
      allocList slots.toList) : StateM Store (List Value)) store
    List.Forall₂ frames.2.Spells frames.1
      (env.map fun ref => .leaves (store.frameAt ref).toList) := by
  induction env generalizing store with
  | nil => exact .nil
  | cons ref env ih =>
      rw [List.mapM_cons]
      let slots := (store.frameAt ref).toList
      have grown : (store.list slots).2.Grows
          ((env.mapM (fun ref => do
            let slots := (← get).frameAt ref
            allocList slots.toList) : StateM Store (List Value)) (store.list slots).2).2 := by
        apply allocates_mapM
        intro ref
        exact allocates_get.bind fun _ => allocates_allocList _
      have rest := ih (store.list slots).2
      simp only [(store.grows_list slots).frameAt_eq] at rest
      exact .cons ((store.spells_list_leaves slots).mono grown) rest

theorem spells_unlinkEnv (store : Store) (env : Env) :
    (unlinkEnv env store).2.Spells (unlinkEnv env store).1 (store.envTree env) :=
  spells_list (store.spells_frames env)

end Store

/-- A saved return as a list. -/
def Return.tree (back : Return) (store : Store) : Tree :=
  .list [.leaf (.symbol "ret"), .leaf (.ofNat back.pc), .leaf (.template back.template),
    store.envTree back.env]

namespace Machine

/-- What a machine is doing, as a tree: its saved returns, latest first, then the process, the
environment, the template and the place in it. -/
def snapshotTree (m : Machine) (pid : ProcessId) (store : Store) : Tree :=
  m.returns.foldr (fun back rest => .pair (back.tree store) rest) <|
    .list [.leaves [.symbol "proc", .process pid],
      .list [.leaf (.symbol "env"), store.envTree m.env],
      .leaves [.symbol "f", .template m.template], .leaves [.symbol "pc", .ofNat m.pc]]

theorem allocates_returnListing (back : Return) : Store.Allocates (returnListing back) :=
  (Store.allocates_unlinkEnv _).bind fun _ => Store.allocates_allocList _

theorem spells_returnListing (store : Store) (back : Return) :
    (returnListing back store).2.Spells (returnListing back store).1 (back.tree store) := by
  apply Store.spells_list
  exact .cons rfl (.cons rfl (.cons rfl (.cons (store.spells_unlinkEnv back.env) .nil)))

theorem allocates_snapshot (m : Machine) (pid : ProcessId) :
    Store.Allocates (m.snapshot pid) := by
  refine (Store.allocates_allocList _).bind fun _ => ?_
  refine (Store.allocates_unlinkEnv _).bind fun _ => ?_
  refine (Store.allocates_allocList _).bind fun _ => ?_
  refine (Store.allocates_allocList _).bind fun _ => ?_
  refine (Store.allocates_allocList _).bind fun _ => ?_
  refine (Store.allocates_allocList _).bind fun _ => ?_
  apply Store.allocates_foldlM
  intro rest back
  exact (allocates_returnListing back).bind fun record store => store.grows_cons record rest

/-- The saved returns go in front of what is there, so the walk over them keeps a tree of all those
before. -/
theorem spells_returns (origin store : Store) (grown : origin.Grows store) (returns : List Return)
    (rest : Value) (tree : Tree) (spelled : store.Spells rest tree) :
    let result := (returns.foldlM (fun rest back => do
      let record ← returnListing back
      fun store => store.cons record rest) rest : StateM Store Value) store
    result.2.Spells result.1
      (returns.foldl (fun rest back => .pair (back.tree origin) rest) tree) := by
  induction returns generalizing store rest tree with
  | nil => exact spelled
  | cons back returns ih =>
      rw [List.foldlM_cons]
      have listed := allocates_returnListing back store
      have record := spells_returnListing store back
      have same : back.tree store = back.tree origin := by
        unfold Return.tree
        rw [grown.envTree_eq]
      rw [same] at record
      have front := Store.spells_cons record (spelled.mono listed)
      have result := ih _ ((grown.trans listed).trans (Store.grows_cons _ _ rest)) _ _ front
      exact result

/-- A snapshot spells what the machine is doing. -/
theorem spells_snapshot (m : Machine) (pid : ProcessId) (store : Store) :
    (m.snapshot pid store).2.Spells (m.snapshot pid store).1 (m.snapshotTree pid store) := by
  let process := store.list [.symbol "proc", .process pid]
  let frames := Store.unlinkEnv m.env process.2
  let env := frames.2.list [.symbol "env", frames.1]
  let f := env.2.list [.symbol "f", .template m.template]
  let pc := f.2.list [.symbol "pc", .ofNat m.pc]
  let current := pc.2.list [process.1, env.1, f.1, pc.1]
  have processGrown : store.Grows process.2 := store.grows_list _
  have framesGrown : process.2.Grows frames.2 := Store.allocates_unlinkEnv m.env process.2
  have envGrown : frames.2.Grows env.2 := frames.2.grows_list _
  have fGrown : env.2.Grows f.2 := env.2.grows_list _
  have pcGrown : f.2.Grows pc.2 := f.2.grows_list _
  have currentGrown : pc.2.Grows current.2 := pc.2.grows_list _
  have processSpelled : pc.2.Spells process.1 (.leaves [.symbol "proc", .process pid]) :=
    (store.spells_list_leaves _).mono
      (((framesGrown.trans envGrown).trans fGrown).trans pcGrown)
  have envSpelled : pc.2.Spells env.1 (.list [.leaf (.symbol "env"), store.envTree m.env]) := by
    have framesSpelled := process.2.spells_unlinkEnv m.env
    rw [processGrown.envTree_eq] at framesSpelled
    have tagSpelled := frames.2.spells_leaf (.symbol "env")
    exact (Store.spells_list (.cons tagSpelled (.cons framesSpelled .nil))).mono
      (fGrown.trans pcGrown)
  have fSpelled : pc.2.Spells f.1 (.leaves [.symbol "f", .template m.template]) :=
    (env.2.spells_list_leaves _).mono pcGrown
  have pcSpelled : pc.2.Spells pc.1 (.leaves [.symbol "pc", .ofNat m.pc]) :=
    f.2.spells_list_leaves _
  have currentSpelled := Store.spells_list
    (.cons processSpelled (.cons envSpelled (.cons fSpelled (.cons pcSpelled .nil))))
  have grown : store.Grows current.2 :=
    ((((processGrown.trans framesGrown).trans envGrown).trans fGrown).trans pcGrown).trans
      currentGrown
  have result := spells_returns store current.2 grown m.returns.reverse current.1 _ currentSpelled
  rw [List.foldl_reverse] at result
  exact result

end Machine

end ActorMachine
