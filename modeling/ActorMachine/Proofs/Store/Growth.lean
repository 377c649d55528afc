import ActorMachine.Machine

set_option autoImplicit false

/-!
What allocation leaves alone.

Lists, listings and snapshots are made of fresh pairs, so a store that they are made in grows and
keeps all it held. Most other changes of a store keep at least the first parts of its pairs, where
the tags of messages stand.
-/

namespace ActorMachine.Store

/-! ### Stores that only grow -/

/-- Everything in a store stays as it is; there may be more pairs. -/
structure Grows (before after : Store) : Prop where
  size_le : before.pairs.size ≤ after.pairs.size
  pairAt_eq : ∀ ref, ref < before.pairs.size → after.pairAt ref = before.pairAt ref
  frames_eq : after.frames = before.frames
  cells_eq : after.cells = before.cells
  arrays_eq : after.arrays = before.arrays

theorem Grows.refl (store : Store) : store.Grows store :=
  ⟨Nat.le_refl _, fun _ _ => rfl, rfl, rfl, rfl⟩

theorem Grows.trans {first middle last : Store} (left : first.Grows middle)
    (right : middle.Grows last) : first.Grows last where
  size_le := Nat.le_trans left.size_le right.size_le
  pairAt_eq := by
    intro ref inside
    rw [right.pairAt_eq ref (Nat.lt_of_lt_of_le inside left.size_le), left.pairAt_eq ref inside]
  frames_eq := right.frames_eq.trans left.frames_eq
  cells_eq := right.cells_eq.trans left.cells_eq
  arrays_eq := right.arrays_eq.trans left.arrays_eq

theorem Grows.carAt_eq {before after : Store} (grown : before.Grows after) {ref : Ref}
    (inside : ref < before.pairs.size) : after.carAt ref = before.carAt ref := by
  unfold carAt
  rw [grown.pairAt_eq ref inside]

theorem Grows.frameAt_eq {before after : Store} (grown : before.Grows after) (ref : Ref) :
    after.frameAt ref = before.frameAt ref := by
  unfold frameAt
  rw [grown.frames_eq]

theorem grows_cons (store : Store) (head tail : Value) :
    store.Grows (store.cons head tail).2 where
  size_le := by simp [cons]
  pairAt_eq := by
    intro ref inside
    simp only [cons, pairAt, Array.getD_eq_getD_getElem?]
    rw [Array.getElem?_push, if_neg (Nat.ne_of_lt inside)]
  frames_eq := rfl
  cells_eq := rfl
  arrays_eq := rfl

theorem grows_consReversed (store : Store) (tail : Value) (items : List Value) :
    store.Grows (store.consReversed tail items).2 := by
  induction items generalizing store tail with
  | nil => exact .refl store
  | cons item items ih => exact (store.grows_cons item tail).trans (ih _ _)

theorem grows_list (store : Store) (items : List Value) : store.Grows (store.list items).2 :=
  store.grows_consReversed .nil items.reverse

/-! ### Values that a store holds -/

/-- A value that is a pair is one of the pairs of the store. -/
def Holds (store : Store) (v : Value) : Prop := ∀ ref, v = .pair ref → ref < store.pairs.size

theorem isHeld_iff (store : Store) (v : Value) : store.isHeld v = true ↔ store.Holds v := by
  cases v with
  | pair ref => simp [isHeld, Holds]
  | _ => simp [isHeld, Holds]

theorem Holds.mono {before after : Store} {v : Value} (held : before.Holds v)
    (larger : before.pairs.size ≤ after.pairs.size) : after.Holds v :=
  fun ref same => Nat.lt_of_lt_of_le (held ref same) larger

theorem holds_consReversed {store : Store} {tail : Value} (held : store.Holds tail)
    (items : List Value) :
    (store.consReversed tail items).2.Holds (store.consReversed tail items).1 := by
  induction items generalizing store tail with
  | nil => exact held
  | cons item items ih =>
      apply ih
      intro ref same
      simp only [Value.pair.injEq] at same
      subst same
      simp

theorem holds_list (store : Store) (items : List Value) :
    (store.list items).2.Holds (store.list items).1 :=
  holds_consReversed (fun _ impossible => by cases impossible) items.reverse

/-! ### Computations that only allocate -/

/-- The store that a computation leaves has grown from the one that it found. -/
def Allocates {α : Type} (act : StateM Store α) : Prop :=
  ∀ store : Store, store.Grows (act store).2

theorem allocates_pure {α : Type} (a : α) : Allocates (pure a) := fun store => .refl store

theorem Allocates.bind {α β : Type} {act : StateM Store α} {next : α → StateM Store β}
    (first : Allocates act) (second : ∀ a, Allocates (next a)) : Allocates (act >>= next) :=
  fun store => (first store).trans (second _ _)

theorem allocates_get : Allocates (get : StateM Store Store) := fun store => .refl store

theorem allocates_allocList (items : List Value) : Allocates (allocList items) :=
  fun store => store.grows_list items

theorem allocates_mapM {α β : Type} (f : α → StateM Store β) (each : ∀ a, Allocates (f a))
    (items : List α) : Allocates (items.mapM f) := by
  induction items with
  | nil => exact allocates_pure _
  | cons item items ih =>
      rw [List.mapM_cons]
      exact (each item).bind fun _ => ih.bind fun _ => allocates_pure _

theorem allocates_foldlM {α β : Type} (f : β → α → StateM Store β)
    (each : ∀ b a, Allocates (f b a)) (items : List α) (start : β) :
    Allocates (items.foldlM f start) := by
  induction items generalizing start with
  | nil => exact allocates_pure _
  | cons item items ih =>
      rw [List.foldlM_cons]
      exact (each start item).bind fun _ => ih _

theorem allocates_unlinkEnv (env : Env) : Allocates (unlinkEnv env) := by
  apply Allocates.bind
  · apply allocates_mapM
    intro ref
    exact allocates_get.bind fun _ => allocates_allocList _
  · exact allocates_allocList

mutual

theorem allocates_unlink : ∀ template : Template, Allocates (unlink template)
  | ⟨_, code⟩ =>
      (allocates_unlinkCode code).bind fun _ =>
        (allocates_allocList _).bind fun _ => allocates_allocList _
termination_by structural template => template

theorem allocates_unlinkCode : ∀ code : Array Instruction, Allocates (unlinkCode code)
  | ⟨instructions⟩ => allocates_unlinkAll instructions []
termination_by structural code => code

theorem allocates_unlinkAll :
    ∀ (instructions : List Instruction) (seen : List Value), Allocates (unlinkAll seen instructions)
  | [], _ => allocates_allocList _
  | instruction :: rest, _ =>
      (allocates_unlinkInstruction instruction).bind fun _ => allocates_unlinkAll rest _
termination_by structural instructions => instructions

theorem allocates_unlinkInstruction :
    ∀ instruction : Instruction, Allocates (unlinkInstruction instruction)
  | .args _ => allocates_allocList _
  | .argsRest _ => allocates_allocList _
  | .loadLocal _ => allocates_allocList _
  | .storeLocal _ => allocates_allocList _
  | .loadGlobal _ => allocates_allocList _
  | .storeGlobal _ => allocates_allocList _
  | .pop => allocates_allocList _
  | .const _ => allocates_allocList _
  | .jump _ => allocates_allocList _
  | .jumpIfNil _ => allocates_allocList _
  | .jumpUnlessNil _ => allocates_allocList _
  | .save _ => allocates_allocList _
  | .ret => allocates_allocList _
  | .call (.fixed _) => allocates_allocList _
  | .call .spread => allocates_allocList _
  | .function f => (allocates_unlink f).bind fun _ => allocates_allocList _
  | .native _ => allocates_allocList _
  | .halt => allocates_allocList _
  | .receive table => allocates_unlinkTable table
termination_by structural instruction => instruction

theorem allocates_unlinkTable : ∀ table : ReceiveTable, Allocates (unlinkTable table)
  | ⟨receivers, timeout⟩ =>
      (allocates_unlinkReceivers receivers []).bind fun _ =>
        (allocates_unlinkTimeout? timeout).bind fun _ => allocates_allocList _
termination_by structural table => table

theorem allocates_unlinkReceivers :
    ∀ (receivers : List Receiver) (seen : List Value), Allocates (unlinkReceivers seen receivers)
  | [], _ => allocates_allocList _
  | receiver :: rest, _ =>
      (allocates_unlinkReceiver receiver).bind fun _ => allocates_unlinkReceivers rest _
termination_by structural receivers => receivers

theorem allocates_unlinkReceiver : ∀ receiver : Receiver, Allocates (unlinkReceiver receiver)
  | ⟨_, entry⟩ => (allocates_unlink entry).bind fun _ => allocates_allocList _
termination_by structural receiver => receiver

theorem allocates_unlinkTimeout? : ∀ timeout : Option Timeout, Allocates (unlinkTimeout? timeout)
  | none => allocates_pure _
  | some timeout => allocates_unlinkTimeout timeout
termination_by structural timeout => timeout

theorem allocates_unlinkTimeout : ∀ timeout : Timeout, Allocates (unlinkTimeout timeout)
  | ⟨_, entry⟩ => (allocates_unlink entry).bind fun _ => allocates_allocList _
termination_by structural timeout => timeout

end

mutual

theorem grows_load : ∀ (datum : Datum) (store : Store), store.Grows (store.load datum).2
  | .nil, store => .refl store
  | .symbol _, store => .refl store
  | .number _, store => .refl store
  | .string _, store => .refl store
  | .cons head tail, store => (grows_load head store).trans (grows_loadRest tail _ _)

theorem grows_loadRest :
    ∀ (datum : Datum) (store : Store) (seen : List Value),
      store.Grows (store.loadRest seen datum).2
  | .cons head tail, store, _ => (grows_load head store).trans (grows_loadRest tail _ _)
  | .nil, store, seen => store.grows_consReversed _ seen
  | .symbol _, store, seen => store.grows_consReversed _ seen
  | .number _, store, seen => store.grows_consReversed _ seen
  | .string _, store, seen => store.grows_consReversed _ seen

end

theorem grows_loadAll (data : List Datum) (store : Store) :
    store.Grows (store.loadAll data).2 := by
  induction data generalizing store with
  | nil => exact .refl store
  | cons datum rest ih => exact (grows_load datum store).trans (ih _)

end ActorMachine.Store
