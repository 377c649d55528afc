set_option autoImplicit false

/-! Queues: what is put in first comes out first. -/

namespace ActorMachine

/-- A queue as the list of what comes out next and the reversed list of what was put in since. -/
structure Fifo (α : Type) where
  front : List α := []
  back : List α := []

namespace Fifo

variable {α : Type}

instance : Inhabited (Fifo α) := ⟨{}⟩

def empty : Fifo α := {}

/-- The elements in the order in which they come out. -/
def toList (q : Fifo α) : List α := q.front ++ q.back.reverse

def ofList (items : List α) : Fifo α := ⟨items, []⟩

def push (q : Fifo α) (a : α) : Fifo α := { q with back := a :: q.back }

def pushAll (q : Fifo α) (items : List α) : Fifo α := items.foldl push q

def pop? (q : Fifo α) : Option (α × Fifo α) :=
  match q.front with
  | a :: front => some (a, { q with front })
  | [] =>
      match q.back.reverse with
      | [] => none
      | a :: front => some (a, ⟨front, []⟩)

def isEmpty (q : Fifo α) : Bool := q.front.isEmpty && q.back.isEmpty

def length (q : Fifo α) : Nat := q.front.length + q.back.length

@[simp] theorem toList_empty : (empty : Fifo α).toList = [] := rfl

@[simp] theorem toList_ofList (items : List α) : (ofList items).toList = items := by
  simp [ofList, toList]

@[simp] theorem toList_push (q : Fifo α) (a : α) : (q.push a).toList = q.toList ++ [a] := by
  simp [push, toList]

@[simp] theorem toList_pushAll (q : Fifo α) (items : List α) :
    (q.pushAll items).toList = q.toList ++ items := by
  unfold pushAll
  induction items generalizing q with
  | nil => simp
  | cons a items ih => simp [ih]

@[simp] theorem isEmpty_iff (q : Fifo α) : q.isEmpty = true ↔ q.toList = [] := by
  simp [isEmpty, toList]

theorem toList_of_pop?_eq_some {q rest : Fifo α} {a : α} (popped : q.pop? = some (a, rest)) :
    q.toList = a :: rest.toList := by
  unfold pop? at popped
  unfold toList
  split at popped
  · rename_i front shape
    obtain ⟨rfl, rfl⟩ : _ ∧ _ := by simpa using popped
    simp [shape]
  · rename_i shape
    split at popped
    · contradiction
    · rename_i front reversed
      obtain ⟨rfl, rfl⟩ : _ ∧ _ := by simpa using popped
      simp [shape, reversed]

end Fifo

end ActorMachine
