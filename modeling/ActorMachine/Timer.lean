import ActorMachine.Code

set_option autoImplicit false

/-!
Timers and the heap they wait in.

A timer that is cancelled stays in the heap. It shares a flag with the process that waits for it,
cancelling sets the flag, and the timer is thrown away when it comes to the top. The order of timers
is turned around, so that the one that comes first is the greatest, which is what a heap gives.
-/

namespace ActorMachine

/-- A flag that a timer and a process share. -/
structure Flag where
  cell : Nat
  deriving DecidableEq, Repr

/-- A timeout that a process waits for. -/
structure Timer where
  deadline : Number
  /-- Timers are numbered in the order in which they are armed. -/
  id : Nat
  pid : ProcessId
  canceled : Flag

/-- The order of timers by deadline, and by age when the deadlines are equal, turned around. -/
def Timer.compare (a b : Timer) : Ordering :=
  (Ord.compare b.deadline.rank.toNat a.deadline.rank.toNat).then (Ord.compare b.id a.id)

instance : Ord Timer := ⟨Timer.compare⟩

theorem TimerHeap.flagged_nil :
    ∀ timer ∈ ([] : List Timer), timer.canceled.cell < (#[] : Array Bool).size :=
  fun _ member => absurd member List.not_mem_nil

/-- The timers in a heap, the latest one first, and the flags of all timers that were armed. -/
structure TimerHeap where
  entries : List Timer := []
  flags : Array Bool := #[]
  flagged : ∀ timer ∈ entries, timer.canceled.cell < flags.size := by
    exact TimerHeap.flagged_nil
  deriving Inhabited

namespace TimerHeap

/-- A greatest timer and the others. -/
def takeGreatest? : List Timer → Option (Timer × List Timer)
  | [] => none
  | first :: rest =>
      match takeGreatest? rest with
      | none => some (first, rest)
      | some (top, others) =>
          if (compare first top).isGE then some (first, rest) else some (top, first :: others)

theorem mem_of_mem_others {entries : List Timer} {top : Timer} {others : List Timer}
    (taken : takeGreatest? entries = some (top, others)) {timer : Timer}
    (member : timer ∈ others) : timer ∈ entries := by
  induction entries generalizing top others with
  | nil => cases taken
  | cons first rest ih =>
      unfold takeGreatest? at taken
      split at taken
      · cases taken
        exact List.mem_cons_of_mem _ member
      · rename_i found restTaken
        split at taken
        · cases taken
          exact List.mem_cons_of_mem _ member
        · cases taken
          rcases List.mem_cons.1 member with rfl | later
          · exact List.mem_cons_self
          · exact List.mem_cons_of_mem _ (ih restTaken later)

/-- Whether a flag is set. -/
def isSet (heap : TimerHeap) (flag : Flag) : Bool := heap.flags[flag.cell]?.getD true

/-- Puts a timer into the heap, with a flag that nothing else has. -/
def push (heap : TimerHeap) (deadline : Number) (id : Nat) (pid : ProcessId) : Flag × TimerHeap :=
  let flag := ⟨heap.flags.size⟩
  (flag, {
    entries := ⟨deadline, id, pid, flag⟩ :: heap.entries
    flags := heap.flags.push false
    flagged := by
      intro timer member
      rw [Array.size_push]
      rcases List.mem_cons.1 member with rfl | older
      · exact Nat.lt_succ_self _
      · exact Nat.lt_succ_of_lt (heap.flagged timer older) })

/-- Sets a flag. The timer stays where it is. -/
def cancel (heap : TimerHeap) (flag : Flag) : TimerHeap where
  entries := heap.entries
  flags := heap.flags.setIfInBounds flag.cell true
  flagged := by
    rw [Array.size_setIfInBounds]
    exact heap.flagged

/-- Takes a greatest timer out. -/
def pop? (heap : TimerHeap) : Option (Timer × TimerHeap) :=
  match taken : takeGreatest? heap.entries with
  | none => none
  | some (top, others) =>
      some (top, {
        entries := others
        flags := heap.flags
        flagged := fun timer member => heap.flagged timer (mem_of_mem_others taken member) })

/-- The timer on top. -/
def top? (heap : TimerHeap) : Option Timer := heap.pop?.map (·.1)

/-- Throws away up to so many timers, as long as the one on top is cancelled. -/
def pruneUpTo : Nat → TimerHeap → TimerHeap
  | 0, heap => heap
  | n + 1, heap =>
      match heap.pop? with
      | none => heap
      | some (top, rest) => if heap.isSet top.canceled then pruneUpTo n rest else heap

/-- Throws away the cancelled timers on top. -/
def prune (heap : TimerHeap) : TimerHeap := pruneUpTo heap.entries.length heap

end TimerHeap

end ActorMachine
