import ActorMachine.Scheduler
import Mathlib.Data.List.Basic

set_option autoImplicit false

/-!
The heap of timers, seen from outside.

Cancelled timers stay in the heap until they come to the top, and nobody can tell: the heap behaves
as the list of the timers that are not cancelled, in their order, from which a timer is taken out as
soon as it is cancelled. Main statements: what each operation does to that list, `live_push`,
`live_cancel`, `live_prune`, `top?_prune` and `live_pop`.
-/

namespace ActorMachine

/-! ### The order of timers -/

namespace Timer

/-- Whether a timer comes before another. The greater one comes first. -/
def before (a b : Timer) : Bool := compare a b == .gt

theorem before_iff (a b : Timer) :
    a.before b = true ↔
      a.deadline.rank < b.deadline.rank ∨ (a.deadline.rank = b.deadline.rank ∧ a.id < b.id) := by
  unfold before
  rw [beq_iff_eq]
  change (Ord.compare _ _).then _ = _ ↔ _
  rw [Ordering.then_eq_gt, Nat.compare_eq_gt, Nat.compare_eq_eq, Nat.compare_eq_gt,
    UInt64.lt_iff_toNat_lt, ← UInt64.toNat_inj, eq_comm]

theorem before_trans {a b c : Timer} (first : a.before b = true) (second : b.before c = true) :
    a.before c = true := by
  rw [before_iff] at *
  simp only [UInt64.lt_iff_toNat_lt, ← UInt64.toNat_inj] at *
  omega

theorem not_before_trans {a b c : Timer} (first : ¬a.before b = true)
    (second : ¬b.before c = true) : ¬a.before c = true := by
  rw [before_iff] at *
  simp only [UInt64.lt_iff_toNat_lt, ← UInt64.toNat_inj] at *
  omega

theorem not_before_of_before {a b : Timer} (isBefore : a.before b = true) :
    ¬b.before a = true := by
  rw [before_iff] at *
  simp only [UInt64.lt_iff_toNat_lt, ← UInt64.toNat_inj] at *
  omega

/-- Timers with different numbers are ordered. -/
theorem before_of_not_before {a b : Timer} (different : a.id ≠ b.id)
    (notBefore : ¬a.before b = true) : b.before a = true := by
  rw [before_iff] at *
  simp only [UInt64.lt_iff_toNat_lt, ← UInt64.toNat_inj] at *
  omega

theorem rank_le_of_before {a b : Timer} (isBefore : a.before b = true) :
    a.deadline.rank ≤ b.deadline.rank := by
  rw [before_iff] at isBefore
  simp only [UInt64.le_iff_toNat_le, UInt64.lt_iff_toNat_lt, ← UInt64.toNat_inj] at *
  omega

theorem isGE_compare_iff (a b : Timer) : (compare a b).isGE = true ↔ ¬b.before a = true := by
  rw [before_iff]
  change ((Ord.compare _ _).then (Ord.compare b.id a.id)).isGE = true ↔ _
  rw [UInt64.lt_iff_toNat_lt, ← UInt64.toNat_inj]
  rcases Nat.lt_trichotomy b.deadline.rank.toNat a.deadline.rank.toNat with lt | same | gt
  · simp [Nat.compare_eq_lt.2 lt, lt]
  · rw [same, Nat.compare_eq_eq.2 rfl, Ordering.eq_then, Nat.isGE_compare]
    simp
  · rw [Nat.compare_eq_gt.2 gt]
    simp [Nat.not_lt.2 (Nat.le_of_lt gt), Nat.ne_of_gt gt]

end Timer

namespace TimerHeap

/-! ### Lists in order -/

/-- Puts a timer in its place. -/
def insertTimer (timer : Timer) : List Timer → List Timer
  | [] => [timer]
  | first :: rest =>
      if first.before timer then first :: insertTimer timer rest else timer :: first :: rest

/-- The timers in their order. -/
def inOrder (entries : List Timer) : List Timer := entries.foldr insertTimer []

theorem insertTimer_perm (timer : Timer) (timers : List Timer) :
    (insertTimer timer timers).Perm (timer :: timers) := by
  induction timers with
  | nil => exact .refl _
  | cons first rest ih =>
      unfold insertTimer
      split
      · exact (ih.cons first).trans (.swap timer first rest)
      · exact .refl _

theorem mem_insertTimer {timer other : Timer} {timers : List Timer} :
    other ∈ insertTimer timer timers ↔ other = timer ∨ other ∈ timers := by
  rw [(insertTimer_perm timer timers).mem_iff, List.mem_cons]

theorem inOrder_perm (entries : List Timer) : (inOrder entries).Perm entries := by
  induction entries with
  | nil => exact .refl _
  | cons first rest ih => exact (insertTimer_perm first (inOrder rest)).trans (ih.cons first)

/-- A timer that no other comes before goes to the front. -/
theorem insertTimer_of_first {timer : Timer} {timers : List Timer}
    (isFirst : ∀ other ∈ timers, ¬other.before timer = true) :
    insertTimer timer timers = timer :: timers := by
  cases timers with
  | nil => rfl
  | cons first rest => exact if_neg (isFirst first List.mem_cons_self)

theorem sorted_insertTimer {timer : Timer} {timers : List Timer}
    (sorted : timers.Pairwise fun a b => ¬b.before a = true) :
    (insertTimer timer timers).Pairwise fun a b => ¬b.before a = true := by
  induction timers with
  | nil => exact List.pairwise_singleton _ _
  | cons first rest ih =>
      obtain ⟨noneBefore, restSorted⟩ := List.pairwise_cons.1 sorted
      unfold insertTimer
      split
      · rename_i isBefore
        refine List.pairwise_cons.2 ⟨?_, ih restSorted⟩
        intro other member
        rcases mem_insertTimer.1 member with rfl | later
        · exact Timer.not_before_of_before isBefore
        · exact noneBefore other later
      · rename_i notBefore
        refine List.pairwise_cons.2 ⟨?_, sorted⟩
        intro other member
        rcases List.mem_cons.1 member with rfl | later
        · exact notBefore
        · exact Timer.not_before_trans (noneBefore other later) notBefore

theorem sorted_inOrder (entries : List Timer) :
    (inOrder entries).Pairwise fun a b => ¬b.before a = true := by
  induction entries with
  | nil => exact .nil
  | cons first rest ih => exact sorted_insertTimer ih

theorem filter_insertTimer (p : Timer → Bool) {timer : Timer} {timers : List Timer}
    (sorted : timers.Pairwise fun a b => ¬b.before a = true) :
    (insertTimer timer timers).filter p =
      if p timer then insertTimer timer (timers.filter p) else timers.filter p := by
  induction timers with
  | nil => cases chosen : p timer <;> simp [insertTimer, chosen]
  | cons first rest ih =>
      obtain ⟨noneBefore, restSorted⟩ := List.pairwise_cons.1 sorted
      by_cases isBefore : first.before timer = true
      · rw [insertTimer, if_pos isBefore, List.filter_cons, ih restSorted, List.filter_cons]
        cases p first <;> cases p timer <;> simp [insertTimer, isBefore]
      · have isFirst : ∀ other ∈ (first :: rest).filter p, ¬other.before timer = true := by
          intro other member
          rcases List.mem_cons.1 (List.mem_filter.1 member).1 with rfl | later
          · exact isBefore
          · exact Timer.not_before_trans (noneBefore other later) isBefore
        rw [insertTimer, if_neg isBefore, List.filter_cons, insertTimer_of_first isFirst]

theorem filter_inOrder (p : Timer → Bool) (entries : List Timer) :
    (inOrder entries).filter p = inOrder (entries.filter p) := by
  induction entries with
  | nil => rfl
  | cons first rest ih =>
      change (insertTimer first (inOrder rest)).filter p = _
      rw [filter_insertTimer p (sorted_inOrder rest), ih, List.filter_cons]
      split
      · rfl
      · rfl

/-- The first one of the timers that no other comes before is in front. -/
theorem inOrder_split {front back : List Timer} {top : Timer}
    (later : ∀ other ∈ front, top.before other = true)
    (noneBefore : ∀ other ∈ back, ¬other.before top = true) :
    inOrder (front ++ top :: back) = top :: inOrder (front ++ back) := by
  induction front with
  | nil =>
      refine insertTimer_of_first fun other member => noneBefore other ?_
      exact (inOrder_perm back).mem_iff.1 member
  | cons first rest ih =>
      have restLater := ih fun other member => later other (List.mem_cons_of_mem _ member)
      change insertTimer first (inOrder (rest ++ top :: back)) = _
      rw [restLater, insertTimer, if_pos (later first List.mem_cons_self)]
      rfl

/-! ### The top of the heap -/

theorem takeGreatest?_eq_none {entries : List Timer} (none : takeGreatest? entries = none) :
    entries = [] := by
  cases entries with
  | nil => rfl
  | cons first rest =>
      unfold takeGreatest? at none
      split at none
      · cases none
      · split at none <;> cases none

/-- Where the greatest timer was. -/
theorem takeGreatest?_split {entries : List Timer} {top : Timer} {others : List Timer}
    (taken : takeGreatest? entries = some (top, others)) :
    ∃ front back, entries = front ++ top :: back ∧ others = front ++ back ∧
      (∀ other ∈ front, top.before other = true) ∧
      ∀ other ∈ back, ¬other.before top = true := by
  induction entries generalizing top others with
  | nil => cases taken
  | cons first rest ih =>
      unfold takeGreatest? at taken
      split at taken
      · rename_i restTaken
        cases taken
        cases takeGreatest?_eq_none restTaken
        exact ⟨[], [], rfl, rfl, nofun, nofun⟩
      · rename_i greatest more restTaken
        obtain ⟨front, back, rfl, rfl, later, noneBefore⟩ := ih restTaken
        split at taken
        · rename_i isGreatest
          cases taken
          have notBefore := (Timer.isGE_compare_iff first greatest).1 isGreatest
          refine ⟨[], front ++ greatest :: back, rfl, rfl, nofun, ?_⟩
          intro other member
          rcases List.mem_append.1 member with inFront | inBack
          · have topFirst := Timer.not_before_of_before (later other inFront)
            exact Timer.not_before_trans topFirst notBefore
          · rcases List.mem_cons.1 inBack with rfl | inBack
            · exact notBefore
            · exact Timer.not_before_trans (noneBefore other inBack) notBefore
        · rename_i notGreatest
          cases taken
          refine ⟨first :: front, back, rfl, rfl, ?_, noneBefore⟩
          intro other member
          rcases List.mem_cons.1 member with rfl | inFront
          · exact not_not.1 (notGreatest ∘ (Timer.isGE_compare_iff other top).2)
          · exact later other inFront

section Operations

variable {heap rest : TimerHeap} {top : Timer}

theorem pop?_eq_none (empty : heap.pop? = none) : heap.entries = [] := by
  unfold pop? at empty
  split at empty
  · exact takeGreatest?_eq_none ‹_›
  · cases empty

theorem pop?_eq_some (popped : heap.pop? = some (top, rest)) :
    takeGreatest? heap.entries = some (top, rest.entries) ∧ rest.flags = heap.flags := by
  unfold pop? at popped
  split at popped
  · cases popped
  · rename_i taken
    cases popped
    exact ⟨taken, rfl⟩

/-! ### The timers that are not cancelled -/

/-- The timers that are not cancelled, in their order. -/
def live (heap : TimerHeap) : List Timer :=
  inOrder (heap.entries.filter fun timer => !heap.isSet timer.canceled)

theorem live_perm (heap : TimerHeap) :
    heap.live.Perm (heap.entries.filter fun timer => !heap.isSet timer.canceled) :=
  inOrder_perm _

theorem mem_live {heap : TimerHeap} {timer : Timer} :
    timer ∈ heap.live ↔ timer ∈ heap.entries ∧ heap.isSet timer.canceled = false := by
  rw [heap.live_perm.mem_iff, List.mem_filter, Bool.not_eq_true']

theorem isSet_congr {other : TimerHeap} (same : other.flags = heap.flags) (flag : Flag) :
    other.isSet flag = heap.isSet flag := by
  unfold isSet
  rw [same]

/-- A cancelled timer may be taken out. -/
theorem live_of_pop_set (popped : heap.pop? = some (top, rest))
    (isSet : heap.isSet top.canceled = true) : rest.live = heap.live := by
  obtain ⟨taken, sameFlags⟩ := pop?_eq_some popped
  obtain ⟨front, back, isEntries, isRest, _⟩ := takeGreatest?_split taken
  unfold live
  rw [isRest, isEntries]
  simp [isSet_congr sameFlags, isSet]

/-- A timer that is not cancelled and comes to the top is the first one. -/
theorem live_pop (popped : heap.pop? = some (top, rest))
    (notSet : heap.isSet top.canceled = false) : heap.live = top :: rest.live := by
  obtain ⟨taken, sameFlags⟩ := pop?_eq_some popped
  obtain ⟨front, back, isEntries, isRest, later, noneBefore⟩ := takeGreatest?_split taken
  unfold live
  simp only [isRest, isEntries, isSet_congr sameFlags, List.filter_append]
  rw [List.filter_cons_of_pos (by simp [notSet])]
  exact inOrder_split (fun other member => later other (List.mem_filter.1 member).1)
    fun other member => noneBefore other (List.mem_filter.1 member).1

theorem flags_pruneUpTo (n : Nat) (heap : TimerHeap) : (pruneUpTo n heap).flags = heap.flags := by
  induction n generalizing heap with
  | zero => rfl
  | succ n ih =>
      unfold pruneUpTo
      split
      · rfl
      · rename_i popped
        split
        · exact (ih _).trans (pop?_eq_some popped).2
        · rfl

theorem live_pruneUpTo (n : Nat) (heap : TimerHeap) : (pruneUpTo n heap).live = heap.live := by
  induction n generalizing heap with
  | zero => rfl
  | succ n ih =>
      unfold pruneUpTo
      split
      · rfl
      · rename_i popped
        split
        · rename_i isSet
          exact (ih _).trans (live_of_pop_set popped isSet)
        · rfl

theorem live_prune (heap : TimerHeap) : heap.prune.live = heap.live := live_pruneUpTo _ heap

theorem flags_prune (heap : TimerHeap) : heap.prune.flags = heap.flags := flags_pruneUpTo _ heap

theorem isSet_prune (heap : TimerHeap) (flag : Flag) : heap.prune.isSet flag = heap.isSet flag :=
  isSet_congr heap.flags_prune flag

/-- As many timers as there are in the heap are enough. -/
theorem top_pruneUpTo {n : Nat} {heap : TimerHeap} (enough : heap.entries.length ≤ n)
    (popped : (pruneUpTo n heap).pop? = some (top, rest)) : heap.isSet top.canceled = false := by
  induction n generalizing heap with
  | zero =>
      have empty : heap.entries = [] := List.length_eq_zero_iff.1 (Nat.le_zero.1 enough)
      have taken := (pop?_eq_some popped).1
      change takeGreatest? heap.entries = _ at taken
      rw [empty] at taken
      cases taken
  | succ n ih =>
      unfold pruneUpTo at popped
      split at popped
      · rename_i noTop
        rw [noTop] at popped
        cases popped
      · rename_i first others isTop
        obtain ⟨taken, sameFlags⟩ := pop?_eq_some isTop
        split at popped
        · obtain ⟨front, back, isEntries, isOthers, _⟩ := takeGreatest?_split taken
          rw [← isSet_congr sameFlags]
          refine ih ?_ popped
          rw [isEntries] at enough
          rw [isOthers]
          simp only [List.length_append, List.length_cons] at *
          omega
        · rename_i notSet
          rw [isTop] at popped
          cases popped
          exact Bool.eq_false_iff.2 notSet

theorem top_prune (popped : heap.prune.pop? = some (top, rest)) :
    heap.isSet top.canceled = false :=
  top_pruneUpTo (Nat.le_refl _) popped

/-- After cancelled timers were thrown away, the first timer is on top. -/
theorem live_pop_prune (popped : heap.prune.pop? = some (top, rest)) :
    heap.live = top :: rest.live := by
  rw [← live_prune heap]
  refine live_pop popped ?_
  rw [isSet_prune]
  exact top_prune popped

theorem top?_prune (heap : TimerHeap) : heap.prune.top? = heap.live.head? := by
  unfold top?
  cases popped : heap.prune.pop? with
  | none =>
      have empty : heap.prune.live = [] := by
        unfold live
        rw [pop?_eq_none popped]
        rfl
      rw [← live_prune, empty]
      rfl
  | some found =>
      obtain ⟨top, rest⟩ := found
      rw [live_pop_prune popped]
      rfl

/-- There is nothing to throw away twice. -/
theorem prune_prune (heap : TimerHeap) : heap.prune.prune = heap.prune := by
  generalize isPruned : heap.prune = pruned
  unfold prune
  cases pruned.entries.length with
  | zero => rfl
  | succ n =>
      unfold pruneUpTo
      split
      · rfl
      · rename_i top rest popped
        subst isPruned
        have notSet := top_prune popped
        rw [← isSet_prune] at notSet
        exact if_neg (Bool.eq_false_iff.1 notSet)

/-- A new timer is not cancelled, and takes its place. -/
theorem live_push (heap : TimerHeap) (deadline : Number) (id : Nat) (pid : ProcessId) :
    (heap.push deadline id pid).2.live =
      insertTimer ⟨deadline, id, pid, ⟨heap.flags.size⟩⟩ heap.live := by
  have fresh : (heap.push deadline id pid).2.isSet ⟨heap.flags.size⟩ = false := by
    simp [push, isSet]
  have older : ∀ timer ∈ heap.entries,
      (heap.push deadline id pid).2.isSet timer.canceled = heap.isSet timer.canceled := by
    intro timer member
    have inside := heap.flagged timer member
    simp [push, isSet, Array.getElem?_push, Nat.ne_of_lt inside]
  have same : heap.entries.filter
        (fun timer => !(heap.push deadline id pid).2.isSet timer.canceled) =
      heap.entries.filter (fun timer => !heap.isSet timer.canceled) :=
    List.filter_congr fun timer member => congrArg not (older timer member)
  have added : (heap.push deadline id pid).2.entries =
      ⟨deadline, id, pid, ⟨heap.flags.size⟩⟩ :: heap.entries := rfl
  unfold live
  rw [added, List.filter_cons_of_pos (by simp [fresh]), same]
  rfl

/-- Cancelling takes out the timers with the flag. -/
theorem live_cancel (heap : TimerHeap) (flag : Flag) :
    (heap.cancel flag).live = heap.live.filter fun timer => timer.canceled ≠ flag := by
  unfold live
  rw [filter_inOrder, List.filter_filter]
  refine congrArg inOrder (List.filter_congr fun timer member => ?_)
  have inside := heap.flagged timer member
  by_cases same : timer.canceled = flag
  · subst same
    simp [cancel, isSet, inside]
  · have other : flag.cell ≠ timer.canceled.cell := fun isCell =>
      same (congrArg Flag.mk isCell.symm)
    simp [cancel, isSet, other, same]

end Operations

end TimerHeap

end ActorMachine
