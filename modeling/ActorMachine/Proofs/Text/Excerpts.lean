import ActorMachine.Text.Excerpt
import Mathlib.Data.List.Basic

set_option autoImplicit false

/-!
What an excerpt shows.

A place in a text is given by the bytes before it, and an excerpt is cut in characters. Where a
character takes more than one byte the two counts differ: the excerpt lies too far on by the bytes
that the text before the place has more than characters. Main statement: `excerpted`.
-/

namespace ActorMachine.Text

/-! ### Sizes -/

theorem foldl_utf8Size (text : List Char) (size : Nat) :
    text.foldl (fun size c => size + c.utf8Size) size = size + byteSize text := by
  induction text generalizing size with
  | nil => rfl
  | cons c text ih =>
      unfold byteSize
      rw [List.foldl_cons, List.foldl_cons, ih, ih (0 + c.utf8Size)]
      omega

theorem byteSize_cons (c : Char) (text : List Char) :
    byteSize (c :: text) = c.utf8Size + byteSize text := by
  unfold byteSize
  rw [List.foldl_cons, foldl_utf8Size, Nat.zero_add]
  rfl

theorem byteSize_append (front rest : List Char) :
    byteSize (front ++ rest) = byteSize front + byteSize rest := by
  unfold byteSize
  rw [List.foldl_append, foldl_utf8Size]
  rfl

theorem length_le_byteSize (text : List Char) : text.length ≤ byteSize text := by
  induction text with
  | nil => exact Nat.le_refl 0
  | cons c text ih =>
      have positive := c.utf8Size_pos
      rw [List.length_cons, byteSize_cons]
      omega

/-- A text of characters that take a byte each. -/
theorem byteSize_of_ascii {text : List Char} (ascii : ∀ c ∈ text, c.utf8Size = 1) :
    byteSize text = text.length := by
  induction text with
  | nil => rfl
  | cons c text ih =>
      rw [byteSize_cons, List.length_cons, ascii c List.mem_cons_self,
        ih fun other member => ascii other (List.mem_cons_of_mem _ member)]
      omega

/-! ### Pieces -/

/-- The text that an excerpt leaves out in front. -/
def leftOutBefore (text : List Char) (offset : Nat) : List Char := text.take (offset - excerptLead)

/-- The text that an excerpt leaves out behind. -/
def leftOutBehind (text : List Char) (offset : Nat) : List Char :=
  text.drop (offset - excerptLead + excerptLength)

/-- What an excerpt of the text `front ++ rest` at the place between the two should be: a piece of
it of at most `excerptLength` characters, with a mark on either side where text is left out. The
piece has the first character of `rest` in it, or goes to the end if there is none. -/
def Locates (front rest shown : List Char) : Prop :=
  ∃ before piece behind, front ++ rest = before ++ piece ++ behind ∧
    piece.length ≤ excerptLength ∧ before.length ≤ front.length ∧
    (front.length < before.length + piece.length ∨ rest = [] ∧ behind = []) ∧
    shown = (if before = [] then [] else elision) ++ piece ++
      (if behind = [] then [] else elision)

section Pieces

variable (text : List Char) (offset : Nat)

theorem snippet_between :
    text = leftOutBefore text offset ++ snippet text offset ++ leftOutBehind text offset := by
  unfold leftOutBefore snippet leftOutBehind
  rw [List.append_assoc, ← List.drop_drop, List.take_append_drop, List.take_append_drop]

theorem length_snippet_le : (snippet text offset).length ≤ excerptLength := by
  unfold snippet
  rw [List.length_take]
  exact Nat.min_le_left _ _

theorem byteSize_between :
    byteSize text = byteSize (leftOutBefore text offset) + byteSize (snippet text offset) +
      byteSize (leftOutBehind text offset) := by
  have divided := congrArg byteSize (snippet_between text offset)
  rw [byteSize_append, byteSize_append] at divided
  exact divided

/-- Only a piece that is full leaves out text behind it. -/
theorem length_of_leftOutBehind (leaves : leftOutBehind text offset ≠ []) :
    (leftOutBefore text offset).length = offset - excerptLead ∧
      (snippet text offset).length = excerptLength := by
  unfold leftOutBehind at leaves
  rw [ne_eq, List.drop_eq_nil_iff] at leaves
  unfold leftOutBefore snippet
  rw [List.length_take, List.length_take, List.length_drop]
  omega

end Pieces

/-! ### Marks -/

section Places

variable (front rest : List Char)

/-- The mark in front is there when text is left out there, and only then. -/
theorem leftOutBefore_eq_nil_iff :
    leftOutBefore (front ++ rest) (byteSize front) = [] ↔ byteSize front - excerptLead = 0 := by
  unfold leftOutBefore
  rw [List.take_eq_nil_iff]
  refine ⟨fun either => either.elim id fun empty => ?_, .inl⟩
  rw [(List.append_eq_nil_iff.1 empty).1]
  rfl

/-- The mark behind is there when text is left out there. It is there too when what is left out in
front takes more bytes than there should be characters in it. -/
theorem mark_behind_iff :
    byteSize front - excerptLead + byteSize (snippet (front ++ rest) (byteSize front)) <
        byteSize (front ++ rest) ↔
      ¬(leftOutBehind (front ++ rest) (byteSize front) = [] ∧
        byteSize (leftOutBefore (front ++ rest) (byteSize front)) ≤
          byteSize front - excerptLead) := by
  have divided := byteSize_between (front ++ rest) (byteSize front)
  by_cases leaves : leftOutBehind (front ++ rest) (byteSize front) = []
  · rw [leaves] at divided ⊢
    change _ = _ + _ + 0 at divided
    simp only [true_and]
    omega
  · have isFull := (length_of_leftOutBehind _ _ leaves).1
    have less := length_le_byteSize (leftOutBefore (front ++ rest) (byteSize front))
    have some : 0 < byteSize (leftOutBehind (front ++ rest) (byteSize front)) :=
      Nat.lt_of_lt_of_le (List.length_pos_of_ne_nil leaves) (length_le_byteSize _)
    simp only [leaves, false_and, not_false_eq_true, iff_true]
    omega

theorem marked_eq :
    marked (front ++ rest) (byteSize front) =
      (if leftOutBefore (front ++ rest) (byteSize front) = [] then [] else elision) ++
        snippet (front ++ rest) (byteSize front) ++
      (if leftOutBehind (front ++ rest) (byteSize front) = [] ∧
          byteSize (leftOutBefore (front ++ rest) (byteSize front)) ≤
            byteSize front - excerptLead then [] else elision) := by
  have before := leftOutBefore_eq_nil_iff front rest
  have behind := mark_behind_iff front rest
  unfold marked
  dsimp only
  congr 1
  · congr 1
    by_cases starts : byteSize front - excerptLead = 0
    · rw [if_pos (before.2 starts), if_neg (by omega)]
    · rw [if_neg (starts ∘ before.1), if_pos (Nat.pos_of_ne_zero starts)]
  · by_cases isMarked : byteSize front - excerptLead +
        byteSize (snippet (front ++ rest) (byteSize front)) < byteSize (front ++ rest)
    · rw [if_pos isMarked, if_neg (behind.1 isMarked)]
    · rw [if_neg isMarked, if_pos (not_not.1 (isMarked ∘ behind.2))]

/-! ### Places -/

/-- The piece has the character at the place in it, as long as the text before the place takes at
most `excerptLead` bytes more than it has characters. -/
theorem place_in_snippet_iff :
    ((leftOutBefore (front ++ rest) (byteSize front)).length ≤ front.length ∧
      front.length < (leftOutBefore (front ++ rest) (byteSize front)).length +
        (snippet (front ++ rest) (byteSize front)).length) ↔
      rest ≠ [] ∧ byteSize front ≤ front.length + excerptLead := by
  have less := length_le_byteSize front
  have lead : excerptLead < excerptLength := by decide
  have present : rest ≠ [] ↔ 0 < rest.length := List.length_pos_iff.symm
  unfold leftOutBefore snippet
  rw [present, List.length_take, List.length_take, List.length_drop, List.length_append]
  omega

theorem leftOutBehind_of_end : leftOutBehind front (byteSize front) = [] := by
  have less := length_le_byteSize front
  have lead : excerptLead ≤ excerptLength := by decide
  unfold leftOutBehind
  rw [List.drop_eq_nil_iff]
  omega

/-- Where every character before the place takes one byte, the excerpt shows the place. -/
theorem locates_of_ascii (ascii : ∀ c ∈ front, c.utf8Size = 1) :
    Locates front rest (marked (front ++ rest) (byteSize front)) := by
  have same := byteSize_of_ascii ascii
  have inFront : leftOutBefore (front ++ rest) (byteSize front) =
      front.take (byteSize front - excerptLead) := by
    unfold leftOutBefore
    rw [List.take_append_of_le_length (by omega)]
  have small : byteSize (leftOutBefore (front ++ rest) (byteSize front)) ≤
      byteSize front - excerptLead := by
    rw [inFront, byteSize_of_ascii fun c member => ascii c (List.mem_of_mem_take member),
      List.length_take]
    exact Nat.min_le_left _ _
  refine ⟨_, _, _, snippet_between _ (byteSize front), length_snippet_le _ _, ?_, ?_, ?_⟩
  · rw [inFront, List.length_take]
    exact Nat.min_le_right _ _
  · by_cases ended : rest = []
    · subst ended
      rw [List.append_nil]
      exact .inr ⟨rfl, leftOutBehind_of_end front⟩
    · exact .inl ((place_in_snippet_iff front rest).2 ⟨ended, by omega⟩).2
  · rw [marked_eq]
    simp only [small, and_true]

end Places

/-- What the excerpt of `front ++ rest` at the place between the two comes to. -/
structure Excerpted (front rest : List Char) : Prop where
  /-- The piece is a part of the text, -/
  divided : front ++ rest = leftOutBefore (front ++ rest) (byteSize front) ++
    snippet (front ++ rest) (byteSize front) ++ leftOutBehind (front ++ rest) (byteSize front)
  /-- and a short one. -/
  short : (snippet (front ++ rest) (byteSize front)).length ≤ excerptLength
  /-- The mark in front says that text is left out there. The mark behind says that text is left out
  there or that the text left out in front has a character of more than one byte. -/
  marks : marked (front ++ rest) (byteSize front) =
    (if leftOutBefore (front ++ rest) (byteSize front) = [] then [] else elision) ++
      snippet (front ++ rest) (byteSize front) ++
    (if leftOutBehind (front ++ rest) (byteSize front) = [] ∧
        byteSize (leftOutBefore (front ++ rest) (byteSize front)) ≤
          byteSize front - excerptLead then [] else elision)
  /-- The character at the place is in the piece exactly when the text before it takes at most
  `excerptLead` bytes more than it has characters. -/
  place : ((leftOutBefore (front ++ rest) (byteSize front)).length ≤ front.length ∧
      front.length < (leftOutBefore (front ++ rest) (byteSize front)).length +
        (snippet (front ++ rest) (byteSize front)).length) ↔
    rest ≠ [] ∧ byteSize front ≤ front.length + excerptLead
  /-- An excerpt at the end of the text leaves out nothing behind. -/
  toEnd : rest = [] → leftOutBehind (front ++ rest) (byteSize front) = []
  /-- If every character before the place takes one byte then the excerpt is what it should be. -/
  exact : (∀ c ∈ front, c.utf8Size = 1) →
    Locates front rest (marked (front ++ rest) (byteSize front))

theorem excerpted (front rest : List Char) : Excerpted front rest where
  divided := snippet_between _ _
  short := length_snippet_le _ _
  marks := marked_eq front rest
  place := place_in_snippet_iff front rest
  toEnd := by
    rintro rfl
    rw [List.append_nil]
    exact leftOutBehind_of_end front
  exact := locates_of_ascii front rest

end ActorMachine.Text
