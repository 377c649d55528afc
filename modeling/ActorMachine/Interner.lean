set_option autoImplicit false

/-!
Interners: texts and their numbers.

An interner numbers distinct texts from zero on, in the order in which it is first asked for them,
and never forgets one. `Names` is one that looks through all of its texts.
-/

namespace ActorMachine

class Interner (I : Type) where
  empty : I
  /-- The number of a text that was numbered before. -/
  find? : I → String → Option Nat
  /-- The number of a text, the next one at its first use. -/
  intern : I → String → Nat × I
  /-- The text that has a number. -/
  text? : I → Nat → Option String
  /-- The texts in the order of their numbers. -/
  texts : I → List String
  texts_empty : texts empty = []
  nodup_texts : ∀ i, (texts i).Nodup
  find?_eq : ∀ i text, find? i text =
    if text ∈ texts i then some ((texts i).idxOf text) else none
  text?_eq : ∀ i n, text? i n = (texts i)[n]?
  intern_of_mem : ∀ i text, text ∈ texts i → intern i text = ((texts i).idxOf text, i)
  intern_of_new : ∀ i text, text ∉ texts i →
    (intern i text).1 = (texts i).length ∧ texts (intern i text).2 = texts i ++ [text]

/-- Texts in the order of their numbers. -/
structure Names where
  texts : Array String := #[]
  distinct : texts.toList.Nodup := by exact List.nodup_nil

namespace Names

def find? (names : Names) (text : String) : Option Nat := names.texts.findIdx? (· == text)

theorem find?_eq (names : Names) (text : String) :
    names.find? text =
      if text ∈ names.texts.toList then some (names.texts.toList.idxOf text) else none := by
  obtain ⟨⟨texts⟩, distinct⟩ := names
  unfold find?
  rw [List.findIdx?_toArray]
  split
  · rename_i member
    exact List.findIdx?_eq_some_iff_findIdx_eq.2 ⟨List.idxOf_lt_length_iff.2 member, rfl⟩
  · rename_i absent
    refine List.findIdx?_eq_none_iff.2 fun other member => beq_eq_false_iff_ne.2 ?_
    rintro rfl
    exact absent member

/-- Adds a text, unless it is there. -/
def add (names : Names) (text : String) : Names where
  texts := if (names.find? text).isSome then names.texts else names.texts.push text
  distinct := by
    split
    · exact names.distinct
    · rename_i isNew
      have unused : text ∉ names.texts.toList := by
        intro member
        rw [find?_eq, if_pos member] at isNew
        exact isNew rfl
      rw [Array.toList_push, List.nodup_append]
      refine ⟨names.distinct, by simp, ?_⟩
      rintro other member added last rfl
      rw [List.mem_singleton.1 last] at member
      exact unused member

def intern (names : Names) (text : String) : Nat × Names :=
  match names.find? text with
  | some n => (n, names)
  | none => (names.texts.size, names.add text)

instance : Interner Names where
  empty := {}
  find? := find?
  intern := intern
  text? := fun names n => names.texts[n]?
  texts := fun names => names.texts.toList
  texts_empty := rfl
  nodup_texts := distinct
  find?_eq := find?_eq
  text?_eq := fun names n => by rw [Array.getElem?_toList]
  intern_of_mem := by
    intro names text member
    unfold intern
    rw [find?_eq, if_pos member]
  intern_of_new := by
    intro names text isNew
    have missing : names.find? text = none := by rw [find?_eq, if_neg isNew]
    have added : (names.add text).texts = names.texts.push text := by
      unfold add
      simp only [missing, Option.isSome_none, Bool.false_eq_true, if_false]
    unfold intern
    rw [missing]
    exact ⟨rfl, (congrArg Array.toList added).trans Array.toList_push⟩

end Names

end ActorMachine
