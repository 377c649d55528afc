import ActorMachine.Proofs.Number.Numerals
import ActorMachine.Store.Printer

set_option autoImplicit false

/-!
The text of a datum.

`Datum.print` is the text as a list of characters, with what lies too deep elided. Parentheses nest
in it as deep as lists do in the datum, not counting those in quoted texts.
-/

namespace ActorMachine

open Store (escape)

/-! ### Data that print in full -/

namespace Datum

/-- Whether all numbers in a datum are finite. -/
def allFinite : Datum → Bool
  | .number x => x.isFinite
  | .cons head tail => head.allFinite && tail.allFinite
  | _ => true

/-- The number of pairs that follow each other in a list. -/
def spineLength : Datum → Nat
  | .cons _ tail => tail.spineLength + 1
  | _ => 0

/-- The number of pairs of the longest list in a datum. -/
def longestList : Datum → Nat
  | .cons head tail => max (tail.spineLength + 1) (max head.longestList tail.longestList)
  | _ => 0

/-- How deep parentheses nest in a datum that is written out. -/
def nesting : Datum → Nat
  | .nil => 1
  | .cons head tail => max (head.nesting + 1) tail.nesting
  | _ => 0

/-- A text between two `quote`s. -/
def quoted (quote : Char) (text : List Char) : List Char :=
  quote :: (text.flatMap (escape quote) ++ [quote])

/-- The spelling of a symbol. -/
def symbolText (name : String) : List Char :=
  if Symbol.isBare name.toList then name.toList else quoted '|' name.toList

/-- The end of a list that has a tail. -/
def dotted (tail : List Char) : List Char := ' ' :: '.' :: ' ' :: (tail ++ [')'])

mutual

/-- A datum in which at most `depth` lists enclose each other. -/
def print : Nat → Datum → List Char
  | _, .nil => ['(', ')']
  | _, .symbol name => symbolText name
  | _, .number x => x.text.toList
  | _, .string text => quoted '"' text.toList
  | 0, .cons _ _ => ['(', '.', '.', '.', ')']
  | depth + 1, .cons head tail => '(' :: (print depth head ++ printRest depth tail)

/-- The rest of a list. -/
def printRest : Nat → Datum → List Char
  | _, .nil => [')']
  | _, .symbol name => dotted (symbolText name)
  | _, .number x => dotted x.text.toList
  | _, .string text => dotted (quoted '"' text.toList)
  | depth, .cons head tail => ' ' :: (print depth head ++ printRest depth tail)

end

end Datum

/-! ### Nesting of parentheses in a text -/

namespace Text

/-- Where a character of listing text stands. -/
inductive Quoting where
  | outside
  | within (quote : Char)
  /-- Behind a backslash. -/
  | escaped (quote : Char)

/-- Where the next character stands. -/
def Quoting.next : Quoting → Char → Quoting
  | .outside, c => if c = '"' ∨ c = '|' then .within c else .outside
  | .within quote, c =>
      if c = quote then .outside else if c = '\\' then .escaped quote else .within quote
  | .escaped quote, _ => .within quote

/-- How many parentheses are open behind a character. -/
def Quoting.openBehind : Quoting → Nat → Char → Nat
  | .outside, depth, c => if c = '(' then depth + 1 else if c = ')' then depth - 1 else depth
  | _, depth, _ => depth

/-- The most parentheses that are open at once in a text before which there are `depth`. -/
def deepest : Quoting → Nat → List Char → Nat
  | _, depth, [] => depth
  | quoting, depth, c :: rest =>
      max depth (deepest (quoting.next c) (quoting.openBehind depth c) rest)

/-- How deep parentheses nest in a text, not counting those between quotes or bars. -/
def nesting (text : List Char) : Nat := deepest .outside 0 text

theorem le_deepest (quoting : Quoting) (depth : Nat) (text : List Char) :
    depth ≤ deepest quoting depth text := by
  cases text with
  | nil => exact Nat.le_refl _
  | cons c rest => exact Nat.le_max_left _ _

/-- A character that opens or closes nothing. -/
theorem deepest_cons {quoting : Quoting} {depth : Nat} {c : Char} (rest : List Char)
    (neutral : quoting.openBehind depth c = depth) :
    deepest quoting depth (c :: rest) = deepest (quoting.next c) depth rest := by
  rw [deepest, neutral]
  exact Nat.max_eq_right (le_deepest _ _ _)

/-- An atom has no parentheses. -/
theorem deepest_atom {token : List Char} (allAtom : ∀ c ∈ token, Symbol.isAtomChar c = true)
    (depth : Nat) (rest : List Char) :
    deepest .outside depth (token ++ rest) = deepest .outside depth rest := by
  induction token with
  | nil => rfl
  | cons c token ih =>
      have isAtom := allAtom c List.mem_cons_self
      have plain : c ≠ '(' ∧ c ≠ ')' ∧ c ≠ '"' ∧ c ≠ '|' := by
        refine ⟨?_, ?_, ?_, ?_⟩ <;> rintro rfl <;> exact absurd isAtom (by decide)
      have neutral : Quoting.openBehind .outside depth c = depth := by
        simp [Quoting.openBehind, plain]
      have stays : Quoting.next .outside c = .outside := by simp [Quoting.next, plain]
      rw [List.cons_append, deepest_cons _ neutral, stays]
      exact ih fun other member => allAtom other (List.mem_cons_of_mem _ member)

/-- An escaped character neither ends the quoted text nor counts. -/
theorem deepest_escape (quote c : Char) (depth : Nat) (rest : List Char)
    (plain : quote ≠ '\\') :
    deepest (.within quote) depth (escape quote c ++ rest) =
      deepest (.within quote) depth rest := by
  have behindBackslash : ∀ other : Char, deepest (.within quote) depth ('\\' :: other :: rest) =
      deepest (.within quote) depth rest := by
    intro other
    have enters : Quoting.next (.within quote) '\\' = .escaped quote := by
      simp [Quoting.next, Ne.symm plain]
    rw [deepest_cons _ rfl, enters, deepest_cons _ rfl]
    rfl
  unfold escape
  split
  · exact behindBackslash _
  · split
    · exact behindBackslash _
    · split
      · exact behindBackslash _
      · split
        · exact behindBackslash _
        · split
          · exact behindBackslash _
          · rename_i notBackslash _ _ _ notQuote
            have stays : Quoting.next (.within quote) c = .within quote := by
              simp [Quoting.next, notBackslash, notQuote]
            rw [List.singleton_append, deepest_cons _ rfl, stays]

theorem deepest_quoted {quote : Char} (isQuote : quote = '"' ∨ quote = '|') (text : List Char)
    (depth : Nat) (rest : List Char) :
    deepest .outside depth (Datum.quoted quote text ++ rest) = deepest .outside depth rest := by
  have plain : quote ≠ '\\' := by rcases isQuote with rfl | rfl <;> decide
  have neutral : Quoting.openBehind .outside depth quote = depth := by
    rcases isQuote with rfl | rfl <;> rfl
  have enters : Quoting.next .outside quote = .within quote := if_pos isQuote
  have inside : ∀ text : List Char, deepest (.within quote) depth
      (text.flatMap (escape quote) ++ ([quote] ++ rest)) = deepest .outside depth rest := by
    intro text
    induction text with
    | nil =>
        have leaves : Quoting.next (.within quote) quote = .outside := if_pos rfl
        rw [List.flatMap_nil, List.nil_append, List.singleton_append, deepest_cons _ rfl, leaves]
    | cons c text ih =>
        rw [List.flatMap_cons, List.append_assoc, deepest_escape quote c depth _ plain]
        exact ih
  unfold Datum.quoted
  rw [List.cons_append, deepest_cons _ neutral, enters, List.append_assoc]
  exact inside text

end Text

/-! ### Nesting of parentheses in the text of a datum -/

namespace Datum

open Text

/-- A bare symbol is an atom that does not look like a number. -/
theorem isAtom_of_isBare {name : List Char} (bare : Symbol.isBare name = true) :
    Symbol.IsAtom name ∧ Symbol.looksNumeric name = false := by
  simp only [Symbol.isBare, Bool.and_eq_true, Bool.not_eq_true', bne_iff_ne, List.all_eq_true,
    List.isEmpty_eq_false_iff] at bare
  obtain ⟨⟨⟨present, notDot⟩, notNumeric⟩, allAtom⟩ := bare
  exact ⟨⟨present, notDot, allAtom⟩, notNumeric⟩

theorem deepest_symbolText (name : String) (depth : Nat) (rest : List Char) :
    deepest .outside depth (symbolText name ++ rest) = deepest .outside depth rest := by
  unfold symbolText
  split
  · rename_i bare
    exact deepest_atom (isAtom_of_isBare bare).1.isAtomChar depth rest
  · exact deepest_quoted (.inr rfl) name.toList depth rest

theorem deepest_number {x : Number} (finite : x.isFinite = true) (depth : Nat) (rest : List Char) :
    deepest .outside depth (x.text.toList ++ rest) = deepest .outside depth rest :=
  deepest_atom (Number.isAtom_text finite).isAtomChar depth rest

/-- A tail that is an atom adds nothing to the parenthesis that it stands in. -/
theorem deepest_dotted {tail : List Char} {depth : Nat}
    (noParentheses : ∀ rest, deepest .outside (depth + 1) (tail ++ rest) =
      deepest .outside (depth + 1) rest) (rest : List Char) :
    deepest .outside (depth + 1) (dotted tail ++ rest) =
      max (depth + 1) (deepest .outside depth rest) := by
  have neutral : ∀ c, c = ' ' ∨ c = '.' → Quoting.openBehind .outside (depth + 1) c = depth + 1 ∧
      Quoting.next .outside c = .outside := by
    rintro c (rfl | rfl) <;> exact ⟨rfl, rfl⟩
  unfold dotted
  rw [List.cons_append, deepest_cons _ (neutral ' ' (.inl rfl)).1, (neutral ' ' (.inl rfl)).2,
    List.cons_append, deepest_cons _ (neutral '.' (.inr rfl)).1, (neutral '.' (.inr rfl)).2,
    List.cons_append, deepest_cons _ (neutral ' ' (.inl rfl)).1, (neutral ' ' (.inl rfl)).2,
    List.append_assoc, noParentheses]
  rfl

/-- Parentheses nest as deep as lists do, up to those that are elided, in a datum and in one that is
the rest of a list. -/
structure NestsAs (d : Datum) : Prop where
  whole : ∀ limit depth rest, deepest .outside depth (d.print limit ++ rest) =
    max (depth + min d.nesting (limit + 1)) (deepest .outside depth rest)
  rest : ∀ limit depth rest, deepest .outside (depth + 1) (d.printRest limit ++ rest) =
    max (max (depth + 1) (depth + min d.nesting (limit + 2))) (deepest .outside depth rest)

theorem nestsAs_atom {d : Datum} {text : List Char} (flat : d.nesting = 0)
    (printed : ∀ limit, d.print limit = text)
    (printedRest : ∀ limit, d.printRest limit = dotted text)
    (noParentheses : ∀ depth rest, deepest .outside depth (text ++ rest) =
      deepest .outside depth rest) : NestsAs d where
  whole := by
    intro limit depth rest
    have reached := le_deepest .outside depth rest
    rw [printed, noParentheses, flat]
    omega
  rest := by
    intro limit depth rest
    rw [printedRest, deepest_dotted (noParentheses (depth + 1)), flat]
    omega

theorem min_nesting_cons (head tail : Datum) (limit : Nat) :
    min (cons head tail).nesting (limit + 2) =
      max (min head.nesting (limit + 1) + 1) (min tail.nesting (limit + 2)) := by
  rw [nesting]
  omega

theorem nestsAs (d : Datum) (finite : d.allFinite = true) : NestsAs d := by
  induction d with
  | nil =>
      refine ⟨?_, ?_⟩
      · intro limit depth rest
        change max depth (max (depth + 1) (deepest .outside depth rest)) = _
        simp only [nesting]
        omega
      · intro limit depth rest
        change max (depth + 1) (deepest .outside depth rest) = _
        simp only [nesting]
        omega
  | symbol name =>
      exact nestsAs_atom rfl (fun _ => rfl) (fun _ => rfl) (deepest_symbolText name)
  | number x => exact nestsAs_atom rfl (fun _ => rfl) (fun _ => rfl) (deepest_number finite)
  | string text =>
      exact nestsAs_atom rfl (fun _ => rfl) (fun _ => rfl) (deepest_quoted (.inl rfl) text.toList)
  | cons head tail headIh tailIh =>
      obtain ⟨headFinite, tailFinite⟩ := Bool.and_eq_true_iff.1 finite
      have headPrint := (headIh headFinite).whole
      have tailRest := (tailIh tailFinite).rest
      refine ⟨?_, ?_⟩
      · intro limit depth rest
        cases limit with
        | zero =>
            -- The list is elided, as one pair of parentheses.
            change max depth (max (depth + 1) (max (depth + 1) (max (depth + 1) (max (depth + 1)
              (deepest .outside depth rest))))) = _
            simp only [nesting]
            omega
        | succ limit =>
            rw [print, List.cons_append, List.append_assoc]
            change max depth (deepest .outside (depth + 1) _) = _
            rw [headPrint, tailRest, min_nesting_cons]
            generalize min head.nesting (limit + 1) = inHead, min tail.nesting (limit + 2) = inTail
            omega
      · intro limit depth rest
        rw [printRest, List.cons_append, List.append_assoc]
        change max (depth + 1) (deepest .outside (depth + 1) _) = _
        rw [headPrint, tailRest, min_nesting_cons]
        generalize min head.nesting (limit + 1) = inHead, min tail.nesting (limit + 2) = inTail
        omega

theorem nesting_print (d : Datum) (finite : d.allFinite = true) (limit : Nat) :
    Text.nesting (d.print limit) = min d.nesting (limit + 1) := by
  have whole := (nestsAs d finite).whole limit 0 []
  rw [List.append_nil] at whole
  unfold Text.nesting
  rw [whole, deepest]
  omega

end Datum

end ActorMachine
