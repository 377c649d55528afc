import ActorMachine.Datum.Reader
import ActorMachine.Proofs.Datum.Text

set_option autoImplicit false

/-!
Data read back from their texts.

The reader is followed along `Datum.print`, with whatever text comes behind: that must not go on
with a character of an atom, which a space and a closing parenthesis never do. Main statement:
`read_print`.
-/

namespace ActorMachine.Reader

open Store (escape)

/-- What comes behind an atom ends it. -/
def Boundary (rest : List Char) : Prop := ∀ c, rest.head? = some c → Symbol.isAtomChar c = false

theorem boundary_nil : Boundary [] := nofun

theorem boundary_cons {c : Char} (ends : Symbol.isAtomChar c = false) (rest : List Char) :
    Boundary (c :: rest) := by
  rintro _ ⟨⟩
  exact ends

theorem boundary_printRest (d : Datum) (limit : Nat) (rest : List Char) :
    Boundary (d.printRest limit ++ rest) := by
  cases d with
  | nil => exact boundary_cons rfl _
  | symbol name => exact boundary_cons rfl _
  | number x => exact boundary_cons rfl _
  | string text => exact boundary_cons rfl _
  | cons head tail => exact boundary_cons rfl _

/-! ### Atoms -/

/-- The atom characters up to a boundary. -/
theorem takeWhile_word {word rest : List Char} (isAtomChar : ∀ c ∈ word, Symbol.isAtomChar c = true)
    (boundary : Boundary rest) : (word ++ rest).takeWhile Symbol.isAtomChar = word := by
  rw [List.takeWhile_append_of_pos isAtomChar]
  cases rest with
  | nil => rw [List.takeWhile_nil, List.append_nil]
  | cons c rest =>
      have ends : ¬Symbol.isAtomChar c = true := by
        rw [boundary c rfl]
        exact Bool.false_ne_true
      rw [List.takeWhile_cons_of_neg ends, List.append_nil]

theorem takeWhile_atom {token rest : List Char} (isAtom : Symbol.IsAtom token)
    (boundary : Boundary rest) : (token ++ rest).takeWhile Symbol.isAtomChar = token :=
  takeWhile_word isAtom.isAtomChar boundary

theorem readAtom_symbol {name rest : List Char} (bare : Symbol.isBare name = true)
    (boundary : Boundary rest) :
    readAtom (name ++ rest) = .ok (.symbol (String.ofList name), rest) := by
  obtain ⟨isAtom, notNumeric⟩ := Datum.isAtom_of_isBare bare
  unfold readAtom
  dsimp only
  rw [takeWhile_atom isAtom boundary]
  simp [isAtom.present, isAtom.notDot, notNumeric]

theorem readAtom_number {x : Number} (finite : x.isFinite = true) {rest : List Char}
    (boundary : Boundary rest) : readAtom (x.text.toList ++ rest) = .ok (.number x, rest) := by
  have isAtom := Number.isAtom_text finite
  unfold readAtom
  dsimp only
  rw [takeWhile_atom isAtom boundary]
  simp [isAtom.present, isAtom.notDot, Number.looksNumeric_text finite,
    Number.readNumber?_text finite]

/-! ### Quoted text -/

theorem readQuoted_escape {quote : Char} (isQuote : quote = '"' ∨ quote = '|') (seen : List Char)
    (c : Char) (rest : List Char) :
    readQuoted quote seen (escape quote c ++ rest) = readQuoted quote (c :: seen) rest := by
  have notBackslash : quote ≠ '\\' := by rcases isQuote with rfl | rfl <;> decide
  have behindBackslash : ∀ {spelled : Char}, unescape? quote spelled = some c →
      readQuoted quote seen ('\\' :: spelled :: rest) = readQuoted quote (c :: seen) rest := by
    intro spelled unescaped
    rw [readQuoted, if_neg (Ne.symm notBackslash), if_pos rfl]
    simp only [unescaped]
  unfold escape
  split
  · rename_i same
    subst same
    exact behindBackslash rfl
  · split
    · rename_i same
      subst same
      exact behindBackslash rfl
    · split
      · rename_i same
        subst same
        exact behindBackslash rfl
      · split
        · rename_i same
          subst same
          exact behindBackslash rfl
        · split
          · rename_i same
            subst same
            apply behindBackslash
            rcases isQuote with rfl | rfl <;> rfl
          · rename_i plain _ _ _ notQuote
            rw [List.singleton_append, readQuoted.eq_def]
            dsimp only
            rw [if_neg notQuote, if_neg plain]

theorem readQuoted_text {quote : Char} (isQuote : quote = '"' ∨ quote = '|')
    (seen text rest : List Char) :
    readQuoted quote seen (text.flatMap (escape quote) ++ quote :: rest) =
      .ok (seen.reverse ++ text, rest) := by
  induction text generalizing seen with
  | nil =>
      rw [List.flatMap_nil, List.nil_append, readQuoted.eq_def, List.append_nil]
      exact if_pos rfl
  | cons c text ih =>
      rw [List.flatMap_cons, List.append_assoc, readQuoted_escape isQuote, ih, List.reverse_cons,
        List.append_assoc, List.singleton_append]

theorem readDelimited_text {quote : Char} (isQuote : quote = '"' ∨ quote = '|')
    (make : String → Datum) (text : String) (rest : List Char) :
    readDelimited quote make (text.toList.flatMap (escape quote) ++ quote :: rest) =
      .ok (make text, rest) := by
  unfold readDelimited
  rw [readQuoted_text isQuote]
  simp only [List.reverse_nil, List.nil_append, String.ofList_toList]

/-! ### Where a datum starts -/

/-- A datum starts with the first character: nothing is skipped, and the character neither ends a
list nor announces its tail. -/
structure Opens (text : List Char) : Prop where
  skip_eq : skip text = text
  notEnd : text.head? ≠ some ')'
  notDot : atDot text = false

/-- A point announces a tail if it stands alone. -/
theorem atDot_iff {c : Char} {rest : List Char} :
    atDot (c :: rest) = true ↔ c = '.' ∧ Boundary rest := by
  cases rest with
  | nil =>
      unfold atDot
      split
      · rename_i point
        cases point
        exact iff_of_true rfl ⟨rfl, boundary_nil⟩
      · rename_i longer
        cases longer
      · rename_i other _
        exact iff_of_false Bool.false_ne_true fun point => other (by rw [point.1])
  | cons next rest =>
      unfold atDot
      split
      · rename_i shorter
        cases shorter
      · rename_i point
        cases point
        rw [Bool.not_eq_true']
        exact ⟨fun ends => ⟨rfl, boundary_cons ends rest⟩, fun alone => alone.2 next rfl⟩
      · rename_i other
        exact iff_of_false Bool.false_ne_true fun point => other next rest (by rw [point.1])

theorem skip_cons {c : Char} (notSpace : isSpace c = false) (notComment : c ≠ ';')
    (rest : List Char) : skip (c :: rest) = c :: rest := by
  simp [skip, skipFrom, notSpace, notComment]

theorem skip_space (rest : List Char) : skip (' ' :: rest) = skip rest := rfl

theorem isSpace_of_isAtomChar {c : Char} (isAtom : Symbol.isAtomChar c = true) :
    isSpace c = false := by
  cases space : isSpace c with
  | false => rfl
  | true =>
      simp only [isSpace, Bool.or_eq_true, decide_eq_true_eq] at space
      rcases space with ((rfl | rfl) | rfl) | rfl <;> cases isAtom

theorem opens_atom {token : List Char} (atom : Symbol.IsAtom token) (rest : List Char) :
    Opens (token ++ rest) := by
  obtain ⟨present, notDot, allAtom⟩ := atom
  obtain ⟨c, token, rfl⟩ := List.exists_cons_of_ne_nil present
  have isAtom := allAtom c List.mem_cons_self
  refine ⟨skip_cons (isSpace_of_isAtomChar isAtom) ?_ _, ?_, ?_⟩
  · rintro rfl
    cases isAtom
  · rintro ⟨⟩
    cases isAtom
  · -- Only a point that stands alone announces a tail.
    unfold atDot
    split
    · rename_i alone
      obtain ⟨rfl, shape⟩ := List.cons.inj alone
      obtain ⟨rfl, _⟩ := List.append_eq_nil_iff.1 shape
      exact absurd rfl notDot
    · rename_i next _ shape
      obtain ⟨isPoint, shape⟩ := List.cons.inj shape
      cases token with
      | nil =>
          rw [isPoint] at notDot
          exact absurd rfl notDot
      | cons second more =>
          obtain ⟨isNext, _⟩ := List.cons.inj shape
          rw [← isNext, allAtom second (List.mem_cons_of_mem _ List.mem_cons_self)]
          rfl
    · rfl

theorem opens_symbolText (name : String) (rest : List Char) :
    Opens (Datum.symbolText name ++ rest) := by
  unfold Datum.symbolText
  split
  · rename_i bare
    exact opens_atom (Datum.isAtom_of_isBare bare).1 rest
  · exact ⟨rfl, nofun, rfl⟩

theorem opens_print {d : Datum} (finite : d.allFinite = true) (limit : Nat) (rest : List Char) :
    Opens (d.print limit ++ rest) := by
  cases d with
  | nil => exact ⟨rfl, nofun, rfl⟩
  | symbol name => exact opens_symbolText name rest
  | number x => exact opens_atom (Number.isAtom_text finite) rest
  | string text => exact ⟨rfl, nofun, rfl⟩
  | cons head tail =>
      cases limit with
      | zero => exact ⟨rfl, nofun, rfl⟩
      | succ limit => exact ⟨rfl, nofun, rfl⟩

/-! ### Steps of the reader -/

section Steps

variable {bound text rest after : List Char} {depth : Nat} {items : List Datum} {d : Datum}

theorem length_of_skip {c : Char} (shape : skip text = c :: rest) : rest.length < text.length := by
  have bound := length_skip_le text
  rw [shape] at bound
  exact bound

theorem ofScan_ok {scan : Except Snag (Datum × List Char)}
    {shorter : ∀ datum after, scan = .ok (datum, after) → after.length < bound.length}
    (isOk : scan = .ok (d, after)) :
    ∃ less, ofScan bound scan shorter = .ok ⟨(d, after), less⟩ := by
  subst isOk
  exact ⟨shorter d after rfl, rfl⟩

/-- A list is read item by item, if it is not too deep. -/
theorem readDatum_list (fits : text.length ≤ bound.length) (opened : skip text = '(' :: rest)
    (shallow : depth + 1 < maxDepth) :
    ∃ restFits, readDatum bound depth text fits = readItems bound (depth + 1) [] rest restFits := by
  have restFits : rest.length ≤ bound.length :=
    Nat.le_trans (Nat.le_of_lt (length_of_skip opened)) fits
  refine ⟨restFits, ?_⟩
  rw [readDatum]
  split
  · rename_i empty
    rw [opened] at empty
    cases empty
  · rename_i shape
    rw [opened] at shape
    cases shape
    rw [if_pos rfl, if_neg (Nat.not_le.2 shallow)]

/-- A text between quotes is a string, and one between bars is a symbol. -/
theorem readDatum_delimited {quote : Char} {make : String → Datum}
    (kind : quote = '"' ∧ make = .string ∨ quote = '|' ∧ make = .symbol)
    (fits : text.length ≤ bound.length) (opened : skip text = quote :: rest)
    (read : readDelimited quote make rest = .ok (d, after)) :
    ∃ less, readDatum bound depth text fits = .ok ⟨(d, after), less⟩ := by
  rw [readDatum]
  split
  · rename_i empty
    rw [opened] at empty
    cases empty
  · rename_i shape
    rw [opened] at shape
    cases shape
    rcases kind with ⟨rfl, rfl⟩ | ⟨rfl, rfl⟩
    · exact ofScan_ok read
    · exact ofScan_ok read

theorem readDatum_quoted {quote : Char} {make : String → Datum}
    (kind : quote = '"' ∧ make = .string ∨ quote = '|' ∧ make = .symbol) {content : String}
    (fits : text.length ≤ bound.length)
    (opened : skip text = Datum.quoted quote content.toList ++ rest) :
    ∃ less, readDatum bound depth text fits = .ok ⟨(make content, rest), less⟩ := by
  rw [Datum.quoted, List.cons_append, List.append_assoc, List.singleton_append] at opened
  have isQuote : quote = '"' ∨ quote = '|' := kind.imp And.left And.left
  exact readDatum_delimited kind fits opened (readDelimited_text isQuote make content rest)

theorem readDatum_atom {token : List Char} (fits : text.length ≤ bound.length)
    (opened : skip text = token ++ rest) (atom : Symbol.IsAtom token)
    (read : readAtom (token ++ rest) = .ok (d, after)) :
    ∃ less, readDatum bound depth text fits = .ok ⟨(d, after), less⟩ := by
  obtain ⟨present, _, allAtom⟩ := atom
  obtain ⟨c, token, rfl⟩ := List.exists_cons_of_ne_nil present
  have isAtom := allAtom c List.mem_cons_self
  have plain : c ≠ '(' ∧ c ≠ '"' ∧ c ≠ '|' := by
    refine ⟨?_, ?_, ?_⟩ <;> rintro rfl <;> cases isAtom
  rw [readDatum]
  split
  · rename_i empty
    rw [opened] at empty
    cases empty
  · rename_i shape
    rw [opened] at shape
    cases shape
    simp only [if_neg plain.1, if_neg plain.2.1, if_neg plain.2.2]
    exact ofScan_ok read

theorem readItems_end (fits : text.length ≤ bound.length) (ended : skip text = ')' :: rest) :
    ∃ less, readItems bound depth items text fits =
      .ok ⟨(Datum.ofReversed .nil items, rest), less⟩ := by
  refine ⟨Nat.lt_of_lt_of_le (length_of_skip ended) fits, ?_⟩
  rw [readItems]
  split
  · rename_i empty
    rw [ended] at empty
    cases empty
  · rename_i shape
    rw [ended] at shape
    cases shape
    rfl

/-- An item is read, and the list goes on behind it. -/
theorem readItems_item (items : List Datum) (fits : text.length ≤ bound.length) {start : List Char}
    (started : skip text = start) (present : start ≠ []) (opens : Opens start)
    (read : ∀ bound (fits : start.length ≤ bound.length), ∃ less,
      readDatum bound depth start fits = .ok ⟨(d, after), less⟩) :
    ∃ afterFits, readItems bound depth items text fits =
      readItems bound depth (d :: items) after afterFits := by
  obtain ⟨c, start, rfl⟩ := List.exists_cons_of_ne_nil present
  have notEnd : c ≠ ')' := fun same => opens.notEnd (by rw [same]; rfl)
  obtain ⟨less, isRead⟩ := read (c :: start) (Nat.le_refl _)
  have afterFits : after.length ≤ bound.length := by
    have shorter := length_of_skip started
    simp only [List.length_cons] at less
    omega
  refine ⟨afterFits, ?_⟩
  rw [readItems]
  split
  · rename_i empty
    rw [started] at empty
    cases empty
  · rename_i shape
    rw [started] at shape
    cases shape
    simp only [if_neg notEnd, opens.notDot, Bool.false_eq_true, if_false, isRead]

/-- The tail behind a point is read, and the list must end behind it. -/
theorem readItems_tail (fits : text.length ≤ bound.length) {tail : List Char}
    (announced : skip text = '.' :: tail) (alone : Boundary tail) (begun : items ≠ [])
    (read : ∀ bound (fits : tail.length ≤ bound.length), ∃ less,
      readDatum bound depth tail fits = .ok ⟨(d, after), less⟩)
    (closed : skip after = ')' :: rest) :
    ∃ less, readItems bound depth items text fits =
      .ok ⟨(Datum.ofReversed d items, rest), less⟩ := by
  obtain ⟨less, isRead⟩ := read tail (Nat.le_refl _)
  have notFirst : items.isEmpty = false := by
    cases items with
    | nil => exact absurd rfl begun
    | cons item items => rfl
  have restShorter : rest.length < bound.length := by
    have shorter := length_of_skip announced
    have final := length_of_skip closed
    simp only at less
    omega
  refine ⟨restShorter, ?_⟩
  rw [readItems]
  split
  · rename_i empty
    rw [announced] at empty
    cases empty
  · rename_i shape
    rw [announced] at shape
    cases shape
    have atPoint : atDot ('.' :: tail) = true := atDot_iff.2 ⟨rfl, alone⟩
    simp only [atPoint, notFirst, isRead]
    rw [if_neg (by decide), if_pos trivial, if_neg Bool.false_ne_true]
    split
    · rename_i empty
      rw [closed] at empty
      cases empty
    · rename_i ended
      rw [closed] at ended
      cases ended
      rfl

end Steps

/-! ### Data -/

/-- A datum is read from its text, with anything behind it that ends an atom, and from its text as
the rest of a list of which `items` were read. -/
structure ReadsBack (d : Datum) : Prop where
  whole : ∀ {bound depth limit text rest} (fits : text.length ≤ bound.length),
    depth + d.nesting < maxDepth → d.nesting ≤ limit → Boundary rest →
    skip text = d.print limit ++ rest →
    ∃ less, readDatum bound depth text fits = .ok ⟨(d, rest), less⟩
  rest : ∀ {bound depth limit items text rest} (fits : text.length ≤ bound.length),
    depth + d.nesting ≤ maxDepth → d.nesting ≤ limit + 1 → items ≠ [] →
    skip text = skip (d.printRest limit ++ rest) →
    ∃ less, readItems bound depth items text fits = .ok ⟨(Datum.ofReversed d items, rest), less⟩

/-- It is enough to read an atom as a whole. -/
theorem readsBack_atom {d : Datum} (text : List Char) (finite : d.allFinite = true)
    (printed : ∀ limit, d.print limit = text)
    (printedRest : ∀ limit, d.printRest limit = Datum.dotted text)
    (whole : ∀ {bound depth start rest} (fits : start.length ≤ bound.length), Boundary rest →
      skip start = text ++ rest →
        ∃ less, readDatum bound depth start fits = .ok ⟨(d, rest), less⟩) :
    ReadsBack d where
  whole := by
    intro bound depth limit start rest fits _ _ boundary opened
    rw [printed] at opened
    exact whole fits boundary opened
  rest := by
    intro bound depth limit items start rest fits _ _ begun same
    rw [printedRest] at same
    have announced : skip start = '.' :: ' ' :: (text ++ ')' :: rest) := by
      rw [same, Datum.dotted]
      simp only [List.cons_append, List.append_assoc]
      rfl
    have alone : Boundary (' ' :: (text ++ ')' :: rest)) := boundary_cons rfl _
    have tailRead : ∀ bound (fits : (' ' :: (text ++ ')' :: rest)).length ≤ bound.length), ∃ less,
        readDatum bound depth (' ' :: (text ++ ')' :: rest)) fits =
          .ok ⟨(d, ')' :: rest), less⟩ := by
      intro bound fits
      refine whole fits (boundary_cons rfl _) ?_
      have opens := opens_print finite 0 (')' :: rest)
      rw [printed] at opens
      rw [skip_space, opens.skip_eq]
    exact readItems_tail fits announced alone begun tailRead rfl

theorem readsBack_symbol (name : String) : ReadsBack (.symbol name) := by
  refine readsBack_atom (Datum.symbolText name) rfl (fun _ => rfl) (fun _ => rfl) ?_
  intro bound depth start rest fits boundary opened
  unfold Datum.symbolText at opened
  split at opened
  · rename_i bare
    have read := readAtom_symbol bare boundary
    rw [String.ofList_toList] at read
    exact readDatum_atom fits opened (Datum.isAtom_of_isBare bare).1 read
  · exact readDatum_quoted (.inr ⟨rfl, rfl⟩) fits opened

theorem readsBack_number {x : Number} (finite : x.isFinite = true) : ReadsBack (.number x) := by
  refine readsBack_atom x.text.toList finite (fun _ => rfl) (fun _ => rfl) ?_
  intro bound depth start rest fits boundary opened
  exact readDatum_atom fits opened (Number.isAtom_text finite) (readAtom_number finite boundary)

theorem readsBack_string (text : String) : ReadsBack (.string text) := by
  refine readsBack_atom (Datum.quoted '"' text.toList) rfl (fun _ => rfl) (fun _ => rfl) ?_
  intro bound depth start rest fits _ opened
  exact readDatum_quoted (.inl ⟨rfl, rfl⟩) fits opened

theorem readsBack_nil : ReadsBack .nil where
  whole := by
    intro bound depth limit text rest fits shallow _ _ opened
    obtain ⟨restFits, step⟩ := readDatum_list fits opened shallow
    rw [step]
    exact readItems_end restFits rfl
  rest := by
    intro bound depth limit items text rest fits _ _ _ same
    exact readItems_end fits same

/-- An item and what comes behind it are read as the rest of a list that begins with the item. -/
theorem ReadsBack.item {head tail : Datum} (headBack : ReadsBack head) (tailBack : ReadsBack tail)
    (finite : head.allFinite = true) {bound text rest : List Char} {depth limit : Nat}
    {items : List Datum} (fits : text.length ≤ bound.length)
    (shallow : depth + (Datum.cons head tail).nesting ≤ maxDepth)
    (unelided : (Datum.cons head tail).nesting ≤ limit + 1)
    (opened : skip text = head.print limit ++ (tail.printRest limit ++ rest)) :
    ∃ less, readItems bound depth items text fits =
      .ok ⟨(Datum.ofReversed (.cons head tail) items, rest), less⟩ := by
  simp only [Datum.nesting] at shallow unelided
  have opens := opens_print finite limit (tail.printRest limit ++ rest)
  have boundary := boundary_printRest tail limit rest
  have present : head.print limit ++ (tail.printRest limit ++ rest) ≠ [] := by
    cases tail <;> simp [Datum.printRest, Datum.dotted]
  have headRead : ∀ bound (fits : _ ≤ bound.length), ∃ less, readDatum bound depth
      (head.print limit ++ (tail.printRest limit ++ rest)) fits =
        .ok ⟨(head, tail.printRest limit ++ rest), less⟩ :=
    fun _ fits => headBack.whole fits (by omega) (by omega) boundary opens.skip_eq
  obtain ⟨afterFits, step⟩ := readItems_item items fits opened present opens headRead
  rw [step]
  exact tailBack.rest afterFits (by omega) (by omega) (List.cons_ne_nil _ _) rfl

theorem readsBack (d : Datum) (finite : d.allFinite = true) : ReadsBack d := by
  induction d with
  | nil => exact readsBack_nil
  | symbol name => exact readsBack_symbol name
  | number x => exact readsBack_number finite
  | string text => exact readsBack_string text
  | cons head tail headIh tailIh =>
      obtain ⟨headFinite, tailFinite⟩ := Bool.and_eq_true_iff.1 finite
      have headBack := headIh headFinite
      have tailBack := tailIh tailFinite
      constructor
      · intro bound depth limit text rest fits shallow unelided _ opened
        cases limit with
        | zero =>
            -- A pair has parentheses of its own, so something of it would be elided.
            simp only [Datum.nesting] at unelided
            omega
        | succ limit =>
            rw [Datum.print, List.cons_append, List.append_assoc] at opened
            have shallower : depth + 1 < maxDepth := by
              simp only [Datum.nesting] at shallow
              omega
            obtain ⟨restFits, step⟩ := readDatum_list fits opened shallower
            rw [step]
            have opens := opens_print headFinite limit (tail.printRest limit ++ rest)
            exact headBack.item tailBack headFinite restFits (by omega) unelided opens.skip_eq
      · intro bound depth limit items text rest fits shallow unelided _ same
        rw [Datum.printRest, List.cons_append, List.append_assoc, skip_space] at same
        have opens := opens_print headFinite limit (tail.printRest limit ++ rest)
        exact headBack.item tailBack headFinite fits shallow unelided (same.trans opens.skip_eq)

/-- A datum that does not nest too deep is read from its text. -/
theorem read_print {d : Datum} (finite : d.allFinite = true) (shallow : d.nesting < maxDepth)
    {limit : Nat} (unelided : d.nesting ≤ limit) : read (d.print limit) = .ok d := by
  have opens := opens_print finite limit []
  rw [List.append_nil] at opens
  have opened : skip (d.print limit) = d.print limit ++ [] := by rw [opens.skip_eq, List.append_nil]
  have fromStart : 0 + d.nesting < maxDepth := by rwa [Nat.zero_add]
  obtain ⟨less, isRead⟩ :=
    (readsBack d finite).whole (Nat.le_refl _) fromStart unelided boundary_nil
    opened
  unfold read
  simp only [isRead]
  rfl

end ActorMachine.Reader
