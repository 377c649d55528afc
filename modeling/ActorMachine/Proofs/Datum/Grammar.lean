import ActorMachine.Proofs.Datum.Reading

set_option autoImplicit false

/-!
The grammar of listing text.

Each form of the grammar relates a text to what is left of it behind that form, so what may follow a
comment or an atom can be said where it matters. Main statement: `read_iff`, which says that the
reader accepts the texts of the grammar and no others, and gives the datum that they spell.
-/

namespace ActorMachine.Grammar

open Reader (Boundary)

/-! ### Forms -/

/-- Spaces and comments stand in a text before the rest of it. A comment goes from a semicolon to
before the next newline, or to the end. -/
inductive Skips : List Char → List Char → Prop where
  | nothing {rest} : Skips rest rest
  | space {c text rest} (isSpace : c ∈ [' ', '\t', '\r', '\n']) (further : Skips text rest) :
      Skips (c :: text) rest
  | comment {line text rest} (inLine : '\n' ∉ line) (ends : ∀ c, text.head? = some c → c = '\n')
      (further : Skips text rest) : Skips (';' :: (line ++ text)) rest

/-- What a backslash and a character stand for between two `quote`s. -/
inductive Escapes (quote : Char) : Char → Char → Prop where
  | newline : Escapes quote 'n' '\n'
  | tab : Escapes quote 't' '\t'
  | carriageReturn : Escapes quote 'r' '\r'
  | backslash : Escapes quote '\\' '\\'
  | quote : Escapes quote quote quote

/-- The content of a text up to the closing `quote`. -/
inductive Quoted (quote : Char) : List Char → List Char → List Char → Prop where
  | close {rest} : Quoted quote (quote :: rest) [] rest
  | plain {c text content rest} (notQuote : c ≠ quote) (notBackslash : c ≠ '\\')
      (further : Quoted quote text content rest) : Quoted quote (c :: text) (c :: content) rest
  | escape {spelled c text content rest} (escapes : Escapes quote spelled c)
      (further : Quoted quote text content rest) :
      Quoted quote ('\\' :: spelled :: text) (c :: content) rest

/-- An atom starts like a number: with a digit, after an optional sign and an optional point. -/
def StartsLikeNumber (token : List Char) : Prop :=
  ∃ sign point digit more, token = sign ++ (point ++ digit :: more) ∧
    sign ∈ [[], ['+'], ['-']] ∧ point ∈ [[], ['.']] ∧ digit.isDigit = true

/-- What an atom stands for: a number if it starts like one, and a symbol otherwise. -/
inductive Denotes (token : List Char) : Datum → Prop where
  | number {x} (starts : StartsLikeNumber token) (reads : Number.readNumber? token = some x) :
      Denotes token (.number x)
  | symbol (starts : ¬StartsLikeNumber token) : Denotes token (.symbol (String.ofList token))

mutual

/-- A text starts with one datum that is enclosed in `depth` lists. -/
inductive Spells : Nat → List Char → Datum → List Char → Prop where
  | string {depth text start content rest} (skipped : Skips text ('"' :: start))
      (quoted : Quoted '"' start content rest) :
      Spells depth text (.string (String.ofList content)) rest
  | quotedSymbol {depth text start content rest} (skipped : Skips text ('|' :: start))
      (quoted : Quoted '|' start content rest) :
      Spells depth text (.symbol (String.ofList content)) rest
  | atom {depth text token d rest} (skipped : Skips text (token ++ rest))
      (atom : Symbol.IsAtom token) (maximal : Boundary rest) (denotes : Denotes token d) :
      Spells depth text d rest
  | list {depth text inside items behind tail rest} (skipped : Skips text ('(' :: inside))
      (shallow : depth < 255) (spelled : SpellsAll (depth + 1) inside items behind)
      (ends : Ends (depth + 1) items behind tail rest) :
      Spells depth text (items.foldr .cons tail) rest

/-- A text starts with data, all of them enclosed in `depth` lists. -/
inductive SpellsAll : Nat → List Char → List Datum → List Char → Prop where
  | nil {depth text} : SpellsAll depth text [] text
  | cons {depth text item behind items rest} (first : Spells depth text item behind)
      (others : SpellsAll depth behind items rest) : SpellsAll depth text (item :: items) rest

/-- A list of some items ends: right away, or behind a point that stands alone and one more datum,
on which the items are consed. -/
inductive Ends : Nat → List Datum → List Char → Datum → List Char → Prop where
  | proper {depth items text rest} (closed : Skips text (')' :: rest)) :
      Ends depth items text .nil rest
  | dotted {depth items text after tail closing rest} (present : items ≠ [])
      (announced : Skips text ('.' :: after)) (alone : Boundary after)
      (spelled : Spells depth after tail closing) (closed : Skips closing (')' :: rest)) :
      Ends depth items text tail rest

end

theorem Skips.trans {text middle rest : List Char} (first : Skips text middle)
    (second : Skips middle rest) : Skips text rest := by
  induction first with
  | nothing => exact second
  | space isSpace _ ih => exact .space isSpace (ih second)
  | comment inLine ends _ ih => exact .comment inLine ends (ih second)

/-- Spaces and comments may stand before a datum. -/
theorem Spells.behind {text start rest : List Char} {depth : Nat} {d : Datum}
    (spells : Spells depth start d rest) (skips : Skips text start) : Spells depth text d rest := by
  cases spells with
  | string skipped quoted => exact .string (skips.trans skipped) quoted
  | quotedSymbol skipped quoted => exact .quotedSymbol (skips.trans skipped) quoted
  | atom skipped atom maximal denotes => exact .atom (skips.trans skipped) atom maximal denotes
  | list skipped shallow spelled ends => exact .list (skips.trans skipped) shallow spelled ends

end ActorMachine.Grammar

namespace ActorMachine.Reader

open Grammar

/-! ### Spaces and comments -/

theorem isSpace_iff (c : Char) : isSpace c = true ↔ c ∈ [' ', '\t', '\r', '\n'] := by
  simp [isSpace, or_assoc]

/-- What the reader skips is spaces and comments; in a comment, the rest of the line comes first. -/
theorem skips_skipFrom (text : List Char) :
    Skips text (skipFrom false text) ∧
      ∃ line more, text = line ++ more ∧ '\n' ∉ line ∧ (∀ c, more.head? = some c → c = '\n') ∧
        Skips more (skipFrom true text) := by
  induction text with
  | nil => exact ⟨.nothing, [], [], rfl, List.not_mem_nil, nofun, .nothing⟩
  | cons c text ih =>
      obtain ⟨outside, line, more, isText, inLine, ends, behind⟩ := ih
      constructor
      · unfold skipFrom
        rw [if_neg Bool.false_ne_true]
        split
        · rename_i space
          exact .space ((isSpace_iff c).1 space) outside
        · split
          · rename_i comment
            rw [comment, isText]
            rw [isText] at behind
            exact .comment inLine ends behind
          · exact .nothing
      · unfold skipFrom
        rw [if_pos rfl]
        by_cases newline : c = '\n'
        · subst newline
          exact ⟨[], '\n' :: text, rfl, List.not_mem_nil, fun _ same => (Option.some.inj same).symm,
            .space (by decide) outside⟩
        · rw [bne_iff_ne.2 newline]
          refine ⟨c :: line, more, congrArg (c :: ·) isText, ?_, ends, behind⟩
          exact fun member => (List.mem_cons.1 member).elim (fun same => newline same.symm) inLine

theorem skipFrom_line {line : List Char} (inLine : '\n' ∉ line) (text : List Char) :
    skipFrom true (line ++ text) = skipFrom true text := by
  induction line with
  | nil => rfl
  | cons c line ih =>
      have notNewline : c ≠ '\n' := fun same => inLine (same ▸ List.mem_cons_self)
      rw [List.cons_append, skipFrom, if_pos rfl, bne_iff_ne.2 notNewline]
      exact ih fun member => inLine (List.mem_cons_of_mem _ member)

/-- The reader skips at least what the grammar allows to skip. -/
theorem skip_of_skips {text rest : List Char} (skips : Skips text rest) :
    skip text = skip rest := by
  induction skips with
  | nothing => rfl
  | space isSpace _ ih =>
      rw [← ih, skip, skipFrom, if_neg Bool.false_ne_true, if_pos ((isSpace_iff _).2 isSpace)]
      rfl
  | @comment line text rest inLine ends _ ih =>
      rw [← ih, skip, skipFrom, if_neg Bool.false_ne_true, if_neg (by decide), if_pos rfl,
        skipFrom_line inLine]
      cases text with
      | nil => rfl
      | cons c text =>
          rw [ends c rfl]
          rfl

theorem skips_skip (text : List Char) : Skips text (skip text) := (skips_skipFrom text).1

/-! ### Quoted text -/

theorem unescape?_eq_some {quote spelled c : Char} (isQuote : quote = '"' ∨ quote = '|') :
    unescape? quote spelled = some c ↔ Escapes quote spelled c := by
  constructor
  · intro unescaped
    unfold unescape? at unescaped
    split at unescaped
    · rename_i same
      subst same
      cases unescaped
      exact .newline
    · split at unescaped
      · rename_i same
        subst same
        cases unescaped
        exact .tab
      · split at unescaped
        · rename_i same
          subst same
          cases unescaped
          exact .carriageReturn
        · split at unescaped
          · rename_i same
            subst same
            cases unescaped
            exact .backslash
          · split at unescaped
            · rename_i same
              subst same
              cases unescaped
              exact .quote
            · cases unescaped
  · intro escapes
    cases escapes with
    | newline => rfl
    | tab => rfl
    | carriageReturn => rfl
    | backslash => rfl
    | quote => rcases isQuote with rfl | rfl <;> rfl

theorem quoted_of_readQuoted {quote : Char} (isQuote : quote = '"' ∨ quote = '|')
    {seen text inside rest : List Char} (read : readQuoted quote seen text = .ok (inside, rest)) :
    ∃ content, inside = seen.reverse ++ content ∧ Quoted quote text content rest := by
  fun_induction readQuoted quote seen text with
  | case1 => cases read
  | case2 seen text =>
      cases read
      exact ⟨[], (List.append_nil _).symm, .close⟩
  | case3 => cases read
  | case4 seen spelled text plain unescaped notQuote ih =>
      obtain ⟨content, isInside, quoted⟩ := ih read
      refine ⟨plain :: content, ?_, .escape ((unescape?_eq_some isQuote).1 unescaped) quoted⟩
      rw [isInside, List.reverse_cons, List.append_assoc, List.singleton_append]
  | case5 => cases read
  | case6 seen c text notQuote notBackslash ih =>
      obtain ⟨content, isInside, quoted⟩ := ih read
      refine ⟨c :: content, ?_, .plain notQuote notBackslash quoted⟩
      rw [isInside, List.reverse_cons, List.append_assoc, List.singleton_append]

theorem readQuoted_of_quoted {quote : Char} (isQuote : quote = '"' ∨ quote = '|')
    {text content rest : List Char} (quoted : Quoted quote text content rest) (seen : List Char) :
    readQuoted quote seen text = .ok (seen.reverse ++ content, rest) := by
  induction quoted generalizing seen with
  | close =>
      rw [readQuoted.eq_def, List.append_nil]
      exact if_pos rfl
  | @plain c text content rest notQuote notBackslash _ ih =>
      rw [readQuoted.eq_def]
      dsimp only
      rw [if_neg notQuote, if_neg notBackslash, ih, List.reverse_cons, List.append_assoc,
        List.singleton_append]
  | @escape spelled c text content rest escapes _ ih =>
      have notBackslash : quote ≠ '\\' := by rcases isQuote with rfl | rfl <;> decide
      have unescaped := (unescape?_eq_some isQuote).2 escapes
      rw [readQuoted, if_neg (Ne.symm notBackslash), if_pos rfl]
      simp only [unescaped]
      rw [ih, List.reverse_cons, List.append_assoc, List.singleton_append]

/-- The reader reads a quoted text just as the grammar says. -/
theorem readDelimited_iff {quote : Char} (isQuote : quote = '"' ∨ quote = '|')
    (make : String → Datum) {text rest : List Char} {d : Datum} :
    readDelimited quote make text = .ok (d, rest) ↔
      ∃ content, d = make (String.ofList content) ∧ Quoted quote text content rest := by
  unfold readDelimited
  constructor
  · intro read
    split at read
    · rename_i inside after scan
      cases read
      obtain ⟨content, isInside, quoted⟩ := quoted_of_readQuoted isQuote scan
      exact ⟨content, by rw [isInside]; rfl, quoted⟩
    · cases read
  · rintro ⟨content, rfl, quoted⟩
    rw [readQuoted_of_quoted isQuote quoted]
    rfl

/-! ### Atoms -/

theorem startsWithDigit_iff (text : List Char) :
    Symbol.looksNumeric.startsWithDigit text = true ↔
      ∃ digit more, text = digit :: more ∧ digit.isDigit = true := by
  cases text with
  | nil => exact ⟨nofun, nofun⟩
  | cons c text => exact ⟨fun isDigit => ⟨c, text, rfl, isDigit⟩, fun ⟨_, _, same, isDigit⟩ => by
      cases same
      exact isDigit⟩

/-- Behind a sign, the test goes on with what comes behind an optional point. -/
theorem startsWithDigit_signed {rest : List Char}
    (numeric : (match rest with
      | '.' :: rest => Symbol.looksNumeric.startsWithDigit rest
      | _ => Symbol.looksNumeric.startsWithDigit rest) = true) :
    ∃ point digit more, rest = point ++ digit :: more ∧ point ∈ [[], ['.']] ∧
      digit.isDigit = true := by
  split at numeric
  · obtain ⟨digit, more, rfl, isDigit⟩ := (startsWithDigit_iff _).1 numeric
    exact ⟨['.'], digit, more, rfl, by decide, isDigit⟩
  · obtain ⟨digit, more, rfl, isDigit⟩ := (startsWithDigit_iff _).1 numeric
    exact ⟨[], digit, more, rfl, by decide, isDigit⟩

theorem looksNumeric_iff (token : List Char) :
    Symbol.looksNumeric token = true ↔ StartsLikeNumber token := by
  constructor
  · intro numeric
    unfold Symbol.looksNumeric at numeric
    split at numeric
    · cases numeric
    · obtain ⟨digit, more, rfl, isDigit⟩ := (startsWithDigit_iff _).1 numeric
      exact ⟨[], ['.'], digit, more, rfl, by decide, by decide, isDigit⟩
    · obtain ⟨point, digit, more, rfl, isPoint, isDigit⟩ := startsWithDigit_signed numeric
      exact ⟨['+'], point, digit, more, rfl, by decide, isPoint, isDigit⟩
    · obtain ⟨point, digit, more, rfl, isPoint, isDigit⟩ := startsWithDigit_signed numeric
      exact ⟨['-'], point, digit, more, rfl, by decide, isPoint, isDigit⟩
    · exact ⟨[], [], _, _, rfl, by decide, by decide, numeric⟩
  · rintro ⟨sign, point, digit, more, rfl, isSign, isPoint, isDigit⟩
    simp only [List.mem_cons, List.not_mem_nil, or_false] at isSign isPoint
    rcases isSign with rfl | rfl | rfl <;> rcases isPoint with rfl | rfl
    · exact (Number.looksNumeric_of_isDigit isDigit more).1
    · exact isDigit
    · exact (Number.looksNumeric_of_isDigit isDigit more).2
    · exact isDigit
    · exact (Number.looksNumeric_of_isDigit isDigit more).2
    · exact isDigit

/-- The first run of atom characters is maximal. -/
theorem boundary_drop_takeWhile (text : List Char) :
    Boundary (text.drop (text.takeWhile Symbol.isAtomChar).length) := by
  induction text with
  | nil => exact boundary_nil
  | cons c text ih =>
      cases isAtom : Symbol.isAtomChar c with
      | true =>
          rw [List.takeWhile_cons_of_pos isAtom]
          exact ih
      | false =>
          rw [List.takeWhile_cons_of_neg (ne_true_of_eq_false isAtom)]
          exact boundary_cons isAtom text

/-- The reader reads an atom just as the grammar says. -/
theorem readAtom_iff {text rest : List Char} {d : Datum} :
    readAtom text = .ok (d, rest) ↔
      ∃ token, text = token ++ rest ∧ Symbol.IsAtom token ∧ Boundary rest ∧ Denotes token d := by
  constructor
  · intro read
    have isText : text = text.takeWhile Symbol.isAtomChar ++
        text.drop (text.takeWhile Symbol.isAtomChar).length := by
      conv => lhs; rw [← List.take_append_drop (text.takeWhile Symbol.isAtomChar).length text]
      rw [← List.prefix_iff_eq_take.1 (List.takeWhile_prefix _)]
    have maximal := boundary_drop_takeWhile text
    unfold readAtom at read
    dsimp only at read
    split at read
    · cases read
    · rename_i proper
      rw [Bool.or_eq_true, not_or, List.isEmpty_iff, beq_iff_eq] at proper
      have atom : Symbol.IsAtom (text.takeWhile Symbol.isAtomChar) :=
        ⟨proper.1, proper.2, List.all_eq_true.1 List.all_takeWhile⟩
      split at read
      · rename_i numeric
        split at read
        · rename_i x reads
          cases read
          exact ⟨_, isText, atom, maximal, .number ((looksNumeric_iff _).1 numeric) reads⟩
        · cases read
      · rename_i notNumeric
        cases read
        exact ⟨_, isText, atom, maximal, .symbol fun starts =>
          notNumeric ((looksNumeric_iff _).2 starts)⟩
  · rintro ⟨token, rfl, atom, boundary, denotes⟩
    unfold readAtom
    dsimp only
    rw [takeWhile_atom atom boundary, List.drop_left]
    cases denotes with
    | number starts reads => simp [atom.present, atom.notDot, (looksNumeric_iff _).2 starts, reads]
    | symbol starts =>
        have notNumeric : ¬Symbol.looksNumeric token = true :=
          fun numeric => starts ((looksNumeric_iff _).1 numeric)
        simp [atom.present, atom.notDot, notNumeric]

/-! ### Lists -/

theorem ofReversed_eq (tail : Datum) (items : List Datum) :
    Datum.ofReversed tail items = items.reverse.foldr .cons tail := by
  rw [List.foldr_reverse]
  rfl

/-- A datum starts with a character that neither ends a list nor announces its tail. -/
theorem opens_of_spells {depth : Nat} {text rest : List Char} {d : Datum}
    (spells : Spells depth text d rest) : skip text ≠ [] ∧ Opens (skip text) := by
  cases spells with
  | string skipped quoted =>
      rw [skip_of_skips skipped]
      exact ⟨List.cons_ne_nil _ _, rfl, nofun, rfl⟩
  | quotedSymbol skipped quoted =>
      rw [skip_of_skips skipped]
      exact ⟨List.cons_ne_nil _ _, rfl, nofun, rfl⟩
  | atom skipped atom =>
      have opens := opens_atom atom rest
      rw [skip_of_skips skipped, opens.skip_eq]
      exact ⟨List.append_ne_nil_of_left_ne_nil atom.present _, opens⟩
  | list skipped =>
      rw [skip_of_skips skipped]
      exact ⟨List.cons_ne_nil _ _, rfl, nofun, rfl⟩

/-! ### The reader reads what the grammar spells -/

mutual

theorem readDatum_of_spells {depth : Nat} {text rest : List Char} {d : Datum}
    (spells : Spells depth text d rest) {bound other : List Char}
    (fits : other.length ≤ bound.length) (same : skip other = skip text) :
    ∃ less, readDatum bound depth other fits = .ok ⟨(d, rest), less⟩ := by
  match spells with
  | .string skipped quoted =>
      have read := (readDelimited_iff (.inl rfl) .string).2 ⟨_, rfl, quoted⟩
      exact readDatum_delimited (.inl ⟨rfl, rfl⟩) fits (same.trans (skip_of_skips skipped)) read
  | .quotedSymbol skipped quoted =>
      have read := (readDelimited_iff (.inr rfl) .symbol).2 ⟨_, rfl, quoted⟩
      exact readDatum_delimited (.inr ⟨rfl, rfl⟩) fits (same.trans (skip_of_skips skipped)) read
  | .atom skipped atom maximal denotes =>
      have opened := (same.trans (skip_of_skips skipped)).trans (opens_atom atom rest).skip_eq
      exact readDatum_atom fits opened atom (readAtom_iff.2 ⟨_, rfl, atom, maximal, denotes⟩)
  | .list skipped shallow spelled ends =>
      have shallower : depth + 1 < maxDepth := Nat.succ_lt_succ shallow
      obtain ⟨insideFits, list⟩ :=
        readDatum_list fits (same.trans (skip_of_skips skipped)) shallower
      obtain ⟨behindFits, further⟩ := readItems_of_spellsAll spelled [] insideFits
      rw [list, further]
      exact readItems_of_ends ends behindFits (by rw [List.append_nil, List.reverse_reverse])

theorem readItems_of_spellsAll {depth : Nat} {text rest : List Char} {more : List Datum}
    (spelled : SpellsAll depth text more rest) (items : List Datum) {bound : List Char}
    (fits : text.length ≤ bound.length) :
    ∃ restFits, readItems bound depth items text fits =
      readItems bound depth (more.reverse ++ items) rest restFits := by
  match spelled with
  | .nil => exact ⟨fits, rfl⟩
  | .cons first others =>
      obtain ⟨present, opens⟩ := opens_of_spells first
      have read := fun (bound : List Char) (fits : (skip text).length ≤ bound.length) =>
        readDatum_of_spells first fits opens.skip_eq
      obtain ⟨behindFits, item⟩ := readItems_item items fits rfl present opens read
      obtain ⟨restFits, further⟩ := readItems_of_spellsAll others (_ :: items) behindFits
      refine ⟨restFits, ?_⟩
      rw [item, further]
      simp only [List.reverse_cons, List.append_assoc, List.singleton_append]

theorem readItems_of_ends {depth : Nat} {text rest : List Char} {items reversed : List Datum}
    {tail : Datum} (ends : Ends depth items text tail rest) {bound : List Char}
    (fits : text.length ≤ bound.length) (isReversed : reversed.reverse = items) :
    ∃ less, readItems bound depth reversed text fits =
      .ok ⟨(items.foldr .cons tail, rest), less⟩ := by
  rw [← isReversed, ← ofReversed_eq]
  match ends with
  | .proper closed => exact readItems_end fits (skip_of_skips closed)
  | .dotted present announced alone spelled closed =>
      have read := fun (bound : List Char) (fits : _ ≤ bound.length) =>
        readDatum_of_spells spelled fits rfl
      have begun : reversed ≠ [] := fun none => present (by rw [← isReversed, none]; rfl)
      exact readItems_tail fits (skip_of_skips announced) alone begun read (skip_of_skips closed)

end

/-! ### The grammar spells what the reader reads -/

theorem ok_of_ofScan {bound rest : List Char} {d : Datum} {scan : Except Snag (Datum × List Char)}
    {shorter : ∀ datum after, scan = .ok (datum, after) → after.length < bound.length}
    {less : (d, rest).2.length < bound.length}
    (read : ofScan bound scan shorter = .ok ⟨(d, rest), less⟩) : scan = .ok (d, rest) := by
  cases scan with
  | error snag => cases read
  | ok found =>
      cases read
      rfl

mutual

theorem spells_of_readDatum {bound text rest : List Char} {depth : Nat} {d : Datum}
    {fits : text.length ≤ bound.length} {less : (d, rest).2.length < bound.length}
    (read : readDatum bound depth text fits = .ok ⟨(d, rest), less⟩) :
    Spells depth text d rest := by
  rw [readDatum] at read
  split at read
  · cases read
  · rename_i c start opened
    have skipped : Skips text (c :: start) := opened ▸ skips_skip text
    have shorter := length_of_skip opened
    split at read
    · rename_i isList
      subst isList
      split at read
      · cases read
      · rename_i shallow
        obtain ⟨items, behind, tail, spelled, ends, rfl⟩ := spelled_of_readItems read
        exact .list skipped (by simpa [maxDepth] using shallow) spelled ends
    · split at read
      · rename_i isString
        subst isString
        obtain ⟨content, rfl, quoted⟩ :=
          (readDelimited_iff (.inl rfl) .string).1 (ok_of_ofScan read)
        exact .string skipped quoted
      · split at read
        · rename_i isSymbol
          subst isSymbol
          obtain ⟨content, rfl, quoted⟩ :=
            (readDelimited_iff (.inr rfl) .symbol).1 (ok_of_ofScan read)
          exact .quotedSymbol skipped quoted
        · obtain ⟨token, isText, atom, maximal, denotes⟩ := readAtom_iff.1 (ok_of_ofScan read)
          exact .atom (isText ▸ skipped) atom maximal denotes
termination_by 2 * text.length

/-- What is read behind some items is more items and the end of the list. -/
theorem spelled_of_readItems {bound text rest : List Char} {depth : Nat} {items : List Datum}
    {d : Datum} {fits : text.length ≤ bound.length} {less : (d, rest).2.length < bound.length}
    (read : readItems bound depth items text fits = .ok ⟨(d, rest), less⟩) :
    ∃ more behind tail, SpellsAll depth text more behind ∧
      Ends depth (items.reverse ++ more) behind tail rest ∧
      d = (items.reverse ++ more).foldr .cons tail := by
  rw [readItems] at read
  split at read
  · cases read
  · rename_i c start opened
    have skipped : Skips text (c :: start) := opened ▸ skips_skip text
    have shorter := length_of_skip opened
    split at read
    · rename_i isEnd
      subst isEnd
      cases read
      refine ⟨[], text, .nil, .nil, .proper skipped, ?_⟩
      rw [ofReversed_eq, List.append_nil]
    · split at read
      · rename_i isDot
        obtain ⟨rfl, alone⟩ := atDot_iff.1 isDot
        split at read
        · cases read
        · rename_i begun
          split at read
          · cases read
          · rename_i tail after tailLess tailRead
            have spelled := spells_of_readDatum tailRead
            split at read
            · cases read
            · rename_i closing final closed
              split at read
              · rename_i isEnd
                subst isEnd
                cases read
                have present : items.reverse ++ [] ≠ [] := by
                  rw [List.append_nil, ne_eq, List.reverse_eq_nil_iff, ← List.isEmpty_iff]
                  exact begun
                refine ⟨[], text, tail, .nil, ?_, ?_⟩
                · exact .dotted present skipped alone spelled (closed ▸ skips_skip after)
                · rw [ofReversed_eq, List.append_nil]
              · cases read
      · split at read
        · cases read
        · rename_i item after itemLess itemRead
          have startShorter : (c :: start).length ≤ text.length := shorter
          have afterShorter : after.length < (c :: start).length := itemLess
          have first := (spells_of_readDatum itemRead).behind skipped
          obtain ⟨more, behind, tail, others, ends, isList⟩ := spelled_of_readItems read
          rw [List.reverse_cons, List.append_assoc, List.singleton_append] at ends isList
          exact ⟨item :: more, behind, tail, .cons first others, ends, isList⟩
termination_by 2 * text.length + 1

end

theorem read_eq_ok {text : List Char} {d : Datum} :
    read text = .ok d ↔ ∃ rest less,
      readDatum text 0 text (Nat.le_refl _) = .ok ⟨(d, rest), less⟩ ∧ skip rest = [] := by
  unfold read
  constructor
  · intro accepted
    split at accepted
    · cases accepted
    · rename_i found rest less isRead
      split at accepted
      · rename_i finished
        cases accepted
        exact ⟨rest, less, isRead, finished⟩
      · cases accepted
  · rintro ⟨rest, less, isRead, finished⟩
    simp only [isRead, finished]

end ActorMachine.Reader

namespace ActorMachine

open Grammar Reader

/-- The reader accepts a text if it is one datum of the grammar with spaces and comments behind it,
and gives that datum. -/
theorem Datum.read_iff (text : String) (d : Datum) :
    Datum.read text = .ok d ↔ ∃ rest, Spells 0 text.toList d rest ∧ Skips rest [] := by
  constructor
  · intro accepted
    obtain ⟨rest, less, isRead, finished⟩ := read_eq_ok.1 accepted
    exact ⟨rest, spells_of_readDatum isRead, finished ▸ skips_skip rest⟩
  · rintro ⟨rest, spells, skips⟩
    obtain ⟨less, isRead⟩ := readDatum_of_spells spells (Nat.le_refl _) rfl
    exact read_eq_ok.2 ⟨rest, less, isRead, skip_of_skips skips⟩

end ActorMachine
