import ActorMachine.Proofs.Datum.Grammar

set_option autoImplicit false

/-!
Texts that end too early.

The grammar of unfinished text says where a text may end inside a datum: before it, in a quoted
text, or in a list that is not closed. The reader reports an unexpected end for these texts and for
no others (`incomplete_iff`), and each of them goes on to a text of the grammar
(`BreaksOff.completes`).
-/

namespace ActorMachine.Reader

theorem Boundary.append {rest suffix : List Char} (ends : Boundary rest)
    (boundary : Boundary suffix) : Boundary (rest ++ suffix) := by
  cases rest with
  | nil => exact boundary
  | cons c rest => exact ends

end ActorMachine.Reader

namespace ActorMachine.Grammar

open Reader (Boundary boundary_cons)

/-! ### Unfinished text -/

/-- A quoted text ends before the closing `quote`. -/
inductive Unclosed (quote : Char) : List Char → Prop where
  | ends : Unclosed quote []
  | plain {c text} (notQuote : c ≠ quote) (notBackslash : c ≠ '\\')
      (further : Unclosed quote text) : Unclosed quote (c :: text)
  | escape {spelled c text} (escapes : Escapes quote spelled c) (further : Unclosed quote text) :
      Unclosed quote ('\\' :: spelled :: text)

mutual

/-- A text ends before a datum that is enclosed in `depth` lists, or inside it. -/
inductive BreaksOff : Nat → List Char → Prop where
  | nothing {depth text} (skipped : Skips text []) : BreaksOff depth text
  | quoted {depth text quote start} (isQuote : quote = '"' ∨ quote = '|')
      (skipped : Skips text (quote :: start)) (unclosed : Unclosed quote start) :
      BreaksOff depth text
  | list {depth text inside items behind} (skipped : Skips text ('(' :: inside))
      (shallow : depth < 255) (spelled : SpellsAll (depth + 1) inside items behind)
      (unended : EndMissing (depth + 1) items behind) : BreaksOff depth text

/-- A text ends behind some items of a list and before the end of that list: inside the next item,
inside the tail or behind it. -/
inductive EndMissing : Nat → List Datum → List Char → Prop where
  | item {depth items text} (unfinished : BreaksOff depth text) : EndMissing depth items text
  | tail {depth items text after} (present : items ≠ []) (announced : Skips text ('.' :: after))
      (alone : Boundary after) (unfinished : BreaksOff depth after) : EndMissing depth items text
  | closing {depth items text after tail closing} (present : items ≠ [])
      (announced : Skips text ('.' :: after)) (alone : Boundary after)
      (spelled : Spells depth after tail closing) (ended : Skips closing []) :
      EndMissing depth items text

end

/-- Spaces and comments may stand before unfinished text. -/
theorem BreaksOff.behind {text start : List Char} {depth : Nat} (unfinished : BreaksOff depth start)
    (skips : Skips text start) : BreaksOff depth text := by
  cases unfinished with
  | nothing skipped => exact .nothing (skips.trans skipped)
  | quoted isQuote skipped unclosed => exact .quoted isQuote (skips.trans skipped) unclosed
  | list skipped shallow spelled unended =>
      exact .list (skips.trans skipped) shallow spelled unended

/-! ### Text behind a text -/

theorem Skips.append {text rest : List Char} (skips : Skips text rest) (present : rest ≠ [])
    (suffix : List Char) : Skips (text ++ suffix) (rest ++ suffix) := by
  induction skips with
  | nothing => exact .nothing
  | space isSpace _ ih => exact .space isSpace (ih present)
  | @comment line text rest inLine ends further ih =>
      -- The comment does not end the text, so what comes behind is not part of it.
      have goesOn : text ≠ [] := by
        rintro rfl
        cases further
        exact present rfl
      obtain ⟨c, text, rfl⟩ := List.exists_cons_of_ne_nil goesOn
      rw [List.cons_append, List.append_assoc]
      exact .comment inLine ends (ih present)

/-- A newline ends the comment that the text may end in. -/
theorem Skips.newline {text : List Char} (skips : Skips text []) (suffix : List Char) :
    Skips (text ++ '\n' :: suffix) suffix := by
  generalize ended : ([] : List Char) = rest at skips
  induction skips with
  | nothing =>
      subst ended
      exact .space (by decide) .nothing
  | space isSpace _ ih => exact .space isSpace (ih ended)
  | @comment line text rest inLine ends _ ih =>
      rw [List.cons_append, List.append_assoc]
      refine .comment inLine ?_ (ih ended)
      cases text with
      | nil =>
          rintro _ ⟨⟩
          rfl
      | cons c text => exact ends

theorem Quoted.append {quote : Char} {text content rest : List Char}
    (quoted : Quoted quote text content rest) (suffix : List Char) :
    Quoted quote (text ++ suffix) content (rest ++ suffix) := by
  induction quoted with
  | close => exact .close
  | plain notQuote notBackslash _ ih => exact .plain notQuote notBackslash ih
  | escape escapes _ ih => exact .escape escapes ih

mutual

/-- A datum is spelled also when the text goes on, unless that continues an atom. -/
theorem Spells.append {depth : Nat} {text rest suffix : List Char} {d : Datum}
    (spells : Spells depth text d rest) (boundary : Boundary suffix) :
    Spells depth (text ++ suffix) d (rest ++ suffix) := by
  match spells with
  | .string skipped quoted =>
      exact .string (skipped.append (List.cons_ne_nil _ _) suffix) (quoted.append suffix)
  | .quotedSymbol skipped quoted =>
      exact .quotedSymbol (skipped.append (List.cons_ne_nil _ _) suffix) (quoted.append suffix)
  | .atom skipped atom maximal denotes =>
      have present := List.append_ne_nil_of_left_ne_nil atom.present rest
      have further := skipped.append present suffix
      rw [List.append_assoc] at further
      exact .atom further atom (maximal.append boundary) denotes
  | .list skipped shallow spelled ends =>
      exact .list (skipped.append (List.cons_ne_nil _ _) suffix) shallow (spelled.append boundary)
        (ends.append boundary)

theorem SpellsAll.append {depth : Nat} {text rest suffix : List Char} {items : List Datum}
    (spelled : SpellsAll depth text items rest) (boundary : Boundary suffix) :
    SpellsAll depth (text ++ suffix) items (rest ++ suffix) := by
  match spelled with
  | .nil => exact .nil
  | .cons first others => exact .cons (first.append boundary) (others.append boundary)

theorem Ends.append {depth : Nat} {text rest suffix : List Char} {items : List Datum}
    {tail : Datum} (ends : Ends depth items text tail rest) (boundary : Boundary suffix) :
    Ends depth items (text ++ suffix) tail (rest ++ suffix) := by
  match ends with
  | .proper closed => exact .proper (closed.append (List.cons_ne_nil _ _) suffix)
  | .dotted present announced alone spelled closed =>
      exact .dotted present (announced.append (List.cons_ne_nil _ _) suffix)
        (alone.append boundary) (spelled.append boundary)
        (closed.append (List.cons_ne_nil _ _) suffix)

end

theorem SpellsAll.trans {depth : Nat} {text middle rest : List Char} {items more : List Datum}
    (first : SpellsAll depth text items middle) (second : SpellsAll depth middle more rest) :
    SpellsAll depth text (items ++ more) rest := by
  match first with
  | .nil => exact second
  | .cons item others => exact .cons item (others.trans second)

/-! ### Unfinished text goes on -/

theorem Unclosed.closes {quote : Char} {text : List Char} (unclosed : Unclosed quote text) :
    ∃ content, ∀ rest, Quoted quote (text ++ quote :: rest) content rest := by
  induction unclosed with
  | ends => exact ⟨[], fun _ => .close⟩
  | plain notQuote notBackslash _ ih =>
      obtain ⟨content, closed⟩ := ih
      exact ⟨_ :: content, fun rest => .plain notQuote notBackslash (closed rest)⟩
  | escape escapes _ ih =>
      obtain ⟨content, closed⟩ := ih
      exact ⟨_ :: content, fun rest => .escape escapes (closed rest)⟩

mutual

/-- What is missing of a datum can be added. It never continues an atom: it starts with a newline,
or with the quote that closes a quoted text. -/
theorem BreaksOff.completes {depth : Nat} {text : List Char} (unfinished : BreaksOff depth text) :
    ∃ missing d, ∀ rest, Boundary (missing ++ rest) ∧
      Spells depth (text ++ (missing ++ rest)) d rest := by
  match unfinished with
  | .nothing skipped =>
      refine ⟨['\n', '"', '"'], .string (String.ofList []), fun rest => ?_⟩
      exact ⟨boundary_cons rfl _, .string (skipped.newline ('"' :: '"' :: rest)) .close⟩
  | @BreaksOff.quoted _ _ quote _ isQuote skipped unclosed =>
      obtain ⟨content, closes⟩ := unclosed.closes
      have opened := fun rest => skipped.append (List.cons_ne_nil _ _) (quote :: rest)
      rcases isQuote with rfl | rfl
      · exact ⟨['"'], _, fun rest => ⟨boundary_cons rfl rest, .string (opened rest) (closes rest)⟩⟩
      · exact ⟨['|'], _, fun rest =>
          ⟨boundary_cons rfl rest, .quotedSymbol (opened rest) (closes rest)⟩⟩
  | @BreaksOff.list _ _ _ items _ skipped shallow spelled unended =>
      obtain ⟨missing, more, tail, completed⟩ := unended.completes
      refine ⟨missing, (items ++ more).foldr .cons tail, fun rest => ?_⟩
      obtain ⟨boundary, behind, others, ends⟩ := completed rest
      have opened := skipped.append (List.cons_ne_nil _ _) (missing ++ rest)
      exact ⟨boundary, .list opened shallow ((spelled.append boundary).trans others) ends⟩

/-- What is missing of a list can be added. -/
theorem EndMissing.completes {depth : Nat} {items : List Datum} {text : List Char}
    (unended : EndMissing depth items text) :
    ∃ missing more tail, ∀ rest, Boundary (missing ++ rest) ∧ ∃ behind,
      SpellsAll depth (text ++ (missing ++ rest)) more behind ∧
        Ends depth (items ++ more) behind tail rest := by
  match unended with
  | .item unfinished =>
      obtain ⟨missing, item, completed⟩ := unfinished.completes
      refine ⟨missing ++ [')'], [item], .nil, fun rest => ?_⟩
      obtain ⟨boundary, spells⟩ := completed (')' :: rest)
      rw [List.append_assoc, List.singleton_append]
      exact ⟨boundary, ')' :: rest, .cons spells .nil, .proper .nothing⟩
  | .tail present announced alone unfinished =>
      obtain ⟨missing, tail, completed⟩ := unfinished.completes
      refine ⟨missing ++ [')'], [], tail, fun rest => ?_⟩
      obtain ⟨boundary, spells⟩ := completed (')' :: rest)
      have announced := announced.append (List.cons_ne_nil _ _) (missing ++ ')' :: rest)
      rw [List.append_assoc, List.singleton_append, List.append_nil]
      exact ⟨boundary, _, .nil, .dotted present announced (alone.append boundary) spells .nothing⟩
  | @EndMissing.closing _ _ _ _ tail _ present announced alone spelled ended =>
      refine ⟨['\n', ')'], [], tail, fun rest => ?_⟩
      have boundary : Boundary ('\n' :: ')' :: rest) := boundary_cons rfl _
      have announced := announced.append (List.cons_ne_nil _ _) ('\n' :: ')' :: rest)
      rw [List.append_nil]
      exact ⟨boundary, _, .nil, .dotted present announced (alone.append boundary)
        (spelled.append boundary) (ended.newline (')' :: rest))⟩

end

end ActorMachine.Grammar

namespace ActorMachine.Reader

open Grammar

/-! ### The reader reports an unexpected end of unfinished text only -/

/-- The reader has come to the end of the text, and wants more. -/
def Snag.IsEnd (snag : Snag) : Prop := snag.rest = [] ∧ ∀ rest, snag ≠ ⟨.tooDeep, rest⟩

theorem unclosed_of_readQuoted {quote : Char} (isQuote : quote = '"' ∨ quote = '|')
    {seen text : List Char} {snag : Snag} (read : readQuoted quote seen text = .error snag)
    (isEnd : snag.IsEnd) : Unclosed quote text := by
  fun_induction readQuoted quote seen text with
  | case1 => exact .ends
  | case2 => cases read
  | case3 =>
      cases read
      cases isEnd.1
  | case4 seen spelled text plain unescaped notQuote ih =>
      exact .escape ((unescape?_eq_some isQuote).1 unescaped) (ih read)
  | case5 =>
      cases read
      cases isEnd.1
  | case6 seen c text notQuote notBackslash ih => exact .plain notQuote notBackslash (ih read)

theorem unclosed_of_readDelimited {quote : Char} (isQuote : quote = '"' ∨ quote = '|')
    {make : String → Datum} {text : List Char} {snag : Snag}
    (read : readDelimited quote make text = .error snag) (isEnd : snag.IsEnd) :
    Unclosed quote text := by
  unfold readDelimited at read
  split at read
  · cases read
  · rename_i scan
    cases read
    exact unclosed_of_readQuoted isQuote scan isEnd

/-- An atom that cannot be read is reported where it starts. -/
theorem rest_of_readAtom {text : List Char} {snag : Snag} (read : readAtom text = .error snag) :
    snag.rest = text := by
  unfold readAtom at read
  dsimp only at read
  split at read
  · cases read
    rfl
  · split at read
    · split at read
      · cases read
      · cases read
        rfl
    · cases read

theorem error_of_ofScan {bound : List Char} {scan : Except Snag (Datum × List Char)}
    {shorter : ∀ datum after, scan = .ok (datum, after) → after.length < bound.length}
    {snag : Snag} (read : ofScan bound scan shorter = .error snag) : scan = .error snag := by
  cases scan with
  | error other =>
      cases read
      rfl
  | ok found => cases read

mutual

theorem breaksOff_of_readDatum {bound text : List Char} {depth : Nat} {snag : Snag}
    {fits : text.length ≤ bound.length} (read : readDatum bound depth text fits = .error snag)
    (isEnd : snag.IsEnd) : BreaksOff depth text := by
  rw [readDatum] at read
  split at read
  · rename_i ended
    exact .nothing (ended ▸ skips_skip text)
  · rename_i c start opened
    have skipped : Skips text (c :: start) := opened ▸ skips_skip text
    have shorter := length_of_skip opened
    split at read
    · rename_i isList
      subst isList
      split at read
      · cases read
        exact absurd rfl (isEnd.2 start)
      · rename_i shallow
        obtain ⟨items, behind, spelled, unended⟩ := endMissing_of_readItems read isEnd
        exact .list skipped (by simpa [maxDepth] using shallow) spelled unended
    · split at read
      · rename_i isString
        subst isString
        exact .quoted (.inl rfl) skipped
          (unclosed_of_readDelimited (.inl rfl) (error_of_ofScan read) isEnd)
      · split at read
        · rename_i isSymbol
          subst isSymbol
          exact .quoted (.inr rfl) skipped
            (unclosed_of_readDelimited (.inr rfl) (error_of_ofScan read) isEnd)
        · have atStart := rest_of_readAtom (error_of_ofScan read)
          rw [isEnd.1] at atStart
          cases atStart
termination_by 2 * text.length

theorem endMissing_of_readItems {bound text : List Char} {depth : Nat} {items : List Datum}
    {snag : Snag} {fits : text.length ≤ bound.length}
    (read : readItems bound depth items text fits = .error snag) (isEnd : snag.IsEnd) :
    ∃ more behind, SpellsAll depth text more behind ∧
      EndMissing depth (items.reverse ++ more) behind := by
  rw [readItems] at read
  split at read
  · rename_i ended
    exact ⟨[], text, .nil, .item (.nothing (ended ▸ skips_skip text))⟩
  · rename_i c start opened
    have skipped : Skips text (c :: start) := opened ▸ skips_skip text
    have shorter := length_of_skip opened
    split at read
    · cases read
    · split at read
      · rename_i isDot
        obtain ⟨rfl, alone⟩ := atDot_iff.1 isDot
        split at read
        · cases read
          cases isEnd.1
        · rename_i begun
          have present : items.reverse ++ [] ≠ [] := by
            rw [List.append_nil, ne_eq, List.reverse_eq_nil_iff, ← List.isEmpty_iff]
            exact begun
          split at read
          · rename_i tailRead
            cases read
            have unfinished := breaksOff_of_readDatum tailRead isEnd
            exact ⟨[], text, .nil, .tail present skipped alone unfinished⟩
          · rename_i tail after tailLess tailRead
            have spelled := spells_of_readDatum tailRead
            split at read
            · rename_i ended
              exact ⟨[], text, .nil,
                .closing present skipped alone spelled (ended ▸ skips_skip after)⟩
            · split at read
              · cases read
              · cases read
                cases isEnd.1
      · split at read
        · rename_i itemRead
          cases read
          have startShorter : (c :: start).length ≤ text.length := shorter
          have unfinished := breaksOff_of_readDatum itemRead isEnd
          exact ⟨[], text, .nil, .item (unfinished.behind skipped)⟩
        · rename_i item after itemLess itemRead
          have startShorter : (c :: start).length ≤ text.length := shorter
          have afterShorter : after.length < (c :: start).length := itemLess
          have first := (spells_of_readDatum itemRead).behind skipped
          obtain ⟨more, behind, others, unended⟩ := endMissing_of_readItems read isEnd
          rw [List.reverse_cons, List.append_assoc, List.singleton_append] at unended
          exact ⟨item :: more, behind, .cons first others, unended⟩
termination_by 2 * text.length + 1

end

/-! ### The reader reports an unexpected end of every unfinished text -/

theorem readDelimited_of_unclosed {quote : Char} (isQuote : quote = '"' ∨ quote = '|')
    (make : String → Datum) {text : List Char} (unclosed : Unclosed quote text) :
    readDelimited quote make text = .error ⟨.unexpected, []⟩ := by
  have notBackslash : '\\' ≠ quote := by rcases isQuote with rfl | rfl <;> decide
  have scanned : ∀ seen, readQuoted quote seen text = .error ⟨.unexpected, []⟩ := by
    induction unclosed with
    | ends => exact fun _ => rfl
    | @plain c text notQuote isPlain _ ih =>
        intro seen
        rw [readQuoted.eq_def]
        dsimp only
        rw [if_neg notQuote, if_neg isPlain, ih]
    | @escape spelled c text escapes _ ih =>
        intro seen
        rw [readQuoted, if_neg notBackslash, if_pos rfl]
        simp only [(unescape?_eq_some isQuote).2 escapes]
        exact ih _
  unfold readDelimited
  rw [scanned]

theorem ofScan_error {bound : List Char} {scan : Except Snag (Datum × List Char)}
    {shorter : ∀ datum after, scan = .ok (datum, after) → after.length < bound.length}
    {snag : Snag} (isError : scan = .error snag) : ofScan bound scan shorter = .error snag := by
  subst isError
  rfl

/-- Unfinished text is at its end, or a datum starts in it. -/
theorem opens_of_breaksOff {depth : Nat} {text : List Char} (unfinished : BreaksOff depth text) :
    skip text = [] ∨ skip text ≠ [] ∧ Opens (skip text) := by
  cases unfinished with
  | nothing skipped => exact .inl (skip_of_skips skipped)
  | quoted isQuote skipped =>
      rw [skip_of_skips skipped]
      rcases isQuote with rfl | rfl
      · exact .inr ⟨List.cons_ne_nil _ _, rfl, nofun, rfl⟩
      · exact .inr ⟨List.cons_ne_nil _ _, rfl, nofun, rfl⟩
  | list skipped =>
      rw [skip_of_skips skipped]
      exact .inr ⟨List.cons_ne_nil _ _, rfl, nofun, rfl⟩

section Steps

variable {bound text : List Char} {depth : Nat} {items : List Datum} {snag : Snag}

theorem readDatum_ended (fits : text.length ≤ bound.length) (ended : skip text = []) :
    readDatum bound depth text fits = .error ⟨.unexpected, []⟩ := by
  rw [readDatum]
  split
  · rfl
  · rename_i shape
    rw [ended] at shape
    cases shape

theorem readDatum_unclosed {quote : Char} {start : List Char} (isQuote : quote = '"' ∨ quote = '|')
    (fits : text.length ≤ bound.length) (opened : skip text = quote :: start)
    (unclosed : Unclosed quote start) :
    readDatum bound depth text fits = .error ⟨.unexpected, []⟩ := by
  rw [readDatum]
  split
  · rfl
  · rename_i shape
    rw [opened] at shape
    cases shape
    rcases isQuote with rfl | rfl
    · exact ofScan_error (readDelimited_of_unclosed (.inl rfl) .string unclosed)
    · exact ofScan_error (readDelimited_of_unclosed (.inr rfl) .symbol unclosed)

theorem readItems_ended (fits : text.length ≤ bound.length) (ended : skip text = []) :
    readItems bound depth items text fits = .error ⟨.unexpected, []⟩ := by
  rw [readItems]
  split
  · rfl
  · rename_i shape
    rw [ended] at shape
    cases shape

/-- A list cannot be read if its next item cannot. -/
theorem readItems_itemFails (fits : text.length ≤ bound.length) {start : List Char}
    (started : skip text = start) (present : start ≠ []) (opens : Opens start)
    (fails : readDatum start depth start (Nat.le_refl _) = .error snag) :
    readItems bound depth items text fits = .error snag := by
  obtain ⟨c, start, rfl⟩ := List.exists_cons_of_ne_nil present
  have notEnd : c ≠ ')' := fun same => opens.notEnd (by rw [same]; rfl)
  rw [readItems]
  split
  · rename_i empty
    rw [started] at empty
    cases empty
  · rename_i shape
    rw [started] at shape
    cases shape
    simp only [if_neg notEnd, opens.notDot, Bool.false_eq_true, if_false, fails]

/-- A list cannot be read if its tail cannot, or if nothing comes behind the tail. -/
theorem readItems_tailFails (fits : text.length ≤ bound.length) {tail : List Char}
    (announced : skip text = '.' :: tail) (alone : Boundary tail) (begun : items ≠ [])
    (fails : readDatum tail depth tail (Nat.le_refl _) = .error ⟨.unexpected, []⟩ ∨
      ∃ d after less, readDatum tail depth tail (Nat.le_refl _) = .ok ⟨(d, after), less⟩ ∧
        skip after = []) :
    readItems bound depth items text fits = .error ⟨.unexpected, []⟩ := by
  have notFirst : items.isEmpty = false := by
    cases items with
    | nil => exact absurd rfl begun
    | cons item items => rfl
  have atPoint : atDot ('.' :: tail) = true := atDot_iff.2 ⟨rfl, alone⟩
  rw [readItems]
  split
  · rfl
  · rename_i shape
    rw [announced] at shape
    cases shape
    rcases fails with failed | ⟨d, after, less, isRead, ended⟩
    · simp only [atPoint, notFirst, failed]
      rw [if_neg (by decide), if_pos trivial, if_neg Bool.false_ne_true]
    · simp only [atPoint, notFirst, isRead]
      rw [if_neg (by decide), if_pos trivial, if_neg Bool.false_ne_true]
      split
      · rfl
      · rename_i shape
        rw [ended] at shape
        cases shape

end Steps

mutual

theorem readDatum_of_breaksOff {depth : Nat} {text : List Char} (unfinished : BreaksOff depth text)
    {bound other : List Char} (fits : other.length ≤ bound.length) (same : skip other = skip text) :
    readDatum bound depth other fits = .error ⟨.unexpected, []⟩ := by
  match unfinished with
  | .nothing skipped => exact readDatum_ended fits (same.trans (skip_of_skips skipped))
  | .quoted isQuote skipped unclosed =>
      have opened := same.trans (skip_of_skips skipped)
      rcases isQuote with rfl | rfl
      · exact readDatum_unclosed (.inl rfl) fits opened unclosed
      · exact readDatum_unclosed (.inr rfl) fits opened unclosed
  | .list skipped shallow spelled unended =>
      have shallower : depth + 1 < maxDepth := Nat.succ_lt_succ shallow
      obtain ⟨insideFits, list⟩ :=
        readDatum_list fits (same.trans (skip_of_skips skipped)) shallower
      obtain ⟨behindFits, further⟩ := readItems_of_spellsAll spelled [] insideFits
      rw [list, further]
      exact readItems_of_endMissing unended behindFits
        (by rw [List.append_nil, List.reverse_reverse])

theorem readItems_of_endMissing {depth : Nat} {text : List Char} {items reversed : List Datum}
    (unended : EndMissing depth items text) {bound : List Char}
    (fits : text.length ≤ bound.length) (isReversed : reversed.reverse = items) :
    readItems bound depth reversed text fits = .error ⟨.unexpected, []⟩ := by
  have begun : items ≠ [] → reversed ≠ [] := by
    rintro present rfl
    exact present isReversed.symm
  match unended with
  | .item unfinished =>
      rcases opens_of_breaksOff unfinished with ended | ⟨present, opens⟩
      · exact readItems_ended fits ended
      · exact readItems_itemFails fits rfl present opens
          (readDatum_of_breaksOff unfinished (Nat.le_refl _) opens.skip_eq)
  | .tail present announced alone unfinished =>
      exact readItems_tailFails fits (skip_of_skips announced) alone (begun present)
        (.inl (readDatum_of_breaksOff unfinished (Nat.le_refl _) rfl))
  | .closing present announced alone spelled ended =>
      obtain ⟨less, isRead⟩ := readDatum_of_spells spelled (Nat.le_refl _) rfl
      exact readItems_tailFails fits (skip_of_skips announced) alone (begun present)
        (.inr ⟨_, _, less, isRead, skip_of_skips ended⟩)

end

/-- The report of a snag says that the text is incomplete if the reader wants more. -/
theorem kind_report_iff (text : List Char) (snag : Snag) :
    (snag.report text).kind = .incomplete ↔ snag.IsEnd := by
  obtain ⟨obstacle, rest⟩ := snag
  unfold Snag.report Snag.IsEnd
  cases obstacle with
  | tooDeep => exact iff_of_false nofun fun isEnd => isEnd.2 rest rfl
  | badNumber =>
      cases rest with
      | nil => exact iff_of_true rfl ⟨rfl, nofun⟩
      | cons c rest => exact iff_of_false nofun nofun
  | unexpected =>
      cases rest with
      | nil => exact iff_of_true rfl ⟨rfl, nofun⟩
      | cons c rest => exact iff_of_false nofun nofun

/-- A text is reported as incomplete if it is unfinished. -/
theorem incomplete_iff (text : List Char) :
    (∃ e, read text = .error e ∧ e.kind = .incomplete) ↔ BreaksOff 0 text := by
  constructor
  · rintro ⟨e, failed, isIncomplete⟩
    unfold read at failed
    split at failed
    · rename_i snag snagged
      cases failed
      exact breaksOff_of_readDatum snagged ((kind_report_iff text snag).1 isIncomplete)
    · split at failed
      · cases failed
      · cases failed
        cases isIncomplete
  · intro unfinished
    have snagged := readDatum_of_breaksOff unfinished (Nat.le_refl _) rfl
    refine ⟨Snag.report text ⟨.unexpected, []⟩, ?_, rfl⟩
    unfold read
    simp only [snagged]

end ActorMachine.Reader
