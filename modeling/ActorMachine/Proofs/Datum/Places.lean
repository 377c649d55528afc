import ActorMachine.Proofs.Datum.Unfinished
import ActorMachine.Proofs.Text.Excerpts
import Mathlib

set_option autoImplicit false

/-!
Where the reader reports an error.

Whatever the reader has left of a text is an end of it, so the place that it reports lies between
two characters. Main statement: `Datum.read_excerpts`, which says what the excerpt beside a report
shows of that place.
-/

namespace ActorMachine.Grammar

/-! ### What follows a form is an end of the text -/

theorem Skips.isSuffix {text rest : List Char} (skips : Skips text rest) : rest <:+ text := by
  induction skips with
  | nothing => exact List.suffix_refl _
  | space _ _ ih => exact ih.trans (List.suffix_cons _ _)
  | comment _ _ _ ih =>
      exact ih.trans ((List.suffix_append _ _).trans (List.suffix_cons _ _))

theorem Quoted.isSuffix {quote : Char} {text content rest : List Char}
    (quoted : Quoted quote text content rest) : rest <:+ text := by
  induction quoted with
  | close => exact List.suffix_cons _ _
  | plain _ _ _ ih => exact ih.trans (List.suffix_cons _ _)
  | escape _ _ ih => exact ih.trans ((List.suffix_cons _ _).trans (List.suffix_cons _ _))

mutual

theorem Spells.isSuffix {depth : Nat} {text rest : List Char} {d : Datum}
    (spells : Spells depth text d rest) : rest <:+ text := by
  match spells with
  | .string skipped quoted =>
      exact (quoted.isSuffix.trans (List.suffix_cons _ _)).trans skipped.isSuffix
  | .quotedSymbol skipped quoted =>
      exact (quoted.isSuffix.trans (List.suffix_cons _ _)).trans skipped.isSuffix
  | .atom skipped _ _ _ => exact (List.suffix_append _ _).trans skipped.isSuffix
  | .list skipped _ spelled ends =>
      exact ((ends.isSuffix.trans spelled.isSuffix).trans (List.suffix_cons _ _)).trans
        skipped.isSuffix

theorem SpellsAll.isSuffix {depth : Nat} {text rest : List Char} {items : List Datum}
    (spelled : SpellsAll depth text items rest) : rest <:+ text := by
  match spelled with
  | .nil => exact List.suffix_refl _
  | .cons first others => exact others.isSuffix.trans first.isSuffix

theorem Ends.isSuffix {depth : Nat} {items : List Datum} {text rest : List Char} {tail : Datum}
    (ends : Ends depth items text tail rest) : rest <:+ text := by
  match ends with
  | .proper closed => exact (List.suffix_cons _ _).trans closed.isSuffix
  | .dotted _ announced _ spelled closed =>
      exact ((((List.suffix_cons _ _).trans closed.isSuffix).trans spelled.isSuffix).trans
        (List.suffix_cons _ _)).trans announced.isSuffix

end

end ActorMachine.Grammar

namespace ActorMachine.Reader

open Grammar

/-! ### What is left at a snag is an end of the text -/

theorem isSuffix_of_skip {c : Char} {text start : List Char} (opened : skip text = c :: start) :
    c :: start <:+ text :=
  opened ▸ (skips_skip text).isSuffix

theorem isSuffix_of_readQuoted {quote : Char} {seen text : List Char} {snag : Snag}
    (read : readQuoted quote seen text = .error snag) : snag.rest <:+ text := by
  fun_induction readQuoted quote seen text with
  | case1 =>
      cases read
      exact List.suffix_refl _
  | case2 => cases read
  | case3 =>
      cases read
      exact List.suffix_refl _
  | case4 seen spelled text plain unescaped notQuote ih =>
      exact (ih read).trans ((List.suffix_cons _ _).trans (List.suffix_cons _ _))
  | case5 =>
      cases read
      exact List.suffix_refl _
  | case6 seen c text notQuote notBackslash ih => exact (ih read).trans (List.suffix_cons _ _)

theorem isSuffix_of_readDelimited {quote : Char} {make : String → Datum} {text : List Char}
    {snag : Snag} (read : readDelimited quote make text = .error snag) : snag.rest <:+ text := by
  unfold readDelimited at read
  split at read
  · cases read
  · rename_i scan
    cases read
    exact isSuffix_of_readQuoted scan

mutual

theorem isSuffix_of_readDatum {bound text : List Char} {depth : Nat} {snag : Snag}
    {fits : text.length ≤ bound.length} (read : readDatum bound depth text fits = .error snag) :
    snag.rest <:+ text := by
  rw [readDatum] at read
  split at read
  · cases read
    exact List.nil_suffix
  · rename_i c start opened
    have shorter := length_of_skip opened
    have behind : start <:+ text := (List.suffix_cons _ _).trans (isSuffix_of_skip opened)
    split at read
    · split at read
      · cases read
        exact behind
      · exact (isSuffix_of_readItems read).trans behind
    · split at read
      · exact (isSuffix_of_readDelimited (error_of_ofScan read)).trans behind
      · split at read
        · exact (isSuffix_of_readDelimited (error_of_ofScan read)).trans behind
        · rw [rest_of_readAtom (error_of_ofScan read)]
          exact isSuffix_of_skip opened
termination_by 2 * text.length

theorem isSuffix_of_readItems {bound text : List Char} {depth : Nat} {items : List Datum}
    {snag : Snag} {fits : text.length ≤ bound.length}
    (read : readItems bound depth items text fits = .error snag) : snag.rest <:+ text := by
  rw [readItems] at read
  split at read
  · cases read
    exact List.nil_suffix
  · rename_i c start opened
    have shorter := length_of_skip opened
    have started := isSuffix_of_skip opened
    have behind : start <:+ text := (List.suffix_cons _ _).trans started
    split at read
    · cases read
    · split at read
      · split at read
        · cases read
          exact started
        · split at read
          · rename_i tailRead
            cases read
            exact (isSuffix_of_readDatum tailRead).trans behind
          · rename_i tail after tailLess tailRead
            have afterTail := (spells_of_readDatum tailRead).isSuffix.trans behind
            split at read
            · cases read
              exact List.nil_suffix
            · rename_i closing
              split at read
              · cases read
              · cases read
                exact (isSuffix_of_skip closing).trans afterTail
      · split at read
        · rename_i itemRead
          cases read
          have startShorter : (c :: start).length ≤ text.length := shorter
          exact (isSuffix_of_readDatum itemRead).trans started
        · rename_i item after itemLess itemRead
          have startShorter : (c :: start).length ≤ text.length := shorter
          have afterShorter : after.length < (c :: start).length := itemLess
          exact ((isSuffix_of_readItems read).trans (spells_of_readDatum itemRead).isSuffix).trans
            started
termination_by 2 * text.length + 1

end

/-! ### Reports -/

/-- What is left behind a place gives the bytes before it. -/
theorem located_at_place {text rest : List Char} (atEnd : rest <:+ text) (kind : ReadErrorKind)
    (detail : String) : ∃ front, text = front ++ rest ∧
      ReadError.located kind detail text (Text.byteSize text - Text.byteSize rest) =
        ReadError.located kind detail text (Text.byteSize front) := by
  obtain ⟨front, rfl⟩ := atEnd
  refine ⟨front, rfl, ?_⟩
  rw [Text.byteSize_append, Nat.add_sub_cancel]

theorem context_report {text : List Char} {snag : Snag} (atEnd : snag.rest <:+ text) :
    (snag.report text).context = none ∨ ∃ front rest, text = front ++ rest ∧
      (snag.report text).context = some (Text.excerpt text (Text.byteSize front)) := by
  obtain ⟨obstacle, rest⟩ := snag
  cases obstacle with
  | tooDeep => exact .inl rfl
  | badNumber =>
      cases rest with
      | nil => exact .inl rfl
      | cons c rest =>
          obtain ⟨front, divided, same⟩ := located_at_place atEnd .invalidSyntax _
          exact .inr ⟨front, c :: rest, divided, congrArg ReadError.context same⟩
  | unexpected =>
      cases rest with
      | nil => exact .inl rfl
      | cons c rest =>
          obtain ⟨front, divided, same⟩ := located_at_place atEnd .invalidSyntax _
          exact .inr ⟨front, c :: rest, divided, congrArg ReadError.context same⟩

/-- The context of an error that the reader reports is an excerpt at a place in the text. -/
theorem context_of_read {text : List Char} {e : ReadError} (failed : read text = .error e) :
    e.context = none ∨ ∃ front rest, text = front ++ rest ∧
      e.context = some (Text.excerpt text (Text.byteSize front)) := by
  unfold read at failed
  split at failed
  · rename_i snag snagged
    cases failed
    exact context_report (isSuffix_of_readDatum snagged)
  · rename_i datum after less isRead
    split at failed
    · cases failed
    · cases failed
      have behind := (skips_skip after).isSuffix.trans (spells_of_readDatum isRead).isSuffix
      obtain ⟨front, divided, same⟩ := located_at_place behind .trailingContent _
      exact .inr ⟨front, _, divided, congrArg ReadError.context same⟩

end ActorMachine.Reader

namespace ActorMachine

/-- An excerpt is a short piece of the text with a mark in front of it exactly when text is left out
there, and it is what it should be where every character before the place takes one byte; what it
comes to elsewhere is told as well. The excerpts beside errors in reading are at places in the text.
-/
theorem Datum.read_excerpts (text : String) :
    (∀ front rest, text.toList = front ++ rest → Text.Excerpted front rest) ∧
    ∀ e, Datum.read text = .error e → e.context = none ∨
      ∃ front rest, text.toList = front ++ rest ∧
        e.context = some (Text.excerpt text.toList (Text.byteSize front)) :=
  ⟨fun front rest _ => Text.excerpted front rest, fun _ failed => Reader.context_of_read failed⟩

/-- The place behind the space of `word )` is shown. -/
theorem Datum.read_excerpts_word :
    (∃ e front rest, Datum.read "word )" = .error e ∧ "word )".toList = front ++ rest ∧
      e.context = some (Text.excerpt "word )".toList (Text.byteSize front))) ∧
    Text.Locates "word ".toList [')'] (Text.marked "word )".toList 5) := by
  constructor
  · have failed : Datum.read "word )" = .error (.located .trailingContent
        "Unexpected remaining input: ')'" "word )".toList 5) := by cbv
    have excerpt := (Datum.read_excerpts "word )").2 _ failed
    obtain ⟨front, rest, divided, shown⟩ := excerpt.resolve_left (Option.some_ne_none _)
    exact ⟨_, front, rest, failed, divided, shown⟩
  · have excerpted := (Datum.read_excerpts "word )").1 "word ".toList [')'] (by simp)
    exact excerpted.exact (by simp [Char.utf8Size])

/-- A symbol of letters with two bytes each, with a parenthesis too many behind it. -/
def wideSymbol : List Char := List.replicate 60 'é' ++ [' ']

theorem not_locates_wideSymbol :
    (∃ e, Datum.read (String.ofList (wideSymbol ++ [')'])) = .error e ∧
      e.context = some "[...][...]") ∧
    ¬Text.Locates wideSymbol [')']
      (Text.marked (wideSymbol ++ [')']) (Text.byteSize wideSymbol)) := by
  constructor
  · refine ⟨.located .trailingContent "Unexpected remaining input: ')'" (wideSymbol ++ [')']) 121,
      ?_, ?_⟩
    · cbv
    · decide
  · rintro ⟨before, piece, behind, divided, _, starts, holds, shown⟩
    have present : piece ≠ [] := by
      rintro rfl
      rcases holds with inside | ⟨ended, _⟩
      · exact absurd inside (Nat.not_lt.2 starts)
      · cases ended
    obtain ⟨c, piece, rfl⟩ := List.exists_cons_of_ne_nil present
    have isShown : Text.marked (wideSymbol ++ [')']) (Text.byteSize wideSymbol) =
        Text.elision ++ Text.elision := by decide
    have inText : c ∈ wideSymbol ++ [')'] := by simp [divided]
    have inMarks : c ∈ Text.elision ++ Text.elision := by simp [← isShown, shown]
    -- The marks have no character of the text in them.
    have apart : ∀ c ∈ wideSymbol ++ [')'], c ∉ Text.elision ++ Text.elision := by
      simp [wideSymbol, Text.elision]
    exact apart c inText inMarks

end ActorMachine
