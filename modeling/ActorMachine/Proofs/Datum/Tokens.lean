import ActorMachine.Proofs.Datum.Unfinished
import Mathlib

set_option autoImplicit false

/-!
Tokens, and texts that are cut between them.

A text is a sequence of tokens with spaces and comments between them. Whoever cuts a text of the
grammar between two tokens, or inside the spaces and comments there, is left with unfinished text.
Main statement: `Datum.incomplete_texts`, which says that a text is reported as incomplete only if
it can be completed, and that texts cut in this way are reported as incomplete.
-/

namespace ActorMachine.Reader

theorem Boundary.of_append {rest suffix : List Char} (boundary : Boundary (rest ++ suffix)) :
    Boundary rest := by
  cases rest with
  | nil => exact boundary_nil
  | cons c rest => exact boundary

end ActorMachine.Reader

namespace ActorMachine.Grammar

open Reader (Boundary skip skip_cons skip_of_skips isSpace_of_isAtomChar takeWhile_word
  readQuoted_of_quoted)

/-- A text starts with a token: a parenthesis, a quoted text, or a word, which is a maximal run of
other characters and stands for an atom or announces a tail. -/
inductive Token : List Char → List Char → Prop where
  | opening {rest} : Token ('(' :: rest) rest
  | closing {rest} : Token (')' :: rest) rest
  | quoted {quote text content rest} (isQuote : quote = '"' ∨ quote = '|')
      (quoted : Quoted quote text content rest) : Token (quote :: text) rest
  | word {word rest} (present : word ≠ [])
      (isAtomChar : ∀ c ∈ word, Symbol.isAtomChar c = true) (maximal : Boundary rest) :
      Token (word ++ rest) rest

/-- A text is cut into what stands `before` and `after` a place between two tokens, before the first
one, or inside the spaces and comments there. At least one token stands behind the place. -/
inductive Cut : List Char → List Char → Prop where
  | gap {before after start rest} (skipped : Skips (before ++ after) start)
      (inGap : start <:+ after) (token : Token start rest) : Cut before after
  | token {gap lexeme before after}
      (skipped : Skips (gap ++ (lexeme ++ (before ++ after))) (lexeme ++ (before ++ after)))
      (token : Token (lexeme ++ (before ++ after)) (before ++ after))
      (further : Cut before after) : Cut (gap ++ (lexeme ++ before)) after

/-! ### Spaces and comments in a part of a text -/

/-- What is skipped before a text is skipped before every text that starts alike. -/
theorem Skips.gap {text rest : List Char} (skips : Skips text rest) :
    ∃ gap, text = gap ++ rest ∧
      ∀ other, other.head? = rest.head? → Skips (gap ++ other) other := by
  induction skips with
  | nothing => exact ⟨[], rfl, fun _ _ => .nothing⟩
  | @space c text rest isSpace _ ih =>
      obtain ⟨gap, rfl, further⟩ := ih
      exact ⟨c :: gap, rfl, fun other alike => .space isSpace (further other alike)⟩
  | @comment line text rest inLine ends _ ih =>
      obtain ⟨gap, rfl, further⟩ := ih
      refine ⟨';' :: (line ++ gap), by simp, fun other alike => ?_⟩
      rw [List.cons_append, List.append_assoc]
      refine .comment inLine (fun c starts => ends c ?_) (further other alike)
      rwa [List.head?_append, alike, ← List.head?_append] at starts

/-- A text that is cut inside what is skipped has nothing else before the cut. -/
theorem Skips.inside {text start before after : List Char} (skips : Skips text start)
    (isText : text = before ++ after) (inGap : start <:+ after) : Skips before [] := by
  induction skips generalizing before with
  | nothing =>
      subst isText
      have short := inGap.length_le
      rw [List.length_append] at short
      obtain rfl : before = [] := List.length_eq_zero_iff.1 (by omega)
      exact .nothing
  | space isSpace _ ih =>
      cases before with
      | nil => exact .nothing
      | cons c before =>
          obtain ⟨rfl, isRest⟩ := List.cons.inj isText
          exact .space isSpace (ih isRest inGap)
  | @comment line text rest inLine ends _ ih =>
      cases before with
      | nil => exact .nothing
      | cons c before =>
          obtain ⟨rfl, isRest⟩ := List.cons.inj isText
          -- The cut is behind the comment, or inside it.
          rcases List.append_eq_append_iff.1 isRest with ⟨more, rfl, isMore⟩ | ⟨more, rfl, _⟩
          · refine .comment inLine (fun c starts => ends c ?_) (ih isMore inGap)
            rw [isMore, List.head?_append, starts]
            rfl
          · have inPart : '\n' ∉ before := fun member => inLine (List.mem_append_left _ member)
            have noMore : ∀ c, ([] : List Char).head? = some c → c = '\n' := nofun
            have ended := Skips.comment inPart noMore .nothing
            rwa [List.append_nil] at ended

/-! ### Tokens -/

theorem Quoted.inside {quote : Char} {text content rest : List Char}
    (quoted : Quoted quote text content rest) :
    ∃ inside, text = inside ++ rest ∧ ∀ other, Quoted quote (inside ++ other) content other := by
  induction quoted with
  | close => exact ⟨[quote], rfl, fun _ => .close⟩
  | plain notQuote notBackslash _ ih =>
      obtain ⟨inside, rfl, further⟩ := ih
      exact ⟨_ :: inside, rfl, fun other => .plain notQuote notBackslash (further other)⟩
  | escape escapes _ ih =>
      obtain ⟨inside, rfl, further⟩ := ih
      exact ⟨_ :: _ :: inside, rfl, fun other => .escape escapes (further other)⟩

namespace Token

variable {text rest other : List Char}

theorem skip_eq (token : Token text rest) : skip text = text ∧ text ≠ [] := by
  cases token with
  | opening => exact ⟨rfl, List.cons_ne_nil _ _⟩
  | closing => exact ⟨rfl, List.cons_ne_nil _ _⟩
  | quoted isQuote =>
      rcases isQuote with rfl | rfl
      · exact ⟨rfl, List.cons_ne_nil _ _⟩
      · exact ⟨rfl, List.cons_ne_nil _ _⟩
  | word present isAtomChar =>
      obtain ⟨c, more, rfl⟩ := List.exists_cons_of_ne_nil present
      have isAtom := isAtomChar c List.mem_cons_self
      refine ⟨skip_cons (isSpace_of_isAtomChar isAtom) ?_ _, List.cons_ne_nil _ _⟩
      rintro rfl
      cases isAtom

theorem length_lt (token : Token text rest) : rest.length < text.length := by
  cases token with
  | opening => exact Nat.lt_succ_self _
  | closing => exact Nat.lt_succ_self _
  | quoted _ quoted =>
      obtain ⟨inside, rfl, _⟩ := quoted.inside
      rw [List.length_cons, List.length_append]
      omega
  | word present =>
      have := List.length_pos_iff.2 present
      rw [List.length_append]
      omega

theorem of_parenthesis {c : Char} (isParenthesis : c = '(' ∨ c = ')')
    (token : Token (c :: text) rest) : rest = text := by
  generalize same : c :: text = whole at token
  cases token with
  | opening => exact (List.cons.inj same).2.symm
  | closing => exact (List.cons.inj same).2.symm
  | quoted isQuote =>
      obtain ⟨rfl, _⟩ := List.cons.inj same
      rcases isQuote with rfl | rfl <;> rcases isParenthesis with isOther | isOther <;>
        cases isOther
  | word present isAtomChar =>
      obtain ⟨first, more, rfl⟩ := List.exists_cons_of_ne_nil present
      obtain ⟨rfl, _⟩ := List.cons.inj same
      have isAtom := isAtomChar c List.mem_cons_self
      rcases isParenthesis with rfl | rfl <;> cases isAtom

theorem of_quote {quote : Char} (isQuote : quote = '"' ∨ quote = '|')
    (token : Token (quote :: text) rest) : ∃ content, Quoted quote text content rest := by
  generalize same : quote :: text = whole at token
  cases token with
  | opening =>
      obtain ⟨rfl, _⟩ := List.cons.inj same
      rcases isQuote with isOther | isOther <;> cases isOther
  | closing =>
      obtain ⟨rfl, _⟩ := List.cons.inj same
      rcases isQuote with isOther | isOther <;> cases isOther
  | quoted _ quoted =>
      obtain ⟨rfl, rfl⟩ := List.cons.inj same
      exact ⟨_, quoted⟩
  | word present isAtomChar =>
      obtain ⟨first, more, rfl⟩ := List.exists_cons_of_ne_nil present
      obtain ⟨rfl, _⟩ := List.cons.inj same
      have isAtom := isAtomChar quote List.mem_cons_self
      rcases isQuote with rfl | rfl <;> cases isAtom

theorem of_word {word : List Char} (present : word ≠ [])
    (isAtomChar : ∀ c ∈ word, Symbol.isAtomChar c = true) (maximal : Boundary rest)
    (token : Token (word ++ rest) other) : other = rest := by
  obtain ⟨c, more, rfl⟩ := List.exists_cons_of_ne_nil present
  have isAtom := isAtomChar c List.mem_cons_self
  generalize same : c :: more ++ rest = whole at token
  cases token with
  | opening =>
      obtain ⟨rfl, _⟩ := List.cons.inj same
      cases isAtom
  | closing =>
      obtain ⟨rfl, _⟩ := List.cons.inj same
      cases isAtom
  | quoted isQuote =>
      obtain ⟨rfl, _⟩ := List.cons.inj same
      rcases isQuote with rfl | rfl <;> cases isAtom
  | word _ otherIsAtomChar otherMaximal =>
      have sameWord := congrArg (List.takeWhile Symbol.isAtomChar) same
      rw [takeWhile_word isAtomChar maximal,
        takeWhile_word otherIsAtomChar otherMaximal] at sameWord
      rw [sameWord] at same
      exact (List.append_cancel_left same).symm

/-- The first token of a text ends in one place. -/
theorem unique (first : Token text rest) (second : Token text other) : rest = other := by
  cases first with
  | opening => exact (second.of_parenthesis (.inl rfl)).symm
  | closing => exact (second.of_parenthesis (.inr rfl)).symm
  | quoted isQuote quoted =>
      obtain ⟨_, again⟩ := second.of_quote isQuote
      have read := readQuoted_of_quoted isQuote quoted []
      rw [readQuoted_of_quoted isQuote again []] at read
      cases read
      rfl
  | word present isAtomChar maximal => exact (second.of_word present isAtomChar maximal).symm

end Token

/-! ### Cuts -/

/-- A text that is cut has a token behind the cut. -/
theorem Cut.goesOn {before after : List Char} (cut : Cut before after) :
    skip (before ++ after) ≠ [] := by
  cases cut with
  | gap skipped _ token =>
      rw [skip_of_skips skipped, token.skip_eq.1]
      exact token.skip_eq.2
  | token skipped token =>
      rw [List.append_assoc, List.append_assoc, skip_of_skips skipped, token.skip_eq.1]
      exact token.skip_eq.2

/-- The cut is before the first token of the text, or behind it. -/
theorem Cut.first {before after start rest : List Char} (cut : Cut before after)
    (skipped : Skips (before ++ after) start) (token : Token start rest) :
    Skips before [] ∨ ∃ lexeme further, start = lexeme ++ rest ∧ rest = further ++ after ∧
      Cut further after ∧ Skips before (lexeme ++ further) := by
  cases cut with
  | gap toToken inGap _ => exact .inl (toToken.inside rfl inGap)
  | @token gap lexeme further after toToken sameToken cut =>
      have skips := skip_of_skips skipped
      rw [List.append_assoc, List.append_assoc, skip_of_skips toToken, sameToken.skip_eq.1,
        token.skip_eq.1] at skips
      subst skips
      have isRest := token.unique sameToken
      have present : lexeme ≠ [] := by
        rintro rfl
        have shorter := token.length_lt
        rw [isRest] at shorter
        exact absurd shorter (Nat.lt_irrefl _)
      refine .inr ⟨lexeme, further, by rw [isRest], isRest, cut, ?_⟩
      obtain ⟨sameGap, isGap, skips⟩ := toToken.gap
      rw [← List.append_cancel_right isGap] at skips
      apply skips
      obtain ⟨c, lexeme, rfl⟩ := List.exists_cons_of_ne_nil present
      rfl

/-- A quoted text is behind the cut or before it. -/
theorem Cut.quoted {before after start content rest : List Char} {quote : Char}
    (cut : Cut before after) (isQuote : quote = '"' ∨ quote = '|')
    (skipped : Skips (before ++ after) (quote :: start))
    (quoted : Quoted quote start content rest) :
    Skips before [] ∨ ∃ further, rest = further ++ after ∧ Cut further after ∧
      ∃ inside, Skips before (quote :: inside) ∧ Quoted quote inside content further := by
  rcases cut.first skipped (.quoted isQuote quoted) with none |
    ⟨lexeme, further, isToken, isRest, cut, skips⟩
  · exact .inl none
  · obtain ⟨inside, rfl, again⟩ := quoted.inside
    have isLexeme : quote :: inside = lexeme := List.append_cancel_right isToken
    rw [← isLexeme] at skips
    exact .inr ⟨further, isRest, cut, inside ++ further, skips, again further⟩

mutual

/-- The cut is before or inside a datum, which is then unfinished, or behind it. -/
theorem Spells.cut {depth : Nat} {text rest before after : List Char} {d : Datum}
    (spells : Spells depth text d rest) (isText : text = before ++ after)
    (cut : Cut before after) :
    BreaksOff depth before ∨ ∃ further, rest = further ++ after ∧ Cut further after ∧
      Spells depth before d further := by
  match spells with
  | .string skipped quoted =>
      rcases cut.quoted (.inl rfl) (isText ▸ skipped) quoted with none |
        ⟨further, isRest, cut, _, skips, again⟩
      · exact .inl (.nothing none)
      · exact .inr ⟨further, isRest, cut, .string skips again⟩
  | .quotedSymbol skipped quoted =>
      rcases cut.quoted (.inr rfl) (isText ▸ skipped) quoted with none |
        ⟨further, isRest, cut, _, skips, again⟩
      · exact .inl (.nothing none)
      · exact .inr ⟨further, isRest, cut, .quotedSymbol skips again⟩
  | .atom skipped atom maximal denotes =>
      have token : Token _ rest := .word atom.present atom.isAtomChar maximal
      rcases cut.first (isText ▸ skipped) token with none |
        ⟨lexeme, further, isToken, rfl, cut, skips⟩
      · exact .inl (.nothing none)
      · rw [← List.append_cancel_right isToken] at skips
        exact .inr ⟨further, rfl, cut, .atom skips atom maximal.of_append denotes⟩
  | .list skipped shallow spelled ends =>
      rcases cut.first (isText ▸ skipped) .opening with none |
        ⟨lexeme, further, isToken, isInside, cut, skips⟩
      · exact .inl (.nothing none)
      · obtain rfl : ['('] = lexeme := List.append_cancel_right isToken
        rcases spelled.cut isInside cut with ⟨done, middle, items, unfinished⟩ |
          ⟨behind, isBehind, cut, items⟩
        · exact .inl (.list skips shallow items (.item unfinished))
        · rcases ends.cut isBehind cut with unended | ⟨rest, isRest, cut, ends⟩
          · exact .inl (.list skips shallow items unended)
          · exact .inr ⟨rest, isRest, cut, .list skips shallow items ends⟩

theorem SpellsAll.cut {depth : Nat} {text rest before after : List Char} {items : List Datum}
    (spelled : SpellsAll depth text items rest) (isText : text = before ++ after)
    (cut : Cut before after) :
    (∃ done middle, SpellsAll depth before done middle ∧ BreaksOff depth middle) ∨
      ∃ further, rest = further ++ after ∧ Cut further after ∧
        SpellsAll depth before items further := by
  match spelled with
  | .nil => exact .inr ⟨before, isText, cut, .nil⟩
  | .cons first others =>
      rcases first.cut isText cut with unfinished | ⟨behind, isBehind, cut, first⟩
      · exact .inl ⟨[], before, .nil, unfinished⟩
      · rcases others.cut isBehind cut with ⟨done, middle, items, unfinished⟩ |
          ⟨further, isRest, cut, others⟩
        · exact .inl ⟨_ :: done, middle, .cons first items, unfinished⟩
        · exact .inr ⟨further, isRest, cut, .cons first others⟩

theorem Ends.cut {depth : Nat} {text rest before after : List Char} {items : List Datum}
    {tail : Datum} (ends : Ends depth items text tail rest) (isText : text = before ++ after)
    (cut : Cut before after) :
    EndMissing depth items before ∨ ∃ further, rest = further ++ after ∧ Cut further after ∧
      Ends depth items before tail further := by
  match ends with
  | .proper closed =>
      rcases cut.first (isText ▸ closed) .closing with none |
        ⟨lexeme, further, isToken, isRest, cut, skips⟩
      · exact .inl (.item (.nothing none))
      · obtain rfl : [')'] = lexeme := List.append_cancel_right isToken
        exact .inr ⟨further, isRest, cut, .proper skips⟩
  | .dotted present announced alone spelled closed =>
      have point : Token ('.' :: _) _ :=
        .word (List.cons_ne_nil '.' []) (List.forall_mem_singleton.2 rfl) alone
      rcases cut.first (isText ▸ announced) point with none |
        ⟨lexeme, behind, isToken, isAfter, cut, announced⟩
      · exact .inl (.item (.nothing none))
      · obtain rfl : ['.'] = lexeme := List.append_cancel_right isToken
        have alone : Boundary behind := Boundary.of_append (isAfter ▸ alone)
        rcases spelled.cut isAfter cut with unfinished | ⟨closing, isClosing, cut, spelled⟩
        · exact .inl (.tail present announced alone unfinished)
        · rcases cut.first (isClosing ▸ closed) .closing with none |
            ⟨lexeme, further, isToken, isRest, cut, closed⟩
          · exact .inl (.closing present announced alone spelled none)
          · obtain rfl : [')'] = lexeme := List.append_cancel_right isToken
            exact .inr ⟨further, isRest, cut, .dotted present announced alone spelled closed⟩

end

end ActorMachine.Grammar

namespace ActorMachine

open Grammar Reader

/-- A text that is reported as incomplete can be completed. And a text that is accepted is reported
as incomplete when it is cut between two tokens or inside the spaces and comments there, before the
last token. -/
theorem Datum.incomplete_texts :
    (∀ (text : String) (e : ReadError), Datum.read text = .error e → e.kind = .incomplete →
      ∃ (missing : String) (d : Datum), Datum.read (text ++ missing) = .ok d) ∧
    ∀ (before after : String) (d : Datum), Datum.read (before ++ after) = .ok d →
      Cut before.toList after.toList →
        ∃ e, Datum.read before = .error e ∧ e.kind = .incomplete := by
  constructor
  · intro text e failed isIncomplete
    have unfinished := (incomplete_iff text.toList).1 ⟨e, failed, isIncomplete⟩
    obtain ⟨missing, d, completed⟩ := unfinished.completes
    have spells := (completed []).2
    rw [List.append_nil] at spells
    obtain ⟨less, isRead⟩ := readDatum_of_spells spells (Nat.le_refl _) rfl
    refine ⟨String.ofList missing, d, ?_⟩
    unfold Datum.read
    rw [String.toList_append, String.toList_ofList]
    exact read_eq_ok.2 ⟨[], less, isRead, rfl⟩
  · intro before after d accepted cut
    unfold Datum.read at accepted
    rw [String.toList_append] at accepted
    obtain ⟨rest, less, isRead, finished⟩ := read_eq_ok.1 accepted
    rcases (spells_of_readDatum isRead).cut rfl cut with unfinished | ⟨further, isRest, behind, _⟩
    · exact (incomplete_iff before.toList).2 unfinished
    · -- Only spaces and comments come behind the datum, so no token does.
      rw [isRest] at finished
      exact absurd finished behind.goesOn

/-- A list that is cut inside the comment before its tail. -/
theorem Datum.incomplete_texts_comment :
    Datum.read ("(a ; x" ++ "y\n. b)") = .ok (.cons (.symbol "a") (.symbol "b")) ∧
      Cut "(a ; x".toList "y\n. b)".toList ∧
      ∃ e, Datum.read "(a ; x" = .error e ∧ e.kind = .incomplete ∧
        ∃ (missing : String) (d : Datum), Datum.read ("(a ; x" ++ missing) = .ok d := by
  have accepted :
      Datum.read ("(a ; x" ++ "y\n. b)") = .ok (.cons (.symbol "a") (.symbol "b")) := by cbv
  have point : Token ['.', ' ', 'b', ')'] [' ', 'b', ')'] :=
    .word (List.cons_ne_nil '.' []) (List.forall_mem_singleton.2 rfl) (boundary_cons rfl _)
  have comment :
      Skips [' ', ';', ' ', 'x', 'y', '\n', '.', ' ', 'b', ')'] ['.', ' ', 'b', ')'] := by
    refine .space (by decide) (@Skips.comment [' ', 'x', 'y'] _ _ (by decide) ?_ ?_)
    · exact fun c starts => (Option.some.inj starts).symm
    · exact .space (by decide) .nothing
  have atom : Token ['a', ' ', ';', ' ', 'x', 'y', '\n', '.', ' ', 'b', ')']
      [' ', ';', ' ', 'x', 'y', '\n', '.', ' ', 'b', ')'] :=
    .word (List.cons_ne_nil 'a' []) (List.forall_mem_singleton.2 rfl) (boundary_cons rfl _)
  have inComment : Cut [' ', ';', ' ', 'x'] ['y', '\n', '.', ' ', 'b', ')'] :=
    .gap comment ⟨['y', '\n'], rfl⟩ point
  have cut : Cut "(a ; x".toList "y\n. b)".toList :=
    @Cut.token [] ['('] _ _ .nothing .opening (@Cut.token [] ['a'] _ _ .nothing atom inComment)
  obtain ⟨e, failed, isIncomplete⟩ := incomplete_texts.2 _ _ _ accepted cut
  exact ⟨accepted, cut, e, failed, isIncomplete, incomplete_texts.1 _ e failed isIncomplete⟩

end ActorMachine
