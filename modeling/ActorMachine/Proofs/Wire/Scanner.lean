import Mathlib.Data.List.TakeWhile
import ActorMachine.Wire.Relaxed

set_option autoImplicit false

/-!
How keys are quoted, one character at a time.

A quote that opens a string literal is the only thing that depends on text far behind it. Whether
the literal is closed is told by `scan`, which keeps no more than whether the next character is
escaped. Behind a quote that is never closed the scanner goes on as if it was not there, and all
other quotes there are stray too, so the first key that it puts in quotes comes right behind a text
that holds no unescaped quote (`quoteKeys_unclosed`). Main statement: `quoteKeys_quoteKeys`.
-/

namespace ActorMachine.Relaxed

/-! ### One step -/

theorem quoteFrom_eq (done text : List Char) :
    quoteFrom done text = done.reverse ++ quoteKeys text := by
  induction lengthIs : text.length using Nat.strongRecOn generalizing done text with
  | ind length ih =>
      -- Both sides take the same step, and the induction hypothesis clears what they have done.
      have step : ∀ done after, after.length < length →
          quoteFrom done after = done.reverse ++ quoteKeys after :=
        fun done after shorter => ih _ shorter done after rfl
      unfold quoteKeys
      cases text with
      | nil => simp [quoteFrom]
      | cons c rest =>
          have restShorter : rest.length < length := by
            rw [← lengthIs]
            exact Nat.lt_succ_self _
          unfold quoteFrom
          split
          · split
            · rename_i found after read
              have afterShorter := length_literal_lt read
              rw [step _ after (by omega), step (found.reverse ++ []) after (by omega)]
              simp
            · rw [step _ rest restShorter, step [c] rest restShorter]
              simp
          · split
            · split
              · rename_i spaces word after read
                have afterShorter := length_bareKey_le read
                rw [step _ after (by omega),
                  step (':' :: '"' :: word.reverse ++ '"' :: spaces.reverse ++ c :: []) after
                    (by omega)]
                simp
              · rw [step _ rest restShorter, step [c] rest restShorter]
                simp
            · rw [step _ rest restShorter, step [c] rest restShorter]
              simp

/-- The characters behind which a bare key may stand. -/
abbrev Opens (c : Char) : Prop := c = '\x7b' ∨ c = ','

/-- The characters that are copied no matter what comes behind them. -/
abbrev Plain (c : Char) : Prop := c ≠ '"' ∧ ¬Opens c

@[simp] theorem quoteKeys_nil : quoteKeys [] = [] := by
  simp [quoteKeys, quoteFrom]

theorem quoteKeys_quote {rest found after : List Char}
    (read : literal? ['"'] rest = some (found, after)) :
    quoteKeys ('"' :: rest) = found ++ quoteKeys after := by
  rw [quoteKeys, quoteFrom, if_pos rfl]
  split
  · rename_i other otherAfter otherRead
    cases otherRead.symm.trans read
    rw [quoteFrom_eq]
    simp
  · rename_i none
    cases none.symm.trans read

theorem quoteKeys_stray {rest : List Char} (unread : literal? ['"'] rest = none) :
    quoteKeys ('"' :: rest) = '"' :: quoteKeys rest := by
  rw [quoteKeys, quoteFrom, if_pos rfl]
  split
  · rename_i other otherAfter otherRead
    cases otherRead.symm.trans unread
  · rw [quoteFrom_eq]
    rfl

theorem Opens.not_quote {c : Char} (opens : Opens c) : c ≠ '"' := by
  rintro rfl
  exact absurd opens (by decide)

theorem quoteKeys_key {c : Char} {rest spaces word after : List Char} (opens : Opens c)
    (read : bareKey? rest = some (spaces, word, after)) :
    quoteKeys (c :: rest) = c :: (spaces ++ '"' :: (word ++ '"' :: ':' :: quoteKeys after)) := by
  rw [quoteKeys, quoteFrom, if_neg opens.not_quote, if_pos opens]
  split
  · rename_i other otherWord otherAfter otherRead
    cases otherRead.symm.trans read
    rw [quoteFrom_eq]
    simp
  · rename_i none
    cases none.symm.trans read

theorem quoteKeys_noKey {c : Char} {rest : List Char} (opens : Opens c)
    (unread : bareKey? rest = none) : quoteKeys (c :: rest) = c :: quoteKeys rest := by
  rw [quoteKeys, quoteFrom, if_neg opens.not_quote, if_pos opens]
  split
  · rename_i other otherWord otherAfter otherRead
    cases otherRead.symm.trans unread
  · rw [quoteFrom_eq]
    rfl

theorem quoteKeys_plain {c : Char} {rest : List Char} (plain : Plain c) :
    quoteKeys (c :: rest) = c :: quoteKeys rest := by
  rw [quoteKeys, quoteFrom, if_neg plain.1, if_neg plain.2, quoteFrom_eq]
  rfl

/-! ### String literals -/

/-- Goes through the inside of a string literal. The next character is escaped or not, and there is
no answer once an unescaped quote has ended the literal. -/
def scan : Bool → List Char → Option Bool
  | escaped, [] => some escaped
  | true, _ :: rest => scan false rest
  | false, c :: rest => if c = '"' then none else scan (c == '\\') rest

/-- The texts that stand between the quotes of a literal. -/
def Inside (text : List Char) : Prop := scan false text = some false

theorem scan_append (escaped : Bool) (left right : List Char) :
    scan escaped (left ++ right) = (scan escaped left).bind fun now => scan now right := by
  induction left generalizing escaped with
  | nil => cases escaped <;> rfl
  | cons c left ih =>
      cases escaped with
      | true => exact ih false
      | false =>
          rw [List.cons_append, scan, scan]
          by_cases isQuote : c = '"'
          · rw [if_pos isQuote, if_pos isQuote]
            rfl
          · rw [if_neg isQuote, if_neg isQuote]
            exact ih _

theorem scan_cons {c : Char} (notQuote : c ≠ '"') (notEscape : c ≠ '\\') (escaped : Bool)
    (rest : List Char) : scan escaped (c :: rest) = scan false rest := by
  cases escaped with
  | true => rfl
  | false => rw [scan, if_neg notQuote, beq_eq_false_iff_ne.2 notEscape]

theorem inside_of_clean {text : List Char} (clean : ∀ c ∈ text, c ≠ '"' ∧ c ≠ '\\') :
    Inside text := by
  induction text with
  | nil => rfl
  | cons c text ih =>
      obtain ⟨notQuote, notEscape⟩ := clean c List.mem_cons_self
      rw [Inside, scan_cons notQuote notEscape]
      exact ih fun d member => clean d (List.mem_cons_of_mem _ member)

theorem Inside.scan_append {text : List Char} (inside : Inside text) (rest : List Char) :
    scan false (text ++ rest) = scan false rest := by
  rw [Relaxed.scan_append, inside]
  rfl

theorem Inside.append {left right : List Char} (leftInside : Inside left)
    (rightInside : Inside right) : Inside (left ++ right) := by
  rw [Inside, leftInside.scan_append]
  exact rightInside

theorem Inside.scan_quote {text : List Char} (inside : Inside text) (rest : List Char) :
    scan false (text ++ '"' :: rest) = none := by
  rw [inside.scan_append, scan, if_pos rfl]

/-- A literal ends in one place only. -/
theorem Inside.unique {left right leftAfter rightAfter : List Char} (leftInside : Inside left)
    (rightInside : Inside right) (same : left ++ '"' :: leftAfter = right ++ '"' :: rightAfter) :
    left = right ∧ leftAfter = rightAfter := by
  rcases List.append_eq_append_iff.1 same with
    ⟨middle, rightIs, afterIs⟩ | ⟨middle, leftIs, afterIs⟩
  · cases middle with
    | nil =>
        rw [rightIs, List.append_nil]
        exact ⟨rfl, (List.cons.inj afterIs).2⟩
    | cons c middle =>
        obtain ⟨isQuote, _⟩ := List.cons.inj afterIs
        rw [rightIs, ← isQuote, Inside, leftInside.scan_quote] at rightInside
        cases rightInside
  · cases middle with
    | nil =>
        rw [leftIs, List.append_nil]
        exact ⟨rfl, (List.cons.inj afterIs).2.symm⟩
    | cons c middle =>
        obtain ⟨isQuote, _⟩ := List.cons.inj afterIs
        rw [leftIs, ← isQuote, Inside, rightInside.scan_quote] at leftInside
        cases leftInside

/-- A literal is read up to the quote that ends it. If there is none, it is not read at all. -/
theorem literal?_cases (seen text : List Char) :
    (literal? seen text = none ∧ ∃ escaped, scan false text = some escaped) ∨
    ∃ body after, text = body ++ '"' :: after ∧ Inside body ∧
      literal? seen text = some (seen.reverse ++ (body ++ ['"']), after) := by
  fun_induction literal? seen text with
  | case1 seen => exact .inl ⟨rfl, false, rfl⟩
  | case2 seen rest => exact .inr ⟨[], rest, rfl, rfl, by simp⟩
  | case3 seen c rest ih =>
      rcases ih with ⟨unread, escaped, open_⟩ | ⟨body, after, rfl, inside, read⟩
      · exact .inl ⟨unread, escaped, open_⟩
      · exact .inr ⟨'\\' :: c :: body, after, rfl, inside, by simpa using read⟩
  | case4 seen rest _ notPair =>
      cases rest with
      | nil => exact .inl ⟨rfl, true, rfl⟩
      | cons c rest => exact (notPair c rest rfl rfl).elim
  | case5 seen c rest notQuote _ notEscape ih =>
      rcases ih with ⟨unread, escaped, unclosed⟩ | ⟨body, after, rfl, inside, read⟩
      · exact .inl ⟨unread, escaped, (scan_cons notQuote notEscape _ _).trans unclosed⟩
      · refine .inr ⟨c :: body, after, rfl, ?_, by simpa using read⟩
        exact (scan_cons notQuote notEscape _ _).trans inside

theorem quoteKeys_inside {body : List Char} (inside : Inside body) (after : List Char) :
    quoteKeys ('"' :: (body ++ '"' :: after)) = '"' :: (body ++ '"' :: quoteKeys after) := by
  rcases literal?_cases ['"'] (body ++ '"' :: after) with
    ⟨_, escaped, unclosed⟩ | ⟨other, otherAfter, same, otherInside, read⟩
  · rw [inside.scan_quote] at unclosed
    cases unclosed
  · obtain ⟨rfl, rfl⟩ := inside.unique otherInside same
    rw [quoteKeys_quote read]
    simp

theorem quoteKeys_unread {escaped : Bool} {rest : List Char}
    (unclosed : scan false rest = some escaped) :
    quoteKeys ('"' :: rest) = '"' :: quoteKeys rest := by
  rcases literal?_cases ['"'] rest with ⟨unread, _⟩ | ⟨body, after, rfl, inside, _⟩
  · exact quoteKeys_stray unread
  · rw [inside.scan_quote] at unclosed
    cases unclosed

/-- What a quote is the start of. -/
theorem closed_or_unclosed (rest : List Char) :
    (∃ body after, rest = body ++ '"' :: after ∧ Inside body) ∨
      ∃ escaped, scan false rest = some escaped := by
  rcases literal?_cases [] rest with ⟨_, unclosed⟩ | ⟨body, after, restIs, inside, _⟩
  · exact .inr unclosed
  · exact .inl ⟨body, after, restIs, inside⟩

/-! ### Keys -/

/-- The words that can be a key without quotes. -/
def isWord : List Char → Bool
  | [] => false
  | c :: rest => isKeyStart c && rest.all isKeyChar

/-- A bare key with the text around it: blanks before it, blanks behind it, then a colon. -/
structure KeyAt (text spaces word gap after : List Char) : Prop where
  text_eq : text = spaces ++ (word ++ (gap ++ ':' :: after))
  spaces_blank : ∀ c ∈ spaces, isSpace c = true
  word_isWord : isWord word = true
  gap_blank : ∀ c ∈ gap, isSpace c = true

theorem isKeyChar_of_isKeyStart {c : Char} (starts : isKeyStart c = true) : isKeyChar c = true := by
  simp only [isKeyStart, isKeyChar, Char.isAlphanum, Bool.or_eq_true] at starts ⊢
  rcases starts with isAlpha | isBar
  · exact .inl (.inl isAlpha)
  · exact .inr isBar

theorem isKeyChar_of_mem {word : List Char} (named : isWord word = true) {c : Char}
    (member : c ∈ word) : isKeyChar c = true := by
  cases word with
  | nil => cases member
  | cons first rest =>
      obtain ⟨starts, follow⟩ := Bool.and_eq_true_iff.1 named
      cases member with
      | head => exact isKeyChar_of_isKeyStart starts
      | tail _ later => exact List.all_eq_true.1 follow c later

theorem isSpace_iff {c : Char} : isSpace c = true ↔ c = ' ' ∨ c = '\t' ∨ c = '\r' ∨ c = '\n' := by
  simp [isSpace, or_assoc]

theorem not_isKeyChar_of_isSpace {c : Char} (blank : isSpace c = true) : isKeyChar c = false := by
  rcases isSpace_iff.1 blank with rfl | rfl | rfl | rfl <;> decide

theorem not_isSpace_of_isKeyChar {c : Char} (isPart : isKeyChar c = true) : isSpace c = false := by
  cases blank : isSpace c with
  | false => rfl
  | true =>
      rw [not_isKeyChar_of_isSpace blank] at isPart
      cases isPart

theorem not_isKeyStart_of_isSpace {c : Char} (blank : isSpace c = true) : isKeyStart c = false := by
  cases starts : isKeyStart c with
  | false => rfl
  | true =>
      have isPart := isKeyChar_of_isKeyStart starts
      rw [not_isKeyChar_of_isSpace blank] at isPart
      cases isPart

theorem plain_of_isSpace {c : Char} (blank : isSpace c = true) : Plain c := by
  rcases isSpace_iff.1 blank with rfl | rfl | rfl | rfl <;> decide

/-- No character that a key, a string or a list has around it is one of a key. -/
theorem ne_of_isKeyChar {c d : Char} (isPart : isKeyChar c = true)
    (isNoPart : isKeyChar d = false) : c ≠ d := by
  rintro rfl
  rw [isPart] at isNoPart
  cases isNoPart

theorem plain_of_isKeyChar {c : Char} (isPart : isKeyChar c = true) : Plain c := by
  refine ⟨ne_of_isKeyChar isPart (by decide), ?_⟩
  rintro (isBrace | isComma)
  · exact ne_of_isKeyChar isPart (by decide) isBrace
  · exact ne_of_isKeyChar isPart (by decide) isComma

theorem takeWhile_until {p : Char → Bool} {left right : List Char} {c : Char}
    (holds : ∀ d ∈ left, p d = true) (stops : p c = false) :
    (left ++ c :: right).takeWhile p = left := by
  rw [List.takeWhile_append_of_pos holds, List.takeWhile_cons_of_neg (by simp [stops]),
    List.append_nil]

theorem dropWhile_until {p : Char → Bool} {left right : List Char} {c : Char}
    (holds : ∀ d ∈ left, p d = true) (stops : p c = false) :
    (left ++ c :: right).dropWhile p = c :: right := by
  rw [List.dropWhile_append_of_pos holds, List.dropWhile_cons_of_neg (by simp [stops])]

/-- Whether a word is a key is told by what comes behind it and its blanks. -/
theorem bareKey?_word {spaces word gap rest : List Char} {c : Char}
    (spacesBlank : ∀ d ∈ spaces, isSpace d = true) (named : isWord word = true)
    (gapBlank : ∀ d ∈ gap, isSpace d = true) (notSpace : isSpace c = false)
    (notPart : isKeyChar c = false) :
    bareKey? (spaces ++ (word ++ (gap ++ c :: rest))) =
      if c = ':' then some (spaces, word, rest) else none := by
  cases word with
  | nil => cases named
  | cons first more =>
      have isPart := fun d => isKeyChar_of_mem named (c := d)
      have firstNotSpace : isSpace first = false :=
        not_isSpace_of_isKeyChar (isPart first List.mem_cons_self)
      obtain ⟨d, tail, behind, stops⟩ : ∃ d tail, gap ++ c :: rest = d :: tail ∧
          isKeyChar d = false := by
        cases gap with
        | nil => exact ⟨c, rest, rfl, notPart⟩
        | cons d gap =>
            exact ⟨d, gap ++ c :: rest, rfl,
              not_isKeyChar_of_isSpace (gapBlank d List.mem_cons_self)⟩
      have start : (spaces ++ first :: (more ++ (gap ++ c :: rest))).dropWhile isSpace =
          first :: (more ++ (gap ++ c :: rest)) := dropWhile_until spacesBlank firstNotSpace
      have before : (spaces ++ first :: (more ++ (gap ++ c :: rest))).takeWhile isSpace = spaces :=
        takeWhile_until spacesBlank firstNotSpace
      have wordIs :
          (first :: (more ++ (gap ++ c :: rest))).takeWhile isKeyChar = first :: more := by
        rw [behind, ← List.cons_append, takeWhile_until isPart stops]
      have afterWord : ((first :: (more ++ (gap ++ c :: rest))).dropWhile isKeyChar).dropWhile
          isSpace = c :: rest := by
        rw [behind, ← List.cons_append, dropWhile_until isPart stops, ← behind]
        exact dropWhile_until gapBlank notSpace
      unfold bareKey?
      rw [List.cons_append, start, before]
      dsimp only
      rw [wordIs, afterWord, if_pos (Bool.and_eq_true_iff.1 named).1]
      split
      · rename_i isColon
        obtain ⟨rfl, rfl⟩ := List.cons.inj isColon
        rw [if_pos rfl]
      · rename_i notColon
        rw [if_neg fun isColon => notColon rest (by rw [isColon])]

theorem bareKey?_eq_none {spaces rest : List Char} {c : Char}
    (spacesBlank : ∀ d ∈ spaces, isSpace d = true) (notSpace : isSpace c = false)
    (notStart : isKeyStart c = false) : bareKey? (spaces ++ c :: rest) = none := by
  unfold bareKey?
  rw [dropWhile_until spacesBlank notSpace]
  dsimp only
  rw [if_neg (by simp [notStart])]

theorem keyAt_of_bareKey? {text spaces word after : List Char}
    (read : bareKey? text = some (spaces, word, after)) :
    ∃ gap, KeyAt text spaces word gap after := by
  unfold bareKey? at read
  dsimp only at read
  split at read
  · cases read
  · rename_i c tail startIs
    split at read
    · rename_i starts
      split at read
      · rename_i rest restIs
        cases read
        refine ⟨((text.dropWhile isSpace).dropWhile isKeyChar).takeWhile isSpace, ?_, ?_, ?_, ?_⟩
        · rw [← restIs, List.takeWhile_append_dropWhile, List.takeWhile_append_dropWhile,
            List.takeWhile_append_dropWhile]
        · exact fun d member => List.mem_takeWhile_imp member
        · rw [startIs, List.takeWhile_cons_of_pos (isKeyChar_of_isKeyStart starts), isWord, starts]
          exact List.all_eq_true.2 fun d member => List.mem_takeWhile_imp member
        · exact fun d member => List.mem_takeWhile_imp member
      · cases read
    · cases read

theorem KeyAt.bareKey?_eq {text spaces word gap after : List Char}
    (found : KeyAt text spaces word gap after) : bareKey? text = some (spaces, word, after) := by
  rw [found.text_eq, bareKey?_word found.spaces_blank found.word_isWord found.gap_blank (by decide)
    (by decide), if_pos rfl]

/-! ### Copied text -/

theorem quoteKeys_append_plain {left : List Char} (plain : ∀ c ∈ left, Plain c)
    (right : List Char) : quoteKeys (left ++ right) = left ++ quoteKeys right := by
  induction left with
  | nil => rfl
  | cons c left ih =>
      rw [List.cons_append, quoteKeys_plain (plain c List.mem_cons_self),
        ih fun d member => plain d (List.mem_cons_of_mem _ member), List.cons_append]

/-- The first character stays where it is. -/
theorem quoteKeys_cons (c : Char) (rest : List Char) : ∃ out, quoteKeys (c :: rest) = c :: out := by
  by_cases isQuote : c = '"'
  · subst isQuote
    rcases closed_or_unclosed rest with ⟨body, after, rfl, inside⟩ | ⟨escaped, unclosed⟩
    · exact ⟨_, quoteKeys_inside inside after⟩
    · exact ⟨_, quoteKeys_unread unclosed⟩
  · by_cases opens : Opens c
    · cases read : bareKey? rest with
      | none => exact ⟨_, quoteKeys_noKey opens read⟩
      | some key => exact ⟨_, quoteKeys_key opens read⟩
    · exact ⟨_, quoteKeys_plain ⟨isQuote, opens⟩⟩

theorem eq_nil_of_quoteKeys {text : List Char} (quoted : quoteKeys text = []) : text = [] := by
  cases text with
  | nil => rfl
  | cons c rest =>
      obtain ⟨out, outIs⟩ := quoteKeys_cons c rest
      cases outIs.symm.trans quoted

theorem eq_cons_of_quoteKeys {text out : List Char} {c : Char}
    (quoted : quoteKeys text = c :: out) : ∃ rest, text = c :: rest := by
  cases text with
  | nil =>
      rw [quoteKeys_nil] at quoted
      cases quoted
  | cons d rest =>
      obtain ⟨other, otherIs⟩ := quoteKeys_cons d rest
      obtain ⟨rfl, _⟩ := List.cons.inj (otherIs.symm.trans quoted)
      exact ⟨rest, rfl⟩

theorem eq_append_of_quoteKeys {text left out : List Char} (plain : ∀ c ∈ left, Plain c)
    (quoted : quoteKeys text = left ++ out) :
    ∃ rest, text = left ++ rest ∧ quoteKeys rest = out := by
  induction left generalizing text with
  | nil => exact ⟨text, rfl, quoted⟩
  | cons c left ih =>
      obtain ⟨rest, rfl⟩ := eq_cons_of_quoteKeys quoted
      rw [quoteKeys_plain (plain c List.mem_cons_self)] at quoted
      obtain ⟨after, rfl, afterIs⟩ :=
        ih (fun d member => plain d (List.mem_cons_of_mem _ member)) (List.cons.inj quoted).2
      exact ⟨after, rfl, afterIs⟩

/-! ### Behind a quote that is not closed -/

/-- The first key that is quoted in a text that begins escaped or not. -/
structure FirstKey (escaped : Bool) (text before word gap after : List Char) : Prop where
  text_eq : text = before ++ (word ++ (gap ++ ':' :: after))
  quoted_eq : quoteKeys text = before ++ '"' :: (word ++ '"' :: ':' :: quoteKeys after)
  before_inside : scan escaped before = some false
  word_isWord : isWord word = true
  gap_blank : ∀ c ∈ gap, isSpace c = true

theorem clean_of_isSpace {c : Char} (blank : isSpace c = true) : c ≠ '"' ∧ c ≠ '\\' := by
  rcases isSpace_iff.1 blank with rfl | rfl | rfl | rfl <;> decide

theorem clean_of_isKeyChar {c : Char} (isPart : isKeyChar c = true) : c ≠ '"' ∧ c ≠ '\\' :=
  ⟨ne_of_isKeyChar isPart (by decide), ne_of_isKeyChar isPart (by decide)⟩

theorem inside_of_blank {text : List Char} (blank : ∀ c ∈ text, isSpace c = true) : Inside text :=
  inside_of_clean fun c member => clean_of_isSpace (blank c member)

theorem inside_of_isWord {word : List Char} (named : isWord word = true) : Inside word :=
  inside_of_clean fun _ member => clean_of_isKeyChar (isKeyChar_of_mem named member)

theorem scan_step {escaped ends : Bool} {c : Char} {rest : List Char}
    (unclosed : scan escaped (c :: rest) = some ends) :
    ∃ now, scan now rest = some ends ∧ (c = '"' → now = false) ∧
      ∀ more, scan escaped (c :: more) = scan now more := by
  cases escaped with
  | true => exact ⟨false, unclosed, fun _ => rfl, fun _ => rfl⟩
  | false =>
      by_cases isQuote : c = '"'
      · rw [scan, if_pos isQuote] at unclosed
        cases unclosed
      · rw [scan, if_neg isQuote] at unclosed
        refine ⟨c == '\\', unclosed, fun same => absurd same isQuote, ?_⟩
        intro more
        rw [scan, if_neg isQuote]

/-- Behind a quote that is not closed, a text is copied up to the first key in it. -/
theorem quoteKeys_unclosed {text : List Char} {escaped ends : Bool}
    (unclosed : scan escaped text = some ends) :
    quoteKeys text = text ∨
      ∃ before word gap after, FirstKey escaped text before word gap after := by
  induction text generalizing escaped with
  | nil => exact .inl quoteKeys_nil
  | cons c rest ih =>
      obtain ⟨now, restUnclosed, ofQuote, next⟩ := scan_step unclosed
      have copied (step : quoteKeys (c :: rest) = c :: quoteKeys rest) :
          quoteKeys (c :: rest) = c :: rest ∨
            ∃ before word gap after, FirstKey escaped (c :: rest) before word gap after := by
        rcases ih restUnclosed with same | ⟨before, word, gap, after, first⟩
        · exact .inl (by rw [step, same])
        · refine .inr ⟨c :: before, word, gap, after, ?_, ?_, ?_, first.word_isWord,
            first.gap_blank⟩
          · rw [first.text_eq, List.cons_append]
          · rw [step, first.quoted_eq, List.cons_append]
          · rw [next]
            exact first.before_inside
      by_cases isQuote : c = '"'
      · -- An escaped quote opens nothing: the text behind it is as unclosed as before it.
        rw [ofQuote isQuote] at restUnclosed
        exact copied (by rw [isQuote, quoteKeys_unread restUnclosed])
      · by_cases opens : Opens c
        · cases read : bareKey? rest with
          | none => exact copied (quoteKeys_noKey opens read)
          | some key =>
              obtain ⟨spaces, word, after⟩ := key
              obtain ⟨gap, found⟩ := keyAt_of_bareKey? read
              have notEscape : c ≠ '\\' := by
                rintro rfl
                exact absurd opens (by decide)
              refine .inr ⟨c :: spaces, word, gap, after, ?_, ?_, ?_, found.word_isWord,
                found.gap_blank⟩
              · rw [found.text_eq, List.cons_append]
              · rw [quoteKeys_key opens read, List.cons_append]
              · rw [scan_cons isQuote notEscape]
                exact inside_of_blank found.spaces_blank
        · exact copied (quoteKeys_plain ⟨isQuote, opens⟩)

theorem FirstKey.after_unclosed {text before word gap after : List Char} {ends : Bool}
    (first : FirstKey false text before word gap after) (unclosed : scan false text = some ends) :
    scan false (':' :: after) = some ends := by
  have beforeInside : Inside before := first.before_inside
  have keyInside : Inside (word ++ gap) :=
    (inside_of_isWord first.word_isWord).append (inside_of_blank first.gap_blank)
  rw [first.text_eq, beforeInside.scan_append, ← List.append_assoc,
    keyInside.scan_append] at unclosed
  exact unclosed

/-! ### Quoting twice -/

theorem plain_colon : Plain ':' := by decide

/-- The quote that is not closed may be closed by a quote around a key. That is the end of a literal
then, and the other quote around the key opens one that is not closed either. -/
theorem quoteKeys_unclosed_twice {text : List Char} {ends : Bool}
    (unclosed : scan false text = some ends) :
    quoteKeys ('"' :: quoteKeys text) = '"' :: quoteKeys text := by
  induction lengthIs : text.length using Nat.strongRecOn generalizing text with
  | ind length ih =>
      rcases quoteKeys_unclosed unclosed with same | ⟨before, word, gap, after, first⟩
      · rw [same, quoteKeys_unread unclosed, same]
      · have shorter : (':' :: after).length < length := by
          have wordPresent : word ≠ [] := by
            rintro rfl
            cases first.word_isWord
          have positive := List.length_pos_iff.2 wordPresent
          rw [← lengthIs, first.text_eq]
          simp only [List.length_append, List.length_cons]
          omega
        have again := ih _ shorter (first.after_unclosed unclosed) rfl
        rw [quoteKeys_plain plain_colon] at again
        have wordPlain : ∀ c ∈ word, Plain c :=
          fun c member => plain_of_isKeyChar (isKeyChar_of_mem first.word_isWord member)
        rw [first.quoted_eq, quoteKeys_inside first.before_inside, quoteKeys_append_plain wordPlain,
          again]

/-- Every character of a key and around it is copied, so quoting makes no new bare keys. -/
theorem KeyAt.of_quoteKeys {text spaces word gap after : List Char}
    (found : KeyAt (quoteKeys text) spaces word gap after) :
    ∃ rest, KeyAt text spaces word gap rest := by
  have quoted : quoteKeys text = (spaces ++ (word ++ (gap ++ [':']))) ++ after := by
    rw [found.text_eq]
    simp
  have plain : ∀ c ∈ spaces ++ (word ++ (gap ++ [':'])), Plain c := by
    intro c member
    simp only [List.mem_append, List.mem_singleton] at member
    rcases member with inSpaces | inWord | inGap | isColon
    · exact plain_of_isSpace (found.spaces_blank c inSpaces)
    · exact plain_of_isKeyChar (isKeyChar_of_mem found.word_isWord inWord)
    · exact plain_of_isSpace (found.gap_blank c inGap)
    · rw [isColon]
      exact plain_colon
  obtain ⟨rest, rfl, _⟩ := eq_append_of_quoteKeys plain quoted
  exact ⟨rest, by simp, found.spaces_blank, found.word_isWord, found.gap_blank⟩

theorem bareKey?_quoteKeys {text : List Char} (unread : bareKey? text = none) :
    bareKey? (quoteKeys text) = none := by
  cases read : bareKey? (quoteKeys text) with
  | none => rfl
  | some key =>
      obtain ⟨gap, found⟩ := keyAt_of_bareKey? read
      obtain ⟨rest, before⟩ := found.of_quoteKeys
      cases unread.symm.trans before.bareKey?_eq

theorem quoteKeys_quoteKeys (text : List Char) : quoteKeys (quoteKeys text) = quoteKeys text := by
  induction lengthIs : text.length using Nat.strongRecOn generalizing text with
  | ind length ih =>
      cases text with
      | nil => rw [quoteKeys_nil, quoteKeys_nil]
      | cons c rest =>
          have restTwice : quoteKeys (quoteKeys rest) = quoteKeys rest :=
            ih rest.length (by rw [← lengthIs]; exact Nat.lt_succ_self _) rest rfl
          by_cases isQuote : c = '"'
          · subst isQuote
            rcases closed_or_unclosed rest with ⟨body, after, rfl, inside⟩ | ⟨ends, unclosed⟩
            · have afterTwice := ih after.length (by rw [← lengthIs]; simp; omega) after rfl
              rw [quoteKeys_inside inside, quoteKeys_inside inside, afterTwice]
            · rw [quoteKeys_unread unclosed, quoteKeys_unclosed_twice unclosed]
          · by_cases opens : Opens c
            · cases read : bareKey? rest with
              | some key =>
                  obtain ⟨spaces, word, after⟩ := key
                  obtain ⟨gap, found⟩ := keyAt_of_bareKey? read
                  have afterTwice := ih after.length
                    (by rw [← lengthIs, found.text_eq]; simp; omega) after rfl
                  have noKey : bareKey? (spaces ++ '"' :: (word ++ '"' :: ':' :: quoteKeys after)) =
                      none := bareKey?_eq_none found.spaces_blank (by decide) (by decide)
                  rw [quoteKeys_key opens read, quoteKeys_noKey opens noKey,
                    quoteKeys_append_plain fun d member =>
                      plain_of_isSpace (found.spaces_blank d member),
                    quoteKeys_inside (inside_of_isWord found.word_isWord),
                    quoteKeys_plain plain_colon, afterTwice]
              | none =>
                  rw [quoteKeys_noKey opens read, quoteKeys_noKey opens (bareKey?_quoteKeys read),
                    restTwice]
            · rw [quoteKeys_plain ⟨isQuote, opens⟩, quoteKeys_plain ⟨isQuote, opens⟩, restTwice]

end ActorMachine.Relaxed
