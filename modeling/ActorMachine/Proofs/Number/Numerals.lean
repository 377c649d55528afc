import ActorMachine.Datum
import ActorMachine.Number.Text
import ActorMachine.Proofs.Number.Rounding

set_option autoImplicit false

/-!
Numbers in listing text read back.

A finite number is written without an exponent mark, as digits with at most one point among them and
a minus sign in front if it is negative. Such a text is an atom that looks like a number, and the
number nearest to its value is the one that was written.
-/

namespace ActorMachine

/-- A text that is read as one atom, whatever stands behind it. -/
structure Symbol.IsAtom (text : List Char) : Prop where
  present : text ≠ []
  notDot : text ≠ ['.']
  isAtomChar : ∀ c ∈ text, Symbol.isAtomChar c = true

namespace Number

/-! ### Digits -/

theorem digitsValue_eq (digits : List Char) :
    digitsValue digits = Nat.ofDigitChars 10 digits 0 := by
  unfold digitsValue
  rw [Nat.ofDigitChars_eq_foldl]
  simp only [Nat.mul_comm]

theorem digitsValue_digitsOf (n : Nat) : digitsValue (digitsOf n) = n := by
  rw [digitsValue_eq]
  exact Nat.ofDigitChars_ten_toDigits

theorem digitsValue_append_zeros (digits : List Char) (n : Nat) :
    digitsValue (digits ++ List.replicate n '0') = digitsValue digits * pow10 n := by
  rw [digitsValue_eq, digitsValue_eq, Nat.ofDigitChars_append, Nat.ofDigitChars_replicate_zero,
    Nat.mul_comm]
  rfl

theorem digitsValue_zeros_append (n : Nat) (digits : List Char) :
    digitsValue (List.replicate n '0' ++ digits) = digitsValue digits := by
  rw [digitsValue_eq, digitsValue_eq, Nat.ofDigitChars_append, Nat.ofDigitChars_replicate_zero,
    Nat.mul_zero]

theorem isDigit_of_mem_digitsOf {n : Nat} {c : Char} (member : c ∈ digitsOf n) :
    c.isDigit = true :=
  Nat.isDigit_of_mem_toDigits (by decide) (by decide) member

theorem isDigit_of_mem_zeros {n : Nat} {c : Char} (member : c ∈ List.replicate n '0') :
    c.isDigit = true := by
  rw [List.eq_of_mem_replicate member]
  rfl

/-- Digits are read up to the end of the text or to the point. -/
theorem spanDigits_append {digits rest : List Char} (allDigits : ∀ c ∈ digits, c.isDigit = true)
    (ends : ∀ c, rest.head? = some c → c.isDigit = false) :
    spanDigits (digits ++ rest) = (digits, rest) := by
  unfold spanDigits
  rw [List.takeWhile_append_of_pos allDigits, List.dropWhile_append_of_pos allDigits]
  cases rest with
  | nil => rw [List.takeWhile_nil, List.dropWhile_nil, List.append_nil]
  | cons c rest =>
      have notDigit : ¬c.isDigit = true := by
        rw [ends c rfl]
        exact Bool.false_ne_true
      rw [List.takeWhile_cons_of_neg notDigit, List.dropWhile_cons_of_neg notDigit, List.append_nil]

theorem spanDigits_all {digits : List Char} (allDigits : ∀ c ∈ digits, c.isDigit = true) :
    spanDigits digits = (digits, []) := by
  have spanned : spanDigits (digits ++ []) = (digits, []) := spanDigits_append allDigits nofun
  rwa [List.append_nil] at spanned

/-! ### Numerals without an exponent mark -/

/-- A text is a numeral without an exponent mark: the digits before the point, and those behind it
if there is one. -/
structure Written (text whole : List Char) (fraction : Option (List Char)) : Prop where
  text_eq : text = whole ++ (fraction.map ('.' :: ·)).getD []
  present : whole ≠ []
  wholeDigits : ∀ c ∈ whole, c.isDigit = true
  fractionDigits : ∀ c ∈ fraction.getD [], c.isDigit = true

theorem Written.starts {text whole : List Char} {fraction : Option (List Char)}
    (written : Written text whole fraction) : ∃ c rest, c.isDigit = true ∧ text = c :: rest := by
  obtain ⟨c, rest, rfl⟩ := List.exists_cons_of_ne_nil written.present
  exact ⟨c, _, written.wholeDigits c List.mem_cons_self, written.text_eq⟩

/-- The value of such a numeral. -/
def writtenValue (whole : List Char) (fraction : Option (List Char)) : Decimal :=
  ⟨digitsValue (whole ++ fraction.getD []), -((fraction.getD []).length : Int)⟩

theorem Written.read? {text whole : List Char} {fraction : Option (List Char)}
    (written : Written text whole fraction) :
    Decimal.read? text = some (writtenValue whole fraction) := by
  rw [written.text_eq]
  unfold Decimal.read? writtenValue
  cases fraction with
  | none =>
      rw [Option.map_none, Option.getD_none, List.append_nil, spanDigits_all written.wholeDigits]
      simp [readFraction, written.present]
  | some digits =>
      have fractionDigits : ∀ c ∈ digits, c.isDigit = true := written.fractionDigits
      have pointEnds : ∀ c, ('.' :: digits).head? = some c → c.isDigit = false := by
        intro c isHead
        cases isHead
        rfl
      rw [Option.map_some, Option.getD_some, spanDigits_append written.wholeDigits pointEnds]
      simp [readFraction, spanDigits_all fractionDigits, written.present]

/-- A decimal whose exponent is not negative is written with zeros behind its digits. -/
theorem written_raised (digits raise : Nat) :
    Written (positional ⟨digits, .ofNat raise⟩) (digitsOf digits ++ List.replicate raise '0') none ∧
      (writtenValue (digitsOf digits ++ List.replicate raise '0') none).toPattern =
        Decimal.toPattern ⟨digits, .ofNat raise⟩ := by
  have present : digitsOf digits ≠ [] := List.ne_nil_of_length_pos Nat.length_toDigits_pos
  refine ⟨⟨(List.append_nil _).symm, List.append_ne_nil_of_left_ne_nil present _, ?_, nofun⟩, ?_⟩
  · intro c member
    exact (List.mem_append.1 member).elim isDigit_of_mem_digitsOf isDigit_of_mem_zeros
  · apply Decimal.toPattern_congr
    unfold writtenValue
    rw [Option.getD_none, List.append_nil, digitsValue_append_zeros, digitsValue_digitsOf]
    simp [Decimal.numerator, Decimal.denominator, pow10]

/-- The point stands among the digits. -/
theorem written_among {digits lower : Nat} (inside : lower + 1 < (digitsOf digits).length) :
    let place := (digitsOf digits).length - (lower + 1)
    let whole := (digitsOf digits).take place
    let fraction := (digitsOf digits).drop place
    Written (positional ⟨digits, .negSucc lower⟩) whole (some fraction) ∧
      writtenValue whole (some fraction) = ⟨digits, .negSucc lower⟩ := by
  intro place whole fraction
  refine ⟨⟨if_pos inside, ?_, ?_, ?_⟩, ?_⟩
  · apply List.ne_nil_of_length_pos
    rw [List.length_take]
    omega
  · exact fun c member => isDigit_of_mem_digitsOf (List.mem_of_mem_take member)
  · exact fun c member => isDigit_of_mem_digitsOf (List.mem_of_mem_drop member)
  · have behind : fraction.length = lower + 1 := by
      rw [List.length_drop]
      omega
    unfold writtenValue
    rw [Option.getD_some, behind, List.take_append_drop, digitsValue_digitsOf]
    rfl

/-- Zeros stand between the point and the digits. -/
theorem written_behind {digits lower : Nat} (outside : ¬lower + 1 < (digitsOf digits).length) :
    let zeros := List.replicate (lower + 1 - (digitsOf digits).length) '0'
    Written (positional ⟨digits, .negSucc lower⟩) ['0'] (some (zeros ++ digitsOf digits)) ∧
      writtenValue ['0'] (some (zeros ++ digitsOf digits)) = ⟨digits, .negSucc lower⟩ := by
  intro zeros
  refine ⟨⟨if_neg outside, List.cons_ne_nil _ _, ?_, ?_⟩, ?_⟩
  · intro c member
    rw [List.mem_singleton.1 member]
    rfl
  · intro c member
    exact (List.mem_append.1 member).elim isDigit_of_mem_zeros isDigit_of_mem_digitsOf
  · have behind : (zeros ++ digitsOf digits).length = lower + 1 := by
      rw [List.length_append, List.length_replicate]
      omega
    have value : digitsValue (['0'] ++ (zeros ++ digitsOf digits)) = digits :=
      calc digitsValue (['0'] ++ (zeros ++ digitsOf digits))
          = digitsValue (zeros ++ digitsOf digits) := digitsValue_zeros_append 1 _
        _ = digitsValue (digitsOf digits) := digitsValue_zeros_append _ _
        _ = digits := digitsValue_digitsOf digits
    unfold writtenValue
    rw [Option.getD_some, behind, value]
    rfl

/-- A decimal in positional notation is a numeral with its value. -/
theorem written_positional (d : Decimal) :
    ∃ whole fraction, Written (positional d) whole fraction ∧
      (writtenValue whole fraction).toPattern = d.toPattern := by
  obtain ⟨digits, exponent⟩ := d
  cases exponent with
  | ofNat raise => exact ⟨_, _, written_raised digits raise⟩
  | negSucc lower =>
      by_cases inside : lower + 1 < (digitsOf digits).length
      · obtain ⟨written, value⟩ := written_among inside
        exact ⟨_, _, written, by rw [value]⟩
      · obtain ⟨written, value⟩ := written_behind inside
        exact ⟨_, _, written, by rw [value]⟩

/-! ### Texts of numbers -/

theorem toLower_of_isDigit {c : Char} (digit : c.isDigit = true) : c.toLower = c := by
  have bounds : '0'.val ≤ c.val ∧ c.val ≤ '9'.val := by simpa [Char.isDigit] using digit
  unfold Char.toLower
  refine dif_neg ?_
  rintro ⟨upper, _⟩
  have tooLarge : (65 : UInt32) ≤ 57 := UInt32.le_trans upper bounds.2
  exact absurd tooLarge (by decide)

/-- A numeral that starts with a digit is none of the words. -/
theorem readPattern?_of_isDigit {c : Char} (digit : c.isDigit = true) (rest : List Char) :
    readPattern? (c :: rest) = (Decimal.read? (c :: rest)).map Decimal.toPattern := by
  have notLetter : ∀ letter word, letter.isDigit = false →
      (c :: rest).map Char.toLower ≠ letter :: word := by
    intro letter word isLetter same
    rw [List.map_cons, toLower_of_isDigit digit] at same
    rw [List.cons.inj same |>.1, isLetter] at digit
    cases digit
  unfold readPattern?
  dsimp only
  rw [if_neg, if_neg (notLetter 'n' _ rfl)]
  rintro (isInf | isInfinity)
  · exact notLetter 'i' _ rfl isInf
  · exact notLetter 'i' _ rfl isInfinity

theorem readNumber?_of_isDigit {c : Char} (digit : c.isDigit = true) (rest : List Char) :
    readNumber? (c :: rest) = (readPattern? (c :: rest)).map (ofPattern false) := by
  unfold readNumber?
  split
  · rename_i same
    cases same
    cases digit
  · rename_i same
    cases same
    cases digit
  · rfl

/-- The text of a finite number: a sign if it is negative, and a numeral with its magnitude. -/
theorem text_eq_of_isFinite {x : Number} (finite : x.isFinite = true) :
    x.text.toList = if x.isNegative = true then '-' :: positional (shortest .upper x.pattern)
      else positional (shortest .upper x.pattern) := by
  have below : x.pattern < infinity := of_decide_eq_true finite
  have isNumber : x.isNaN = false := decide_eq_false (Nat.not_lt.2 (Nat.le_of_lt below))
  have bounded : x.isInfinite = false := decide_eq_false (Nat.ne_of_lt below)
  unfold text
  simp only [isNumber, bounded, Bool.false_eq_true, if_false, signed, String.toList_ofList]

/-- A finite number reads back from its text. -/
theorem readNumber?_text {x : Number} (finite : x.isFinite = true) :
    readNumber? x.text.toList = some x := by
  have below : x.pattern < infinity := of_decide_eq_true finite
  obtain ⟨whole, fraction, written, samePattern⟩ := written_positional (shortest .upper x.pattern)
  rw [toPattern_shortest .upper below] at samePattern
  obtain ⟨c, rest, digit, starts⟩ := written.starts
  rw [text_eq_of_isFinite finite]
  have pattern : readPattern? (positional (shortest .upper x.pattern)) = some x.pattern := by
    rw [starts, readPattern?_of_isDigit digit, ← starts, written.read?, Option.map_some,
      samePattern]
  have whole := x.ofPattern_isNegative_pattern
  cases negative : x.isNegative with
  | true =>
      rw [negative] at whole
      simp only [if_true, readNumber?, pattern, Option.map_some, whole]
  | false =>
      rw [negative] at whole
      rw [if_neg Bool.false_ne_true, starts, readNumber?_of_isDigit digit, ← starts, pattern,
        Option.map_some, whole]

/-! ### Numbers as atoms -/

theorem ne_of_isDigit {c other : Char} (digit : c.isDigit = true)
    (notDigit : other.isDigit = false) : c ≠ other := by
  rintro rfl
  rw [notDigit] at digit
  cases digit

theorem isAtomChar_of_isDigit {c : Char} (digit : c.isDigit = true) :
    Symbol.isAtomChar c = true := by
  have bounds : '0'.val ≤ c.val ∧ c.val ≤ '9'.val := by simpa [Char.isDigit] using digit
  have low : 48 ≤ c.toNat := UInt32.le_iff_toNat_le.1 bounds.1
  have high : c.toNat ≤ 57 := UInt32.le_iff_toNat_le.1 bounds.2
  have notBlank : Text.isBlank c = false := by
    unfold Text.isBlank
    simp only [Bool.or_eq_false_iff, Bool.and_eq_false_iff, decide_eq_false_iff_not]
    omega
  have notDelimiter : Symbol.isDelimiter c = false := by
    have different : ∀ other : Char, other.isDigit = false → c ≠ other :=
      fun _ => ne_of_isDigit digit
    simp [Symbol.isDelimiter, different]
  simp [Symbol.isAtomChar, notBlank, notDelimiter]

theorem Written.isAtomChar {text whole : List Char} {fraction : Option (List Char)}
    (written : Written text whole fraction) {c : Char} (member : c ∈ text) :
    Symbol.isAtomChar c = true := by
  rw [written.text_eq] at member
  rcases List.mem_append.1 member with inWhole | behind
  · exact isAtomChar_of_isDigit (written.wholeDigits c inWhole)
  · cases isFraction : fraction with
    | none =>
        rw [isFraction] at behind
        cases behind
    | some digits =>
        rw [isFraction] at behind
        rcases List.mem_cons.1 behind with rfl | inFraction
        · rfl
        · refine isAtomChar_of_isDigit (written.fractionDigits c ?_)
          rw [isFraction]
          exact inFraction

theorem looksNumeric_of_isDigit {c : Char} (digit : c.isDigit = true) (rest : List Char) :
    Symbol.looksNumeric (c :: rest) = true ∧ Symbol.looksNumeric ('-' :: c :: rest) = true := by
  refine ⟨?_, ?_⟩
  · unfold Symbol.looksNumeric
    split
    · rename_i same
      cases same
    · rename_i same
      exact absurd (List.cons.inj same).1 (ne_of_isDigit digit rfl)
    · rename_i same
      exact absurd (List.cons.inj same).1 (ne_of_isDigit digit rfl)
    · rename_i same
      exact absurd (List.cons.inj same).1 (ne_of_isDigit digit rfl)
    · rename_i same
      rw [← (List.cons.inj same).1]
      exact digit
  · simp only [Symbol.looksNumeric]
    split
    · rename_i same
      exact absurd (List.cons.inj same).1 (ne_of_isDigit digit rfl)
    · exact digit

/-- The text of a finite number looks like a number. -/
theorem looksNumeric_text {x : Number} (finite : x.isFinite = true) :
    Symbol.looksNumeric x.text.toList = true := by
  obtain ⟨whole, fraction, written, _⟩ := written_positional (shortest .upper x.pattern)
  obtain ⟨c, rest, digit, starts⟩ := written.starts
  obtain ⟨unsigned, signed⟩ := looksNumeric_of_isDigit digit rest
  rw [text_eq_of_isFinite finite, starts]
  cases x.isNegative with
  | true => exact signed
  | false => exact unsigned

/-- The text of a finite number is an atom. -/
theorem isAtom_text {x : Number} (finite : x.isFinite = true) : Symbol.IsAtom x.text.toList := by
  have numeric := looksNumeric_text finite
  refine ⟨?_, ?_, ?_⟩
  · intro empty
    rw [empty] at numeric
    cases numeric
  · intro dot
    rw [dot] at numeric
    cases numeric
  · obtain ⟨whole, fraction, written, _⟩ := written_positional (shortest .upper x.pattern)
    rw [text_eq_of_isFinite finite]
    intro c member
    cases negative : x.isNegative with
    | true =>
        rw [if_pos negative] at member
        rcases List.mem_cons.1 member with rfl | behind
        · rfl
        · exact written.isAtomChar behind
    | false =>
        rw [negative, if_neg Bool.false_ne_true] at member
        exact written.isAtomChar member

end Number

end ActorMachine
