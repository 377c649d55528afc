import ActorMachine.Proofs.Number.Numerals
import ActorMachine.Proofs.Wire.Keys
import ActorMachine.Wire.Json

set_option autoImplicit false

/-!
Numbers in JSON.

Every numeral of the grammar is read as the number nearest to its value. A finite number is written
as a numeral that it is nearest to, with a point or with an exponent. Main statements:
`Json.readNumber?_numeral` and `Number.numeral_of_wireText`.
-/

namespace ActorMachine

namespace Relaxed

open Number

/-- The digits behind the point. -/
def Numeral.places (numeral : Numeral) : List Char :=
  match numeral.fraction with
  | some digits => digits.text
  | none => []

def Exponent.value (exponent : Exponent) : Int :=
  if exponent.sign = ['-'] then -(digitsValue exponent.digits.text : Int)
  else digitsValue exponent.digits.text

def Numeral.power (numeral : Numeral) : Int :=
  match numeral.exponent with
  | some exponent => exponent.value
  | none => 0

/-- The magnitude of a numeral. -/
def Numeral.decimal (numeral : Numeral) : Decimal :=
  ⟨digitsValue (numeral.whole.text ++ numeral.places), numeral.power - numeral.places.length⟩

end Relaxed

/-! ### Reading numerals -/

namespace Json

open Number Relaxed

/-- The text does not go on with a part of a number. -/
def EndsNumber (rest : List Char) : Prop :=
  ∀ c, rest.head? = some c → c.isDigit = false ∧ c ≠ '.' ∧ c ≠ 'e' ∧ c ≠ 'E'

theorem spanDigits_text (digits : Digits) {rest : List Char}
    (ends : ∀ c, rest.head? = some c → c.isDigit = false) :
    spanDigits (digits.text ++ rest) = (digits.text, rest) :=
  spanDigits_append digits.allDigits ends

theorem readWhole?_whole (numeral : Numeral) {rest : List Char}
    (ends : ∀ c, rest.head? = some c → c.isDigit = false) :
    readWhole? (numeral.whole.text ++ rest) = some (numeral.whole.text, rest) := by
  unfold readWhole?
  rw [spanDigits_text _ ends]
  split
  · rename_i isEmpty
    exact absurd (Prod.mk.inj isEmpty).1 numeral.whole.present
  · rename_i second more _ isZero
    have wholeIs := (Prod.mk.inj isZero).1
    have alone := numeral.noLeadingZero (by rw [wholeIs]; rfl)
    rw [wholeIs] at alone
    cases alone
  · rfl

theorem readFraction?_fraction (numeral : Numeral) {rest : List Char}
    (ends : ∀ c, rest.head? = some c → c.isDigit = false ∧ c ≠ '.') :
    readFraction? (numeral.fractionText ++ rest) = some (numeral.places, rest) := by
  unfold Numeral.fractionText Numeral.places
  cases numeral.fraction with
  | none =>
      unfold readFraction?
      split
      · rename_i isPoint
        exact absurd rfl (ends '.' (by rw [← List.nil_append rest, isPoint]; rfl)).2
      · rfl
  | some digits =>
      rw [List.cons_append, readFraction?, spanDigits_text digits fun c isHead => (ends c isHead).1]
      split
      · rename_i isEmpty
        exact absurd (Prod.mk.inj isEmpty).1 digits.present
      · rfl

theorem readExponent?_exponent (exponent : Exponent) {rest : List Char}
    (ends : ∀ c, rest.head? = some c → c.isDigit = false) :
    readExponent? (exponent.sign ++ (exponent.digits.text ++ rest)) =
      some (exponent.value, rest) := by
  obtain ⟨mark, sign, digits, isMark, isSign⟩ := exponent
  obtain ⟨c, more, digitsIs⟩ := List.exists_cons_of_ne_nil digits.present
  have digit := digits.allDigits c (by rw [digitsIs]; exact List.mem_cons_self)
  have notMinus : c ≠ '-' := ne_of_isDigit digit rfl
  have notPlus : c ≠ '+' := ne_of_isDigit digit rfl
  have spanned := spanDigits_text digits ends
  rw [digitsIs, List.cons_append] at spanned
  simp only [List.mem_cons, List.not_mem_nil, or_false] at isSign
  rcases isSign with rfl | rfl | rfl
  · simp [readExponent?, Exponent.value, digitsIs, spanned, notMinus, notPlus]
  · simp [readExponent?, Exponent.value, digitsIs, spanned]
  · simp [readExponent?, Exponent.value, digitsIs, spanned]

theorem readPower?_exponent (numeral : Numeral) {rest : List Char} (ends : EndsNumber rest) :
    readPower? (numeral.exponentText ++ rest) = some (numeral.power, rest) := by
  unfold Numeral.exponentText Numeral.power
  cases numeral.exponent with
  | none =>
      unfold readPower?
      split
      · rename_i isMark
        exact absurd rfl (ends 'e' (by rw [← List.nil_append rest, isMark]; rfl)).2.2.1
      · rename_i isMark
        exact absurd rfl (ends 'E' (by rw [← List.nil_append rest, isMark]; rfl)).2.2.2
      · rfl
  | some exponent =>
      have read := readExponent?_exponent exponent fun c isHead => (ends c isHead).1
      have isMark := exponent.isMark
      simp only [List.mem_cons, List.not_mem_nil, or_false] at isMark
      dsimp only
      rw [Exponent.text, List.cons_append, List.append_assoc]
      rcases isMark with isMark | isMark
      · rw [isMark]
        exact read
      · rw [isMark]
        exact read

theorem head_exponentText (numeral : Numeral) {rest : List Char} (ends : EndsNumber rest) (c : Char)
    (isHead : (numeral.exponentText ++ rest).head? = some c) : c.isDigit = false ∧ c ≠ '.' := by
  unfold Numeral.exponentText at isHead
  split at isHead
  · rename_i exponent _
    cases isHead
    have known : ∀ d ∈ ['e', 'E'], d.isDigit = false ∧ d ≠ '.' := by simp
    exact known exponent.mark exponent.isMark
  · exact ⟨(ends c isHead).1, (ends c isHead).2.1⟩

theorem head_fractionText (numeral : Numeral) {rest : List Char} (ends : EndsNumber rest) (c : Char)
    (isHead : (numeral.fractionText ++ (numeral.exponentText ++ rest)).head? = some c) :
    c.isDigit = false := by
  unfold Numeral.fractionText at isHead
  split at isHead
  · cases isHead
    rfl
  · exact (head_exponentText numeral ends c isHead).1

theorem readMagnitude?_numeral (numeral : Numeral) {rest : List Char} (ends : EndsNumber rest)
    (finite : numeral.decimal.toPattern < infinity) :
    readMagnitude? (numeral.magnitude ++ rest) = some (numeral.decimal.toPattern, rest) := by
  unfold readMagnitude?
  rw [Numeral.magnitude, List.append_assoc, List.append_assoc,
    readWhole?_whole numeral (head_fractionText numeral ends)]
  dsimp only [Option.bind_eq_bind, Option.bind_some]
  rw [readFraction?_fraction numeral (head_exponentText numeral ends)]
  dsimp only [Option.bind_some]
  rw [readPower?_exponent numeral ends]
  dsimp only [Option.bind_some]
  exact if_pos finite

/-- A numeral is read as the number nearest to its value. -/
theorem readNumber?_numeral (numeral : Numeral) {rest : List Char} (ends : EndsNumber rest)
    (finite : numeral.decimal.toPattern < infinity) :
    readNumber? (numeral.text ++ rest) =
      some (.number (ofPattern numeral.negative numeral.decimal.toPattern), rest) := by
  have read := readMagnitude?_numeral numeral ends finite
  unfold Numeral.text
  cases numeral.negative with
  | true =>
      rw [if_pos rfl, List.cons_append, readNumber?, read]
      rfl
  | false =>
      obtain ⟨c, more, magnitudeIs, digit⟩ := numeral.magnitude_eq_cons
      rw [if_neg Bool.false_ne_true]
      unfold readNumber?
      split
      · rename_i isSign
        rw [magnitudeIs] at isSign
        exact absurd (List.cons.inj isSign).1 (ne_of_isDigit digit rfl)
      · rw [read]
        rfl

end Json

/-! ### Writing numerals -/

namespace Number

open Relaxed

theorem digitsOf_ne_nil (n : Nat) : digitsOf n ≠ [] := Nat.toDigits_ne_nil

theorem head?_append {left : List Char} (present : left ≠ []) (right : List Char) :
    (left ++ right).head? = left.head? := by
  cases left with
  | nil => exact absurd rfl present
  | cons c left => rfl

/-- Digits start with zero only if they are those of zero. -/
theorem eq_zero_of_head_digitsOf {n : Nat} (isHead : (digitsOf n).head? = some '0') : n = 0 := by
  induction n using Nat.strongRecOn with
  | ind n ih =>
      unfold digitsOf at isHead ih
      rw [Nat.toDigits_eq_if (by decide)] at isHead
      split at isHead
      · exact Nat.digitChar_eq_zero.1 (Option.some.inj isHead)
      · rename_i large
        rw [head?_append Nat.toDigits_ne_nil] at isHead
        have isZero := ih (n / 10) (by omega) isHead
        omega

/-- The text is that of an unsigned numeral with the decimal's nearest number. -/
def IsMagnitude (text : List Char) (d : Decimal) : Prop :=
  ∃ numeral : Numeral, numeral.magnitude = text ∧ numeral.decimal.toPattern = d.toPattern

theorem Written.isMagnitude {text whole fraction : List Char} {d : Decimal}
    (written : Written text whole (some fraction)) (present : fraction ≠ [])
    (alone : whole.head? = some '0' → whole = ['0'])
    (samePattern : (writtenValue whole (some fraction)).toPattern = d.toPattern) :
    IsMagnitude text d := by
  obtain ⟨rfl, wholePresent, wholeDigits, fractionDigits⟩ := written
  refine ⟨⟨false, ⟨whole, wholePresent, wholeDigits⟩, some ⟨fraction, present, fractionDigits⟩,
    none, alone⟩, ?_, ?_⟩
  · simp [Numeral.magnitude, Numeral.fractionText, Numeral.exponentText]
  · rw [← samePattern]
    simp [Numeral.decimal, Numeral.places, Numeral.power, writtenValue]

theorem toPattern_zeroPlace (whole : List Char) :
    (writtenValue whole (some ['0'])).toPattern = (writtenValue whole none).toPattern := by
  have value : digitsValue (whole ++ ['0']) = digitsValue whole * pow10 1 :=
    digitsValue_append_zeros whole 1
  apply Decimal.toPattern_congr
  simp [writtenValue, Decimal.numerator, Decimal.denominator, value, pow10]

theorem isMagnitude_raised {digits raise : Nat} (noZeros : digits = 0 → raise = 0) :
    IsMagnitude (positional ⟨digits, .ofNat raise⟩ ++ ['.', '0']) ⟨digits, .ofNat raise⟩ := by
  obtain ⟨⟨_, present, wholeDigits, _⟩, samePattern⟩ := written_raised digits raise
  let whole := digitsOf digits ++ List.replicate raise '0'
  have written : Written (whole ++ ['.', '0']) whole (some ['0']) :=
    ⟨rfl, present, wholeDigits, by simp⟩
  refine written.isMagnitude (List.cons_ne_nil _ _) ?_ ?_
  · intro isHead
    rw [head?_append (digitsOf_ne_nil digits)] at isHead
    have isZero := eq_zero_of_head_digitsOf isHead
    have noRaise := noZeros isZero
    subst isZero noRaise
    rfl
  · rw [toPattern_zeroPlace, samePattern]

theorem isMagnitude_pointed (digits lower : Nat) :
    IsMagnitude (positional ⟨digits, .negSucc lower⟩) ⟨digits, .negSucc lower⟩ := by
  by_cases inside : lower + 1 < (digitsOf digits).length
  · obtain ⟨written, value⟩ := written_among inside
    refine written.isMagnitude ?_ ?_ (by rw [value])
    · apply List.ne_nil_of_length_pos
      rw [List.length_drop]
      omega
    · intro isHead
      have starts : (digitsOf digits).head? = some '0' := by
        rw [← isHead, ← head?_append written.present, List.take_append_drop]
      rw [eq_zero_of_head_digitsOf starts] at inside
      exact absurd inside (by simp [digitsOf])
  · obtain ⟨written, value⟩ := written_behind inside
    exact written.isMagnitude (List.append_ne_nil_of_right_ne_nil _ (digitsOf_ne_nil digits))
      (fun _ => rfl) (by rw [value])

def digitsText (n : Nat) : Digits :=
  ⟨digitsOf n, digitsOf_ne_nil n, fun _ => isDigit_of_mem_digitsOf⟩

/-- The exponent that is written for a whole number. -/
def exponentOf : Int → Exponent
  | .ofNat raise => ⟨'e', ['+'], digitsText raise, by decide, by decide⟩
  | .negSucc lower => ⟨'e', ['-'], digitsText (lower + 1), by decide, by decide⟩

theorem value_exponentOf (power : Int) : (exponentOf power).value = power := by
  cases power with
  | ofNat raise => simp [exponentOf, Exponent.value, digitsText, digitsValue_digitsOf]
  | negSucc lower =>
      simp only [exponentOf, Exponent.value, if_pos, digitsText, digitsValue_digitsOf]
      rfl

theorem scientific_cons (first : Char) (more : List Char) (power : Int) :
    scientific (first :: more) power =
      first :: ((if more = [] then [] else '.' :: more) ++ (exponentOf power).text) := by
  cases more <;> cases power <;> rfl

theorem isMagnitude_scientific {first : Char} {more : List Char}
    (allDigits : ∀ c ∈ first :: more, c.isDigit = true) (power : Int) :
    IsMagnitude (scientific (first :: more) power)
      ⟨digitsValue (first :: more), power - more.length⟩ := by
  have firstDigit : ∀ c ∈ [first], c.isDigit = true := by
    intro c member
    rw [List.mem_singleton.1 member]
    exact allDigits first List.mem_cons_self
  have alone : [first].head? = some '0' → [first] = ['0'] := by
    intro isHead
    cases isHead
    rfl
  let whole : Digits := ⟨[first], List.cons_ne_nil _ _, firstDigit⟩
  rw [scientific_cons]
  cases more with
  | nil =>
      refine ⟨⟨false, whole, none, some (exponentOf power), alone⟩, rfl, ?_⟩
      simp only [Numeral.decimal, Numeral.power, Numeral.places, value_exponentOf]
      rfl
  | cons second rest =>
      let fraction : Digits := ⟨second :: rest, List.cons_ne_nil _ _, fun c member =>
        allDigits c (List.mem_cons_of_mem _ member)⟩
      refine ⟨⟨false, whole, some fraction, some (exponentOf power), alone⟩, rfl, ?_⟩
      simp only [Numeral.decimal, Numeral.power, Numeral.places, value_exponentOf]
      rfl

theorem shortest_zero (tie : Tie) : shortest tie 0 = ⟨0, 0⟩ := by
  have noUnits : units 0 = 0 := if_pos (by decide)
  unfold shortest
  dsimp only
  rw [noUnits, if_pos ⟨Nat.zero_mod _, Nat.mul_pos (by decide) (pow2_pos 1074)⟩, Nat.zero_div]

/-- Zero is written with no zeros behind it. -/
theorem shortest_noZeros (tie : Tie) {magnitude raise : Nat} (finite : magnitude < infinity)
    (raised : (shortest tie magnitude).exponent = .ofNat raise)
    (isZero : (shortest tie magnitude).digits = 0) : raise = 0 := by
  have samePattern := toPattern_shortest tie finite
  rw [Decimal.toPattern, raised, isZero] at samePattern
  have noMagnitude : magnitude = 0 := samePattern.symm
  rw [noMagnitude, shortest_zero] at raised
  cases raised
  rfl

theorem isMagnitude_positional {d : Decimal}
    (noZeros : ∀ raise, d.exponent = .ofNat raise → d.digits = 0 → raise = 0) :
    IsMagnitude (if 0 ≤ d.exponent then positional d ++ ['.', '0'] else positional d) d := by
  obtain ⟨digits, exponent⟩ := d
  cases exponent with
  | ofNat raise =>
      have raised : (0 : Int) ≤ Int.ofNat raise := Int.natCast_nonneg raise
      rw [if_pos raised]
      exact isMagnitude_raised (noZeros raise rfl)
  | negSucc lower =>
      rw [if_neg (Int.not_le.2 (Int.negSucc_lt_zero lower))]
      exact isMagnitude_pointed digits lower

theorem isMagnitude_digitsOf (d : Decimal) :
    IsMagnitude (scientific (digitsOf d.digits) (d.exponent + (digitsOf d.digits).length - 1))
      d := by
  obtain ⟨first, more, digitsIs⟩ := List.exists_cons_of_ne_nil (digitsOf_ne_nil d.digits)
  have allDigits : ∀ c ∈ first :: more, c.isDigit = true := by
    rw [← digitsIs]
    exact fun _ => isDigit_of_mem_digitsOf
  have written := isMagnitude_scientific allDigits (d.exponent + (first :: more).length - 1)
  have moved : d.exponent + ((first :: more).length : Int) - 1 - more.length = d.exponent := by
    rw [List.length_cons]
    omega
  rw [moved, ← digitsIs, digitsValue_digitsOf] at written
  exact written

/-- A finite number is written as a numeral that it is nearest to. -/
theorem numeral_of_wireText {x : Number} (finite : x.isFinite = true) :
    ∃ numeral : Numeral, numeral.text = x.wireText.toList ∧ numeral.negative = x.isNegative ∧
      numeral.decimal.toPattern = x.pattern := by
  have below : x.pattern < infinity := of_decide_eq_true finite
  have magnitude : ∃ text, x.wireText = signed x.isNegative text ∧
      IsMagnitude text (shortest .even x.pattern) := by
    refine ⟨_, rfl, ?_⟩
    split
    · exact isMagnitude_positional fun raise => shortest_noZeros .even below
    · exact isMagnitude_digitsOf _
  obtain ⟨text, textIs, numeral, magnitudeIs, value⟩ := magnitude
  refine ⟨{ numeral with negative := x.isNegative }, ?_, rfl, ?_⟩
  · rw [textIs, signed, String.toList_ofList, ← magnitudeIs]
    rfl
  · rw [← toPattern_shortest .even below, ← value]
    rfl

end Number

end ActorMachine
