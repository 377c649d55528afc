import ActorMachine.Number.Binary

set_option autoImplicit false

/-!
Decimal numerals and the binary numbers they denote.

A `Decimal` is a natural times a power of ten with a sign. `Decimal.read?` reads an unsigned numeral
with an optional point and an optional exponent; `readNumber?` adds the sign and the words for the
infinities and for what is not a number. The result is always the nearest binary number.
-/

namespace ActorMachine.Number

/-- The magnitude `digits * 10 ^ exponent`. -/
structure Decimal where
  digits : Nat
  exponent : Int

/-- Ten to a power. -/
def pow10 (n : Nat) : Nat := Nat.pow 10 n

namespace Decimal

/-- The nearest pattern. Exponents from 309 on are beyond every finite number, and a magnitude below
`2 ^ -1076` is nearest to zero; neither needs its power of ten. -/
def toPattern (d : Decimal) : Nat :=
  match d.exponent with
  | .ofNat raise =>
      if d.digits = 0 then 0
      else if 309 ≤ raise then infinity
      else nearest (d.digits * pow10 raise) 1
  | .negSucc lower =>
      if d.digits.log2 + 1077 ≤ 3 * (lower + 1) then 0
      else nearest d.digits (pow10 (lower + 1))

end Decimal

/-- The leading decimal digits of a text and the rest of it. -/
def spanDigits (text : List Char) : List Char × List Char :=
  (text.takeWhile Char.isDigit, text.dropWhile Char.isDigit)

/-- The natural that decimal digits spell. -/
def digitsValue (digits : List Char) : Nat :=
  digits.foldl (fun value digit => value * 10 + (digit.toNat - '0'.toNat)) 0

/-- An exponent after its mark: an optional sign and at least one digit. -/
def readExponent? (text : List Char) : Option (Int × List Char) :=
  let (negative, text) :=
    match text with
    | '-' :: rest => (true, rest)
    | '+' :: rest => (false, rest)
    | _ => (false, text)
  match spanDigits text with
  | ([], _) => none
  | (digits, rest) =>
      let size : Int := digitsValue digits
      some (if negative then -size else size, rest)

/-- The digits after a point, if there is one. -/
def readFraction (text : List Char) : List Char × List Char :=
  match text with
  | '.' :: rest => spanDigits rest
  | _ => ([], text)

/-- An unsigned numeral that takes up the whole text. Digits may miss before or after the point, but
not on both sides of it. -/
def Decimal.read? (text : List Char) : Option Decimal :=
  let (whole, rest) := spanDigits text
  let (fraction, rest) := readFraction rest
  if whole.isEmpty && fraction.isEmpty then none
  else
    let digits := digitsValue (whole ++ fraction)
    match rest with
    | [] => some ⟨digits, -(fraction.length : Int)⟩
    | mark :: rest =>
        if mark = 'e' ∨ mark = 'E' then
          match readExponent? rest with
          | some (exponent, []) => some ⟨digits, exponent - fraction.length⟩
          | _ => none
        else none

/-- The pattern of an unsigned numeral or of one of the words `inf`, `infinity` and `nan` in any
case. -/
def readPattern? (text : List Char) : Option Nat :=
  let word := text.map Char.toLower
  if word = ['i', 'n', 'f'] ∨ word = ['i', 'n', 'f', 'i', 'n', 'i', 't', 'y'] then some infinity
  else if word = ['n', 'a', 'n'] then some notANumber
  else (Decimal.read? text).map Decimal.toPattern

/-- The number that a text spells: an optional sign, then a numeral or a word. -/
def readNumber? (text : List Char) : Option Number :=
  match text with
  | '-' :: rest => (readPattern? rest).map (ofPattern true)
  | '+' :: rest => (readPattern? rest).map (ofPattern false)
  | _ => (readPattern? text).map (ofPattern false)

/-- The value of one hexadecimal digit. -/
def hexDigit? (c : Char) : Option Nat :=
  if '0' ≤ c ∧ c ≤ '9' then some (c.toNat - '0'.toNat)
  else if 'a' ≤ c ∧ c ≤ 'f' then some (c.toNat - 'a'.toNat + 10)
  else if 'A' ≤ c ∧ c ≤ 'F' then some (c.toNat - 'A'.toNat + 10)
  else none

/-- The natural that hexadecimal digits spell. -/
def hexValue? (digits : List Char) : Option Nat :=
  digits.foldlM (fun value digit => (hexDigit? digit).map (value * 16 + ·)) 0

/-- A 64-bit word in hexadecimal: an optional plus sign and at least one digit. -/
def readHexWord? (text : List Char) : Option Nat :=
  let digits := match text with
    | '+' :: rest => rest
    | _ => text
  if digits.isEmpty then none
  else (hexValue? digits).filter (· < 0x10000000000000000)

end ActorMachine.Number
