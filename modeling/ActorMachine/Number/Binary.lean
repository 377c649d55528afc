set_option autoImplicit false

/-!
Binary64 numbers.

A `Number` is a word of 64 bits, of which the highest is the sign. The low 63 bits are its
*pattern*. Patterns below `infinity` are the finite magnitudes in increasing order, and every finite
magnitude is a whole number of `2 ^ -1074`, its `units`. Rounding, whole parts and indices are
computed on these naturals, so each of them is a statement about `Nat`.
-/

namespace ActorMachine

/-- A binary64 number, given by its word. Also what is not a number has a sign. -/
structure Number where
  bits : UInt64
  deriving DecidableEq, Inhabited

namespace Number

/-- The pattern of infinity. Smaller patterns are finite magnitudes, larger ones are not numbers. -/
def infinity : Nat := 0x7FF0000000000000

/-- The pattern that stands for what is not a number. -/
def notANumber : Nat := 0x7FF8000000000000

/-- The weight of the sign bit. -/
def signWeight : Nat := 0x8000000000000000

/-- The weight of the leading bit of a significand, `2 ^ 52`. -/
def leadingBit : Nat := 0x10000000000000

/-- Two to a power. -/
def pow2 (n : Nat) : Nat := Nat.pow 2 n

/-- The magnitude bits of a number. -/
def pattern (x : Number) : Nat := x.bits.toNat % signWeight

/-- Whether the sign bit is set; negative zero is negative. -/
def isNegative (x : Number) : Bool := signWeight ≤ x.bits.toNat

/-- The number with the given sign and pattern. -/
def ofPattern (negative : Bool) (magnitude : Nat) : Number :=
  ⟨UInt64.ofNat (if negative then magnitude + signWeight else magnitude)⟩

theorem toNat_bits_ofPattern (negative : Bool) {magnitude : Nat} (small : magnitude < signWeight) :
    (ofPattern negative magnitude).bits.toNat =
      if negative then magnitude + signWeight else magnitude := by
  unfold signWeight at *
  cases negative <;> simp [ofPattern, signWeight] <;> omega

theorem pattern_ofPattern (negative : Bool) {magnitude : Nat} (small : magnitude < signWeight) :
    (ofPattern negative magnitude).pattern = magnitude := by
  rw [pattern, toNat_bits_ofPattern negative small]
  cases negative <;> simp [Nat.mod_eq_of_lt small]

theorem isNegative_ofPattern (negative : Bool) {magnitude : Nat} (small : magnitude < signWeight) :
    (ofPattern negative magnitude).isNegative = negative := by
  rw [isNegative, toNat_bits_ofPattern negative small]
  cases negative <;> simp [small]

/-- A number is its sign and its pattern. -/
theorem ofPattern_isNegative_pattern (x : Number) : ofPattern x.isNegative x.pattern = x := by
  have bound : x.bits.toNat < 0x10000000000000000 := x.bits.toNat_lt
  have split : (if x.isNegative then x.pattern + signWeight else x.pattern) = x.bits.toNat := by
    unfold isNegative pattern
    by_cases negative : signWeight ≤ x.bits.toNat <;> simp [negative] <;>
      unfold signWeight at * <;> omega
  rw [ofPattern, split, UInt64.ofNat_toNat]

def isZero (x : Number) : Bool := x.pattern = 0

def isFinite (x : Number) : Bool := x.pattern < infinity

def isInfinite (x : Number) : Bool := x.pattern = infinity

def isNaN (x : Number) : Bool := infinity < x.pattern

/-- The magnitude of a finite pattern, counted in `2 ^ -1074`. -/
def units (magnitude : Nat) : Nat :=
  if magnitude < leadingBit then magnitude
  else (leadingBit + magnitude % leadingBit) * pow2 (magnitude / leadingBit - 1)

/-- The units that make up one. -/
def unitsPerOne : Nat := pow2 1074

/-- The quotient rounded to the nearest natural, an exact half to the even one. -/
def roundHalfEven (numerator denominator : Nat) : Nat :=
  let quotient := numerator / denominator
  let twice := 2 * (numerator % denominator)
  if twice < denominator then quotient
  else if twice = denominator ∧ quotient % 2 = 0 then quotient
  else quotient + 1

/-- The pattern nearest to `numerator / denominator` units, an exact half to the even pattern;
magnitudes beyond the largest finite one by half a step or more become infinity.

A magnitude between `2 ^ (52 + e)` and `2 ^ (53 + e)` units is rounded to a multiple of `2 ^ e`
units, and `e * 2 ^ 52` plus that multiple is its pattern, also when rounding carries into the next
power of two. -/
def nearestUnits (numerator denominator : Nat) : Nat :=
  let exponent := (numerator / denominator).log2 - 52
  min (exponent * leadingBit + roundHalfEven numerator (denominator * pow2 exponent)) infinity

/-- The pattern nearest to `numerator / denominator`. -/
def nearest (numerator denominator : Nat) : Nat :=
  nearestUnits (numerator * unitsPerOne) denominator

/-- The number nearest to a natural. -/
def ofNat (n : Nat) : Number := ofPattern false (nearest n 1)

instance (n : Nat) : OfNat Number n := ⟨ofNat n⟩

/-- The whole part of the magnitude; infinity has one larger than every finite number's. -/
def wholePart (x : Number) : Nat := units x.pattern / unitsPerOne

def isWhole (x : Number) : Bool := units x.pattern % unitsPerOne = 0

/-- The largest number not above `x`. Whole numbers, infinities and not-a-number are their own
floor, so a zero keeps its sign. -/
def floor (x : Number) : Number :=
  if !x.isFinite || x.isWhole then x
  else if x.isNegative then ofPattern true (nearest (x.wholePart + 1) 1)
  else ofNat x.wholePart

/-- The largest index or count. -/
def maxIndex : Nat := 4294967295

/-- A whole number from zero to `maxIndex`, as used for indices and counts; negative zero is zero.
-/
def index? (x : Number) : Option Nat :=
  if !x.isFinite || !x.isWhole || (x.isNegative && !x.isZero) then none
  else if x.wholePart ≤ maxIndex then some x.wholePart else none

/-- A whole number from zero to `bound`, reached by dropping the fraction and clamping. What is not
a number counts as zero. -/
def clamp (x : Number) (bound : Nat) : Nat :=
  if x.isNaN || x.isNegative then 0 else min x.wholePart bound

/-! ### Orders -/

/-- The place of a number in the total order on words: negative zero stands before zero, and what is
not a number stands beyond the infinity of its sign. The words of negative numbers are turned around
and come before those of the others. -/
def rank (x : Number) : UInt64 :=
  if x.bits < 0x8000000000000000 then x.bits + 0x8000000000000000
  else 0xFFFFFFFFFFFFFFFF - x.bits

/-- The place of a number in the order by value, in which both zeros are equal. -/
def order (x : Number) : Int :=
  if x.isNegative then -(x.pattern : Int) else x.pattern

/-- Whether `x` is at most `y` by value; what is not a number is at most nothing. -/
def atMost (x y : Number) : Bool := !x.isNaN && !y.isNaN && decide (x.order ≤ y.order)

/-- Whether `x` is below `y` by value; what is not a number is below nothing. -/
def below (x y : Number) : Bool := !x.isNaN && !y.isNaN && decide (x.order < y.order)

/-- Whether two numbers have the same value; what is not a number has none. -/
def sameValue (x y : Number) : Bool := !x.isNaN && !y.isNaN && decide (x.order = y.order)

end Number

end ActorMachine
