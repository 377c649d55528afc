import ActorMachine.Number.Shortest

set_option autoImplicit false

/-!
The two ways in which numbers are written.

Both take the digits from `shortest`. Listing text is always positional and leaves out a point that
nothing follows; of two equally near decimals it takes the upper, and wire text the even one. Wire
text always shows that the number is a floating one: positional with a digit after the point for the
middle magnitudes, and with an exponent beyond them.
-/

namespace ActorMachine.Number

/-- The decimal digits of a natural. -/
def digitsOf (n : Nat) : List Char := Nat.toDigits 10 n

/-- A decimal without an exponent mark. -/
def positional (d : Decimal) : List Char :=
  let digits := digitsOf d.digits
  match d.exponent with
  | .ofNat raise => digits ++ List.replicate raise '0'
  | .negSucc lower =>
      let places := lower + 1
      if places < digits.length then
        digits.take (digits.length - places) ++ '.' :: digits.drop (digits.length - places)
      else '0' :: '.' :: List.replicate (places - digits.length) '0' ++ digits

/-- Puts the sign in front. -/
def signed (negative : Bool) (text : List Char) : String :=
  String.ofList (if negative then '-' :: text else text)

/-- The number in listing text: `1`, `-0`, `0.1`, `NaN`, `-inf`. -/
def text (x : Number) : String :=
  if x.isNaN then "NaN"
  else if x.isInfinite then signed x.isNegative ['i', 'n', 'f']
  else signed x.isNegative (positional (shortest .upper x.pattern))

/-- One digit, the other digits behind a point, and the exponent with its sign. -/
def scientific (digits : List Char) (exponent : Int) : List Char :=
  let mantissa := match digits with
    | lead :: second :: rest => lead :: '.' :: second :: rest
    | short => short
  let power := match exponent with
    | .ofNat raise => '+' :: digitsOf raise
    | .negSucc lower => '-' :: digitsOf (lower + 1)
  mantissa ++ 'e' :: power

/-- A finite number in wire text: `3.0`, `-0.0`, `0.00001`, `1e+16`, `1.25e-6`. Magnitudes from
`10 ^ -5` to below `10 ^ 16` and zero are positional. -/
def wireText (x : Number) : String :=
  let d := shortest .even x.pattern
  let digits := digitsOf d.digits
  let lead : Int := d.exponent + digits.length - 1
  signed x.isNegative <|
    if d.digits = 0 ∨ (-5 ≤ lead ∧ lead < 16) then
      if 0 ≤ d.exponent then positional d ++ ['.', '0'] else positional d
    else scientific digits lead

end ActorMachine.Number
