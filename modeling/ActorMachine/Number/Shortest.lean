import ActorMachine.Number.Decimal

set_option autoImplicit false

/-!
The shortest decimal that reads back.

A finite magnitude has two neighbours on every decimal grid: the multiples of a power of ten just
below and just above it. `shortest` goes from a coarse grid to finer ones and stops at the first
neighbour that `Decimal.toPattern` takes back to the magnitude. The finest grid, `10 ^ -1074`, holds
every finite magnitude itself, so the search always ends with a decimal that reads back.
-/

namespace ActorMachine.Number

/-- Which of two equally near decimals is taken. -/
inductive Tie where
  | upper
  /-- The one whose last digit is even. -/
  | even
  deriving DecidableEq, Repr

/-- Whether the lower of two equally near decimals is taken, which has the given digits. -/
def Tie.takesLower : Tie → Nat → Bool
  | .upper, _ => false
  | .even, digits => digits % 2 = 0

/-- The decimal `digits * 10 ^ (level - 1074)`. -/
def onGrid (digits level : Nat) : Decimal := ⟨digits, (level : Int) - 1074⟩

/-- The nearer of the neighbours of a magnitude on the grid of a level that read back as
`magnitude`. `scaled` is the magnitude in `10 ^ -1074`. -/
def neighbour? (tie : Tie) (magnitude scaled level : Nat) : Option Decimal :=
  let step := pow10 level
  let below := scaled / step
  let above := below + 1
  let twice := 2 * (scaled % step)
  let belowFits := (onGrid below level).toPattern = magnitude
  let aboveFits := (onGrid above level).toPattern = magnitude
  let belowNearer := twice < step || (twice = step && tie.takesLower below)
  if belowFits && (!aboveFits || belowNearer) then some (onGrid below level)
  else if aboveFits then some (onGrid above level)
  else none

/-- The first level, counting down, with a neighbour that reads back. -/
def searchGrid (tie : Tie) (magnitude scaled : Nat) : Nat → Decimal
  | 0 => onGrid scaled 0
  | level + 1 =>
      (neighbour? tie magnitude scaled (level + 1)).getD (searchGrid tie magnitude scaled level)

/-- A level whose grid step is above the magnitude of that many units: a magnitude of `n` bits is
below `10 ^ (n * 0.30103 + 1)`. -/
def coarseLevel (size : Nat) : Nat :=
  (((size.log2 : Int) - 1073) * 30103 / 100000 + 1075).toNat

/-- Moves trailing zeros of the digits into the exponent, at most as many as `fuel`. -/
def dropZeros : Nat → Decimal → Decimal
  | 0, d => d
  | fuel + 1, d =>
      if d.digits ≠ 0 ∧ d.digits % 10 = 0 then dropZeros fuel ⟨d.digits / 10, d.exponent + 1⟩ else d

/-- The decimal with the fewest digits that reads back as a finite pattern, of those the nearest. A
whole number below `2 ^ 53` has no neighbour nearer than one, so its own digits are the shortest. -/
def shortest (tie : Tie) (magnitude : Nat) : Decimal :=
  let size := units magnitude
  if size % unitsPerOne = 0 ∧ size < 2 * leadingBit * unitsPerOne then ⟨size / unitsPerOne, 0⟩
  else
    let found := searchGrid tie magnitude (size * Nat.pow 5 1074) (coarseLevel size)
    dropZeros found.digits.log2 found

end ActorMachine.Number
