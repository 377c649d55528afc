import ActorMachine.Number.Shortest

set_option autoImplicit false

/-!
Rounding depends on the value alone.

The pattern nearest to a quotient is the same for all ways to write the quotient, and a magnitude is
nearest to itself. So a decimal may be written with other digits and another exponent, as long as
its value is the same, and `shortest` gives a decimal that is taken back to the magnitude.
-/

namespace ActorMachine.Number

theorem pow2_pos (n : Nat) : 0 < pow2 n := Nat.two_pow_pos n

theorem pow2_le {m n : Nat} (below : m ≤ n) : pow2 m ≤ pow2 n :=
  Nat.pow_le_pow_right (by decide) below

theorem pow2_succ (n : Nat) : pow2 (n + 1) = 2 * pow2 n := Nat.pow_succ'

theorem pow2_add (m n : Nat) : pow2 (m + n) = pow2 m * pow2 n := Nat.pow_add 2 m n

theorem pow10_pos (n : Nat) : 0 < pow10 n := Nat.pow_pos (by decide)

theorem pow10_le {m n : Nat} (below : m ≤ n) : pow10 m ≤ pow10 n :=
  Nat.pow_le_pow_right (by decide) below

theorem pow10_add (m n : Nat) : pow10 (m + n) = pow10 m * pow10 n := Nat.pow_add 10 m n

/-! ### Naturals -/

theorem roundHalfEven_mul_right (quotient : Nat) {denominator : Nat} (positive : 0 < denominator) :
    roundHalfEven (quotient * denominator) denominator = quotient := by
  unfold roundHalfEven
  simp [Nat.mul_div_cancel quotient positive, positive]

theorem le_roundHalfEven (numerator denominator : Nat) :
    numerator / denominator ≤ roundHalfEven numerator denominator := by
  unfold roundHalfEven
  dsimp only
  split
  · exact Nat.le_refl _
  · split
    · exact Nat.le_refl _
    · exact Nat.le_succ _

theorem roundHalfEven_scale (numerator denominator : Nat) {factor : Nat} (positive : 0 < factor) :
    roundHalfEven (numerator * factor) (denominator * factor) =
      roundHalfEven numerator denominator := by
  have sameQuotient : numerator * factor / (denominator * factor) = numerator / denominator :=
    Nat.mul_div_mul_right numerator denominator positive
  have scaledRest : 2 * (numerator * factor % (denominator * factor)) =
      2 * (numerator % denominator) * factor := by
    rw [Nat.mul_mod_mul_right, Nat.mul_assoc]
  have sameOrder : 2 * (numerator % denominator) * factor < denominator * factor ↔
      2 * (numerator % denominator) < denominator := Nat.mul_lt_mul_right positive
  have sameTie : 2 * (numerator % denominator) * factor = denominator * factor ↔
      2 * (numerator % denominator) = denominator := Nat.mul_left_inj (Nat.ne_of_gt positive)
  unfold roundHalfEven
  simp only [sameQuotient, scaledRest, sameOrder, sameTie]

/-! ### Patterns -/

theorem nearestUnits_scale (numerator denominator : Nat) {factor : Nat} (positive : 0 < factor) :
    nearestUnits (numerator * factor) (denominator * factor) =
      nearestUnits numerator denominator := by
  unfold nearestUnits
  dsimp only
  rw [Nat.mul_div_mul_right numerator denominator positive, Nat.mul_right_comm denominator factor,
    roundHalfEven_scale numerator _ positive]

/-- Less than half a unit is nearest to zero. -/
theorem nearestUnits_eq_zero {numerator denominator : Nat} (small : 2 * numerator < denominator) :
    nearestUnits numerator denominator = 0 := by
  have noUnit : numerator / denominator = 0 := Nat.div_eq_of_lt (by omega)
  have allRest : numerator % denominator = numerator := Nat.mod_eq_of_lt (by omega)
  have one : denominator * pow2 0 = denominator := Nat.mul_one _
  unfold nearestUnits roundHalfEven
  simp [noUnit, allRest, small, one]

theorem log2_units {magnitude : Nat} (normal : leadingBit ≤ magnitude) :
    (units magnitude).log2 = 52 + (magnitude / leadingBit - 1) := by
  have value : units magnitude =
      (leadingBit + magnitude % leadingBit) * 2 ^ (magnitude / leadingBit - 1) :=
    if_neg (Nat.not_lt.2 normal)
  have below : magnitude % leadingBit < leadingBit := Nat.mod_lt _ (by decide)
  have leading : leadingBit = 2 ^ 52 := rfl
  have positive : units magnitude ≠ 0 := by
    rw [value]
    exact Nat.ne_of_gt (Nat.mul_pos (by omega) (Nat.two_pow_pos _))
  rw [Nat.log2_eq_iff positive, value, Nat.add_right_comm, Nat.pow_add, Nat.pow_add]
  exact ⟨Nat.mul_le_mul_right _ (by omega),
    Nat.mul_lt_mul_of_pos_right (by omega) (Nat.two_pow_pos _)⟩

/-- A finite magnitude, counted in units of any size, is nearest to itself. -/
theorem nearestUnits_units {magnitude : Nat} (finite : magnitude < infinity) {factor : Nat}
    (positive : 0 < factor) : nearestUnits (units magnitude * factor) factor = magnitude := by
  unfold nearestUnits
  dsimp only
  rw [Nat.mul_div_cancel _ positive]
  by_cases subnormal : magnitude < leadingBit
  · have size : magnitude.log2 - 52 = 0 := by
      by_cases zero : magnitude = 0
      · rw [zero]
        rfl
      · have small : magnitude.log2 < 52 := (Nat.log2_lt zero).2 subnormal
        omega
    have exact : units magnitude = magnitude := if_pos subnormal
    simp only [exact, size, pow2, Nat.pow_eq, Nat.pow_zero, Nat.mul_one, Nat.zero_mul, Nat.zero_add]
    rw [roundHalfEven_mul_right magnitude positive]
    exact Nat.min_eq_left (Nat.le_of_lt finite)
  · have normal := Nat.not_lt.1 subnormal
    have exponent : (units magnitude).log2 - 52 = magnitude / leadingBit - 1 := by
      rw [log2_units normal]
      omega
    have value : units magnitude =
        (leadingBit + magnitude % leadingBit) * pow2 (magnitude / leadingBit - 1) :=
      if_neg subnormal
    have step : 0 < factor * pow2 (magnitude / leadingBit - 1) := Nat.mul_pos positive (pow2_pos _)
    rw [exponent, value, Nat.mul_assoc, Nat.mul_comm (pow2 _) factor,
      roundHalfEven_mul_right _ step]
    -- The steps below the leading bit and the exponent make up the pattern.
    have split := Nat.div_add_mod magnitude leadingBit
    have atLeastOne : 1 ≤ magnitude / leadingBit := (Nat.one_le_div_iff (by decide)).2 normal
    have whole : (magnitude / leadingBit - 1) * leadingBit + leadingBit =
        leadingBit * (magnitude / leadingBit) := by
      rw [← Nat.succ_mul, Nat.succ_eq_add_one, Nat.sub_add_cancel atLeastOne, Nat.mul_comm]
    rw [← Nat.add_assoc, whole, split]
    exact Nat.min_eq_left (Nat.le_of_lt finite)

/-- What has more bits than the largest finite magnitude is nearest to infinity. -/
theorem nearestUnits_eq_infinity {size : Nat} (large : 1024 + 1074 ≤ size.log2) :
    nearestUnits size 1 = infinity := by
  have positive : size ≠ 0 := by
    rintro rfl
    exact absurd large (by decide)
  have lead : leadingBit ≤ roundHalfEven size (1 * pow2 (size.log2 - 52)) := by
    refine Nat.le_trans ?_ (le_roundHalfEven _ _)
    rw [Nat.one_mul, Nat.le_div_iff_mul_le (pow2_pos _)]
    calc leadingBit * pow2 (size.log2 - 52) = 2 ^ 52 * 2 ^ (size.log2 - 52) := rfl
      _ = 2 ^ size.log2 := by
          rw [← Nat.pow_add]
          congr 1
          omega
      _ ≤ size := Nat.log2_self_le positive
  have exponent : 2046 * leadingBit ≤ (size.log2 - 52) * leadingBit :=
    Nat.mul_le_mul_right _ (by omega)
  have beyond : infinity = 2046 * leadingBit + leadingBit := rfl
  unfold nearestUnits
  rw [Nat.div_one]
  refine Nat.min_eq_right ?_
  rw [beyond]
  exact Nat.add_le_add exponent lead

/-! ### Quotients -/

/-- Quotients with the same value have the same nearest pattern. -/
theorem nearest_congr {numerator denominator numerator' denominator' : Nat}
    (positive : 0 < denominator) (positive' : 0 < denominator')
    (sameValue : numerator * denominator' = numerator' * denominator) :
    nearest numerator denominator = nearest numerator' denominator' := by
  unfold nearest
  calc nearestUnits (numerator * unitsPerOne) denominator
      = nearestUnits (numerator * unitsPerOne * denominator') (denominator * denominator') :=
        (nearestUnits_scale _ _ positive').symm
    _ = nearestUnits (numerator' * unitsPerOne * denominator) (denominator' * denominator) := by
        rw [Nat.mul_right_comm, sameValue, Nat.mul_right_comm, Nat.mul_comm denominator]
    _ = nearestUnits (numerator' * unitsPerOne) denominator' := nearestUnits_scale _ _ positive

namespace Decimal

/-- The magnitude of a decimal as a quotient, above and below the line. -/
def numerator (d : Decimal) : Nat := d.digits * pow10 d.exponent.toNat

def denominator (d : Decimal) : Nat := pow10 (-d.exponent).toNat

/-- What is left out as too small is nearest to zero. -/
theorem nearest_eq_zero {digits lower : Nat} (small : digits.log2 + 1077 ≤ 3 * lower) :
    nearest digits (pow10 lower) = 0 := by
  apply nearestUnits_eq_zero
  have bits : digits < pow2 (digits.log2 + 1) := Nat.lt_log2_self
  calc 2 * (digits * unitsPerOne) < 2 * (pow2 (digits.log2 + 1) * unitsPerOne) :=
        Nat.mul_lt_mul_of_pos_left (Nat.mul_lt_mul_of_pos_right bits (pow2_pos _)) (by decide)
    _ = pow2 (digits.log2 + 1 + 1074 + 1) := by
        rw [pow2_succ (digits.log2 + 1 + 1074), pow2_add _ 1074, unitsPerOne]
    _ ≤ pow2 (3 * lower) := pow2_le (by omega)
    _ = 8 ^ lower := Nat.pow_mul 2 3 lower
    _ ≤ pow10 lower := Nat.pow_le_pow_left (by decide) lower

theorem le_log2_mul {m size : Nat} (large : pow2 m ≤ size) (n : Nat) :
    m + n ≤ (size * pow2 n).log2 := by
  have positive : 0 < size := Nat.lt_of_lt_of_le (pow2_pos m) large
  rw [Nat.le_log2 (Nat.ne_of_gt (Nat.mul_pos positive (pow2_pos n)))]
  change pow2 (m + n) ≤ _
  rw [pow2_add]
  exact Nat.mul_le_mul_right _ large

/-- What is left out as too large is nearest to infinity. -/
theorem nearest_eq_infinity {digits raise : Nat} (positive : digits ≠ 0) (large : 309 ≤ raise) :
    nearest (digits * pow10 raise) 1 = infinity := by
  apply nearestUnits_eq_infinity
  have enough : pow2 1024 ≤ pow10 309 := by decide +kernel
  have large : pow2 1024 ≤ digits * pow10 raise :=
    calc pow2 1024 ≤ pow10 309 := enough
      _ ≤ pow10 raise := pow10_le large
      _ ≤ digits * pow10 raise := Nat.le_mul_of_pos_left _ (Nat.pos_of_ne_zero positive)
  exact le_log2_mul large 1074

theorem toPattern_eq (d : Decimal) : d.toPattern = nearest d.numerator d.denominator := by
  obtain ⟨digits, exponent⟩ := d
  unfold toPattern numerator denominator
  cases exponent with
  | ofNat raise =>
      have below : (-(Int.ofNat raise)).toNat = 0 := by simp
      have above : (Int.ofNat raise).toNat = raise := rfl
      dsimp only
      rw [below, above]
      by_cases zero : digits = 0
      · rw [if_pos zero, zero, Nat.zero_mul]
        exact (nearestUnits_eq_zero (by rw [Nat.zero_mul]; exact pow10_pos 0)).symm
      · rw [if_neg zero]
        by_cases large : 309 ≤ raise
        · rw [if_pos large]
          exact (nearest_eq_infinity zero large).symm
        · rw [if_neg large]
          rfl
  | negSucc lower =>
      have same : digits * pow10 0 = digits := Nat.mul_one digits
      change (if digits.log2 + 1077 ≤ 3 * (lower + 1) then 0
        else nearest digits (pow10 (lower + 1))) = nearest (digits * pow10 0) (pow10 (lower + 1))
      rw [same]
      by_cases small : digits.log2 + 1077 ≤ 3 * (lower + 1)
      · rw [if_pos small, nearest_eq_zero small]
      · rw [if_neg small]

/-- Decimals with the same value have the same nearest pattern. -/
theorem toPattern_congr {a b : Decimal}
    (sameValue : a.numerator * b.denominator = b.numerator * a.denominator) :
    a.toPattern = b.toPattern := by
  rw [toPattern_eq, toPattern_eq]
  exact nearest_congr (pow10_pos _) (pow10_pos _) sameValue

end Decimal

/-! ### The shortest decimal -/

theorem toPattern_dropZeros (fuel : Nat) (d : Decimal) :
    (dropZeros fuel d).toPattern = d.toPattern := by
  induction fuel generalizing d with
  | zero => rfl
  | succ fuel ih =>
      unfold dropZeros
      by_cases trailing : d.digits ≠ 0 ∧ d.digits % 10 = 0
      · rw [if_pos trailing, ih]
        apply Decimal.toPattern_congr
        have tenfold : d.digits / 10 * 10 = d.digits :=
          Nat.div_mul_cancel (Nat.dvd_of_mod_eq_zero trailing.2)
        unfold Decimal.numerator Decimal.denominator
        by_cases whole : 0 ≤ d.exponent
        · have up : (d.exponent + 1).toNat = 1 + d.exponent.toNat := by omega
          have noMore : (-(d.exponent + 1)).toNat = 0 := by omega
          have none : (-d.exponent).toNat = 0 := by omega
          dsimp only
          rw [up, noMore, none, pow10_add, ← Nat.mul_assoc]
          change d.digits / 10 * 10 * _ * _ = _
          rw [tenfold]
        · have up : (d.exponent + 1).toNat = 0 := by omega
          have none : d.exponent.toNat = 0 := by omega
          have down : (-d.exponent).toNat = 1 + (-(d.exponent + 1)).toNat := by omega
          dsimp only
          rw [up, none, down, pow10_add, ← Nat.mul_assoc, Nat.mul_right_comm (d.digits / 10)]
          change d.digits / 10 * 10 * _ * _ = _
          rw [tenfold]
      · rw [if_neg trailing]

theorem toPattern_neighbour? {tie : Tie} {magnitude scaled level : Nat} {d : Decimal}
    (found : neighbour? tie magnitude scaled level = some d) : d.toPattern = magnitude := by
  unfold neighbour? at found
  dsimp only at found
  split at found
  · rename_i taken
    cases found
    simp only [Bool.and_eq_true, decide_eq_true_eq] at taken
    exact taken.1
  · split at found
    · rename_i fits
      cases found
      simpa using fits
    · cases found

/-- Every grid is tried down to the one on which the magnitude itself lies. -/
theorem toPattern_searchGrid (tie : Tie) {magnitude scaled : Nat}
    (exact : (onGrid scaled 0).toPattern = magnitude) (level : Nat) :
    (searchGrid tie magnitude scaled level).toPattern = magnitude := by
  induction level with
  | zero => exact exact
  | succ level ih =>
      unfold searchGrid
      cases found : neighbour? tie magnitude scaled (level + 1) with
      | none => exact ih
      | some d => exact toPattern_neighbour? found

theorem mul_pow_five (size : Nat) {n one : Nat} (isOne : one = pow2 n) :
    size * Nat.pow 5 n * one = size * pow10 n := by
  have split : pow10 n = Nat.pow 5 n * pow2 n := Nat.mul_pow 5 2 n
  rw [split, isOne, Nat.mul_assoc]

/-- The finest grid holds every finite magnitude. -/
theorem toPattern_onGrid_zero {magnitude scaled : Nat} (finite : magnitude < infinity)
    (isScaled : scaled * unitsPerOne = units magnitude * pow10 1074) :
    (onGrid scaled 0).toPattern = magnitude := by
  have one : scaled * pow10 0 = scaled := Nat.mul_one scaled
  rw [Decimal.toPattern_eq]
  change nearestUnits (scaled * pow10 0 * unitsPerOne) (pow10 1074) = magnitude
  rw [one, isScaled]
  exact nearestUnits_units finite (pow10_pos 1074)

/-- The shortest decimal reads back. -/
theorem toPattern_shortest (tie : Tie) {magnitude : Nat} (finite : magnitude < infinity) :
    (shortest tie magnitude).toPattern = magnitude := by
  unfold shortest
  dsimp only
  split
  · rename_i whole
    have exact : units magnitude / unitsPerOne * unitsPerOne = units magnitude :=
      Nat.div_mul_cancel (Nat.dvd_of_mod_eq_zero whole.1)
    have one : units magnitude / unitsPerOne * pow10 0 = units magnitude / unitsPerOne :=
      Nat.mul_one _
    rw [Decimal.toPattern_eq]
    change nearestUnits (units magnitude / unitsPerOne * pow10 0 * unitsPerOne) 1 = _
    rw [one, exact]
    have self := nearestUnits_units finite Nat.one_pos
    rwa [Nat.mul_one] at self
  · rw [toPattern_dropZeros]
    apply toPattern_searchGrid
    apply toPattern_onGrid_zero finite
    apply mul_pow_five
    rfl

end ActorMachine.Number
