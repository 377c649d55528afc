import ActorMachine.Proofs.Number.Rounding

set_option autoImplicit false

/-!
Indices are numbers.

Every natural with at most 53 bits is a magnitude without rounding, so the number of an index or a
count is read back as that index. Main statement: `index?_ofNat`.
-/

namespace ActorMachine.Number

/-- The significand of a natural with at most 53 bits, with its leading bit in place. -/
theorem significand_bounds {n : Nat} (positive : n ≠ 0) (small : n.log2 ≤ 52) :
    leadingBit ≤ n * pow2 (52 - n.log2) ∧ n * pow2 (52 - n.log2) < 2 * leadingBit := by
  have split : leadingBit = pow2 n.log2 * pow2 (52 - n.log2) := by
    rw [← pow2_add, Nat.add_sub_cancel' small]
    rfl
  have next : 2 * leadingBit = pow2 (n.log2 + 1) * pow2 (52 - n.log2) := by
    rw [pow2_succ, Nat.mul_assoc, ← split]
  constructor
  · rw [split]
    exact Nat.mul_le_mul_right _ (Nat.log2_self_le positive)
  · rw [next]
    exact Nat.mul_lt_mul_of_pos_right Nat.lt_log2_self (pow2_pos _)

/-- A natural with at most 53 bits is a magnitude. -/
theorem exists_units_eq {n : Nat} (small : n.log2 ≤ 52) :
    ∃ magnitude, magnitude < infinity ∧ units magnitude = n * unitsPerOne := by
  by_cases zero : n = 0
  · exact ⟨0, by decide, by rw [zero, Nat.zero_mul]; rfl⟩
  · obtain ⟨atLeast, below⟩ := significand_bounds zero small
    generalize isSignificand : n * pow2 (52 - n.log2) = significand at atLeast below
    have step : leadingBit * (n.log2 + 1023) = (n.log2 + 1022) * leadingBit + leadingBit := by
      rw [Nat.mul_comm]
      exact Nat.succ_mul _ _
    have whole : (n.log2 + 1022) * leadingBit + significand =
        (significand - leadingBit) + leadingBit * (n.log2 + 1023) := by
      omega
    have rest : significand - leadingBit < leadingBit := by omega
    -- The leading bit of the significand adds one to the exponent field.
    refine ⟨(n.log2 + 1022) * leadingBit + significand, ?_, ?_⟩
    · have beyond : infinity = 2046 * leadingBit + leadingBit := rfl
      have exponent : (n.log2 + 1022) * leadingBit ≤ 1074 * leadingBit :=
        Nat.mul_le_mul_right _ (by omega)
      omega
    · have normal : ¬(n.log2 + 1022) * leadingBit + significand < leadingBit := by omega
      have exponent : 52 - n.log2 + (n.log2 + 1023 - 1) = 1074 := by omega
      unfold units unitsPerOne
      rw [if_neg normal, whole, Nat.add_mul_mod_self_left, Nat.add_mul_div_left _ _ (by decide),
        Nat.mod_eq_of_lt rest, Nat.div_eq_of_lt rest, Nat.zero_add, Nat.add_sub_cancel' atLeast,
        ← isSignificand, Nat.mul_assoc, ← pow2_add, exponent]

/-- The number of an index is that index. -/
theorem index?_ofNat {n : Nat} (fits : n ≤ maxIndex) : (ofNat n).index? = some n := by
  have small : n.log2 ≤ 52 := by
    by_cases zero : n = 0
    · rw [zero]
      exact Nat.zero_le _
    · have bits : n.log2 < 32 := (Nat.log2_lt zero).2 (Nat.lt_of_le_of_lt fits (by decide))
      omega
  obtain ⟨magnitude, finite, isUnits⟩ := exists_units_eq small
  have nearestIs : nearest n 1 = magnitude := by
    have same := nearestUnits_units finite Nat.one_pos
    rw [isUnits, Nat.mul_one] at same
    exact same
  have bound : magnitude < signWeight := Nat.lt_trans finite (by decide)
  have isPattern : (ofNat n).pattern = magnitude := by
    rw [ofNat, nearestIs]
    exact pattern_ofPattern false bound
  have notNegative : (ofNat n).isNegative = false := by
    rw [ofNat, nearestIs]
    exact isNegative_ofPattern false bound
  have one : 0 < unitsPerOne := pow2_pos 1074
  have isWholePart : (ofNat n).wholePart = n := by
    rw [wholePart, isPattern, isUnits, Nat.mul_div_cancel n one]
  have whole : (ofNat n).isWhole = true := by
    rw [isWhole, isPattern, isUnits, Nat.mul_mod_left]
    rfl
  have isFinite : (ofNat n).isFinite = true := by
    rw [Number.isFinite, isPattern]
    exact decide_eq_true finite
  unfold index?
  rw [isFinite, whole, notNegative, isWholePart]
  exact if_pos fits

/-- No natural has the value of a negative number. -/
theorem order_ofNat_nonneg (n : Nat) : 0 ≤ (ofNat n).order := by
  have bound : nearest n 1 < signWeight :=
    Nat.lt_of_le_of_lt (Nat.min_le_right _ _) (by decide)
  unfold order ofNat
  rw [isNegative_ofPattern false bound]
  exact Int.natCast_nonneg _

theorem sameValue_ofNat_negative {x : Number} (negative : x.order < 0) (n : Nat) :
    (ofNat n).sameValue x = false := by
  have nonneg := order_ofNat_nonneg n
  have different : ¬(ofNat n).order = x.order := by omega
  unfold sameValue
  rw [decide_eq_false different, Bool.and_false]

end ActorMachine.Number
