import Tempest.Python.Float

/-!
# Doubles — the finite floats among the rationals

A finite float is a natural number of smallest subnormals.  No two floats but the zeros share their
rational, and rounding a rational that is a float changes nothing.
-/

namespace Tempest
namespace Python

/-- The magnitude of a finite float in units of `2 ** -1074`. -/
def units (expo : Fin 2047) (frac : Fin (2 ^ 52)) : Nat :=
  if expo.val = 0 then frac.val else (2 ^ 52 + frac.val) * 2 ^ (expo.val - 1)

def finiteValue (neg : Bool) (expo : Fin 2047) (frac : Fin (2 ^ 52)) : ℚ :=
  let magnitude : ℚ := units expo frac * (2 : ℚ) ^ (-1074 : ℤ)
  if neg then -magnitude else magnitude

theorem units_normal {expo : Fin 2047} (frac : Fin (2 ^ 52)) (hexpo : expo.val ≠ 0) :
    (units expo frac : ℚ) * (2 : ℚ) ^ (-1074 : ℤ) =
      (2 ^ 52 + frac.val : ℕ) * (2 : ℚ) ^ ((expo.val : ℤ) - 1075) := by
  have hsplit : ((expo.val : ℤ) - 1075) = ((expo.val - 1 : ℕ) : ℤ) + (-1074) := by omega
  rw [units, if_neg hexpo, hsplit, zpow_add₀ two_ne_zero, zpow_natCast, ← mul_assoc, Nat.cast_mul,
    Nat.cast_pow, Nat.cast_two]

theorem units_lt (expo expo' : Fin 2047) (frac frac' : Fin (2 ^ 52)) (h : expo < expo') :
    units expo frac < units expo' frac' := by
  have hfrac := frac.isLt
  have hlt : expo.val < expo'.val := h
  have hpos : expo'.val ≠ 0 := by omega
  have hhigh : 2 ^ 52 * 2 ^ (expo'.val - 1) ≤ units expo' frac' := by
    rw [units, if_neg hpos]
    exact Nat.mul_le_mul_right _ (Nat.le_add_right _ _)
  have hpow : 2 ^ 52 * 2 ^ expo.val ≤ 2 ^ 52 * 2 ^ (expo'.val - 1) :=
    Nat.mul_le_mul_left _ (Nat.pow_le_pow_right two_pos (by omega))
  refine lt_of_lt_of_le ?_ (hpow.trans hhigh)
  unfold units
  split_ifs with hzero
  · rw [hzero, pow_zero]
    omega
  · -- The significand of a normal float is below `2 ^ 53`.
    have hdouble : 2 ^ expo.val = 2 * 2 ^ (expo.val - 1) := by
      rw [← pow_succ']
      congr 1
      omega
    calc
      (2 ^ 52 + frac.val) * 2 ^ (expo.val - 1) < (2 ^ 52 * 2) * 2 ^ (expo.val - 1) :=
          Nat.mul_lt_mul_of_pos_right (by omega) (by positivity)
      _ = 2 ^ 52 * 2 ^ expo.val := by rw [hdouble, mul_assoc]

theorem units_injective {expo expo' : Fin 2047} {frac frac' : Fin (2 ^ 52)}
    (h : units expo frac = units expo' frac') : expo = expo' ∧ frac = frac' := by
  rcases lt_trichotomy expo expo' with hlt | rfl | hlt
  · exact absurd h (units_lt _ _ _ _ hlt).ne
  · refine ⟨rfl, Fin.ext ?_⟩
    unfold units at h
    split_ifs at h
    · exact h
    · have hpos : 0 < 2 ^ (expo.val - 1) := by positivity
      have hsum := Nat.eq_of_mul_eq_mul_right hpos h
      omega
  · exact absurd h (units_lt _ _ _ _ hlt).ne'

/-- Floats with one rational are the same, or both are a zero. -/
theorem eq_of_finiteValue {neg neg' : Bool} {expo expo' : Fin 2047} {frac frac' : Fin (2 ^ 52)}
    (h : finiteValue neg expo frac = finiteValue neg' expo' frac') :
    expo = expo' ∧ frac = frac' ∧ (neg = neg' ∨ units expo frac = 0) := by
  have hunit : (0 : ℚ) < (2 : ℚ) ^ (-1074 : ℤ) := by positivity
  have hmagnitude : ∀ neg expo frac,
      |finiteValue neg expo frac| = units expo frac * (2 : ℚ) ^ (-1074 : ℤ) := by
    intro neg expo frac
    have hnonneg : (0 : ℚ) ≤ units expo frac * (2 : ℚ) ^ (-1074 : ℤ) := by positivity
    unfold finiteValue
    cases neg
    · exact abs_of_nonneg hnonneg
    · exact (abs_neg _).trans (abs_of_nonneg hnonneg)
  have hunits : units expo frac = units expo' frac' := by
    have habs := congrArg abs h
    rw [hmagnitude, hmagnitude] at habs
    exact_mod_cast mul_right_cancel₀ hunit.ne' habs
  obtain ⟨rfl, rfl⟩ := units_injective hunits
  refine ⟨rfl, rfl, ?_⟩
  by_cases hneg : neg = neg'
  · exact .inl hneg
  · -- A number that is its own negative is zero.
    have hzero : (units expo frac : ℚ) * (2 : ℚ) ^ (-1074 : ℤ) = 0 := by
      unfold finiteValue at h
      generalize (units expo frac : ℚ) * (2 : ℚ) ^ (-1074 : ℤ) = magnitude at h ⊢
      cases neg <;> cases neg'
      · exact absurd rfl hneg
      · simp only [Bool.false_eq_true, if_false, if_true] at h
        linarith
      · simp only [Bool.false_eq_true, if_false, if_true] at h
        linarith
      · exact absurd rfl hneg
    rcases mul_eq_zero.1 hzero with hunits | hunit'
    · exact .inr (by exact_mod_cast hunits)
    · exact absurd hunit' hunit.ne'

/-! ## Rounding -/

theorem roundHalfEven_natCast (n : Nat) : roundHalfEven n = n := by
  have hfloor : (n : ℚ).floor = n := by exact_mod_cast Rat.floor_intCast n
  simp [roundHalfEven, hfloor]

/-- A multiple of the last place is its own rounding. -/
theorem roundMagnitude_of_log {q : ℚ} {n : Nat} {ulp : Int}
    (hulp : max (Int.log 2 q - 52) (-1074) = ulp) (hq : q = n * (2 : ℚ) ^ ulp)
    (hlt : q < 2 ^ 1024) : roundMagnitude q = some q := by
  have hpos : (0 : ℚ) < (2 : ℚ) ^ ulp := by positivity
  have hdiv : q / (2 : ℚ) ^ ulp = n := by
    rw [hq]
    exact mul_div_cancel_right₀ _ hpos.ne'
  have hvalue : ((roundHalfEven (q / (2 : ℚ) ^ ulp) : ℤ) : ℚ) * (2 : ℚ) ^ ulp = q := by
    rw [hdiv, roundHalfEven_natCast, hq]
    push_cast
    rfl
  simp only [roundMagnitude, hulp, hvalue, if_pos hlt]

theorem roundMagnitude_units (expo : Fin 2047) (frac : Fin (2 ^ 52)) :
    roundMagnitude (units expo frac * (2 : ℚ) ^ (-1074 : ℤ)) =
      some (units expo frac * (2 : ℚ) ^ (-1074 : ℤ)) := by
  have hfrac := frac.isLt
  have hexpo := expo.isLt
  have htwo : (1 : ℚ) < 2 := one_lt_two
  by_cases hzero : expo.val = 0
  · have hunits : units expo frac = frac.val := if_pos hzero
    rw [hunits]
    -- A subnormal stays below the smallest normal.
    have hsmall : (frac.val : ℚ) * (2 : ℚ) ^ (-1074 : ℤ) < (2 : ℚ) ^ (-1022 : ℤ) := by
      have hsplit : (2 : ℚ) ^ (-1022 : ℤ) = 2 ^ 52 * (2 : ℚ) ^ (-1074 : ℤ) := by
        rw [← zpow_natCast, ← zpow_add₀ two_ne_zero]
        rfl
      rw [hsplit]
      refine mul_lt_mul_of_pos_right ?_ (by positivity)
      exact_mod_cast hfrac
    have hlt : (frac.val : ℚ) * (2 : ℚ) ^ (-1074 : ℤ) < 2 ^ 1024 := by
      refine hsmall.trans ?_
      rw [← zpow_natCast]
      exact zpow_lt_zpow_right₀ htwo (by norm_num)
    by_cases hnone : frac.val = 0
    · refine @roundMagnitude_of_log _ 0 (-52) ?_ ?_ hlt
      · simp [hnone]
      · simp [hnone]
    · have hpos : (0 : ℚ) < (frac.val : ℚ) * (2 : ℚ) ^ (-1074 : ℤ) :=
        mul_pos (by exact_mod_cast Nat.pos_of_ne_zero hnone) (by positivity)
      have hlog := (Int.lt_zpow_iff_log_lt one_lt_two hpos).1 hsmall
      exact roundMagnitude_of_log (by omega) rfl hlt
  · rw [units_normal frac hzero]
    have hpos : (0 : ℚ) < (2 : ℚ) ^ ((expo.val : ℤ) - 1075) := by positivity
    have hlow : (2 : ℚ) ^ ((expo.val : ℤ) - 1023) ≤
        (2 ^ 52 + frac.val : ℕ) * (2 : ℚ) ^ ((expo.val : ℤ) - 1075) := by
      have hsplit : (2 : ℚ) ^ ((expo.val : ℤ) - 1023) =
          2 ^ 52 * (2 : ℚ) ^ ((expo.val : ℤ) - 1075) := by
        rw [← zpow_natCast, ← zpow_add₀ two_ne_zero]
        congr 1
        push_cast
        ring
      rw [hsplit]
      refine mul_le_mul_of_nonneg_right ?_ hpos.le
      exact_mod_cast Nat.le_add_right _ _
    have hhigh : (2 ^ 52 + frac.val : ℕ) * (2 : ℚ) ^ ((expo.val : ℤ) - 1075) <
        (2 : ℚ) ^ ((expo.val : ℤ) - 1022) := by
      have hsplit : (2 : ℚ) ^ ((expo.val : ℤ) - 1022) =
          2 ^ 53 * (2 : ℚ) ^ ((expo.val : ℤ) - 1075) := by
        rw [← zpow_natCast, ← zpow_add₀ two_ne_zero]
        congr 1
        push_cast
        ring
      rw [hsplit]
      refine mul_lt_mul_of_pos_right ?_ hpos
      have hsum : 2 ^ 52 + frac.val < 2 ^ 53 := by omega
      exact_mod_cast hsum
    have hlogPos := lt_of_lt_of_le (zpow_pos two_pos _) hlow
    have hlogLow := (Int.zpow_le_iff_le_log one_lt_two hlogPos).1 hlow
    have hlogHigh := (Int.lt_zpow_iff_log_lt one_lt_two hlogPos).1 hhigh
    refine roundMagnitude_of_log (by omega) rfl (hhigh.trans_le ?_)
    rw [← zpow_natCast]
    exact zpow_le_zpow_right₀ htwo.le (by push_cast; omega)

end Python
end Tempest
