import Tempest.Python.Doubles

/-!
# Halving — `x / 2` and `float(round(x))` of a float

Both round half to even, `x / 2` to a multiple of the smallest subnormal and `round` to an integer.
Neither is a step down by itself: `round(0.7)` is larger than `0.7`.  `floatWeight` is the measure
that both make smaller.
-/

namespace Tempest
namespace Python

/-! ## Rounding natural numbers -/

/-- `n / 2`, rounded half to even. -/
def halfEven (n : Nat) : Nat :=
  if n % 2 = 1 ∧ n / 2 % 2 = 1 then n / 2 + 1 else n / 2

/-- `n / unit`, rounded half to even. -/
def nearest (unit n : Nat) : Nat :=
  let low := n / unit
  let rest := n % unit
  if unit < 2 * rest ∨ 2 * rest = unit ∧ low % 2 = 1 then low + 1 else low

/-- A weight for `n` units: rounding to a multiple loses the last summand, halving the first. -/
def roundWeight (unit n : Nat) : Nat :=
  2 * max n (nearest unit n * unit) + if n % unit = 0 then 0 else 1

section Weights

variable {unit n : Nat}

theorem nearest_le : 2 * (nearest unit n * unit) ≤ 2 * n + unit := by
  have hsplit := Nat.div_add_mod n unit
  have hcomm := Nat.mul_comm (n / unit) unit
  simp only [nearest]
  split_ifs with h
  · rw [Nat.add_mul, Nat.one_mul]
    omega
  · omega

theorem nearest_of_small (h : 2 * n ≤ unit) (hunit : 0 < unit) : nearest unit n = 0 := by
  have hdiv : n / unit = 0 := Nat.div_eq_of_lt (by omega)
  have hmod : n % unit = n := Nat.mod_eq_of_lt (by omega)
  simp only [nearest, hdiv, hmod]
  exact if_neg (by omega)

theorem nearest_mul (hunit : 0 < unit) (k : Nat) : nearest unit (k * unit) = k := by
  have hdiv : k * unit / unit = k := Nat.mul_div_cancel k hunit
  have hmod : k * unit % unit = 0 := Nat.mul_mod_left k unit
  simp only [nearest, hdiv, hmod]
  exact if_neg (by omega)

theorem roundWeight_zero (hunit : 0 < unit) : roundWeight unit 0 = 0 := by
  have hnearest : nearest unit 0 = 0 := nearest_of_small (Nat.zero_le unit) hunit
  simp [roundWeight, hnearest]

theorem roundWeight_pos (h : 0 < n) : 0 < roundWeight unit n := by
  unfold roundWeight
  omega

theorem roundWeight_nearest (h : n % unit ≠ 0) (hunit : 0 < unit) :
    roundWeight unit (nearest unit n * unit) < roundWeight unit n := by
  unfold roundWeight
  rw [nearest_mul hunit, Nat.mul_mod_left, if_neg h, if_pos rfl]
  omega

/-- So does halving: what is rounded up after it was more than half a unit larger before. -/
theorem roundWeight_halfEven (hpos : 0 < n) (hunit : unit % 4 = 0) (hlarge : 0 < unit) :
    roundWeight unit (halfEven n) < roundWeight unit n := by
  have hhalf : halfEven n < n ∧ 2 * halfEven n ≤ n + 1 ∧ (n ≤ unit + 1 → 2 * halfEven n ≤ unit) := by
    unfold halfEven
    split_ifs with hodd <;> omega
  have hround : nearest unit (halfEven n) * unit + 1 ≤ n := by
    by_cases hsmall : 2 * halfEven n ≤ unit
    · rw [nearest_of_small hsmall hlarge, Nat.zero_mul]
      exact hpos
    · have hle := @nearest_le unit (halfEven n)
      omega
  have hflag : (if halfEven n % unit = 0 then 0 else 1) ≤ 1 := by
    split_ifs
    · exact Nat.zero_le 1
    · exact Nat.le_refl 1
  unfold roundWeight
  omega

end Weights

/-! ## Floats -/

/-- The number `1.0` is `2 ** oneExpo` units. -/
@[irreducible] def oneExpo : Nat := 1074

def oneUnits : Nat := 2 ^ oneExpo

theorem oneExpo_eq : oneExpo = 1074 := by
  rw [oneExpo]

theorem oneUnits_eq {m n : Nat} (h : m + n = oneExpo) : 2 ^ m * 2 ^ n = oneUnits := by
  rw [← pow_add, h, oneUnits]

theorem oneUnits_pos : 0 < oneUnits := Nat.two_pow_pos oneExpo

theorem oneUnits_four : oneUnits % 4 = 0 := by
  have hexpo := oneExpo_eq
  rw [← @oneUnits_eq 2 (oneExpo - 2) (by omega)]
  exact Nat.mul_mod_right 4 _

/-- The float of at most `2 ** 52` units. -/
def smallFloat (neg : Bool) (n : Nat) : PyFloat :=
  if h : n < 2 ^ 52 then .finite neg 0 ⟨n, h⟩ else .finite neg 1 0

/-- The float of an integer of at most `2 ** 52`; there is no integer `-0`. -/
def integerFloat (neg : Bool) (n : Nat) : PyFloat :=
  if n = 0 then .finite false 0 0
  else .finite neg (Fin.ofNat 2047 (1023 + Nat.log 2 n))
    (Fin.ofNat (2 ^ 52) (n * 2 ^ (52 - Nat.log 2 n)))

/-- `x / 2`; a NaN and an infinity stay what they are. -/
def halveFloat : PyFloat → PyFloat
  | .nan neg payload => .nan neg payload
  | .inf neg => .inf neg
  | .finite neg expo frac =>
    if 2 ≤ expo.val then .finite neg (Fin.ofNat 2047 (expo.val - 1)) frac
    else smallFloat neg (halfEven (units expo frac))

/-- `float(round(x))` of a finite float. -/
def roundFloat : PyFloat → PyFloat
  | .nan neg payload => .nan neg payload
  | .inf neg => .inf neg
  | .finite neg expo frac =>
    let n := units expo frac
    if n = 0 then .finite false 0 0
    else if n % oneUnits = 0 then .finite neg expo frac
    else integerFloat neg (nearest oneUnits n)

def floatWeight : PyFloat → Nat
  | .finite _ expo frac => roundWeight oneUnits (units expo frac)
  | _ => 1

theorem units_pos {expo : Fin 2047} {frac : Fin (2 ^ 52)} (h : ¬ (expo.val = 0 ∧ frac.val = 0)) :
    0 < units expo frac := by
  unfold units
  split_ifs with hexpo
  · omega
  · positivity

theorem floatWeight_smallFloat (neg : Bool) {n : Nat} (h : n ≤ 2 ^ 52) :
    floatWeight (smallFloat neg n) = roundWeight oneUnits n := by
  unfold smallFloat
  split_ifs with hlt
  · rfl
  · obtain rfl : n = 2 ^ 52 := by omega
    rfl

theorem units_integer {n : Nat} (hpos : n ≠ 0) (h : n ≤ 2 ^ 52) :
    units (Fin.ofNat 2047 (1023 + Nat.log 2 n)) (Fin.ofNat (2 ^ 52) (n * 2 ^ (52 - Nat.log 2 n))) =
      n * oneUnits := by
  have hlog : Nat.log 2 n ≤ 52 := (Nat.log_mono_right h).trans_eq (Nat.log_pow one_lt_two 52)
  have hexpo : (Fin.ofNat 2047 (1023 + Nat.log 2 n)).val = 1023 + Nat.log 2 n :=
    Nat.mod_eq_of_lt (by omega)
  have hfill : 2 ^ Nat.log 2 n * 2 ^ (52 - Nat.log 2 n) = 2 ^ 52 := by
    rw [← pow_add]
    congr 1
    omega
  have hlow : 2 ^ 52 ≤ n * 2 ^ (52 - Nat.log 2 n) := by
    rw [← hfill]
    exact Nat.mul_le_mul_right _ (Nat.pow_log_le_self 2 hpos)
  have hhigh : n * 2 ^ (52 - Nat.log 2 n) < 2 ^ 53 := by
    calc
      n * 2 ^ (52 - Nat.log 2 n) < 2 ^ (Nat.log 2 n + 1) * 2 ^ (52 - Nat.log 2 n) :=
          Nat.mul_lt_mul_of_pos_right (Nat.lt_pow_succ_log_self one_lt_two n) (by positivity)
      _ = 2 ^ 53 := by
          rw [pow_succ, Nat.mul_right_comm, hfill]
          norm_num
  have hfrac : 2 ^ 52 + (Fin.ofNat (2 ^ 52) (n * 2 ^ (52 - Nat.log 2 n))).val =
      n * 2 ^ (52 - Nat.log 2 n) := by
    have hmod : (Fin.ofNat (2 ^ 52) (n * 2 ^ (52 - Nat.log 2 n))).val =
        n * 2 ^ (52 - Nat.log 2 n) % 2 ^ 52 := rfl
    omega
  have hpow : 2 ^ (52 - Nat.log 2 n) * 2 ^ (1023 + Nat.log 2 n - 1) = oneUnits := by
    have hone := oneExpo_eq
    exact oneUnits_eq (by omega)
  rw [units, if_neg (by omega), hexpo, hfrac, Nat.mul_assoc, hpow]

/-- A float with a fractional part is below `2 ** 52`. -/
theorem nearest_units_le {expo : Fin 2047} {frac : Fin (2 ^ 52)}
    (h : units expo frac % oneUnits ≠ 0) : nearest oneUnits (units expo frac) ≤ 2 ^ 52 := by
  have hfrac := frac.isLt
  have hone := oneExpo_eq
  have hsmall : expo.val ≤ 1074 := by
    by_contra hlarge
    apply h
    have hsplit : 2 ^ (expo.val - 1) = 2 ^ (expo.val - 1 - oneExpo) * oneUnits := by
      rw [oneUnits, ← pow_add]
      congr 1
      omega
    rw [units, if_neg (by omega), hsplit, ← Nat.mul_assoc]
    exact Nat.mul_mod_left _ _
  have hlt : units expo frac < 2 ^ 52 * oneUnits := by
    have hbound : units expo frac < 2 ^ 53 * 2 ^ (oneExpo - 1) := by
      unfold units
      split_ifs with hzero
      · calc
          frac.val < 2 ^ 53 * 1 := by omega
          _ ≤ 2 ^ 53 * 2 ^ (oneExpo - 1) := Nat.mul_le_mul_left _ Nat.one_le_two_pow
      · calc
          (2 ^ 52 + frac.val) * 2 ^ (expo.val - 1) < 2 ^ 53 * 2 ^ (expo.val - 1) :=
              Nat.mul_lt_mul_of_pos_right (by omega) (by positivity)
          _ ≤ 2 ^ 53 * 2 ^ (oneExpo - 1) :=
              Nat.mul_le_mul_left _ (Nat.pow_le_pow_right two_pos (by omega))
    refine hbound.trans_eq ?_
    have hbit : 2 ^ 53 = 2 ^ 52 * 2 ^ 1 := by norm_num
    rw [← @oneUnits_eq 1 (oneExpo - 1) (by omega), ← Nat.mul_assoc, hbit]
  have hdiv : units expo frac / oneUnits < 2 ^ 52 := Nat.div_lt_of_lt_mul (by rwa [Nat.mul_comm])
  simp only [nearest]
  split_ifs <;> omega

/-- Halving a number loses weight; a NaN or an infinity stays. -/
theorem halveFloat_lighter {neg : Bool} {expo : Fin 2047} {frac : Fin (2 ^ 52)}
    (h : 0 < units expo frac) :
    floatWeight (halveFloat (.finite neg expo frac)) < floatWeight (.finite neg expo frac) := by
  have hless := roundWeight_halfEven h oneUnits_four oneUnits_pos
  have hfrac := frac.isLt
  simp only [halveFloat]
  split_ifs with hexpo
  · -- the exponent has room, and half of the units is exact
    have hval : (Fin.ofNat 2047 (expo.val - 1)).val = expo.val - 1 := Nat.mod_eq_of_lt (by omega)
    have hpow : 2 ^ (expo.val - 1) = 2 * 2 ^ (expo.val - 1 - 1) := by
      rw [← pow_succ']
      congr 1
      omega
    have hunits : halfEven (units expo frac) = units (Fin.ofNat 2047 (expo.val - 1)) frac := by
      rw [units, units, if_neg (by omega), if_neg (by omega), hval, hpow, Nat.mul_left_comm]
      unfold halfEven
      rw [if_neg (by omega)]
      exact Nat.mul_div_cancel_left _ two_pos
    rw [hunits] at hless
    exact hless
  · have hsmall : halfEven (units expo frac) ≤ 2 ^ 52 := by
      have hle : units expo frac < 2 ^ 53 := by
        unfold units
        split_ifs with hzero
        · omega
        · obtain hval : expo.val - 1 = 0 := by omega
          rw [hval]
          omega
      unfold halfEven
      split_ifs <;> omega
    rw [floatWeight_smallFloat neg hsmall]
    exact hless

theorem roundFloat_lighter {neg : Bool} {expo : Fin 2047} {frac : Fin (2 ^ 52)}
    (h : 0 < units expo frac) :
    roundFloat (.finite neg expo frac) = .finite neg expo frac ∨
      floatWeight (roundFloat (.finite neg expo frac)) < floatWeight (.finite neg expo frac) := by
  simp only [roundFloat, if_neg h.ne']
  split_ifs with hwhole
  · exact Or.inl rfl
  · right
    have hless := roundWeight_nearest hwhole oneUnits_pos
    unfold integerFloat
    split_ifs with hnone
    · calc
        floatWeight (.finite false 0 0) = roundWeight oneUnits 0 := rfl
        _ = 0 := roundWeight_zero oneUnits_pos
        _ < _ := roundWeight_pos h
    · have hunits := units_integer hnone (nearest_units_le hwhole)
      simp only [floatWeight, hunits]
      exact hless

end Python
end Tempest
