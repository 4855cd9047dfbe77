import Tempest.Python.Json

/-!
# Float — binary64 values, `float.hex()` and `math.isclose`

`PyFloat` keeps the payload of a NaN; `HexFloat` is what is left of a float after
`"nan" if math.isnan(x) else x.hex()`: one NaN, two infinities, and the finite values with their
sign, so `-0.0` and `0.0` differ.  `HexFloat.text` prints it the way CPython does, and
`HexFloat.text_injective` says that the text loses nothing.
-/

namespace Tempest
namespace Python

instance expoCount : NeZero 2047 := ⟨by decide⟩

instance fracCount : NeZero (2 ^ 52) := ⟨by decide⟩

/-- A binary64 value by its fields; `expo` is the biased exponent. -/
inductive PyFloat where
  | nan (neg : Bool) (payload : Fin (2 ^ 52 - 1))
  | inf (neg : Bool)
  | finite (neg : Bool) (expo : Fin 2047) (frac : Fin (2 ^ 52))
  deriving DecidableEq

inductive HexFloat where
  | nan
  | inf (neg : Bool)
  | finite (neg : Bool) (expo : Fin 2047) (frac : Fin (2 ^ 52))
  deriving DecidableEq

def PyFloat.hexval : PyFloat → HexFloat
  | .nan _ _ => .nan
  | .inf neg => .inf neg
  | .finite neg expo frac => .finite neg expo frac

/-! ## The text of `float.hex()` -/

/-- `n` in `width` lower-case hexadecimal digits. -/
def hexFixed : Nat → Nat → PyStr
  | 0, _ => []
  | width + 1, n => hexFixed width (n / 16) ++ [hexChar (n % 16)]

def signText (neg : Bool) : PyStr := if neg then lit "-" else []

def expoText (expo : Nat) : PyStr :=
  if 1023 ≤ expo then lit "p+" ++ natText (expo - 1023) else lit "p-" ++ natText (1023 - expo)

/-- The unsigned text of a finite value: zero, subnormal or normal. -/
def finiteText (expo : Fin 2047) (frac : Fin (2 ^ 52)) : PyStr :=
  if expo.val = 0 then
    if frac.val = 0 then lit "0x0.0p+0"
    else lit "0x0." ++ (hexFixed 13 frac.val ++ lit "p-1022")
  else lit "0x1." ++ (hexFixed 13 frac.val ++ expoText expo.val)

def HexFloat.text : HexFloat → PyStr
  | .nan => lit "nan"
  | .inf neg => signText neg ++ lit "inf"
  | .finite neg expo frac => signText neg ++ finiteText expo frac

theorem hexFixed_length (width n : Nat) : (hexFixed width n).length = width := by
  induction width generalizing n with
  | zero => rfl
  | succ width ih => simp [hexFixed, ih]

theorem hexFixed_injective {width m n : Nat} (hm : m < 16 ^ width) (hn : n < 16 ^ width)
    (h : hexFixed width m = hexFixed width n) : m = n := by
  induction width generalizing m n with
  | zero => omega
  | succ width ih =>
    have hpow : 16 ^ (width + 1) = 16 ^ width * 16 := pow_succ 16 width
    have hsplit := List.append_inj' h rfl
    have hhigh : m / 16 = n / 16 := ih (by omega) (by omega) hsplit.1
    have hlow : m % 16 = n % 16 := by
      have hdigit := congrArg hexVal (List.cons.inj hsplit.2).1
      rwa [hexVal_hexChar (by omega), hexVal_hexChar (by omega)] at hdigit
    omega

theorem expoText_injective {m n : Nat} (h : expoText m = expoText n) : m = n := by
  unfold expoText at h
  split_ifs at h with hm hn hn
  · have htail := natText_injective (List.append_cancel_left h)
    omega
  · have hbad : lit "p+" = lit "p-" := (List.append_inj h (by decide)).1
    exact absurd (lit_injective hbad) (by simp)
  · have hbad : lit "p-" = lit "p+" := (List.append_inj h (by decide)).1
    exact absurd (lit_injective hbad) (by simp)
  · have htail := natText_injective (List.append_cancel_left h)
    omega

/-- The digits of a float and what follows them are told apart by the fixed width. -/
theorem hexFixed_append_cancel {m n : Fin (2 ^ 52)} {s t : PyStr}
    (h : hexFixed 13 m.val ++ s = hexFixed 13 n.val ++ t) : m = n ∧ s = t := by
  have hm := m.isLt
  have hn := n.isLt
  have hsplit := List.append_inj h (by rw [hexFixed_length, hexFixed_length])
  exact ⟨Fin.ext (hexFixed_injective (by omega) (by omega) hsplit.1), hsplit.2⟩

/-- The unsigned text of a finite value starts with `0`, which no sign does. -/
theorem finiteText_eq_cons (expo : Fin 2047) (frac : Fin (2 ^ 52)) :
    ∃ s, finiteText expo frac = codePoint 0x30 :: s := by
  unfold finiteText
  split_ifs with h0 h1
  · exact ⟨lit "x0.0p+0", rfl⟩
  · exact ⟨lit "x0." ++ (hexFixed 13 frac.val ++ lit "p-1022"), rfl⟩
  · exact ⟨lit "x1." ++ (hexFixed 13 frac.val ++ expoText expo.val), rfl⟩

theorem text_pos_finite (expo : Fin 2047) (frac : Fin (2 ^ 52)) :
    (HexFloat.finite false expo frac).text = finiteText expo frac := rfl

theorem text_neg_finite (expo : Fin 2047) (frac : Fin (2 ^ 52)) :
    (HexFloat.finite true expo frac).text = codePoint 0x2D :: finiteText expo frac := rfl

theorem finiteText_injective {e e' : Fin 2047} {f f' : Fin (2 ^ 52)}
    (h : finiteText e f = finiteText e' f') : e = e' ∧ f = f' := by
  have hlong : ∀ g : Fin (2 ^ 52),
      lit "0x0.0p+0" ≠ lit "0x0." ++ (hexFixed 13 g.val ++ lit "p-1022") := by
    intro g heq
    have hlen := congrArg List.length heq
    simp only [List.length_append, hexFixed_length] at hlen
    exact absurd hlen (by decide)
  have hlead : ∀ s t : PyStr, lit "0x0." ++ s ≠ lit "0x1." ++ t := by
    intro s t heq
    have hprefix : lit "0x0." = lit "0x1." := (List.append_inj heq rfl).1
    exact absurd hprefix (by decide)
  unfold finiteText at h
  split_ifs at h with he hf he' hf' he' hf' he'
  · exact ⟨Fin.ext (by omega), Fin.ext (by omega)⟩
  · exact absurd h (hlong f')
  · exact absurd h (hlead (lit "0p+0") _)
  · exact absurd h.symm (hlong f)
  · exact ⟨Fin.ext (by omega), (hexFixed_append_cancel (List.append_cancel_left h)).1⟩
  · exact absurd h (hlead _ _)
  · exact absurd h.symm (hlead (lit "0p+0") _)
  · exact absurd h.symm (hlead _ _)
  · have hdigits := hexFixed_append_cancel (List.append_cancel_left h)
    exact ⟨Fin.ext (expoText_injective hdigits.2), hdigits.1⟩

theorem HexFloat.text_injective {x y : HexFloat} (h : x.text = y.text) : x = y := by
  have hhead : ∀ {c d : CodePoint} {s t : PyStr}, c :: s = d :: t → c = d :=
    fun heq => (List.cons.inj heq).1
  -- four first characters: `n`, `i`, `0` and the sign; a sign is followed by `i` or `0`
  cases x with
  | nan =>
    cases y with
    | nan => rfl
    | inf neg => cases neg <;> exact absurd (hhead h) (by decide)
    | finite neg e f =>
      rcases finiteText_eq_cons e f with ⟨s, hs⟩
      cases neg with
      | false => rw [text_pos_finite, hs] at h; exact absurd (hhead h) (by decide)
      | true => rw [text_neg_finite] at h; exact absurd (hhead h) (by decide)
  | inf neg =>
    cases y with
    | nan => cases neg <;> exact absurd (hhead h) (by decide)
    | inf neg' =>
      cases neg <;> cases neg' <;> first | rfl | exact absurd (hhead h) (by decide)
    | finite neg' e f =>
      rcases finiteText_eq_cons e f with ⟨s, hs⟩
      cases neg' with
      | false => rw [text_pos_finite, hs] at h; cases neg <;> exact absurd (hhead h) (by decide)
      | true =>
        rw [text_neg_finite, hs] at h
        cases neg with
        | false => exact absurd (hhead h) (by decide)
        | true => exact absurd (hhead (List.cons.inj h).2) (by decide)
  | finite neg e f =>
    rcases finiteText_eq_cons e f with ⟨s, hs⟩
    cases y with
    | nan =>
      cases neg with
      | false => rw [text_pos_finite, hs] at h; exact absurd (hhead h) (by decide)
      | true => rw [text_neg_finite] at h; exact absurd (hhead h) (by decide)
    | inf neg' =>
      cases neg with
      | false => rw [text_pos_finite, hs] at h; cases neg' <;> exact absurd (hhead h) (by decide)
      | true =>
        rw [text_neg_finite, hs] at h
        cases neg' with
        | false => exact absurd (hhead h) (by decide)
        | true => exact absurd (hhead (List.cons.inj h).2) (by decide)
    | finite neg' e' f' =>
      rcases finiteText_eq_cons e' f' with ⟨s', hs'⟩
      cases neg with
      | false =>
        cases neg' with
        | false =>
          have hef := finiteText_injective h
          rw [hef.1, hef.2]
        | true =>
          rw [text_pos_finite, text_neg_finite, hs] at h
          exact absurd (hhead h) (by decide)
      | true =>
        cases neg' with
        | false =>
          rw [text_neg_finite, text_pos_finite, hs'] at h
          exact absurd (hhead h) (by decide)
        | true =>
          rw [text_neg_finite, text_neg_finite] at h
          have hef := finiteText_injective (List.cons.inj h).2
          rw [hef.1, hef.2]

theorem encodable_hexFixed (width n : Nat) : encodable (hexFixed width n) = true := by
  induction width generalizing n with
  | zero => rfl
  | succ width ih =>
    have hdigit := hexChar_not_surrogate (show n % 16 < 16 by omega)
    have hlast : encodable [hexChar (n % 16)] = true := by simp [encodable, hdigit]
    simp [hexFixed, encodable_append, ih, hlast]

theorem encodable_text (x : HexFloat) : encodable x.text = true := by
  have hsign : ∀ neg, encodable (signText neg) = true := by decide
  have hexpo : ∀ expo, encodable (expoText expo) = true := by
    intro expo
    have hsigns : encodable (lit "p+") = true ∧ encodable (lit "p-") = true := by decide
    unfold expoText
    split_ifs <;> simp [encodable_append, encodable_natText, hsigns]
  have hlead : encodable (lit "0x0.0p+0") = true ∧ encodable (lit "0x0.") = true ∧
      encodable (lit "0x1.") = true ∧ encodable (lit "p-1022") = true := by decide
  cases x with
  | nan => exact (by decide : encodable (lit "nan") = true)
  | inf neg =>
    have hinf : encodable (lit "inf") = true := by decide
    simp [HexFloat.text, encodable_append, hsign, hinf]
  | finite neg expo frac =>
    have hfinite : encodable (finiteText expo frac) = true := by
      unfold finiteText
      split_ifs <;> simp [encodable_append, encodable_hexFixed, hexpo, hlead]
    simp [HexFloat.text, encodable_append, hsign, hfinite]

/-! ## Values and closeness -/

def HexFloat.toRat? : HexFloat → Option ℚ
  | .finite neg expo frac =>
    let magnitude : ℚ :=
      if expo.val = 0 then frac.val * (2 : ℚ) ^ (-1074 : ℤ)
      else (2 ^ 52 + frac.val : ℕ) * (2 : ℚ) ^ ((expo.val : ℤ) - 1075)
    some (if neg then -magnitude else magnitude)
  | _ => none

def roundHalfEven (q : ℚ) : Int :=
  let down := q.floor
  let rest := q - down
  if rest < 1 / 2 then down
  else if 1 / 2 < rest then down + 1
  else if down % 2 = 0 then down else down + 1

/-- A non-negative exact result rounded to binary64; `none` is an overflow to infinity. -/
def roundMagnitude (q : ℚ) : Option ℚ :=
  let ulp : Int := max (Int.log 2 q - 52) (-1074)
  let value := roundHalfEven (q / (2 : ℚ) ^ ulp) * (2 : ℚ) ^ ulp
  if value < 2 ^ 1024 then some value else none

/-- `x <= y` on rounded magnitudes, where `none` is infinity. -/
def magnitudeLE : Option ℚ → Option ℚ → Bool
  | some x, some y => x ≤ y
  | _, none => true
  | none, some _ => false

/-- `math.isclose(a, b, rel_tol=tol)`. -/
def isclose (a b : HexFloat) (tol : ℚ≥0) : Bool :=
  match a.toRat?, b.toRat? with
  | some x, some y =>
    let diff := roundMagnitude |y - x|
    x == y || magnitudeLE diff (roundMagnitude |(tol : ℚ) * y|) ||
      magnitudeLE diff (roundMagnitude |(tol : ℚ) * x|)
  | _, _ =>
    match a, b with
    | .inf neg, .inf neg' => neg == neg'
    | _, _ => false

def HexFloat.isNan : HexFloat → Bool
  | .nan => true
  | _ => false

def HexFloat.isZero : HexFloat → Bool
  | .finite _ expo frac => expo.val == 0 && frac.val == 0
  | _ => false

end Python
end Tempest
