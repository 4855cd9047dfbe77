import Tempest.Python.Dumps

/-!
# Reads — the machine over a printed value

Strings by their UTF-16 units, then integers, then the other scalars: what the machine makes of the
text of one of these, character by character.
-/

namespace Tempest
namespace Python

/-! ## Strings -/

theorem hexDigitOf_hexChar {d : Nat} (h : d < 16) : hexDigitOf (hexChar d) = some d := by
  interval_cases d <;> rfl

theorem mem_hexFixed {width n : Nat} {c : CodePoint} (h : c ∈ hexFixed width n) :
    ∃ d, d < 16 ∧ c = hexChar d := by
  induction width generalizing n with
  | zero => cases h
  | succ width ih =>
    rcases List.mem_append.mp h with h | h
    · exact ih h
    · exact ⟨n % 16, Nat.mod_lt n (by decide), List.mem_singleton.mp h⟩

theorem unescapeUnicode_hexFixed {n : Nat} (h : n < 0x10000) :
    ∃ a b c d, hexFixed 4 n = [a, b, c, d] ∧ unescapeUnicode a b c d = some (codePoint n) := by
  refine ⟨_, _, _, _, rfl, ?_⟩
  have hdigit (k : Nat) : hexDigitOf (hexChar (k % 16)) = some (k % 16) :=
    hexDigitOf_hexChar (Nat.mod_lt k (by decide))
  simp only [unescapeUnicode, hdigit, Option.bind_eq_bind, Option.bind_some, Option.pure_def]
  congr 2
  omega

/-- A unit as the reader sees it, with whether it was written as `\uXXXX`. -/
def unitMark (u : CodeUnit) : CodePoint × Bool := (codePoint u.val, (jsonUnit u).length = 6)

theorem stringUnits_plain {c : CodePoint} (hc : c ≠ backslash) (hspace : 0x20 ≤ c.val) (s : PyStr) :
    stringUnits (c :: s) = (stringUnits s).map ((c, false) :: ·) := by
  have hcontrol : ¬ c.val < 0x20 := Nat.not_lt.mpr hspace
  cases s with
  | nil => simp [stringUnits, hc, hcontrol]
  | cons d s =>
    rw [stringUnits.eq_def]
    simp only [hc, if_false, hcontrol]
    cases stringUnits (d :: s) <;> rfl

theorem stringUnits_escape {d u : CodePoint} (hd : d.val ≠ 0x75) (hu : unescapeOne d = some u)
    (s : PyStr) :
    stringUnits (backslash :: d :: s) = (stringUnits s).map ((u, false) :: ·) := by
  rw [stringUnits.eq_def]
  simp only [if_true, hd, if_false, hu]
  cases stringUnits s <;> rfl

theorem stringUnits_unicode {n : Nat} (h : n < 0x10000) (s : PyStr) :
    stringUnits (backslash :: codePoint 0x75 :: (hexFixed 4 n ++ s)) =
      (stringUnits s).map ((codePoint n, true) :: ·) := by
  obtain ⟨a, b, c, d, hhex, hvalue⟩ := unescapeUnicode_hexFixed h
  rw [hhex, stringUnits.eq_def]
  have hu : (codePoint 0x75).val = 0x75 := rfl
  simp only [if_true, hu, List.cons_append, List.nil_append, hvalue]
  cases stringUnits s <;> rfl

theorem jsonUnit_cases (u : CodeUnit) :
    (∃ c, jsonUnit u = [c] ∧ c = codePoint u.val ∧ c ≠ backslash ∧ c ≠ dquote ∧ 0x20 ≤ c.val ∧
      c.val < 0x7F) ∨
    (∃ d, jsonUnit u = [backslash, d] ∧ d.val ≠ 0x75 ∧ unescapeOne d = some (codePoint u.val) ∧
      u.val < 0x80) ∨
    jsonUnit u = backslash :: codePoint 0x75 :: hexFixed 4 u.val := by
  have hval : (codePoint u.val).val = u.val := codePoint_of_unit u
  -- The seven characters with an escape of their own, then the other control characters.
  have hnamed : ∀ n d, u.val = n → n < 0x80 → escapeTail (codePoint n) = some [d] → d.val ≠ 0x75 →
      unescapeOne d = some (codePoint n) →
      ∃ d, jsonUnit u = [backslash, d] ∧ d.val ≠ 0x75 ∧ unescapeOne d = some (codePoint u.val) ∧
        u.val < 0x80 := by
    rintro n d rfl hlt htail hd hu
    exact ⟨d, by simp only [jsonUnit, htail], hd, hu, hlt⟩
  by_cases h22 : u.val = 0x22
  · exact .inr (.inl (hnamed _ _ h22 (by decide) rfl (by decide) rfl))
  by_cases h5c : u.val = 0x5C
  · exact .inr (.inl (hnamed _ _ h5c (by decide) rfl (by decide) rfl))
  by_cases h0a : u.val = 0x0A
  · exact .inr (.inl (hnamed _ _ h0a (by decide) rfl (by decide) rfl))
  by_cases h0d : u.val = 0x0D
  · exact .inr (.inl (hnamed _ _ h0d (by decide) rfl (by decide) rfl))
  by_cases h09 : u.val = 0x09
  · exact .inr (.inl (hnamed _ _ h09 (by decide) rfl (by decide) rfl))
  by_cases h0c : u.val = 0x0C
  · exact .inr (.inl (hnamed _ _ h0c (by decide) rfl (by decide) rfl))
  by_cases h08 : u.val = 0x08
  · exact .inr (.inl (hnamed _ _ h08 (by decide) rfl (by decide) rfl))
  by_cases hcontrol : u.val < 0x20
  · refine .inr (.inr ?_)
    have htail : escapeTail (codePoint u.val) = some [codePoint 0x75, hexChar 0, hexChar 0,
        hexChar (u.val / 16), hexChar (u.val % 16)] := by
      simp only [escapeTail, hval, h22, h5c, h0a, h0d, h09, h0c, h08, hcontrol, if_false, if_true]
    have hhex : hexFixed 4 u.val = [hexChar 0, hexChar 0, hexChar (u.val / 16),
      hexChar (u.val % 16)] := by
      have h1 : u.val / 16 / 16 % 16 = 0 := by omega
      have h2 : u.val / 16 / 16 / 16 % 16 = 0 := by omega
      have h3 : u.val / 16 % 16 = u.val / 16 := by omega
      simp only [hexFixed, h1, h2, h3, List.nil_append, List.cons_append]
    simp only [jsonUnit, htail, hhex]
  · have htail : escapeTail (codePoint u.val) = none := by
      simp only [escapeTail, hval, h22, h5c, h0a, h0d, h09, h0c, h08, hcontrol, if_false]
    by_cases hprintable : u.val < 0x7F
    · refine .inl ⟨codePoint u.val, ?_, rfl, ?_, ?_, ?_, ?_⟩
      · simp only [jsonUnit, htail, Nat.not_lt.mp hcontrol, hprintable, and_self, if_true]
      · exact fun h => h5c (hval.symm.trans (congrArg Fin.val h))
      · exact fun h => h22 (hval.symm.trans (congrArg Fin.val h))
      · exact hval.symm ▸ Nat.not_lt.mp hcontrol
      · exact hval.symm ▸ hprintable
    · refine .inr (.inr ?_)
      simp only [jsonUnit, htail, hprintable, and_false, if_false]

/-- One printed unit is read back. -/
theorem stringUnits_jsonUnit (u : CodeUnit) (s : PyStr) :
    stringUnits (jsonUnit u ++ s) = (stringUnits s).map (unitMark u :: ·) := by
  unfold unitMark
  rcases jsonUnit_cases u with ⟨c, hunit, rfl, hc, -, hspace, -⟩ | ⟨d, hunit, hd, hu, -⟩ | hunit
  · rw [hunit]
    exact stringUnits_plain hc hspace s
  · rw [hunit]
    exact stringUnits_escape hd hu s
  · rw [hunit]
    exact stringUnits_unicode u.isLt s

theorem stringUnits_flatMap (us : List CodeUnit) :
    stringUnits (us.flatMap jsonUnit) = some (us.map unitMark) := by
  induction us with
  | nil => rfl
  | cons u us ih => rw [List.flatMap_cons, stringUnits_jsonUnit, ih, Option.map_some, List.map_cons]

/-- A surrogate is printed as `\uXXXX`. -/
theorem unitMark_surrogate {u : CodeUnit} (h : 0x80 ≤ u.val) : (unitMark u).2 = true := by
  rcases jsonUnit_cases u with ⟨c, -, rfl, -, -, -, hlt⟩ | ⟨d, -, -, -, hlt⟩ | hunit
  · rw [codePoint_of_unit] at hlt
    exact absurd h (Nat.not_le.mpr (hlt.trans (by decide)))
  · exact absurd h (Nat.not_le.mpr hlt)
  · simp [unitMark, hunit, hexFixed_length]

theorem isHighSurrogate_unit (u : CodeUnit) : isHighSurrogate (codePoint u.val) = highUnit u := by
  simp only [isHighSurrogate, highUnit, codePoint_of_unit]

theorem isLowSurrogate_unit (u : CodeUnit) : isLowSurrogate (codePoint u.val) = lowUnit u := by
  simp only [isLowSurrogate, lowUnit, codePoint_of_unit]

theorem joinUnits_map (us : List CodeUnit) : joinUnits (us.map unitMark) = ofUtf16 us := by
  fun_induction ofUtf16 us with
  | case1 | case2 _ => rfl
  | case3 u v rest hpair ih =>
    obtain ⟨hhigh, hlow⟩ := Bool.and_eq_true_iff.mp hpair
    have hu : (unitMark u).2 = true := unitMark_surrogate (by simp [highUnit] at hhigh; omega)
    have hv : (unitMark v).2 = true := unitMark_surrogate (by simp [lowUnit] at hlow; omega)
    have hboth : ((unitMark u).2 && (unitMark v).2 && isHighSurrogate (unitMark u).1 &&
        isLowSurrogate (unitMark v).1) = true := by
      rw [hu, hv]
      simp only [unitMark, isHighSurrogate_unit, isLowSurrogate_unit, hhigh, hlow, Bool.and_self]
    rw [List.map_cons, List.map_cons, joinUnits, if_pos hboth, ih]
    simp only [unitMark, codePoint_of_unit]
  | case4 u v rest hpair ih =>
    have hnot : ¬ ((unitMark u).2 && (unitMark v).2 && isHighSurrogate (unitMark u).1 &&
        isLowSurrogate (unitMark v).1) = true := by
      simp only [unitMark, isHighSurrogate_unit, isLowSurrogate_unit]
      intro h
      simp only [Bool.and_eq_true] at h hpair
      exact hpair ⟨h.1.2, h.2⟩
    rw [List.map_cons, List.map_cons, joinUnits, if_neg hnot]
    exact congrArg _ ih

theorem unescape_jsonStr (s : PyStr) : unescape ((utf16 s).flatMap jsonUnit) = some (wireText s) := by
  rw [unescape, stringUnits_flatMap, Option.map_some, joinUnits_map]
  rfl
/-! ## The machine in a string -/

section Machine

variable {interp : Interpreter}

theorem run_nil (m : Machine) : m.run interp [] = .ok m := rfl

variable {c : CodePoint} {s : PyStr}

theorem run_cons {m m' : Machine} (h : m.step interp c = .ok m') :
    m.run interp (c :: s) = m'.run interp s := by
  simp only [Machine.run, List.foldlM_cons, h]
  rfl

variable {m : Machine}

theorem run_cons_error {e : LoadsError} (h : m.step interp c = .error e) :
    m.run interp (c :: s) = .error e := by
  simp only [Machine.run, List.foldlM_cons, h]
  rfl

theorem run_append (m : Machine) (s t : PyStr) :
    m.run interp (s ++ t) = (m.run interp s).bind fun m' => m'.run interp t :=
  List.foldlM_append

theorem run_append_ok {m m' : Machine} (h : m.run interp s = .ok m') (t : PyStr) :
    m.run interp (s ++ t) = m'.run interp t := by
  rw [run_append, h]
  rfl

theorem run_append_error {e : LoadsError} (h : m.run interp s = .error e) (t : PyStr) :
    m.run interp (s ++ t) = .error e := by
  rw [run_append, h]
  rfl

variable {stack : List Frame} {forKey : Bool}

theorem step_str (hquote : c ≠ dquote) (hslash : c ≠ backslash) (raw : PyStr) :
    Machine.step interp ⟨stack, .str forKey raw false⟩ c = .ok ⟨stack,
      .str forKey (c :: raw) false⟩ := by
  simp [Machine.step, hquote, hslash]

theorem step_str_escape (raw : PyStr) :
    Machine.step interp ⟨stack, .str forKey raw false⟩ backslash =
      .ok ⟨stack, .str forKey (backslash :: raw) true⟩ := by
  have hne : backslash ≠ dquote := by decide
  simp [Machine.step, hne]

theorem step_str_escaped (raw : PyStr) (c : CodePoint) :
    Machine.step interp ⟨stack, .str forKey raw true⟩ c = .ok ⟨stack, .str forKey (c :: raw) false⟩ := by
  simp [Machine.step]

/-- Characters that are neither quotes nor backslashes are read one by one. -/
theorem run_str_plain (hs : ∀ c ∈ s, c ≠ dquote ∧ c ≠ backslash) (raw : PyStr) :
    Machine.run interp ⟨stack, .str forKey raw false⟩ s = .ok ⟨stack,
      .str forKey (s.reverse ++ raw) false⟩ := by
  induction s generalizing raw with
  | nil => rfl
  | cons c s ih =>
    obtain ⟨hc, hs⟩ := List.forall_mem_cons.mp hs
    rw [run_cons (step_str hc.1 hc.2 raw), ih hs]
    simp

theorem hexFixed_plain (width n : Nat) : ∀ c ∈ hexFixed width n, c ≠ dquote ∧ c ≠ backslash := by
  intro c hc
  obtain ⟨d, hd, rfl⟩ := mem_hexFixed hc
  interval_cases d <;> decide

theorem run_jsonUnit (u : CodeUnit) (raw : PyStr) :
    Machine.run interp ⟨stack, .str forKey raw false⟩ (jsonUnit u) =
      .ok ⟨stack, .str forKey ((jsonUnit u).reverse ++ raw) false⟩ := by
  rcases jsonUnit_cases u with ⟨c, hunit, -, hslash, hquote, -, -⟩ | ⟨d, hunit, -⟩ | hunit
  · rw [hunit, run_cons (step_str hquote hslash raw)]
    rfl
  · rw [hunit, run_cons (step_str_escape raw), run_cons (step_str_escaped _ d)]
    rfl
  · rw [hunit, run_cons (step_str_escape raw), run_cons (step_str_escaped _ _),
      run_str_plain (hexFixed_plain 4 u.val)]
    simp

/-- The text of a string, from behind its first quote. -/
theorem run_jsonStr (us : List CodeUnit) (raw : PyStr) :
    Machine.run interp ⟨stack, .str forKey raw false⟩ (us.flatMap jsonUnit) =
      .ok ⟨stack, .str forKey ((us.flatMap jsonUnit).reverse ++ raw) false⟩ := by
  induction us generalizing raw with
  | nil => rfl
  | cons u us ih =>
    rw [List.flatMap_cons, run_append_ok (run_jsonUnit u raw), ih]
    simp

theorem step_str_end (raw : PyStr) :
    Machine.step interp ⟨stack, .str forKey raw false⟩ dquote = endString stack forKey raw := by
  simp [Machine.step]

/-- The rest of a string, from behind its first quote. -/
theorem run_str_end (s : PyStr) :
    Machine.run interp ⟨stack, .str forKey [] false⟩ ((utf16 s).flatMap jsonUnit ++ [dquote]) =
      endString stack forKey ((utf16 s).flatMap jsonUnit).reverse := by
  rw [run_append_ok (run_jsonStr (utf16 s) []), List.append_nil]
  cases h : endString stack forKey ((utf16 s).flatMap jsonUnit).reverse with
  | ok m => exact run_cons ((step_str_end _).trans h)
  | error e => exact run_cons_error ((step_str_end _).trans h)

theorem endString_value (s : PyStr) : endString stack false ((utf16 s).flatMap jsonUnit).reverse =
    .ok ⟨stack, .after (.str (wireText s))⟩ := by
  simp only [endString, List.reverse_reverse, unescape_jsonStr, Bool.false_eq_true, if_false]

theorem endString_key (fields : List (PyStr × JsonValue)) (key s : PyStr) :
    endString (.obj fields key :: stack) true ((utf16 s).flatMap jsonUnit).reverse =
      .ok ⟨.obj fields (wireText s) :: stack, .colon⟩ := by
  simp only [endString, List.reverse_reverse, unescape_jsonStr, if_true]

/-! ## Integers -/

theorem isDigit_of_mem_natText {n : Nat} (h : c ∈ natText n) : isDigit c = true := by
  obtain ⟨hlow, hhigh⟩ := intChar_of_mem_natText h
  simp [isDigit, hlow, hhigh]

/-- The digits of a number, the first one first. -/
theorem natText_eq (n : Nat) :
    ∃ digits : List Nat, natText n = digits.map digitChar ∧ (∀ d ∈ digits, d < 10) ∧
    digits.foldl (fun n d => 10 * n + d) 0 = n ∧ (digits.length = (Nat.digits 10 n).length ∨ n = 0) ∧
    (n ≠ 0 → digits.head? ≠ some 0) := by
  unfold natText
  by_cases hn : n = 0
  · subst hn
    exact ⟨[0], rfl, by simp, rfl, .inr rfl, fun h => absurd rfl h⟩
  · rw [if_neg hn]
    refine ⟨(Nat.digits 10 n).reverse, by rw [List.map_reverse], fun d hd => ?_, ?_,
      .inl (List.length_reverse), fun _ hhead => ?_⟩
    · exact Nat.digits_lt_base (by decide) (List.mem_reverse.mp hd)
    · rw [List.foldl_reverse]
      calc (Nat.digits 10 n).foldr (fun d n => 10 * n + d) 0
          = Nat.ofDigits 10 (Nat.digits 10 n) := by
            rw [Nat.ofDigits_eq_foldr]
            refine congrArg (fun f => List.foldr f 0 (Nat.digits 10 n)) ?_
            funext d k
            simp [Nat.add_comm]
        _ = n := Nat.ofDigits_digits 10 n
    · rw [List.head?_reverse] at hhead
      have hne : Nat.digits 10 n ≠ [] := Nat.digits_ne_nil_iff_ne_zero.mpr hn
      rw [List.getLast?_eq_getLast_of_ne_nil hne] at hhead
      exact Nat.getLast_digit_ne_zero 10 hn (Option.some.inj hhead)

theorem digitsValue_map {digits : List Nat} (h : ∀ d ∈ digits, d < 10) (k : Nat) :
    (digits.map digitChar).foldl (fun n c => 10 * n + (c.val - 0x30)) k =
      digits.foldl (fun n d => 10 * n + d) k := by
  induction digits generalizing k with
  | nil => rfl
  | cons d digits ih =>
    obtain ⟨hd, hdigits⟩ := List.forall_mem_cons.mp h
    have hval : (digitChar d).val - 0x30 = d := by
      rw [digitChar_val hd]
      omega
    rw [List.map_cons, List.foldl_cons, List.foldl_cons, hval, ih hdigits]

theorem digitsValue_natText (n : Nat) : digitsValue (natText n) = n := by
  obtain ⟨digits, htext, hlt, hvalue, -, -⟩ := natText_eq n
  rw [digitsValue, htext, digitsValue_map hlt, hvalue]

theorem isWholePart_natText (n : Nat) : isWholePart (natText n) = true := by
  obtain ⟨digits, htext, hlt, -, -, hhead⟩ := natText_eq n
  have hdigits : (natText n).all isDigit = true :=
    List.all_eq_true.mpr fun c => isDigit_of_mem_natText
  by_cases hn : n = 0
  · rw [hn]
    rfl
  · unfold isWholePart
    rw [hdigits, Bool.true_and, htext]
    cases digits with
    | nil => exact absurd htext (natText_ne_nil n)
    | cons d digits =>
      cases digits with
      | nil => rfl
      | cons d' digits =>
        -- The first digit of a number above zero is no zero.
        have hd : d ≠ 0 := fun hd => hhead hn (by rw [hd]; rfl)
        have hval := digitChar_val (hlt d List.mem_cons_self)
        simp only [List.map_cons, hval]
        simpa using hd

theorem natText_short {n : Nat} (h : intTooLong n = false) : ¬ maxStrDigits < (natText n).length := by
  obtain ⟨digits, htext, -, -, hlength, -⟩ := natText_eq n
  rcases hlength with hlength | rfl
  · rw [htext, List.length_map, hlength]
    simpa [intTooLong] using h
  · decide

theorem numberOf_natText {n : Nat} (hlong : intTooLong n = false) (neg : Bool) (raw : PyStr) :
    numberOf interp neg raw (natText n) = .ok (.int (if neg then -(n : Int) else n)) := by
  have hdigits : ∀ c ∈ natText n, isDigit c = true := fun c => isDigit_of_mem_natText
  have hspan : (natText n).span isDigit = (natText n, []) := by
    rw [List.span_eq_takeWhile_dropWhile, List.takeWhile_eq_self_iff.mpr hdigits,
      List.dropWhile_eq_nil_iff.mpr hdigits]
  simp only [numberOf, hspan, isWholePart_natText, Bool.not_true, Bool.false_eq_true, if_false, if_true,
    natText_short hlong, digitsValue_natText]

theorem intText_ne_name {n : Int} {name : PyStr} (hc : c ∈ name) (hchar : ¬ IntChar c) :
    intText n ≠ name := by
  rintro rfl
  exact hchar (intChar_of_mem_intText hc)

/-- An integer that has a text is read back. -/
theorem scalarOf_intText {n : Int} (hlong : intTooLong n = false) :
    scalarOf interp (intText n) = .ok (.int n) := by
  have hnull : intText n ≠ lit "null" :=
    intText_ne_name (c := codePoint 0x6E) (by decide) (by unfold IntChar; decide)
  have htrue : intText n ≠ lit "true" :=
    intText_ne_name (c := codePoint 0x72) (by decide) (by unfold IntChar; decide)
  have hfalse : intText n ≠ lit "false" :=
    intText_ne_name (c := codePoint 0x61) (by decide) (by unfold IntChar; decide)
  have hnan : intText n ≠ lit "NaN" :=
    intText_ne_name (c := codePoint 0x61) (by decide) (by unfold IntChar; decide)
  have hinf : intText n ≠ lit "Infinity" :=
    intText_ne_name (c := codePoint 0x6E) (by decide) (by unfold IntChar; decide)
  have hneg : intText n ≠ lit "-Infinity" :=
    intText_ne_name (c := codePoint 0x6E) (by decide) (by unfold IntChar; decide)
  simp only [scalarOf, hnull, htrue, hfalse, hnan, hinf, hneg, if_false]
  cases n with
  | ofNat n =>
    have htext : intText (.ofNat n) = natText n := rfl
    rw [htext]
    cases hdigits : natText n with
    | nil => exact absurd hdigits (natText_ne_nil n)
    | cons c text =>
      have hc : c.val ≠ 0x2D := fun h => by
        have hmem : c ∈ natText n := hdigits ▸ List.mem_cons_self
        have hlow := (intChar_of_mem_natText hmem).1
        omega
      simp only [hc, if_false]
      rw [← hdigits]
      exact numberOf_natText hlong false _
  | negSucc n =>
    have hlong' : intTooLong ((n + 1 : Nat) : Int) = false := hlong
    have hminus : (codePoint 0x2D).val = 0x2D := rfl
    simp only [intText, hminus, if_true]
    rw [numberOf_natText hlong']
    rfl

/-! ## Values that end by themselves, and scalars -/

/-- The value has been read on top of the stack, or ends at the next delimiter. -/
def Machine.Holds (interp : Interpreter) (m : Machine) (stack : List Frame) (v : JsonValue) : Prop :=
  m = ⟨stack, .after v⟩ ∨ ∃ raw, m = ⟨stack, .scalar raw⟩ ∧ scalarOf interp raw.reverse = .ok v

/-- A character that ends a number or a name and is no blank. -/
theorem Machine.Holds.step {v : JsonValue} (h : m.Holds interp stack v) (hend : isDelimiter c = true)
    (hspace : isJsonSpace c = false) : m.step interp c = endValue stack v c := by
  rcases h with rfl | ⟨raw, rfl, hraw⟩
  · simp [Machine.step, hspace]
  · simp only [Machine.step, hend, if_true, hraw, hspace, Bool.false_eq_true, if_false]
    rfl

theorem Machine.Holds.blanks {v : JsonValue} (h : m.Holds interp stack v) {blanks : PyStr}
    (hblanks : ∀ c ∈ blanks, isJsonSpace c = true) :
    ∃ m', m.run interp blanks = .ok m' ∧ m'.Holds interp stack v := by
  induction blanks generalizing m with
  | nil => exact ⟨m, rfl, h⟩
  | cons c blanks ih =>
    obtain ⟨hc, hblanks⟩ := List.forall_mem_cons.mp hblanks
    have hstep : m.step interp c = .ok ⟨stack, .after v⟩ := by
      rcases h with rfl | ⟨raw, rfl, hraw⟩
      · simp [Machine.step, hc]
      · have hend : isDelimiter c = true := by simp [isDelimiter, hc]
        simp only [Machine.step, hend, if_true, hraw, hc]
        rfl
    rw [run_cons hstep]
    exact ih (.inl rfl) hblanks

theorem Machine.Holds.finish {v : JsonValue} (h : m.Holds interp [] v) :
    m.finish interp = .ok v := by
  rcases h with rfl | ⟨raw, rfl, hraw⟩
  · rfl
  · exact hraw

/-- On top of a non-empty stack nothing is finished. -/
theorem finish_of_stack (h : m.stack ≠ []) : m.finish interp = .error .malformed := by
  obtain ⟨stack, mode⟩ := m
  cases stack with
  | nil => exact absurd rfl h
  | cons frame stack => rfl

theorem run_scalar (hs : ∀ c ∈ s, isDelimiter c = false) (raw : PyStr) :
    Machine.run interp ⟨stack, .scalar raw⟩ s = .ok ⟨stack, .scalar (s.reverse ++ raw)⟩ := by
  induction s generalizing raw with
  | nil => rfl
  | cons c s ih =>
    obtain ⟨hc, hs⟩ := List.forall_mem_cons.mp hs
    have hstep : Machine.step interp ⟨stack, .scalar raw⟩ c = .ok ⟨stack, .scalar (c :: raw)⟩ := by
      simp [Machine.step, hc]
    rw [run_cons hstep, ih hs]
    simp

theorem run_scalar_value (hs : ∀ c' ∈ c :: s, isDelimiter c' = false) {v : JsonValue}
    (hv : scalarOf interp (c :: s) = .ok v) :
    ∃ m, Machine.run interp ⟨stack, .value⟩ (c :: s) = .ok m ∧ m.Holds interp stack v := by
  obtain ⟨hc, hrest⟩ := List.forall_mem_cons.mp hs
  have hdelimiters := hc
  simp only [isDelimiter, Bool.or_eq_false_iff, decide_eq_false_iff_not] at hdelimiters
  obtain ⟨⟨⟨⟨⟨⟨⟨hspace, -⟩, -⟩, harr⟩, -⟩, hobj⟩, -⟩, hquote⟩ := hdelimiters
  have hstep : Machine.step interp ⟨stack, .value⟩ c = .ok ⟨stack, .scalar [c]⟩ := by
    simp [Machine.step, hspace, beginValue, hquote, harr, hobj, hc]
  refine ⟨_, (run_cons hstep).trans (run_scalar hrest [c]), .inr ⟨_, rfl, ?_⟩⟩
  simpa using hv

end Machine

end Python
end Tempest
