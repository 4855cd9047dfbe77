import Tempest.Python.Utf8

/-!
# FsDecode — two ways to read the bytes of a file name

`fsdecode` keeps a byte that is no UTF-8 as a lone surrogate, so that no two names are read alike;
`decodeReplace` does not.  On what `utf8` writes both give the text back.
-/

namespace Tempest
namespace Python

def oneChar (bytes : Bytes) : Option CodePoint :=
  match decodeUtf8 bytes with
  | some [c] => some c
  | _ => none

/-- The character that the bytes begin with, and how many of them it takes. -/
def firstChar (bytes : Bytes) : Option (CodePoint × Nat) :=
  [4, 3, 2, 1].findSome? fun k => (oneChar (bytes.take k)).map fun c => (c, k)

def fsdecodeFrom : Nat → Bytes → PyStr
  | 0, _ => []
  | _, [] => []
  | fuel + 1, b :: bytes =>
    match firstChar (b :: bytes) with
    | some (c, k) => c :: fsdecodeFrom fuel ((b :: bytes).drop k)
    | none => codePoint (0xDC00 + b.val) :: fsdecodeFrom fuel bytes

/-- `os.fsdecode`: UTF-8 with `surrogateescape`. -/
def fsdecode (bytes : Bytes) : PyStr := fsdecodeFrom bytes.length bytes

/-! ## `fsdecode` of encoded text -/

theorem decodeFrom_eq_nil {n value least : Nat} {bytes : Bytes}
    (h : decodeFrom n value least bytes = some []) : bytes = [] := by
  induction bytes generalizing n value least with
  | nil => rfl
  | cons b bytes ih =>
    have hcons : ∀ {c : CodePoint} {rest : Option PyStr}, rest.map (c :: ·) ≠ some [] := by
      intro c rest heq
      obtain ⟨s, _, hs⟩ := Option.map_eq_some_iff.1 heq
      cases hs
    -- inside a character the bytes cannot end without one more code point
    have hinside : ∀ {n value least : Nat}, decodeFrom (n + 1) value least bytes ≠ some [] := by
      intro n value least heq
      have hnil := ih heq
      subst hnil
      cases heq
    cases n with
    | zero =>
      simp only [decodeFrom] at h
      split_ifs at h
      · exact absurd h hcons
      · exact absurd h hinside
      · exact absurd h hinside
      · exact absurd h hinside
    | succ n =>
      simp only [decodeFrom] at h
      split_ifs at h with hrange hmore
      · cases n with
        | zero => exact absurd rfl hmore
        | succ n => exact absurd h hinside
      · exact absurd h hcons

theorem utf8Char_length (c : CodePoint) :
    (utf8Char c).length = 1 ∨ (utf8Char c).length = 2 ∨ (utf8Char c).length = 3 ∨
      (utf8Char c).length = 4 := by
  unfold utf8Char
  split_ifs
  · exact Or.inl rfl
  · exact Or.inr (Or.inl rfl)
  · exact Or.inr (Or.inr (Or.inl rfl))
  · exact Or.inr (Or.inr (Or.inr rfl))

variable {c : CodePoint}

/-- Taking at least the first character finds it or more than it. -/
theorem decodeUtf8_take {bytes : Bytes} {k : Nat} (h : isSurrogate c = false)
    (hk : (utf8Char c).length ≤ k) :
    decodeUtf8 ((utf8Char c ++ bytes).take k) =
      (decodeUtf8 (bytes.take (k - (utf8Char c).length))).map (c :: ·) := by
  rw [List.take_append, List.take_of_length_le hk]
  exact decodeFrom_char h

theorem oneChar_eq_some {bytes : Bytes} :
    oneChar bytes = some c ↔ decodeUtf8 bytes = some [c] := by
  unfold oneChar
  split
  next d hd => simp [hd]
  next hnot =>
    constructor
    · intro h
      cases h
    · intro h
      exact absurd h (hnot c)

theorem firstChar_spec {c : CodePoint} {bytes : Bytes} (h : isSurrogate c = false) :
    ∃ k, firstChar (utf8Char c ++ bytes) = some (c, k) ∧ (utf8Char c ++ bytes).drop k = bytes := by
  have hself : oneChar ((utf8Char c ++ bytes).take (utf8Char c).length) = some c := by
    rw [oneChar_eq_some, decodeUtf8_take h (Nat.le_refl _), Nat.sub_self]
    rfl
  -- a longer piece that is one character is the same one, and all the bytes
  have hlonger : ∀ k d, (utf8Char c).length ≤ k →
      oneChar ((utf8Char c ++ bytes).take k) = some d →
        d = c ∧ (utf8Char c ++ bytes).drop k = bytes := by
    intro k d hk hd
    rw [oneChar_eq_some, decodeUtf8_take h hk] at hd
    obtain ⟨s, hs, hcons⟩ := Option.map_eq_some_iff.1 hd
    obtain ⟨rfl, rfl⟩ := List.cons.inj hcons
    have hnil := decodeFrom_eq_nil hs
    refine ⟨rfl, ?_⟩
    rw [List.drop_append, List.drop_of_length_le hk, List.nil_append]
    have hsplit := List.take_append_drop (k - (utf8Char c).length) bytes
    rwa [hnil, List.nil_append] at hsplit
  obtain ⟨long, short, hlist, hlong, hmem⟩ : ∃ long short : List Nat, [4, 3, 2, 1] = long ++ short ∧
      (∀ k ∈ long, (utf8Char c).length ≤ k) ∧ (utf8Char c).length ∈ long := by
    rcases utf8Char_length c with hlength | hlength | hlength | hlength <;> rw [hlength]
    · exact ⟨[4, 3, 2, 1], [], rfl, by decide, by decide⟩
    · exact ⟨[4, 3, 2], [1], rfl, by decide, by decide⟩
    · exact ⟨[4, 3], [2, 1], rfl, by decide, by decide⟩
    · exact ⟨[4], [3, 2, 1], rfl, by decide, by decide⟩
  cases hfind : long.findSome? fun k =>
      (oneChar ((utf8Char c ++ bytes).take k)).map fun c => (c, k) with
  | none =>
    have hnone := List.findSome?_eq_none_iff.1 hfind _ hmem
    rw [hself] at hnone
    cases hnone
  | some found =>
    obtain ⟨k, hk, hfound⟩ := List.exists_of_findSome?_eq_some hfind
    obtain ⟨d, hd, rfl⟩ := Option.map_eq_some_iff.1 hfound
    obtain ⟨rfl, hdrop⟩ := hlonger k d (hlong k hk) hd
    refine ⟨k, ?_, hdrop⟩
    unfold firstChar
    rw [hlist, List.findSome?_append, hfind, Option.some_or]

theorem fsdecodeFrom_utf8 {s : PyStr} {fuel : Nat} (h : encodable s = true)
    (hfuel : (utf8 s).length ≤ fuel) : fsdecodeFrom fuel (utf8 s) = s := by
  induction s generalizing fuel with
  | nil => cases fuel <;> rfl
  | cons c s ih =>
    simp only [encodable, List.all_cons, Bool.and_eq_true, Bool.not_eq_true'] at h
    obtain ⟨k, hfirst, hdrop⟩ := @firstChar_spec c (utf8 s) h.1
    have hbytes : utf8 (c :: s) = utf8Char c ++ utf8 s := List.flatMap_cons
    have hlength := utf8Char_length c
    rw [hbytes, List.length_append] at hfuel
    rw [hbytes]
    cases fuel with
    | zero => omega
    | succ fuel =>
      cases hchar : utf8Char c with
      | nil => exact absurd hchar (utf8Char_ne_nil c)
      | cons b rest =>
        rw [hchar] at hfirst hdrop
        simp only [List.cons_append] at hfirst hdrop ⊢
        simp only [fsdecodeFrom, hfirst, hdrop]
        rw [ih h.2 (by omega)]

theorem fsdecode_utf8 {s : PyStr} (h : encodable s = true) : fsdecode (utf8 s) = s :=
  fsdecodeFrom_utf8 h (Nat.le_refl _)

/-! ## `decodeReplace` of encoded text -/

section Replace

variable {n value low high k : Nat} {bytes : Bytes}

theorem decodeReplace_more (hk : k < 0x40) (hlow : low ≤ 0x80 + k) (hhigh : 0x80 + k < high) :
    decodeReplaceFrom ⟨n + 2, value, low, high⟩ (byte (0x80 + k) :: bytes) =
      decodeReplaceFrom ⟨n + 1, value * 0x40 + k, 0x80, 0xC0⟩ bytes := by
  have hval : (byte (0x80 + k)).val = 0x80 + k := byte_val (by omega)
  have hsub : 0x80 + k - 0x80 = k := by omega
  have hmany : n + 2 ≠ 0 ∧ n + 2 ≠ 1 := by omega
  have hleft : n + 2 - 1 = n + 1 := rfl
  simp only [decodeReplaceFrom, hval, hsub, hlow, hhigh, hmany.1, hmany.2, hleft, and_self, if_true,
    if_false]

theorem decodeReplace_last (hk : k < 0x40) (hlow : low ≤ 0x80 + k) (hhigh : 0x80 + k < high) :
    decodeReplaceFrom ⟨1, value, low, high⟩ (byte (0x80 + k) :: bytes) =
      codePoint (value * 0x40 + k) :: decodeReplaceFrom .idle bytes := by
  have hval : (byte (0x80 + k)).val = 0x80 + k := byte_val (by omega)
  have hsub : 0x80 + k - 0x80 = k := by omega
  simp only [decodeReplaceFrom, hval, hsub, hlow, hhigh, and_self, if_true, if_false, one_ne_zero]

theorem decodeReplace_lead {b : Byte} {s : CharState} (h : leadByte b.val = ([], s)) :
    decodeReplaceFrom .idle (b :: bytes) = decodeReplaceFrom s bytes := by
  simp only [decodeReplaceFrom, CharState.idle, if_true, h, List.nil_append]

end Replace

theorem leadByte_two (h1 : ¬ c.val < 0x80) (h2 : c.val < 0x800) :
    leadByte (byte (0xC0 + c.val / 0x40)).val = ([], ⟨1, c.val / 0x40, 0x80, 0xC0⟩) := by
  have hval : (byte (0xC0 + c.val / 0x40)).val = 0xC0 + c.val / 0x40 := byte_val (by omega)
  rw [hval]
  unfold leadByte
  rw [if_neg (by omega), if_neg (by omega), if_pos (by omega), Nat.add_sub_cancel_left]

theorem leadByte_three (h2 : ¬ c.val < 0x800) (h3 : c.val < 0x10000)
    (hplain : ¬ (0xD800 ≤ c.val ∧ c.val < 0xE000)) : ∃ low high,
      leadByte (byte (0xE0 + c.val / 0x1000)).val = ([], ⟨2, c.val / 0x1000, low, high⟩) ∧
        low ≤ 0x80 + c.val / 0x40 % 0x40 ∧ 0x80 + c.val / 0x40 % 0x40 < high := by
  have hval : (byte (0xE0 + c.val / 0x1000)).val = 0xE0 + c.val / 0x1000 := byte_val (by omega)
  rw [hval]
  unfold leadByte
  rw [if_neg (by omega), if_neg (by omega), if_neg (by omega)]
  split_ifs with hE0 hED hF0
  · exact ⟨0xA0, 0xC0, by rw [show c.val / 0x1000 = 0 by omega], by omega, by omega⟩
  · exact ⟨0x80, 0xA0, by rw [show c.val / 0x1000 = 0xD by omega], by omega, by omega⟩
  · exact ⟨0x80, 0xC0, by rw [Nat.add_sub_cancel_left], by omega, by omega⟩
  all_goals omega

theorem leadByte_four (h3 : ¬ c.val < 0x10000) : ∃ low high,
    leadByte (byte (0xF0 + c.val / 0x40000)).val = ([], ⟨3, c.val / 0x40000, low, high⟩) ∧
      low ≤ 0x80 + c.val / 0x1000 % 0x40 ∧ 0x80 + c.val / 0x1000 % 0x40 < high := by
  have hmax := c.isLt
  have hval : (byte (0xF0 + c.val / 0x40000)).val = 0xF0 + c.val / 0x40000 := byte_val (by omega)
  rw [hval]
  unfold leadByte
  rw [if_neg (by omega), if_neg (by omega), if_neg (by omega), if_neg (by omega),
    if_neg (by omega), if_neg (by omega)]
  split_ifs with hF0 hF4 hmost
  · exact ⟨0x90, 0xC0, by rw [show c.val / 0x40000 = 0 by omega], by omega, by omega⟩
  · exact ⟨0x80, 0xC0, by rw [Nat.add_sub_cancel_left], by omega, by omega⟩
  · exact ⟨0x80, 0x90, by rw [show c.val / 0x40000 = 4 by omega], by omega, by omega⟩
  all_goals omega

theorem not_surrogate_range (h : isSurrogate c = false) :
    ¬ (0xD800 ≤ c.val ∧ c.val < 0xE000) := by
  simp only [isSurrogate, isHighSurrogate, isLowSurrogate, Bool.or_eq_false_iff,
    Bool.and_eq_false_iff, decide_eq_false_iff_not] at h
  omega

theorem decodeReplace_char {bytes : Bytes} (h : isSurrogate c = false) :
    decodeReplaceFrom .idle (utf8Char c ++ bytes) = c :: decodeReplaceFrom .idle bytes := by
  have hself : codePoint c.val = c := codePoint_val c
  unfold utf8Char
  split_ifs with h1 h2 h3
  · have hval : (byte c.val).val = c.val := byte_val (by omega)
    have hlead : leadByte c.val = ([codePoint c.val], .idle) := by
      simp only [leadByte, h1, if_true]
    rw [List.singleton_append, decodeReplaceFrom]
    simp only [hval, hlead, CharState.idle, if_true, hself, List.singleton_append]
  · have hsum : c.val / 0x40 * 0x40 + c.val % 0x40 = c.val := by omega
    simp only [List.cons_append, List.nil_append]
    rw [decodeReplace_lead (leadByte_two h1 h2),
      decodeReplace_last (by omega) (by omega) (by omega), hsum, hself]
  · obtain ⟨low, high, hlead, hlow, hhigh⟩ := leadByte_three h2 h3 (not_surrogate_range h)
    have hsum : (c.val / 0x1000 * 0x40 + c.val / 0x40 % 0x40) * 0x40 + c.val % 0x40 = c.val := by
      omega
    simp only [List.cons_append, List.nil_append]
    rw [decodeReplace_lead hlead, decodeReplace_more (by omega) hlow hhigh,
      decodeReplace_last (by omega) (by omega) (by omega), hsum, hself]
  · obtain ⟨low, high, hlead, hlow, hhigh⟩ := leadByte_four h3
    have hsum : ((c.val / 0x40000 * 0x40 + c.val / 0x1000 % 0x40) * 0x40 +
        c.val / 0x40 % 0x40) * 0x40 + c.val % 0x40 = c.val := by omega
    simp only [List.cons_append, List.nil_append]
    rw [decodeReplace_lead hlead, decodeReplace_more (by omega) hlow hhigh,
      decodeReplace_more (by omega) (by omega) (by omega),
      decodeReplace_last (by omega) (by omega) (by omega), hsum, hself]

/-- A character that breaks off is one replacement character. -/
theorem decodeReplace_cut {k : Nat} (h : isSurrogate c = false) (hk : 0 < k)
    (hlt : k < (utf8Char c).length) :
    decodeReplaceFrom .idle ((utf8Char c).take k) = [replacementChar] := by
  unfold utf8Char at hlt ⊢
  split_ifs at hlt ⊢ with h1 h2 h3
  · rw [List.length_singleton] at hlt
    omega
  · have hone : k = 1 := by
      simp only [List.length_cons, List.length_nil] at hlt
      omega
    rw [hone, List.take_succ_cons, List.take_zero, decodeReplace_lead (leadByte_two h1 h2)]
    rfl
  · obtain ⟨low, high, hlead, hlow, hhigh⟩ := leadByte_three h2 h3 (not_surrogate_range h)
    have hcases : k = 1 ∨ k = 2 := by
      simp only [List.length_cons, List.length_nil] at hlt
      omega
    rcases hcases with rfl | rfl
    · rw [List.take_succ_cons, List.take_zero, decodeReplace_lead hlead]
      rfl
    · rw [List.take_succ_cons, List.take_succ_cons, List.take_zero, decodeReplace_lead hlead,
        decodeReplace_more (by omega) hlow hhigh]
      rfl
  · obtain ⟨low, high, hlead, hlow, hhigh⟩ := leadByte_four h3
    have hcases : k = 1 ∨ k = 2 ∨ k = 3 := by
      simp only [List.length_cons, List.length_nil] at hlt
      omega
    rcases hcases with rfl | rfl | rfl
    · rw [List.take_succ_cons, List.take_zero, decodeReplace_lead hlead]
      rfl
    · rw [List.take_succ_cons, List.take_succ_cons, List.take_zero, decodeReplace_lead hlead,
        decodeReplace_more (by omega) hlow hhigh]
      rfl
    · rw [List.take_succ_cons, List.take_succ_cons, List.take_succ_cons, List.take_zero,
        decodeReplace_lead hlead, decodeReplace_more (by omega) hlow hhigh,
        decodeReplace_more (by omega) (by omega) (by omega)]
      rfl

theorem decodeReplace_append {s : PyStr} (h : encodable s = true) (bytes : Bytes) :
    decodeReplace (utf8 s ++ bytes) = s ++ decodeReplace bytes := by
  induction s with
  | nil => rfl
  | cons c s ih =>
    simp only [encodable, List.all_cons, Bool.and_eq_true, Bool.not_eq_true'] at h
    have hbytes : utf8 (c :: s) = utf8Char c ++ utf8 s := List.flatMap_cons
    have hrest : decodeReplaceFrom .idle (utf8 s ++ bytes) = s ++ decodeReplace bytes := ih h.2
    rw [decodeReplace, hbytes, List.append_assoc, decodeReplace_char h.1, hrest, List.cons_append]

theorem decodeReplace_utf8 {s : PyStr} (h : encodable s = true) : decodeReplace (utf8 s) = s := by
  have hwhole := decodeReplace_append h []
  rw [List.append_nil] at hwhole
  rw [hwhole]
  exact List.append_nil s

end Python
end Tempest
