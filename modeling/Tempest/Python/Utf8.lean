import Tempest.Python.Text

/-!
# Utf8 — reading bytes as text (`bytes.decode`)

A decoder with one byte of input at a time; `decodeUtf8_utf8` says that it inverts the encoder.
-/

namespace Tempest
namespace Python

/-- The decoder inside a character: how many bytes are still to come, the value so far, and the
least value that needs that many bytes. -/
@[grind =]
def decodeFrom : Nat → Nat → Nat → Bytes → Option PyStr
  | 0, _, _, [] => some []
  | _ + 1, _, _, [] => none
  | 0, _, _, b :: bytes =>
    if b.val < 0x80 then (decodeFrom 0 0 0 bytes).map (codePoint b.val :: ·)
    else if b.val < 0xC0 then none
    else if b.val < 0xE0 then decodeFrom 1 (b.val - 0xC0) 0x80 bytes
    else if b.val < 0xF0 then decodeFrom 2 (b.val - 0xE0) 0x800 bytes
    else if b.val < 0xF8 then decodeFrom 3 (b.val - 0xF0) 0x10000 bytes
    else none
  | n + 1, value, least, b :: bytes =>
    if 0x80 ≤ b.val ∧ b.val < 0xC0 then
      let value := value * 0x40 + (b.val - 0x80)
      if n ≠ 0 then decodeFrom n value least bytes
      -- overlong, surrogate or out of range
      else if value < least ∨ 0xD800 ≤ value ∧ value < 0xE000 ∨ 0x110000 ≤ value then none
      else (decodeFrom 0 0 0 bytes).map (codePoint value :: ·)
    else none

/-- `bytes.decode("utf-8")`; `none` is `UnicodeDecodeError`. -/
def decodeUtf8 (bytes : Bytes) : Option PyStr := decodeFrom 0 0 0 bytes

/-! ## `errors="replace"` -/

def replacementChar : CodePoint := codePoint 0xFFFD

/-- The decoder between two bytes: how many are still to come, the value so far, and the range of
the next one. -/
structure CharState where
  left : Nat
  value : Nat
  low : Nat
  high : Nat

def CharState.idle : CharState := ⟨0, 0, 0, 0⟩

/-- The first byte of a character: what it is already, and what is still to come. -/
def leadByte (b : Nat) : PyStr × CharState :=
  if b < 0x80 then ([codePoint b], .idle)
  -- a continuation byte, or the lead byte of an overlong character
  else if b < 0xC2 then ([replacementChar], .idle)
  else if b < 0xE0 then ([], ⟨1, b - 0xC0, 0x80, 0xC0⟩)
  else if b = 0xE0 then ([], ⟨2, 0x0, 0xA0, 0xC0⟩)
  -- the surrogates
  else if b = 0xED then ([], ⟨2, 0xD, 0x80, 0xA0⟩)
  else if b < 0xF0 then ([], ⟨2, b - 0xE0, 0x80, 0xC0⟩)
  else if b = 0xF0 then ([], ⟨3, 0x0, 0x90, 0xC0⟩)
  else if b < 0xF4 then ([], ⟨3, b - 0xF0, 0x80, 0xC0⟩)
  -- up to U+10FFFF
  else if b = 0xF4 then ([], ⟨3, 0x4, 0x80, 0x90⟩)
  else ([replacementChar], .idle)

@[grind =]
def decodeReplaceFrom : CharState → Bytes → PyStr
  | s, [] => if s.left = 0 then [] else [replacementChar]
  | s, b :: bytes =>
    let lead := leadByte b.val
    if s.left = 0 then lead.1 ++ decodeReplaceFrom lead.2 bytes
    else if s.low ≤ b.val ∧ b.val < s.high then
      let value := s.value * 0x40 + (b.val - 0x80)
      if s.left = 1 then codePoint value :: decodeReplaceFrom .idle bytes
      else decodeReplaceFrom ⟨s.left - 1, value, 0x80, 0xC0⟩ bytes
    -- the bytes so far are one replacement, this one begins anew
    else replacementChar :: lead.1 ++ decodeReplaceFrom lead.2 bytes

/-- `bytes.decode("utf-8", errors="replace")`. -/
def decodeReplace (bytes : Bytes) : PyStr := decodeReplaceFrom .idle bytes

/-! ## What was encoded -/

theorem byte_val {n : Nat} (h : n < 256) : (byte n).val = n := by
  simp [byte, Nat.mod_eq_of_lt h]

theorem decodeFrom_more {n value least k : Nat} {bytes : Bytes} (hk : k < 0x40) (hn : n ≠ 0) :
    decodeFrom (n + 1) value least (byte (0x80 + k) :: bytes) =
      decodeFrom n (value * 0x40 + k) least bytes := by
  have hval : (byte (0x80 + k)).val = 0x80 + k := byte_val (by omega)
  have hrange : 0x80 ≤ 0x80 + k ∧ 0x80 + k < 0xC0 := by omega
  have hsub : 0x80 + k - 0x80 = k := by omega
  simp only [decodeFrom, hval, hrange, and_self, if_true, hsub, hn, ne_eq, not_false_eq_true]

/-- The last continuation byte of a code point that may be written in this way. -/
theorem decodeFrom_last {value least k : Nat} {bytes : Bytes} (hk : k < 0x40)
    (hleast : least ≤ value * 0x40 + k) (hmax : value * 0x40 + k < 0x110000)
    (hsurrogate : ¬ (0xD800 ≤ value * 0x40 + k ∧ value * 0x40 + k < 0xE000)) :
    decodeFrom 1 value least (byte (0x80 + k) :: bytes) =
      (decodeFrom 0 0 0 bytes).map (codePoint (value * 0x40 + k) :: ·) := by
  have hval : (byte (0x80 + k)).val = 0x80 + k := byte_val (by omega)
  have hrange : 0x80 ≤ 0x80 + k ∧ 0x80 + k < 0xC0 := by omega
  have hsub : 0x80 + k - 0x80 = k := by omega
  have hgood : ¬ (value * 0x40 + k < least ∨
      0xD800 ≤ value * 0x40 + k ∧ value * 0x40 + k < 0xE000 ∨ 0x110000 ≤ value * 0x40 + k) := by
    omega
  simp only [decodeFrom, hval, hrange, and_self, if_true, hsub, hgood, if_false, ne_eq,
    not_true_eq_false]

theorem decodeFrom_char {c : CodePoint} {bytes : Bytes} (h : isSurrogate c = false) :
    decodeFrom 0 0 0 (utf8Char c ++ bytes) = (decodeFrom 0 0 0 bytes).map (c :: ·) := by
  have hmax := c.isLt
  have hplain : ¬ (0xD800 ≤ c.val ∧ c.val < 0xE000) := by
    simp only [isSurrogate, isHighSurrogate, isLowSurrogate, Bool.or_eq_false_iff,
      Bool.and_eq_false_iff, decide_eq_false_iff_not] at h
    omega
  have hself : codePoint c.val = c := codePoint_val c
  unfold utf8Char
  by_cases h1 : c.val < 0x80
  · have hval : (byte c.val).val = c.val := byte_val (by omega)
    simp only [h1, if_true, List.cons_append, List.nil_append, decodeFrom, hval, hself]
  by_cases h2 : c.val < 0x800
  · have hval : (byte (0xC0 + c.val / 0x40)).val = 0xC0 + c.val / 0x40 := byte_val (by omega)
    have hlead : ¬ 0xC0 + c.val / 0x40 < 0x80 ∧ ¬ 0xC0 + c.val / 0x40 < 0xC0 ∧
        0xC0 + c.val / 0x40 < 0xE0 := by omega
    have hsub : 0xC0 + c.val / 0x40 - 0xC0 = c.val / 0x40 := by omega
    have hsum : c.val / 0x40 * 0x40 + c.val % 0x40 = c.val := by omega
    simp only [h1, h2, if_true, if_false, List.cons_append, List.nil_append]
    rw [decodeFrom]
    simp only [hval, hlead, if_true, if_false, hsub]
    rw [decodeFrom_last (by omega) (by omega) (by omega) (by omega), hsum, hself]
  by_cases h3 : c.val < 0x10000
  · have hval : (byte (0xE0 + c.val / 0x1000)).val = 0xE0 + c.val / 0x1000 := byte_val (by omega)
    have hlead : ¬ 0xE0 + c.val / 0x1000 < 0x80 ∧ ¬ 0xE0 + c.val / 0x1000 < 0xC0 ∧
        ¬ 0xE0 + c.val / 0x1000 < 0xE0 ∧ 0xE0 + c.val / 0x1000 < 0xF0 := by omega
    have hsub : 0xE0 + c.val / 0x1000 - 0xE0 = c.val / 0x1000 := by omega
    have hsum : (c.val / 0x1000 * 0x40 + c.val / 0x40 % 0x40) * 0x40 + c.val % 0x40 = c.val := by
      omega
    simp only [h1, h2, h3, if_true, if_false, List.cons_append, List.nil_append]
    rw [decodeFrom]
    simp only [hval, hlead, if_true, if_false, hsub]
    rw [decodeFrom_more (by omega) (by omega),
      decodeFrom_last (by omega) (by omega) (by omega) (by omega), hsum, hself]
  · have hval : (byte (0xF0 + c.val / 0x40000)).val = 0xF0 + c.val / 0x40000 :=
      byte_val (by omega)
    have hlead : ¬ 0xF0 + c.val / 0x40000 < 0x80 ∧ ¬ 0xF0 + c.val / 0x40000 < 0xC0 ∧
        ¬ 0xF0 + c.val / 0x40000 < 0xE0 ∧ ¬ 0xF0 + c.val / 0x40000 < 0xF0 ∧
        0xF0 + c.val / 0x40000 < 0xF8 := by omega
    have hsub : 0xF0 + c.val / 0x40000 - 0xF0 = c.val / 0x40000 := by omega
    have hsum : ((c.val / 0x40000 * 0x40 + c.val / 0x1000 % 0x40) * 0x40 +
        c.val / 0x40 % 0x40) * 0x40 + c.val % 0x40 = c.val := by omega
    simp only [h1, h2, h3, if_false, List.cons_append, List.nil_append]
    rw [decodeFrom]
    simp only [hval, hlead, if_true, if_false, hsub]
    rw [decodeFrom_more (by omega) (by omega), decodeFrom_more (by omega) (by omega),
      decodeFrom_last (by omega) (by omega) (by omega) (by omega), hsum, hself]

theorem decodeUtf8_utf8 {s : PyStr} (h : encodable s = true) : decodeUtf8 (utf8 s) = some s := by
  induction s with
  | nil => rfl
  | cons c s ih =>
    simp only [encodable, List.all_cons, Bool.and_eq_true, Bool.not_eq_true'] at h
    have hrest : decodeFrom 0 0 0 (s.flatMap utf8Char) = some s := ih h.2
    simp only [decodeUtf8, utf8, List.flatMap_cons, decodeFrom_char h.1, hrest, Option.map_some]

end Python
end Tempest
