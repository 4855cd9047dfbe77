import Tempest.Desktop.KeyAnswers

/-!
# PercentCodecs — the host's two percent-decoders and its encoder

`urlencoding_decode` (`agent_chat.rs`) slices the text and panics inside a character, the loop of
`query_param` (`platform_web.rs`, `percentDecode`) slices its bytes; both hand the two bytes to
`u8::from_str_radix`, which takes a sign.  `encode_detail` writes at most 500 bytes.

A `&str` is a string without surrogates (`encodable`).
-/

namespace Tempest
namespace PercentCodecs

open Python KeyBridge BrowserUrl

/-! ## The codecs -/

/-- `str::is_char_boundary` in front of the bytes that are left. -/
def atBoundary : Bytes → Bool
  | [] => true
  | b :: _ => !(0x80 ≤ b.val && b.val < 0xC0)

/-- The loop of `urlencoding_decode`; `none` is a panic of the slice. -/
def urlencodingBytes : Bytes → Option Bytes
  | [] => some []
  | [b] => some [plainByte b]
  | [b, b'] => some [plainByte b, plainByte b']
  | b :: high :: low :: rest =>
    if b = byte 0x25 then
      if atBoundary rest then
        match hexByte high low with
        | some value => (urlencodingBytes rest).map (value :: ·)
        | none => (urlencodingBytes (high :: low :: rest)).map (b :: ·)
      else none
    else (urlencodingBytes (high :: low :: rest)).map (plainByte b :: ·)

def urlencodingDecode (segment : PyStr) : Option PyStr :=
  (urlencodingBytes (utf8 segment)).map decodeReplace

/-- The decoder in `query_param`. -/
def queryDecode (value : PyStr) : PyStr := decodeReplace (percentDecode (utf8 value))

def isUnreserved (b : Byte) : Bool :=
  (0x41 ≤ b.val && b.val ≤ 0x5A) || (0x61 ≤ b.val && b.val ≤ 0x7A) ||
    (0x30 ≤ b.val && b.val ≤ 0x39) || [0x2D, 0x2E, 0x5F, 0x7E].contains b.val

def encodeByte (b : Byte) : PyStr := if isUnreserved b then [codePoint b.val] else percentByte b

def detailCap : Nat := 500

def encodeDetail (detail : PyStr) : PyStr := ((utf8 detail).take detailCap).flatMap encodeByte

/-! ## The decoding that is meant -/

def hexPair (high low : Byte) : Option Byte :=
  match hexDigit high, hexDigit low with
  | some h, some l => some (byte (16 * h + l))
  | _, _ => none

/-- Percent-decoding with `%` and two hexadecimal digits as the only escape. -/
def strictDecode : Bytes → Bytes
  | [] => []
  | [b] => [plainByte b]
  | [b, b'] => [plainByte b, plainByte b']
  | b :: high :: low :: rest =>
    if b = byte 0x25 then
      match hexPair high low with
      | some value => value :: strictDecode rest
      | none => b :: strictDecode (high :: low :: rest)
    else plainByte b :: strictDecode (high :: low :: rest)

/-- A result the encoder may be decoded to: all of a short text, the front of a longer one. -/
def FrontOf (detail front : PyStr) : Prop :=
  front <+: detail ∧ ((utf8 detail).length ≤ detailCap → front = detail)

structure CodecsAgree (s : PyStr) : Prop where
  decoders : urlencodingDecode s = some (queryDecode s)
  escapes : percentDecode (utf8 s) = strictDecode (utf8 s)
  detail : ∃ front, FrontOf s front ∧ queryDecode (encodeDetail s) = front ∧
    urlencodingDecode (encodeDetail s) = some front

/-! ## The two decoders -/

/-- Behind a `%` stand two whole characters' bytes, and no sign with a digit. -/
def PlainEscape : Bytes → Prop
  | b :: high :: low :: rest => b = byte 0x25 →
      atBoundary rest = true ∧ ¬ (high = byte 0x2B ∧ (hexDigit low).isSome = true)
  | _ => True

theorem forall_suffix_cons {P : Bytes → Prop} {b : Byte} {bytes : Bytes} :
    (∀ v, v <:+ b :: bytes → P v) ↔ P (b :: bytes) ∧ ∀ v, v <:+ bytes → P v := by
  constructor
  · intro h
    exact ⟨h _ List.suffix_rfl, fun v hv => h v (hv.trans (List.suffix_cons b bytes))⟩
  · rintro ⟨hwhole, hrest⟩ v hv
    rcases List.suffix_cons_iff.1 hv with rfl | hv
    · exact hwhole
    · exact hrest v hv

theorem plainEscape_of_ne {b : Byte} {bytes : Bytes} (h : b ≠ byte 0x25) :
    PlainEscape (b :: bytes) := by
  match bytes with
  | [] => exact trivial
  | [_] => exact trivial
  | _ :: _ :: _ => exact fun hb => absurd hb h

theorem plainEscape_percent {high low : Byte} {rest : Bytes} :
    PlainEscape (byte 0x25 :: high :: low :: rest) ↔
      atBoundary rest = true ∧ ¬ (high = byte 0x2B ∧ (hexDigit low).isSome = true) := by
  simp [PlainEscape]

theorem hexDigit_percent : hexDigit (byte 0x25) = none := by decide

theorem hexDigit_plus : hexDigit (byte 0x2B) = none := by decide

/-- What is read as an escape holds no other `%`. -/
theorem ne_percent_of_hexByte {high low value : Byte} (h : hexByte high low = some value) :
    high ≠ byte 0x25 ∧ low ≠ byte 0x25 := by
  constructor
  · rintro rfl
    have hplus : byte 0x25 ≠ byte 0x2B := by decide
    simp [hexByte, hplus, hexDigit_percent] at h
  · rintro rfl
    simp only [hexByte, hexDigit_percent, Option.map_none] at h
    split_ifs at h
    split at h <;> simp_all

theorem hexPair_eq {high low : Byte} (h : ¬ (high = byte 0x2B ∧ (hexDigit low).isSome = true)) :
    hexPair high low = hexByte high low := by
  unfold hexByte
  split_ifs with hplus
  · cases hlow : hexDigit low with
    | none => simp [hexPair, hplus, hexDigit_plus]
    | some l => exact absurd ⟨hplus, by rw [hlow]; rfl⟩ h
  · rfl

/-- The value of a signed digit is none of a `%`. -/
theorem hexByte_signed {low : Byte} (h : (hexDigit low).isSome = true) :
    ∃ value, hexByte (byte 0x2B) low = some value ∧ value ≠ byte 0x25 ∧
      hexPair (byte 0x2B) low = none := by
  rcases Option.isSome_iff_exists.1 h with ⟨l, hl⟩
  have hsmall : l < 16 := by
    unfold hexDigit at hl
    split_ifs at hl <;> (obtain rfl := Option.some.inj hl; omega)
  refine ⟨byte l, by simp [hexByte, hl], ?_, by simp [hexPair, hexDigit_plus]⟩
  rw [Ne, byte_inj (by omega) (by omega)]
  omega

/-- Both loops produce the same bytes where the first one does not panic. -/
theorem urlencodingBytes_eq {bytes out : Bytes} (h : urlencodingBytes bytes = some out) :
    out = percentDecode bytes := by
  induction bytes using percentDecode.induct generalizing out with
  | case1 | case2 _ | case3 _ _ => simpa [urlencodingBytes, percentDecode] using h.symm
  | case4 high low rest value hvalue ih =>
    simp only [urlencodingBytes, if_true, hvalue] at h
    split_ifs at h
    rcases Option.map_eq_some_iff.1 h with ⟨out, hout, rfl⟩
    simp [percentDecode, hvalue, ih hout]
  | case5 high low rest hnone ih =>
    simp only [urlencodingBytes, if_true, hnone] at h
    split_ifs at h
    rcases Option.map_eq_some_iff.1 h with ⟨out, hout, rfl⟩
    simp [percentDecode, hnone, ih hout]
  | case6 b high low rest hb ih =>
    simp only [urlencodingBytes, if_neg hb] at h
    rcases Option.map_eq_some_iff.1 h with ⟨out, hout, rfl⟩
    simp [percentDecode, hb, ih hout]

/-- There is no panic and no other escape exactly where every `%` is followed plainly. -/
theorem decoders_iff {bytes : Bytes} :
    (urlencodingBytes bytes = some (percentDecode bytes) ∧
      percentDecode bytes = strictDecode bytes) ↔ ∀ v, v <:+ bytes → PlainEscape v := by
  induction bytes using percentDecode.induct with
  | case1 =>
    refine iff_of_true ⟨rfl, by simp [percentDecode, strictDecode]⟩ ?_
    intro v hv
    rw [List.suffix_nil.1 hv]
    trivial
  | case2 b =>
    refine iff_of_true ⟨rfl, by simp [percentDecode, strictDecode]⟩ ?_
    rw [forall_suffix_cons]
    refine ⟨trivial, fun v hv => ?_⟩
    rw [List.suffix_nil.1 hv]
    trivial
  | case3 b b' =>
    refine iff_of_true ⟨rfl, by simp [percentDecode, strictDecode]⟩ ?_
    rw [forall_suffix_cons, forall_suffix_cons]
    refine ⟨trivial, trivial, fun v hv => ?_⟩
    rw [List.suffix_nil.1 hv]
    trivial
  | case4 high low rest value hvalue ih =>
    have hne := ne_percent_of_hexByte hvalue
    rw [forall_suffix_cons, forall_suffix_cons, forall_suffix_cons, ← ih]
    have hskip := @plainEscape_of_ne high (low :: rest) hne.1
    have hskip' := @plainEscape_of_ne low rest hne.2
    rw [plainEscape_percent]
    by_cases hbound : atBoundary rest = true
    · by_cases hsign : high = byte 0x2B ∧ (hexDigit low).isSome = true
      · -- a signed digit: the strict decoder keeps the `%`
        rcases hexByte_signed hsign.2 with ⟨value', hvalue', hother, hpair⟩
        rw [← hsign.1] at hvalue' hpair
        obtain rfl := Option.some.inj (hvalue.symm.trans hvalue')
        refine iff_of_false ?_ fun h => h.1.2 hsign
        rintro ⟨_, hsame⟩
        simp only [percentDecode, strictDecode, if_true, hvalue, hpair] at hsame
        exact hother (List.cons.inj hsame).1
      · have hpair := (hexPair_eq hsign).trans hvalue
        simp [urlencodingBytes, percentDecode, strictDecode, hvalue, hpair, hbound, hsign, hskip,
          hskip']
    · simp [urlencodingBytes, hbound]
  | case5 high low rest hnone ih =>
    rw [forall_suffix_cons, ← ih, plainEscape_percent]
    have hsign : ¬ (high = byte 0x2B ∧ (hexDigit low).isSome = true) := by
      rintro ⟨rfl, hlow⟩
      rcases hexByte_signed hlow with ⟨value, hvalue, _⟩
      rw [hnone] at hvalue
      cases hvalue
    have hpair := (hexPair_eq hsign).trans hnone
    by_cases hbound : atBoundary rest = true
    · simp [urlencodingBytes, percentDecode, strictDecode, hnone, hpair, hbound, hsign]
    · simp [urlencodingBytes, hbound]
  | case6 b high low rest hb ih =>
    rw [forall_suffix_cons, ← ih]
    have hplain := @plainEscape_of_ne b (high :: low :: rest) hb
    simp [urlencodingBytes, percentDecode, strictDecode, hb, hplain]

/-! ## The encoder -/

theorem utf8_encodeByte (b : Byte) (h : isUnreserved b = true) :
    utf8 (encodeByte b) = [b] ∧ b ≠ byte 0x25 ∧ b ≠ byte 0x2B ∧ b.val < 0x80 := by
  have hlt := b.isLt
  have hrange : b.val < 0x80 ∧ b.val ≠ 0x25 ∧ b.val ≠ 0x2B := by
    simp only [isUnreserved, Bool.or_eq_true, Bool.and_eq_true, decide_eq_true_eq,
      List.contains_eq_mem, List.mem_cons, List.not_mem_nil, or_false] at h
    omega
  have hcode : (codePoint b.val).val = b.val := Nat.mod_eq_of_lt (by omega)
  have hself : byte b.val = b := Fin.ext (byte_val hlt)
  have hchar : utf8Char (codePoint b.val) = [b] := by
    unfold utf8Char
    rw [hcode, if_pos hrange.1, hself]
  refine ⟨?_, ?_, ?_, hrange.1⟩
  · rw [encodeByte, if_pos h, utf8, List.flatMap_cons, hchar]
    rfl
  · rintro rfl
    exact hrange.2.1 rfl
  · rintro rfl
    exact hrange.2.2 rfl

/-- An encoded text starts at a boundary: all its bytes are ASCII. -/
theorem atBoundary_encoded (bs : Bytes) : atBoundary (utf8 (bs.flatMap encodeByte)) = true := by
  cases bs with
  | nil => rfl
  | cons b bs =>
    have hsplit : utf8 ((b :: bs).flatMap encodeByte) =
        utf8 (encodeByte b) ++ utf8 (bs.flatMap encodeByte) := List.flatMap_append
    cases hb : isUnreserved b with
    | true =>
      have hplain := utf8_encodeByte b hb
      have hlow : ¬ 0x80 ≤ b.val := by omega
      rw [hsplit, hplain.1]
      simp [atBoundary, hlow]
    | false =>
      have hpercent : encodeByte b = percentByte b := by simp [encodeByte, hb]
      rw [hsplit, hpercent, utf8_percentByte]
      rfl

theorem percentDecode_encoded (bs : Bytes) :
    percentDecode (utf8 (bs.flatMap encodeByte)) = bs ∧
      urlencodingBytes (utf8 (bs.flatMap encodeByte)) = some bs := by
  induction bs with
  | nil => exact ⟨by simp [utf8, percentDecode], rfl⟩
  | cons b bs ih =>
    have hsplit : utf8 ((b :: bs).flatMap encodeByte) =
        utf8 (encodeByte b) ++ utf8 (bs.flatMap encodeByte) := List.flatMap_append
    rw [hsplit]
    cases hb : isUnreserved b with
    | true =>
      obtain ⟨hbytes, hpercent, hplus, _⟩ := utf8_encodeByte b hb
      rw [hbytes, List.singleton_append, percentDecode_plain hpercent hplus, ih.1]
      refine ⟨rfl, ?_⟩
      have hself : plainByte b = b := if_neg hplus
      rcases hrest : utf8 (bs.flatMap encodeByte) with _ | ⟨c, _ | ⟨d, rest⟩⟩
      · rw [hrest] at ih
        simp_all [urlencodingBytes]
      · rw [hrest] at ih
        simp_all [urlencodingBytes]
      · rw [hrest] at ih
        simp [urlencodingBytes, hpercent, hself, ih.2]
    | false =>
      have hpercent : encodeByte b = percentByte b := by simp [encodeByte, hb]
      have hlt := b.isLt
      have hhigh := @hexDigit_hexUpper (b.val / 16) (by omega)
      have hlow := @hexDigit_hexUpper (b.val % 16) (by omega)
      have hvalue : byte (16 * (b.val / 16) + b.val % 16) = b := by
        rw [Nat.div_add_mod]
        exact Fin.ext (byte_val hlt)
      rw [hpercent, percentDecode_byte, ih.1]
      refine ⟨rfl, ?_⟩
      rw [utf8_percentByte]
      simp only [List.cons_append, List.nil_append, urlencodingBytes, if_true,
        atBoundary_encoded, hexByte, if_neg hhigh.2, hhigh.1, hlow.1, hvalue, ih.2,
        Option.map_some]

/-- Both decoders give back the first bytes of the detail. -/
theorem decode_encodeDetail (s : PyStr) :
    queryDecode (encodeDetail s) = decodeReplace ((utf8 s).take detailCap) ∧
      urlencodingDecode (encodeDetail s) = some (decodeReplace ((utf8 s).take detailCap)) := by
  have hboth := percentDecode_encoded ((utf8 s).take detailCap)
  constructor
  · rw [queryDecode, encodeDetail, hboth.1]
  · rw [urlencodingDecode, encodeDetail, hboth.2, Option.map_some]

/-- The cap falls between two characters, or inside a U+FFFD. -/
def CapBetween (s : PyStr) : Prop :=
  ∀ a c b, s = a ++ c :: b → (utf8 a).length < detailCap →
    detailCap < (utf8 a).length + (utf8Char c).length → c = replacementChar

theorem utf8_cons_length (c : CodePoint) (s : PyStr) :
    (utf8 (c :: s)).length = (utf8Char c).length + (utf8 s).length := by
  rw [utf8, List.flatMap_cons, List.length_append]
  rfl

theorem utf8_append_length (a b : PyStr) :
    (utf8 (a ++ b)).length = (utf8 a).length + (utf8 b).length := by
  rw [utf8, List.flatMap_append, List.length_append]
  rfl

/-- A cap falls behind a character or inside one. -/
theorem exists_cap (s : PyStr) : ∀ n, n ≤ (utf8 s).length →
    (∃ a b, s = a ++ b ∧ (utf8 a).length = n) ∨
      ∃ a c b, s = a ++ c :: b ∧ (utf8 a).length < n ∧ n < (utf8 a).length + (utf8Char c).length := by
  induction s with
  | nil =>
    intro n h
    exact .inl ⟨[], [], rfl, (Nat.le_zero.1 h).symm⟩
  | cons c s ih =>
    intro n h
    rw [utf8_cons_length] at h
    by_cases hzero : n = 0
    · exact .inl ⟨[], c :: s, rfl, hzero.symm⟩
    by_cases hinside : n < (utf8Char c).length
    · refine .inr ⟨[], c, s, rfl, Nat.pos_of_ne_zero hzero, ?_⟩
      rw [show (utf8 ([] : PyStr)).length = 0 from rfl, Nat.zero_add]
      exact hinside
    · rcases ih (n - (utf8Char c).length) (by omega) with ⟨a, b, rfl, ha⟩ | ⟨a, d, b, rfl, ha, hd⟩
      · exact .inl ⟨c :: a, b, rfl, by rw [utf8_cons_length]; omega⟩
      · exact .inr ⟨c :: a, d, b, rfl, by rw [utf8_cons_length]; omega,
          by rw [utf8_cons_length]; omega⟩

/-- No front of the text ends at a cap that falls inside a character, and the character is one. -/
theorem cap_unique {n : Nat} {s a a' b b' : PyStr} {c : CodePoint} (h : s = a ++ c :: b)
    (hc : n < (utf8 a).length + (utf8Char c).length)
    (h' : s = a' ++ b') (ha' : (utf8 a').length ≤ n) : a' <+: a := by
  have hprefix : a <+: s := ⟨c :: b, h.symm⟩
  have hprefix' : a' <+: s := ⟨b', h'.symm⟩
  rcases List.prefix_or_prefix_of_prefix hprefix' hprefix with hshort | hlong
  · exact hshort
  · rcases hlong with ⟨rest, rfl⟩
    cases rest with
    | nil => rw [List.append_nil]
    | cons d rest =>
      -- the character of the cap would stand in front of the end of `a'`
      rw [h, List.append_assoc] at h'
      obtain rfl : c = d := (List.cons.inj (List.append_cancel_left h')).1
      rw [utf8_append_length, utf8_cons_length] at ha'
      omega

theorem decode_take_inside {a b : PyStr} {c : CodePoint} {n : Nat}
    (hs : encodable (a ++ c :: b) = true) (ha : (utf8 a).length < n)
    (hc : n < (utf8 a).length + (utf8Char c).length) :
    decodeReplace ((utf8 (a ++ c :: b)).take n) = a ++ [replacementChar] := by
  rw [encodable_append] at hs
  simp only [encodable, List.all_cons, Bool.and_eq_true, Bool.not_eq_true'] at hs
  have hbytes : utf8 (a ++ c :: b) = utf8 a ++ (utf8Char c ++ utf8 b) := by
    rw [utf8, List.flatMap_append, List.flatMap_cons]
    rfl
  have htake : (utf8 (a ++ c :: b)).take n =
      utf8 a ++ (utf8Char c).take (n - (utf8 a).length) := by
    rw [hbytes, List.take_append, List.take_of_length_le ha.le, List.take_append_of_le_length]
    omega
  rw [htake, decodeReplace_append hs.1]
  exact congrArg (a ++ ·) (decodeReplace_cut hs.2.1 (by omega) (by omega))

theorem detail_iff {s : PyStr} (hs : encodable s = true) :
    FrontOf s (decodeReplace ((utf8 s).take detailCap)) ↔ CapBetween s := by
  by_cases hshort : (utf8 s).length ≤ detailCap
  · refine iff_of_true ?_ ?_
    · rw [List.take_of_length_le hshort, decodeReplace_utf8 hs]
      exact ⟨List.prefix_rfl, fun _ => rfl⟩
    · rintro a c b rfl _ hc
      rw [utf8_append_length, utf8_cons_length] at hshort
      omega
  · have hlong : detailCap ≤ (utf8 s).length := by omega
    rcases exists_cap s detailCap hlong with ⟨a, b, rfl, ha⟩ | ⟨a, c, b, rfl, ha, hc⟩
    · -- the cap is a boundary
      refine iff_of_true ?_ ?_
      · have htake : (utf8 (a ++ b)).take detailCap = utf8 a := by
          rw [utf8, List.flatMap_append, ← ha]
          exact List.take_left
        rw [encodable_append, Bool.and_eq_true] at hs
        rw [htake, decodeReplace_utf8 hs.1]
        exact ⟨List.prefix_append a b, fun h => absurd h hshort⟩
      · intro a' c b' heq ha' hc
        have hin := cap_unique heq hc rfl ha.le
        rcases hin with ⟨rest, rfl⟩
        rw [utf8_append_length] at ha'
        omega
    · rw [decode_take_inside hs ha hc]
      constructor
      · intro hfront a' c' b' heq ha' hc'
        have hle := cap_unique heq hc' rfl ha.le
        have hge := cap_unique rfl hc heq ha'.le
        obtain rfl := hle.eq_of_length (le_antisymm hle.length_le hge.length_le)
        obtain rfl := (List.cons.inj (List.append_cancel_left heq)).1
        have hchar := (List.prefix_append_right_inj a).1 hfront.1
        exact (List.cons_prefix_cons.1 hchar).1.symm
      · intro hcap
        have hchar := hcap a c b rfl ha hc
        refine ⟨?_, fun h => absurd h hshort⟩
        rw [List.prefix_append_right_inj, hchar]
        exact ⟨b, rfl⟩

/-- The codecs agree exactly on texts where every `%` is followed plainly and the cap falls between
two characters. -/
theorem codecsAgree_iff {s : PyStr} (hs : encodable s = true) :
    CodecsAgree s ↔ (∀ v, v <:+ utf8 s → PlainEscape v) ∧ CapBetween s := by
  have hdetail := decode_encodeDetail s
  rw [← decoders_iff, ← detail_iff hs]
  constructor
  · intro h
    refine ⟨⟨?_, h.escapes⟩, ?_⟩
    · rcases Option.map_eq_some_iff.1 h.decoders with ⟨out, hout, _⟩
      rw [hout, urlencodingBytes_eq hout]
    · rcases h.detail with ⟨front, hfront, hquery, _⟩
      rwa [← hdetail.1, hquery]
  · rintro ⟨⟨hbytes, hescapes⟩, hfront⟩
    refine ⟨?_, hescapes, _, hfront, hdetail.1, hdetail.2⟩
    rw [urlencodingDecode, hbytes, Option.map_some]
    rfl

/-- `Ollama%20(local)` is decoded to one text. -/
theorem codecsAgree_iff_endpoint : CodecsAgree (lit "Ollama%20(local)") := by
  have hbytes : (utf8 (lit "Ollama%20(local)")).length = 16 := by decide
  refine (codecsAgree_iff (by decide)).2 ⟨decoders_iff.1 ⟨by decide, by decide⟩, ?_⟩
  rintro a c b heq _ hc
  rw [heq, utf8_append_length, utf8_cons_length] at hbytes
  simp only [detailCap] at hc
  omega

/-- The slice inside `€` panics, a plus is taken for a sign, and the cap may cut a character. -/
theorem codecs_disagree :
    (urlencodingDecode (lit "%€") = none ∧ ¬ CodecsAgree (lit "%€")) ∧
      (queryDecode (lit "%+9") = [codePoint 9] ∧ ¬ CodecsAgree (lit "%+9")) ∧
      ¬ CodecsAgree (List.replicate 499 (codePoint 0x61) ++ lit "é") := by
  have hpanic : urlencodingDecode (lit "%€") = none := by decide
  refine ⟨⟨hpanic, fun h => ?_⟩, ⟨by decide, fun h => ?_⟩, fun h => ?_⟩
  · have hdecoders := h.decoders
    rw [hpanic] at hdecoders
    cases hdecoders
  · exact absurd h.escapes (by decide)
  · obtain ⟨front, hfront, hquery, _⟩ := h.detail
    -- the cap leaves the lead byte of `é`
    have hcut : queryDecode (encodeDetail (List.replicate 499 (codePoint 0x61) ++ lit "é")) =
        List.replicate 499 (codePoint 0x61) ++ [replacementChar] := by
      rw [(decode_encodeDetail _).1]
      have hletter : (utf8Char (codePoint 0x61)).length = 1 := by decide
      have hfirst : (utf8 (List.replicate 499 (codePoint 0x61))).length = 499 := by
        simp only [utf8, List.length_flatMap, List.map_replicate, List.sum_replicate_nat, hletter]
      have hchar : (utf8Char (codePoint 0xE9)).length = 2 := by decide
      have hplain : encodable (List.replicate 499 (codePoint 0x61) ++ lit "é") = true := by
        rw [encodable_append, encodable, List.all_replicate]
        decide
      refine decode_take_inside (c := codePoint 0xE9) (b := []) hplain ?_ ?_
      · rw [hfirst]
        exact Nat.lt_succ_self 499
      · rw [hfirst, hchar]
        exact Nat.lt_succ_self 500
    rw [hcut] at hquery
    have hmark : [replacementChar] <+: lit "é" := by
      rw [← List.prefix_append_right_inj (List.replicate 499 (codePoint 0x61)), hquery]
      exact hfront.1
    exact absurd hmark (by decide)

end PercentCodecs
end Tempest
