import Mathlib

/-!
# Text — Python strings, their UTF-8 bytes and their UTF-16 code units

A Python `str` is a sequence of code points, lone surrogates included, so Lean's `String` is too
small for it.  This module provides

* `PyStr`, with `lit` for the constant texts of the engine;
* `utf8`, what `str.encode()` yields, and its failure on surrogates (`encodable`);
* `utf16` and `ofUtf16`, what a `\u`-escaped JSON string carries and what it is read back as;
* decimal text of integers, with the interpreter's limit on its length;
* `base64` text of bytes.

The proof pattern for every encoder is the same: an encoder of one item followed by anything can
be cancelled from the left, and a list of items follows by induction.
-/

namespace Tempest
namespace Python

/-- A Unicode code point as Python counts them: surrogates are code points too. -/
abbrev CodePoint := Fin 0x110000

abbrev PyStr := List CodePoint

abbrev Byte := Fin 256

abbrev Bytes := List Byte

instance : LawfulBEq PyStr := List.instLawfulBEq

instance : LawfulBEq (List PyStr) := List.instLawfulBEq

instance : IsTrans PyStr (· ≤ ·) := inferInstance

instance : Std.Antisymm (α := PyStr) (· ≤ ·) := inferInstance

instance : Std.Total (α := PyStr) (· ≤ ·) := inferInstance

instance byteCount : NeZero 256 := ⟨by decide⟩

def codePoint (n : Nat) : CodePoint := Fin.ofNat 0x110000 n

def byte (n : Nat) : Byte := Fin.ofNat 256 n

/-- A constant text of the engine as a Python string. -/
def lit (s : String) : PyStr :=
  s.toList.map fun c => codePoint c.toNat

/-- `sep.join(parts)`. -/
def join (sep : PyStr) : List PyStr → PyStr
  | [] => []
  | [part] => part
  | part :: next :: rest => part ++ sep ++ join sep (next :: rest)

/-! ## Constant texts -/

theorem lit_append (s t : String) : lit (s ++ t) = lit s ++ lit t := by
  simp [lit]

/-- The kernel unfolds a literal into its characters at once, and its UTF-8 bytes only slowly. -/
theorem lit_ofList {s : String} {chars : List Char} (h : s = String.ofList chars) :
    lit s = chars.map fun c => codePoint c.toNat := by
  rw [h, lit, String.toList_ofList]

theorem lit_injective : Function.Injective lit := by
  have hchar : Function.Injective fun c : Char => codePoint c.toNat := by
    intro c d h
    have hc : c.toNat < 0xD800 ∨ 0xDFFF < c.toNat ∧ c.toNat < 0x110000 := c.valid
    have hd : d.toNat < 0xD800 ∨ 0xDFFF < d.toNat ∧ d.toNat < 0x110000 := d.valid
    have hval := congrArg Fin.val h
    simp only [codePoint, Fin.val_ofNat] at hval
    exact Char.toNat_inj.1 (by omega)
  exact fun _ _ h => String.toList_injective (hchar.list_map h)

/-! ## Joined texts -/

theorem join_cons_cons (sep part next : PyStr) (rest : List PyStr) :
    join sep (part :: next :: rest) = part ++ sep ++ join sep (next :: rest) := rfl

theorem join_eq_intercalate (sep : PyStr) (parts : List PyStr) :
    join sep parts = sep.intercalate parts := by
  induction parts with
  | nil => rfl
  | cons part parts ih =>
    cases parts with
    | nil => simp [join]
    | cons next rest =>
      have hne : next :: rest ≠ [] := List.cons_ne_nil next rest
      rw [join_cons_cons, ih, List.intercalate_cons_of_ne_nil hne]

theorem join_append (sep : PyStr) {xs ys : List PyStr} (hxs : xs ≠ []) (hys : ys ≠ []) :
    join sep (xs ++ ys) = join sep xs ++ sep ++ join sep ys := by
  induction xs with
  | nil => exact absurd rfl hxs
  | cons x xs ih =>
    cases xs with
    | nil =>
      cases ys with
      | nil => exact absurd rfl hys
      | cons y ys => rfl
    | cons x' xs =>
      have hrest := ih (by simp)
      rw [List.cons_append, List.cons_append, join_cons_cons, ← List.cons_append, hrest]
      simp [join_cons_cons]

theorem subset_join {sep part : PyStr} {parts : List PyStr} (h : part ∈ parts) :
    part ⊆ join sep parts := by
  obtain ⟨before, after, rfl⟩ := List.append_of_mem h
  have hpart : part ⊆ join sep (part :: after) := by
    cases after with
    | nil => exact List.Subset.refl part
    | cons next after => simp [join_cons_cons]
  cases before with
  | nil => exact hpart
  | cons first before =>
    rw [join_append sep (by simp) (by simp)]
    exact List.Subset.trans hpart (List.subset_append_right _ _)

theorem mem_join {sep : PyStr} {parts : List PyStr} {c : CodePoint} (h : c ∈ join sep parts) :
    c ∈ sep ∨ ∃ part ∈ parts, c ∈ part := by
  induction parts with
  | nil => cases h
  | cons part parts ih =>
    cases parts with
    | nil => exact .inr ⟨part, List.mem_cons_self, h⟩
    | cons next rest =>
      rw [join_cons_cons, List.append_assoc, List.mem_append, List.mem_append] at h
      rcases h with hpart | hsep | hrest
      · exact .inr ⟨part, List.mem_cons_self, hpart⟩
      · exact .inl hsep
      · exact (ih hrest).imp id fun ⟨later, hlater, hc⟩ => ⟨later, List.mem_cons_of_mem _ hlater, hc⟩

/-! ## Cancelling a run of characters -/

/-- The text that may follow a token made of `p`-characters: it does not start with one. -/
def StopsAt {α : Type*} (p : α → Prop) (s : List α) : Prop :=
  ∀ x ∈ s.head?, ¬ p x

theorem stopsAt_nil {α : Type*} (p : α → Prop) : StopsAt p [] := by
  simp [StopsAt]

theorem stopsAt_cons {α : Type*} {p : α → Prop} {x : α} {s : List α} (hx : ¬ p x) :
    StopsAt p (x :: s) := by
  simpa [StopsAt] using hx

/-- Two maximal runs of `p`-characters in front of the same text are the same run. -/
theorem run_append_cancel {α : Type*} {p : α → Prop} {a b s t : List α}
    (ha : ∀ x ∈ a, p x) (hb : ∀ x ∈ b, p x) (hs : StopsAt p s) (ht : StopsAt p t)
    (h : a ++ s = b ++ t) : a = b ∧ s = t := by
  induction a generalizing b with
  | nil =>
    cases b with
    | nil => exact ⟨rfl, by simpa using h⟩
    | cons y b =>
      have hy : s = y :: (b ++ t) := by simpa using h
      exact absurd (hb y (by simp)) (hs y (by simp [hy]))
  | cons x a ih =>
    cases b with
    | nil =>
      have hx : t = x :: (a ++ s) := by simpa using h.symm
      exact absurd (ha x (by simp)) (ht x (by simp [hx]))
    | cons y b =>
      have hcons : x = y ∧ a ++ s = b ++ t := by simpa using h
      rcases hcons with ⟨rfl, hrest⟩
      have htail := ih (fun z hz => ha z (by simp [hz])) (fun z hz => hb z (by simp [hz])) hrest
      exact ⟨by rw [htail.1], htail.2⟩

/-- A code whose single words cancel from the left is injective on sequences of words. -/
theorem flatMap_injective {α β : Type*} {f : α → List β} (hne : ∀ a, f a ≠ [])
    (hcancel : ∀ a b s t, f a ++ s = f b ++ t → a = b ∧ s = t) :
    ∀ {xs ys : List α}, xs.flatMap f = ys.flatMap f → xs = ys
  | [], [], _ => rfl
  | [], y :: ys, h => by
    have : f y = [] ∧ ys.flatMap f = [] := by simpa using h.symm
    exact absurd this.1 (hne y)
  | x :: xs, [], h => by
    have : f x = [] ∧ xs.flatMap f = [] := by simpa using h
    exact absurd this.1 (hne x)
  | x :: xs, y :: ys, h => by
    have hxy := hcancel x y _ _ (by simpa using h)
    rw [hxy.1, flatMap_injective hne hcancel hxy.2]

/-! ## UTF-8 -/

def isHighSurrogate (c : CodePoint) : Bool := 0xD800 ≤ c.val && c.val < 0xDC00

def isLowSurrogate (c : CodePoint) : Bool := 0xDC00 ≤ c.val && c.val < 0xE000

def isSurrogate (c : CodePoint) : Bool := isHighSurrogate c || isLowSurrogate c

/-- `str.encode()` succeeds exactly on strings without surrogates. -/
def encodable (s : PyStr) : Bool := s.all fun c => !isSurrogate c

def utf8Char (c : CodePoint) : Bytes :=
  if c.val < 0x80 then
    [byte c.val]
  else if c.val < 0x800 then
    [byte (0xC0 + c.val / 0x40), byte (0x80 + c.val % 0x40)]
  else if c.val < 0x10000 then
    [byte (0xE0 + c.val / 0x1000), byte (0x80 + c.val / 0x40 % 0x40), byte (0x80 + c.val % 0x40)]
  else
    [byte (0xF0 + c.val / 0x40000), byte (0x80 + c.val / 0x1000 % 0x40),
      byte (0x80 + c.val / 0x40 % 0x40), byte (0x80 + c.val % 0x40)]

def utf8 (s : PyStr) : Bytes := s.flatMap utf8Char

theorem byte_inj {m n : Nat} (hm : m < 256) (hn : n < 256) : byte m = byte n ↔ m = n := by
  simp only [byte, Fin.ext_iff, Fin.val_ofNat, Nat.mod_eq_of_lt hm, Nat.mod_eq_of_lt hn]

theorem utf8Char_ne_nil (c : CodePoint) : utf8Char c ≠ [] := by
  unfold utf8Char
  split_ifs <;> simp

/-- The lead byte tells the length, so one encoded code point cancels from the left. -/
theorem utf8Char_append_cancel (c d : CodePoint) (s t : Bytes)
    (h : utf8Char c ++ s = utf8Char d ++ t) : c = d ∧ s = t := by
  have hc := c.isLt
  have hd := d.isLt
  unfold utf8Char at h
  split_ifs at h <;>
    simp (disch := omega) only [List.cons_append, List.nil_append, List.cons.injEq, byte_inj] at h <;>
    refine ⟨Fin.ext ?_, ?_⟩ <;> first | omega | exact h.2 | exact h.2.2 | exact h.2.2.2 | exact h.2.2.2.2

theorem utf8_injective {s t : PyStr} (h : utf8 s = utf8 t) : s = t :=
  flatMap_injective utf8Char_ne_nil utf8Char_append_cancel h

/-! ## UTF-16

`json.dumps` writes a string as UTF-16 code units (`\uXXXX`), and `json.loads` joins a high
surrogate with the low surrogate after it.  Only a string that already holds such a pair as two
code points changes on the way. -/

abbrev CodeUnit := Fin 0x10000

def codeUnit (n : Nat) : CodeUnit := Fin.ofNat 0x10000 n

def utf16Char (c : CodePoint) : List CodeUnit :=
  if c.val < 0x10000 then
    [codeUnit c.val]
  else
    [codeUnit (0xD800 + (c.val - 0x10000) / 0x400), codeUnit (0xDC00 + (c.val - 0x10000) % 0x400)]

def utf16 (s : PyStr) : List CodeUnit := s.flatMap utf16Char

def highUnit (u : CodeUnit) : Bool := 0xD800 ≤ u.val && u.val < 0xDC00

def lowUnit (u : CodeUnit) : Bool := 0xDC00 ≤ u.val && u.val < 0xE000

def ofUtf16 : List CodeUnit → PyStr
  | [] => []
  | [u] => [codePoint u.val]
  | u :: v :: rest =>
    if highUnit u && lowUnit v then
      codePoint (0x10000 + (u.val - 0xD800) * 0x400 + (v.val - 0xDC00)) :: ofUtf16 rest
    else
      codePoint u.val :: ofUtf16 (v :: rest)

def noSplitPair : PyStr → Bool
  | [] => true
  | [_] => true
  | c :: d :: rest => !(isHighSurrogate c && isLowSurrogate d) && noSplitPair (d :: rest)

theorem codePoint_val (c : CodePoint) : codePoint c.val = c := by
  apply Fin.ext
  simp [codePoint]

theorem codeUnit_val_of_lt {n : Nat} (h : n < 0x10000) : (codeUnit n).val = n := by
  simp [codeUnit, Nat.mod_eq_of_lt h]

theorem utf16_cons (c : CodePoint) (s : PyStr) : utf16 (c :: s) = utf16Char c ++ utf16 s := by
  simp [utf16]

/-- The first code unit of a string is a low surrogate only if its first code point is. -/
theorem lowUnit_head_utf16 {d : CodePoint} {s : PyStr} {u : CodeUnit} {us : List CodeUnit}
    (h : utf16 (d :: s) = u :: us) (hu : lowUnit u = true) : isLowSurrogate d = true := by
  rw [utf16_cons, utf16Char] at h
  have hd := d.isLt
  split_ifs at h with hlt
  · have hval : (codeUnit d.val).val = d.val := codeUnit_val_of_lt hlt
    have hhead : codeUnit d.val = u := by simpa using (List.cons.inj h).1
    rw [← hhead, lowUnit, hval] at hu
    simpa [isLowSurrogate] using hu
  · have hval := codeUnit_val_of_lt (n := 0xD800 + (d.val - 0x10000) / 0x400) (by omega)
    have hhead : codeUnit (0xD800 + (d.val - 0x10000) / 0x400) = u := by
      simpa using (List.cons.inj h).1
    rw [← hhead, lowUnit, hval] at hu
    simp only [Bool.and_eq_true, decide_eq_true_eq] at hu
    omega

theorem ofUtf16_utf16 : ∀ {s : PyStr}, noSplitPair s = true → ofUtf16 (utf16 s) = s
  | [], _ => rfl
  | c :: s, h => by
    have hs : noSplitPair s = true := by
      cases s with
      | nil => rfl
      | cons d s =>
        simp only [noSplitPair, Bool.and_eq_true] at h
        exact h.2
    have ih := ofUtf16_utf16 hs
    have hc := c.isLt
    rw [utf16_cons, utf16Char]
    split_ifs with hlt
    · have hval : (codeUnit c.val).val = c.val := codeUnit_val_of_lt hlt
      cases hus : utf16 s with
      | nil =>
        rw [hus] at ih
        have hnil : s = [] := by simpa [ofUtf16] using ih.symm
        subst hnil
        simp [ofUtf16, hval, codePoint_val]
      | cons u us =>
        -- a pair is joined only where the string itself held it split
        have hpair : (highUnit (codeUnit c.val) && lowUnit u) = false := by
          rw [Bool.and_eq_false_iff]
          by_contra hcon
          push Not at hcon
          obtain ⟨hhigh, hlow⟩ := hcon
          cases s with
          | nil => simp [utf16] at hus
          | cons d s =>
            have hd := lowUnit_head_utf16 hus (by simpa using hlow)
            have hch : isHighSurrogate c = true := by
              simpa [highUnit, isHighSurrogate, hval] using hhigh
            simp [noSplitPair, hd, hch] at h
        rw [hus] at ih
        simp only [List.cons_append, List.nil_append, ofUtf16, hpair, Bool.false_eq_true,
          if_false, hval, codePoint_val]
        rw [ih]
    · have hhi := codeUnit_val_of_lt (n := 0xD800 + (c.val - 0x10000) / 0x400) (by omega)
      have hlo := codeUnit_val_of_lt (n := 0xDC00 + (c.val - 0x10000) % 0x400) (by omega)
      have hpair :
          (highUnit (codeUnit (0xD800 + (c.val - 0x10000) / 0x400)) &&
            lowUnit (codeUnit (0xDC00 + (c.val - 0x10000) % 0x400))) = true := by
        simp only [highUnit, lowUnit, hhi, hlo, Bool.and_eq_true, decide_eq_true_eq]
        omega
      have hjoin : 0x10000 + (0xD800 + (c.val - 0x10000) / 0x400 - 0xD800) * 0x400 +
          (0xDC00 + (c.val - 0x10000) % 0x400 - 0xDC00) = c.val := by omega
      simp only [List.cons_append, List.nil_append, ofUtf16, hpair, if_true, hhi, hlo, hjoin,
        codePoint_val, ih]

/-- A string after `json.dumps` and `json.loads`: the escapes are UTF-16, so two surrogates that
stand next to each other come back as one character. -/
def wireText (s : PyStr) : PyStr := ofUtf16 (utf16 s)

theorem wireText_of_noSplitPair {s : PyStr} (h : noSplitPair s = true) : wireText s = s :=
  ofUtf16_utf16 h

theorem codePoint_of_unit (u : CodeUnit) : (codePoint u.val).val = u.val := by
  have hlt := u.isLt
  simp only [codePoint, Fin.val_ofNat]
  exact Nat.mod_eq_of_lt (by omega)

/-- What a nonempty run of code units is read as: the first unit, or a character it forms. -/
theorem ofUtf16_cons (u : CodeUnit) (us : List CodeUnit) :
    ∃ d rest, ofUtf16 (u :: us) = d :: rest ∧
      (d.val = u.val ∧ rest = ofUtf16 us ∧ (∀ v ∈ us.head?, (highUnit u && lowUnit v) = false) ∨
        0x10000 ≤ d.val ∧ rest = ofUtf16 us.tail) := by
  cases us with
  | nil => exact ⟨_, _, rfl, Or.inl ⟨codePoint_of_unit u, rfl, fun v hv => nomatch hv⟩⟩
  | cons v us =>
    cases hpair : highUnit u && lowUnit v with
    | false =>
      refine ⟨codePoint u.val, ofUtf16 (v :: us), by simp [ofUtf16, hpair], Or.inl ?_⟩
      refine ⟨codePoint_of_unit u, rfl, ?_⟩
      rintro _ ⟨⟩
      exact hpair
    | true =>
      refine ⟨codePoint (0x10000 + (u.val - 0xD800) * 0x400 + (v.val - 0xDC00)), ofUtf16 us,
        by simp only [ofUtf16, hpair, if_true], Or.inr ⟨?_, rfl⟩⟩
      simp only [highUnit, lowUnit, Bool.and_eq_true, decide_eq_true_eq] at hpair
      have hlt : 0x10000 + (u.val - 0xD800) * 0x400 + (v.val - 0xDC00) < 0x110000 := by omega
      simp only [codePoint, Fin.val_ofNat, Nat.mod_eq_of_lt hlt]
      omega

theorem noSplitPair_ofUtf16 (us : List CodeUnit) : noSplitPair (ofUtf16 us) = true := by
  induction hn : us.length using Nat.strong_induction_on generalizing us with
  | _ n ih =>
    subst hn
    cases us with
    | nil => rfl
    | cons u us =>
      rcases ofUtf16_cons u us with ⟨d, rest, heq, hd⟩
      rw [heq]
      have hrest : noSplitPair rest = true := by
        rcases hd with ⟨_, rfl, _⟩ | ⟨_, rfl⟩
        · exact ih _ (by simp) us rfl
        · exact ih _ (by simp) us.tail rfl
      cases rest with
      | nil => rfl
      | cons e rest =>
        simp only [noSplitPair, hrest, Bool.and_true, Bool.not_eq_true']
        rcases hd with ⟨hval, htail, hnot⟩ | ⟨hbig, _⟩
        · cases us with
          | nil => cases htail
          | cons v us =>
            have hv := hnot v rfl
            rcases ofUtf16_cons v us with ⟨e', rest', heq', he⟩
            have hhead : e = e' := (List.cons.inj (htail.trans heq')).1
            rcases he with ⟨hval', _⟩ | ⟨hbig', _⟩
            · simpa [highUnit, lowUnit, isHighSurrogate, isLowSurrogate, hval, hhead,
                hval'] using hv
            · have hlow : isLowSurrogate e = false := by
                simp [isLowSurrogate, hhead]
                omega
              simp [hlow]
        · have hhigh : isHighSurrogate d = false := by
            simp [isHighSurrogate]
            omega
          simp [hhigh]

theorem wireText_eq_iff {s : PyStr} : wireText s = s ↔ noSplitPair s = true := by
  refine ⟨?_, wireText_of_noSplitPair⟩
  intro h
  rw [← h]
  exact noSplitPair_ofUtf16 _

/-! ## Lines -/

def lineFeed : CodePoint := codePoint 0x0A

def carriageReturn : CodePoint := codePoint 0x0D

/-- What a text file is read as: `\r\n` and `\r` end a line as `\n` does. -/
def universalNewlines : PyStr → PyStr
  | [] => []
  | [c] => if c = carriageReturn then [lineFeed] else [c]
  | c :: d :: rest =>
    if c = carriageReturn then
      if d = lineFeed then lineFeed :: universalNewlines rest
      else lineFeed :: universalNewlines (d :: rest)
    else c :: universalNewlines (d :: rest)

theorem carriageReturn_notMem (s : PyStr) : carriageReturn ∉ universalNewlines s := by
  have hne : carriageReturn ≠ lineFeed := by decide
  induction s using universalNewlines.induct with
  | case1 => simp [universalNewlines]
  | case2 => simp [universalNewlines, hne]
  | case3 c hc => simpa [universalNewlines, hc] using fun h : carriageReturn = c => hc h.symm
  | case4 rest ih => simp [universalNewlines, hne, ih]
  | case5 d rest hd ih => simp [universalNewlines, hd, hne, ih]
  | case6 c d rest hc ih =>
    have hcr : ¬ carriageReturn = c := fun h => hc h.symm
    simp [universalNewlines, hc, hcr, ih]

theorem universalNewlines_eq_iff {s : PyStr} :
    universalNewlines s = s ↔ carriageReturn ∉ s := by
  refine ⟨?_, ?_⟩
  · intro h
    rw [← h]
    exact carriageReturn_notMem s
  · intro h
    induction s with
    | nil => rfl
    | cons c s ih =>
      rw [List.mem_cons, not_or] at h
      have hc : ¬ c = carriageReturn := fun heq => h.1 heq.symm
      cases s with
      | nil => simp [universalNewlines, hc]
      | cons d s => simp [universalNewlines, hc, ih h.2]

/-! ## Decimal text -/

def digitChar (d : Nat) : CodePoint := codePoint (0x30 + d)

def natText (n : Nat) : PyStr :=
  if n = 0 then [digitChar 0] else ((Nat.digits 10 n).map digitChar).reverse

/-- `str(n)`, without the length limit of `intTooLong`. -/
def intText : Int → PyStr
  | .ofNat n => natText n
  | .negSucc n => codePoint 0x2D :: natText (n + 1)

/-- `sys.get_int_max_str_digits()`: converting a longer integer to text raises `ValueError`. -/
def maxStrDigits : Nat := 4300

def intTooLong (n : Int) : Bool := maxStrDigits < (Nat.digits 10 n.natAbs).length

theorem intTooLong_of_le {n : Nat} (h : 10 ^ maxStrDigits ≤ n) : intTooLong n = true := by
  have hpos : n ≠ 0 := (lt_of_lt_of_le (Nat.pow_pos (by omega)) h).ne'
  have hdigits : (Nat.digits 10 n).length = Nat.log 10 n + 1 := Nat.length_digits 10 n (by omega) hpos
  have hlog : maxStrDigits ≤ Nat.log 10 n := Nat.le_log_of_pow_le (by omega) h
  simp [intTooLong, hdigits]
  omega

/-- The characters an integer literal is made of. -/
def IntChar (c : CodePoint) : Prop := c.val = 0x2D ∨ 0x30 ≤ c.val ∧ c.val ≤ 0x39

theorem digitChar_val {d : Nat} (h : d < 10) : (digitChar d).val = 0x30 + d := by
  simp only [digitChar, codePoint, Fin.val_ofNat]
  omega

theorem map_val_digitChar {xs : List Nat} (h : ∀ d ∈ xs, d < 10) :
    (xs.map digitChar).map (fun c => c.val - 0x30) = xs := by
  rw [List.map_map]
  conv_rhs => rw [← List.map_id xs]
  refine List.map_congr_left ?_
  intro d hd
  have hval := digitChar_val (h d hd)
  simp only [Function.comp_apply, hval, id_eq]
  omega

theorem natText_injective {m n : Nat} (h : natText m = natText n) : m = n := by
  have hlt : ∀ k : Nat, ∀ d ∈ Nat.digits 10 k, d < 10 :=
    fun k d hd => Nat.digits_lt_base (by omega) hd
  have hzero : ∀ k : Nat, k ≠ 0 → [digitChar 0] ≠ ((Nat.digits 10 k).map digitChar).reverse := by
    intro k hk heq
    have hdigits : [0] = Nat.digits 10 k := by
      have := congrArg (fun s => s.reverse.map fun c : CodePoint => c.val - 0x30) heq
      simpa [map_val_digitChar (hlt k), digitChar_val] using this
    have hlast := Nat.getLast_digit_ne_zero 10 hk
    simp [← hdigits] at hlast
  unfold natText at h
  split_ifs at h with hm hn hn
  · rw [hm, hn]
  · exact absurd h (hzero n hn)
  · exact absurd h.symm (hzero m hm)
  · have hmap := congrArg (List.map fun c : CodePoint => c.val - 0x30) (List.reverse_injective h)
    rw [map_val_digitChar (hlt m), map_val_digitChar (hlt n)] at hmap
    exact Nat.digits_inj_iff.1 hmap

theorem intChar_of_mem_natText {n : Nat} {c : CodePoint} (h : c ∈ natText n) :
    0x30 ≤ c.val ∧ c.val ≤ 0x39 := by
  have hdigit : ∃ d, d < 10 ∧ digitChar d = c := by
    unfold natText at h
    split_ifs at h with hn
    · exact ⟨0, by omega, (List.mem_singleton.1 h).symm⟩
    · rw [List.mem_reverse, List.mem_map] at h
      rcases h with ⟨d, hd, hdc⟩
      exact ⟨d, Nat.digits_lt_base (by omega) hd, hdc⟩
  rcases hdigit with ⟨d, hd, rfl⟩
  rw [digitChar_val hd]
  omega

theorem natText_ne_nil (n : Nat) : natText n ≠ [] := by
  unfold natText
  split_ifs with hn
  · simp
  · simpa using Nat.digits_ne_nil_iff_ne_zero.2 hn

theorem intChar_of_mem_intText {n : Int} {c : CodePoint} (h : c ∈ intText n) : IntChar c := by
  cases n with
  | ofNat n => exact Or.inr (intChar_of_mem_natText h)
  | negSucc n =>
    rcases List.mem_cons.1 h with rfl | htail
    · exact Or.inl rfl
    · exact Or.inr (intChar_of_mem_natText htail)

theorem intText_ne_nil (n : Int) : intText n ≠ [] := by
  cases n with
  | ofNat n => exact natText_ne_nil n
  | negSucc n => simp [intText]

theorem intText_injective {m n : Int} (h : intText m = intText n) : m = n := by
  have hsign : ∀ (a : Nat) (s : PyStr), natText a ≠ codePoint 0x2D :: s := by
    intro a s heq
    have hmem : codePoint 0x2D ∈ natText a := by simp [heq]
    have hdigit : 0x30 ≤ (codePoint 0x2D).val := (intChar_of_mem_natText hmem).1
    exact absurd hdigit (by decide)
  cases m with
  | ofNat m =>
    cases n with
    | ofNat n => rw [natText_injective h]
    | negSucc n => exact absurd h (hsign m _)
  | negSucc m =>
    cases n with
    | ofNat n => exact absurd h.symm (hsign n _)
    | negSucc n =>
      have htail := natText_injective (List.cons.inj h).2
      rw [Nat.succ_injective htail]

/-! ## Base64 -/

/-- The `d`-th character of the base64 alphabet. -/
def base64Char (d : Nat) : CodePoint :=
  if d < 26 then codePoint (0x41 + d)
  else if d < 52 then codePoint (0x61 + (d - 26))
  else if d < 62 then codePoint (0x30 + (d - 52))
  else if d = 62 then codePoint 0x2B
  else codePoint 0x2F

def base64Pad : CodePoint := codePoint 0x3D

/-- `base64.b64encode(data).decode("ascii")`. -/
def base64 : Bytes → PyStr
  | [] => []
  | [a] => [base64Char (a.val / 4), base64Char (a.val % 4 * 16), base64Pad, base64Pad]
  | [a, b] =>
    [base64Char (a.val / 4), base64Char (a.val % 4 * 16 + b.val / 16),
      base64Char (b.val % 16 * 4), base64Pad]
  | a :: b :: c :: rest =>
    base64Char (a.val / 4) :: base64Char (a.val % 4 * 16 + b.val / 16) ::
      base64Char (b.val % 16 * 4 + c.val / 64) :: base64Char (c.val % 64) :: base64 rest

theorem base64Char_val {d : Nat} (h : d < 64) :
    (base64Char d).val =
      if d < 26 then 0x41 + d else if d < 52 then 0x61 + (d - 26)
      else if d < 62 then 0x30 + (d - 52) else if d = 62 then 0x2B else 0x2F := by
  unfold base64Char codePoint
  split_ifs <;> simp only [Fin.val_ofNat] <;> omega

theorem base64Char_inj {d e : Nat} (hd : d < 64) (he : e < 64) :
    base64Char d = base64Char e ↔ d = e := by
  constructor
  · intro h
    have hval := congrArg Fin.val h
    rw [base64Char_val hd, base64Char_val he] at hval
    split_ifs at hval <;> omega
  · rintro rfl
    rfl

theorem base64Char_ne_pad {d : Nat} (h : d < 64) : base64Char d ≠ base64Pad := by
  intro heq
  have hval := congrArg Fin.val heq
  rw [base64Char_val h, show base64Pad.val = 0x3D by decide] at hval
  split_ifs at hval <;> omega

theorem base64_injective : ∀ {x y : Bytes}, base64 x = base64 y → x = y
  | [], [], _ => rfl
  | [], [_], h => by simp [base64] at h
  | [], [_, _], h => by simp [base64] at h
  | [], _ :: _ :: _ :: _, h => by simp [base64] at h
  | [_], [], h => by simp [base64] at h
  | [_, _], [], h => by simp [base64] at h
  | _ :: _ :: _ :: _, [], h => by simp [base64] at h
  | [a], [a'], h => by
    have ha := a.isLt
    have ha' := a'.isLt
    simp (disch := omega) only [base64, List.cons.injEq, base64Char_inj, and_true] at h
    rw [Fin.ext (a := a) (b := a') (by omega)]
  | [a], [a', b'], h => by
    have hpad := (List.cons.inj (List.cons.inj (List.cons.inj h).2).2).1
    exact absurd hpad.symm (base64Char_ne_pad (by omega))
  | [a], a' :: b' :: c' :: rest', h => by
    have hb' := b'.isLt
    have hc' := c'.isLt
    have hpad := (List.cons.inj (List.cons.inj (List.cons.inj h).2).2).1
    exact absurd hpad.symm (base64Char_ne_pad (by omega))
  | [a, b], [a'], h => by
    have hpad := (List.cons.inj (List.cons.inj (List.cons.inj h).2).2).1
    exact absurd hpad (base64Char_ne_pad (by omega))
  | [a, b], [a', b'], h => by
    have ha := a.isLt
    have hb := b.isLt
    have ha' := a'.isLt
    have hb' := b'.isLt
    simp (disch := omega) only [base64, List.cons.injEq, base64Char_inj, and_true] at h
    rw [Fin.ext (a := a) (b := a') (by omega), Fin.ext (a := b) (b := b') (by omega)]
  | [a, b], a' :: b' :: c' :: rest', h => by
    have hpad := (List.cons.inj (List.cons.inj (List.cons.inj (List.cons.inj h).2).2).2).1
    exact absurd hpad.symm (base64Char_ne_pad (by omega))
  | a :: b :: c :: rest, [a'], h => by
    have hb := b.isLt
    have hc := c.isLt
    have hpad := (List.cons.inj (List.cons.inj (List.cons.inj h).2).2).1
    exact absurd hpad (base64Char_ne_pad (by omega))
  | a :: b :: c :: rest, [a', b'], h => by
    have hpad := (List.cons.inj (List.cons.inj (List.cons.inj (List.cons.inj h).2).2).2).1
    exact absurd hpad (base64Char_ne_pad (by omega))
  | a :: b :: c :: rest, a' :: b' :: c' :: rest', h => by
    have ha := a.isLt
    have hb := b.isLt
    have hc := c.isLt
    have ha' := a'.isLt
    have hb' := b'.isLt
    have hc' := c'.isLt
    simp (disch := omega) only [base64, List.cons.injEq, base64Char_inj] at h
    rw [base64_injective h.2.2.2.2, Fin.ext (a := a) (b := a') (by omega),
      Fin.ext (a := b) (b := b') (by omega), Fin.ext (a := c) (b := c') (by omega)]

end Python
end Tempest
