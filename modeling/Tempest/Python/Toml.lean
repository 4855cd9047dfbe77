import Tempest.Process.Fallible
import Tempest.Python.Reads

/-!
# Toml — `tomllib.loads`, as far as the engine's own files need it

A document here is bare keys with integers, basic strings and arrays of them, with comments and blank
lines between.  Tables, dotted and quoted keys, literal and multi-line strings and the other scalars
are refused.  The reader is a machine over the characters, and it keeps the integers of any size that
Python converts.
-/

namespace Tempest
namespace Python
namespace Toml

inductive Value where
  | int (n : Int)
  | str (s : PyStr)
  | arr (items : List Value)

inductive TomlError where
  /-- `TOMLDecodeError`. -/
  | malformed
  /-- The `ValueError` of an integer with too many digits. -/
  | tooLong
  deriving DecidableEq

/-! ## Characters -/

def hash : CodePoint := codePoint 0x23

def equalsSign : CodePoint := codePoint 0x3D

def isBlank (c : CodePoint) : Bool := c.val = 0x20 || c.val = 0x09

/-- A character that must not stand as it is in a basic string or a comment. -/
def isControl (c : CodePoint) : Bool := (c.val < 0x20 && c.val ≠ 0x09) || c.val = 0x7F

def isBareKeyChar (c : CodePoint) : Bool :=
  isDigit c || (0x41 ≤ c.val && c.val ≤ 0x5A) || (0x61 ≤ c.val && c.val ≤ 0x7A) ||
    c.val = 0x2D || c.val = 0x5F

def isDelimiter (c : CodePoint) : Bool :=
  isBlank c || c = lineFeed || c = comma || c = closeArr || c = hash

/-! ## Scalars -/

/-- `[+-]?(0|[1-9][0-9]*)` -/
def integerOf (raw : PyStr) : Except TomlError Value :=
  let (neg, digits) := match raw with
    | c :: rest =>
      if c.val = 0x2D then (true, rest) else if c.val = 0x2B then (false, rest) else (false, raw)
    | [] => (false, [])
  if !isWholePart digits then .error .malformed
  else if maxStrDigits < digits.length then .error .tooLong
  else .ok (.int (if neg then -(digitsValue digits : Int) else digitsValue digits))

/-- The character behind a backslash, other than `u` and `U`. -/
def escapeOf (c : CodePoint) : Option CodePoint :=
  if c = dquote ∨ c = backslash then some c
  else if c.val = 0x62 then some (codePoint 0x08)
  else if c.val = 0x74 then some (codePoint 0x09)
  else if c.val = 0x6E then some lineFeed
  else if c.val = 0x66 then some (codePoint 0x0C)
  else if c.val = 0x72 then some carriageReturn
  else none

/-- The character of a `\uXXXX` or `\UXXXXXXXX`: surrogates are none. -/
def scalarChar (digits : PyStr) : Option CodePoint := do
  let n ← digits.foldlM (fun n c => (hexDigitOf c).map (16 * n + ·)) 0
  if n < 0x110000 ∧ isSurrogate (codePoint n) = false then some (codePoint n) else none

/-- The basic string whose characters between the quotes are these. -/
def unescape : PyStr → Option PyStr
  | [] => some []
  | [c] => if c = backslash ∨ isControl c then none else some [c]
  | c :: d :: s =>
    if c = backslash then
      if d.val = 0x75 then
        match s with
        | h₁ :: h₂ :: h₃ :: h₄ :: s => do
          let u ← scalarChar [h₁, h₂, h₃, h₄]
          return u :: (← unescape s)
        | _ => none
      else if d.val = 0x55 then
        match s with
        | h₁ :: h₂ :: h₃ :: h₄ :: h₅ :: h₆ :: h₇ :: h₈ :: s => do
          let u ← scalarChar [h₁, h₂, h₃, h₄, h₅, h₆, h₇, h₈]
          return u :: (← unescape s)
        | _ => none
      else do
        let u ← escapeOf d
        return u :: (← unescape s)
    else if isControl c then none
    else do return c :: (← unescape (d :: s))

/-! ## The machine -/

/-- What comes next; `arrays` are the items of the open arrays, the innermost array and the last item
first. -/
inductive Mode where
  | line
  | key (raw : PyStr)
  | equals (key : PyStr)
  | value (key : PyStr) (arrays : List (List Value))
  | str (key : PyStr) (arrays : List (List Value)) (raw : PyStr) (escaped : Bool)
  | scalar (key : PyStr) (arrays : List (List Value)) (raw : PyStr)
  | item (key : PyStr) (items : List Value) (arrays : List (List Value))
  | endOfLine
  /-- Inside a comment, and what comes after its line. -/
  | comment (next : Mode)

structure Reader where
  doc : Dict PyStr Value
  mode : Mode

def complete (doc : Dict PyStr Value) (key : PyStr) (arrays : List (List Value)) (v : Value) :
    Except TomlError Reader :=
  match arrays with
  | [] => if doc.contains key then .error .malformed else .ok ⟨doc.set key v, .endOfLine⟩
  | items :: arrays => .ok ⟨doc, .item key (v :: items) arrays⟩

def Reader.behind (r : Reader) (c : CodePoint) : Except TomlError Reader :=
  match r.mode with
  | .item key items arrays =>
    if isBlank c || c = lineFeed then .ok r
    else if c = hash then .ok ⟨r.doc, .comment r.mode⟩
    else if c = comma then .ok ⟨r.doc, .value key (items :: arrays)⟩
    else if c = closeArr then complete r.doc key arrays (.arr items.reverse)
    else .error .malformed
  | .endOfLine =>
    if isBlank c then .ok r
    else if c = lineFeed then .ok ⟨r.doc, .line⟩
    else if c = hash then .ok ⟨r.doc, .comment .line⟩
    else .error .malformed
  | _ => .error .malformed

def Reader.step (r : Reader) (c : CodePoint) : Except TomlError Reader :=
  match r.mode with
  | .line =>
    if isBlank c || c = lineFeed then .ok r
    else if c = hash then .ok ⟨r.doc, .comment .line⟩
    else if isBareKeyChar c then .ok ⟨r.doc, .key [c]⟩
    else .error .malformed
  | .key raw =>
    if isBareKeyChar c then .ok ⟨r.doc, .key (c :: raw)⟩
    else if isBlank c then .ok ⟨r.doc, .equals raw.reverse⟩
    else if c = equalsSign then .ok ⟨r.doc, .value raw.reverse []⟩
    else .error .malformed
  | .equals key =>
    if isBlank c then .ok r
    else if c = equalsSign then .ok ⟨r.doc, .value key []⟩
    else .error .malformed
  | .value key arrays =>
    if isBlank c then .ok r
    else if c = dquote then .ok ⟨r.doc, .str key arrays [] false⟩
    else if c = openArr then .ok ⟨r.doc, .value key ([] :: arrays)⟩
    else match arrays with
      | [] => if isDelimiter c then .error .malformed else .ok ⟨r.doc, .scalar key [] [c]⟩
      | items :: arrays =>
        if c = lineFeed then .ok r
        else if c = hash then .ok ⟨r.doc, .comment r.mode⟩
        else if c = closeArr then complete r.doc key arrays (.arr items.reverse)
        else if isDelimiter c then .error .malformed
        else .ok ⟨r.doc, .scalar key (items :: arrays) [c]⟩
  | .str key arrays raw escaped =>
    if escaped then .ok ⟨r.doc, .str key arrays (c :: raw) false⟩
    else if c = dquote then
      match unescape raw.reverse with
      | some s => complete r.doc key arrays (.str s)
      | none => .error .malformed
    else .ok ⟨r.doc, .str key arrays (c :: raw) (c = backslash)⟩
  | .scalar key arrays raw =>
    if isDelimiter c then do
      (← complete r.doc key arrays (← integerOf raw.reverse)).behind c
    else .ok ⟨r.doc, .scalar key arrays (c :: raw)⟩
  | .item .. => r.behind c
  | .endOfLine => r.behind c
  | .comment next =>
    if c = lineFeed then .ok ⟨r.doc, next⟩
    else if isControl c then .error .malformed
    else .ok r

def Reader.run (r : Reader) (s : PyStr) : Except TomlError Reader := s.foldlM Reader.step r

def Reader.finish (r : Reader) : Except TomlError (Dict PyStr Value) :=
  match r.mode with
  | .line | .endOfLine | .comment .line => .ok r.doc
  | .scalar key [] raw => do return (← complete r.doc key [] (← integerOf raw.reverse)).doc
  | _ => .error .malformed

/-- `tomllib.loads`, behind the newlines of a text file. -/
def loads (s : PyStr) : Except TomlError (Dict PyStr Value) := do
  (← Reader.run ⟨.empty, .line⟩ s).finish

/-! ## Integers -/

theorem isDigit_val {c : CodePoint} (h : isDigit c = true) : 0x30 ≤ c.val ∧ c.val ≤ 0x39 := by
  simpa [isDigit] using h

theorem integerOf_intText {n : Int} (hlong : intTooLong n = false) :
    integerOf (intText n) = .ok (.int n) := by
  cases n with
  | ofNat n =>
    have htext : intText (.ofNat n) = natText n := rfl
    cases hdigits : natText n with
    | nil => exact absurd hdigits (natText_ne_nil n)
    | cons c rest =>
      have hc := isDigit_val (isDigit_of_mem_natText (n := n) (c := c) (by simp [hdigits]))
      have hminus : c.val ≠ 0x2D := by omega
      have hplus : c.val ≠ 0x2B := by omega
      rw [htext, hdigits]
      simp only [integerOf, hminus, hplus, if_false]
      rw [← hdigits]
      simp [isWholePart_natText, natText_short hlong, digitsValue_natText]
  | negSucc n =>
    have hshort : intTooLong (n + 1 : Nat) = false := hlong
    simp only [intText, integerOf, show (codePoint 0x2D).val = 0x2D from rfl, if_true]
    simp [isWholePart_natText, natText_short hshort, digitsValue_natText, Int.negSucc_eq]

theorem digitsValue_lt (digits : PyStr) (h : ∀ c ∈ digits, isDigit c = true) :
    digitsValue digits < 10 ^ digits.length := by
  have hfold : ∀ (digits : PyStr) (k : Nat), (∀ c ∈ digits, isDigit c = true) →
      digits.foldl (fun n c => 10 * n + (c.val - 0x30)) k < (k + 1) * 10 ^ digits.length := by
    intro digits
    induction digits with
    | nil => simp
    | cons c digits ih =>
      intro k hdigits
      have hc := isDigit_val (hdigits c List.mem_cons_self)
      have hrest := ih (10 * k + (c.val - 0x30)) fun d hd => hdigits d (List.mem_cons_of_mem c hd)
      calc _ < (10 * k + (c.val - 0x30) + 1) * 10 ^ digits.length := hrest
        _ ≤ (10 * k + 10) * 10 ^ digits.length := Nat.mul_le_mul_right _ (by omega)
        _ = (k + 1) * 10 ^ (digits.length + 1) := by ring
  simpa [digitsValue] using hfold digits 0 h

theorem digits_of_isWholePart {digits : PyStr} (h : isWholePart digits = true) :
    ∀ c ∈ digits, isDigit c = true := by
  unfold isWholePart at h
  exact List.all_eq_true.1 (Bool.and_eq_true_iff.1 h).1

theorem short_of_integerOf {raw : PyStr} {n : Int} (h : integerOf raw = .ok (.int n)) :
    intTooLong n = false := by
  simp only [integerOf] at h
  split_ifs at h with hwhole hlength
  all_goals
    cases h
    rw [Bool.not_eq_true', Bool.not_eq_false] at hwhole
    have hlt := digitsValue_lt _ (digits_of_isWholePart hwhole)
    have hdigits := (Nat.digits_length_le_iff (b := 10) (by decide) _).2 hlt
    simp only [intTooLong, Int.natAbs_neg, Int.natAbs_natCast, decide_eq_false_iff_not]
    omega

/-! ## Runs -/

section Run

variable {r r' : Reader} {doc : Dict PyStr Value} {key : PyStr} {arrays : List (List Value)}
  {items : List Value}

variable {s t : PyStr}

theorem run_cons {c : CodePoint} (h : r.step c = .ok r') : r.run (c :: s) = r'.run s := by
  simp only [Reader.run, List.foldlM_cons, h]
  rfl

theorem run_append (r : Reader) (s t : PyStr) : r.run (s ++ t) = (r.run s).bind fun r' => r'.run t :=
  List.foldlM_append

theorem run_append_ok (h : r.run s = .ok r') (t : PyStr) : r.run (s ++ t) = r'.run t := by
  rw [run_append, h]
  rfl

theorem run_append_error {e : TomlError} (h : r.run s = .error e) (t : PyStr) :
    r.run (s ++ t) = .error e := by
  rw [run_append, h]
  rfl

/-- Behind a text that is read or refused. -/
theorem run_append_ite {accepted : Bool} {e : TomlError}
    (h : r.run s = if accepted then .ok r' else .error e) (t : PyStr) :
    r.run (s ++ t) = if accepted then r'.run t else .error e := by
  cases accepted with
  | false => exact run_append_error h t
  | true => exact run_append_ok h t

theorem isControl_lineFeed : isControl lineFeed = true := by decide

theorem run_comment {next : Mode} (h : ∀ c ∈ t, isControl c = false) :
    Reader.run ⟨doc, .comment next⟩ (t ++ [lineFeed]) = .ok ⟨doc, next⟩ := by
  induction t with
  | nil => rfl
  | cons c t ih =>
    have hc := h c List.mem_cons_self
    have hne : c ≠ lineFeed := by
      rintro rfl
      rw [isControl_lineFeed] at hc
      cases hc
    have hstep : Reader.step ⟨doc, .comment next⟩ c = .ok ⟨doc, .comment next⟩ := by
      simp [Reader.step, hc, hne]
    rw [List.cons_append, run_cons hstep]
    exact ih fun d hd => h d (List.mem_cons_of_mem c hd)

theorem run_commentLine (h : t.all fun c => !isControl c) :
    Reader.run ⟨doc, .line⟩ (hash :: (t ++ [lineFeed])) = .ok ⟨doc, .line⟩ := by
  have hstep : Reader.step ⟨doc, .line⟩ hash = .ok ⟨doc, .comment .line⟩ := rfl
  rw [run_cons hstep]
  exact run_comment fun c hc => by simpa using List.all_eq_true.1 h c hc

theorem run_blankLine : Reader.run ⟨doc, .line⟩ [lineFeed] = .ok ⟨doc, .line⟩ := rfl

def isRemark : PyStr → Bool
  | [] => true
  | c :: t => c = hash && t.all fun c => !isControl c

theorem run_remarks {lines : List PyStr} (h : lines.all isRemark = true) :
    Reader.run ⟨doc, .line⟩ (lines.flatMap (· ++ [lineFeed])) = .ok ⟨doc, .line⟩ := by
  induction lines with
  | nil => rfl
  | cons line lines ih =>
    rw [List.all_cons, Bool.and_eq_true] at h
    have hline : Reader.run ⟨doc, .line⟩ (line ++ [lineFeed]) = .ok ⟨doc, .line⟩ := by
      cases line with
      | nil => exact run_blankLine
      | cons c t =>
        rw [isRemark, Bool.and_eq_true, decide_eq_true_eq] at h
        obtain ⟨⟨rfl, hcomment⟩, _⟩ := h
        exact run_commentLine hcomment
    rw [List.flatMap_cons, run_append_ok hline]
    exact ih h.2

theorem run_keyChars (h : ∀ c ∈ t, isBareKeyChar c = true) (raw : PyStr) :
    Reader.run ⟨doc, .key raw⟩ (t ++ lit " = ") = .ok ⟨doc, .value (raw.reverse ++ t) []⟩ := by
  induction t generalizing raw with
  | nil =>
    rw [List.append_nil]
    rfl
  | cons c t ih =>
    have hstep : Reader.step ⟨doc, .key raw⟩ c = .ok ⟨doc, .key (c :: raw)⟩ := by
      simp [Reader.step, h c List.mem_cons_self]
    rw [List.cons_append, run_cons hstep, ih fun d hd => h d (List.mem_cons_of_mem c hd)]
    simp

theorem run_key (hne : key ≠ []) (h : key.all isBareKeyChar = true) :
    Reader.run ⟨doc, .line⟩ (key ++ lit " = ") = .ok ⟨doc, .value key []⟩ := by
  obtain ⟨c, t, rfl⟩ := List.exists_cons_of_ne_nil hne
  have hchars := List.all_eq_true.1 h
  have hc := hchars c List.mem_cons_self
  have hstep : Reader.step ⟨doc, .line⟩ c = .ok ⟨doc, .key [c]⟩ := by
    have hblank : isBlank c = false ∧ c ≠ lineFeed ∧ c ≠ hash := by
      refine ⟨?_, ?_, ?_⟩
      · by_contra hblank
        have : c.val = 0x20 ∨ c.val = 0x09 := by
          simpa [isBlank, or_iff_not_imp_left] using hblank
        simp only [isBareKeyChar, isDigit, Bool.or_eq_true, Bool.and_eq_true, decide_eq_true_eq] at hc
        omega
      · rintro rfl
        revert hc
        decide
      · rintro rfl
        revert hc
        decide
    simp [Reader.step, hblank.1, hblank.2.1, hblank.2.2, hc]
  rw [List.cons_append, run_cons hstep, run_keyChars fun d hd => hchars d (List.mem_cons_of_mem c hd)]
  rfl

/-- A number ends at the end of its line. -/
theorem run_integerLine {n : Int} (hlong : intTooLong n = false) (hkey : doc.contains key = false) :
    Reader.run ⟨doc, .value key []⟩ (intText n ++ [lineFeed]) = .ok ⟨doc.set key (.int n), .line⟩ := by
  have hplain : ∀ c, IntChar c → isDelimiter c = false ∧ c ≠ dquote ∧ c ≠ openArr := by
    intro c hc
    have hne : ∀ k : Nat, k < 0x110000 → k ≠ 0x2D → ¬ (0x30 ≤ k ∧ k ≤ 0x39) → c ≠ codePoint k := by
      intro k hk hminus hdigit heq
      rw [heq, IntChar, codePoint, Fin.val_ofNat, Nat.mod_eq_of_lt hk] at hc
      omega
    have hblank : isBlank c = false := by
      unfold IntChar at hc
      simp only [isBlank, Bool.or_eq_false_iff, decide_eq_false_iff_not]
      omega
    refine ⟨?_, hne 0x22 (by decide) (by decide) (by decide),
      hne 0x5B (by decide) (by decide) (by decide)⟩
    simp only [isDelimiter, hblank, Bool.false_or, Bool.or_eq_false_iff, decide_eq_false_iff_not]
    exact ⟨⟨⟨hne 0x0A (by decide) (by decide) (by decide), hne 0x2C (by decide) (by decide) (by decide)⟩,
      hne 0x5D (by decide) (by decide) (by decide)⟩, hne 0x23 (by decide) (by decide) (by decide)⟩
  have hscalar : ∀ (t raw : PyStr), (∀ c ∈ t, IntChar c) →
      Reader.run ⟨doc, .scalar key [] raw⟩ t = .ok ⟨doc, .scalar key [] (t.reverse ++ raw)⟩ := by
    intro t
    induction t with
    | nil => exact fun raw _ => rfl
    | cons c t ih =>
      intro raw ht
      have hstep : Reader.step ⟨doc, .scalar key [] raw⟩ c = .ok ⟨doc, .scalar key [] (c :: raw)⟩ := by
        simp [Reader.step, (hplain c (ht c List.mem_cons_self)).1]
      rw [run_cons hstep, ih _ fun d hd => ht d (List.mem_cons_of_mem c hd)]
      simp
  cases htext : intText n with
  | nil => exact absurd htext (intText_ne_nil n)
  | cons c t =>
    have hchars : ∀ d ∈ c :: t, IntChar d := fun d hd => intChar_of_mem_intText (n := n) (htext ▸ hd)
    obtain ⟨hdelimiter, hquote, hopen⟩ := hplain c (hchars c List.mem_cons_self)
    have hblank : isBlank c = false := by
      by_contra hblank
      simp [isDelimiter, hblank] at hdelimiter
    have hstep : Reader.step ⟨doc, .value key []⟩ c = .ok ⟨doc, .scalar key [] [c]⟩ := by
      simp [Reader.step, hdelimiter, hblank, hquote, hopen]
    rw [List.cons_append, run_cons hstep,
      run_append_ok (hscalar t [c] fun d hd => hchars d (List.mem_cons_of_mem c hd))]
    have hraw : (t.reverse ++ [c]).reverse = intText n := by simp [htext]
    have hend : Reader.step ⟨doc, .scalar key [] (t.reverse ++ [c])⟩ lineFeed =
        .ok ⟨doc.set key (.int n), .line⟩ := by
      have hlf : isDelimiter lineFeed = true := by decide
      simp only [Reader.step, hlf, if_true, hraw, integerOf_intText hlong]
      simp only [bind, Except.bind, complete, hkey, Bool.false_eq_true, if_false]
      rfl
    rw [run_cons hend]
    rfl

/-! ## Strings -/

/-- Characters of a string that are read as they stand: pairs behind a backslash, and others. -/
inductive StringPiece : PyStr → Prop where
  | plain {c : CodePoint} : c ≠ dquote → c ≠ backslash → StringPiece [c]
  | escape (c : CodePoint) : StringPiece [backslash, c]

theorem run_stringPieces {pieces : List PyStr} (h : ∀ p ∈ pieces, StringPiece p) (raw : PyStr) :
    Reader.run ⟨doc, .str key arrays raw false⟩ pieces.flatten =
      .ok ⟨doc, .str key arrays (pieces.flatten.reverse ++ raw) false⟩ := by
  induction pieces generalizing raw with
  | nil => rfl
  | cons p pieces ih =>
    have hpiece : Reader.run ⟨doc, .str key arrays raw false⟩ p =
        .ok ⟨doc, .str key arrays (p.reverse ++ raw) false⟩ := by
      cases h p List.mem_cons_self with
      | plain hquote hslash =>
        simp [Reader.run, Reader.step, hquote, hslash, bind, Except.bind, pure, Except.pure]
      | escape c =>
        have hne : backslash ≠ dquote := by decide
        simp [Reader.run, Reader.step, hne, bind, Except.bind, pure, Except.pure]
    rw [List.flatten_cons, run_append_ok hpiece, ih fun q hq => h q (List.mem_cons_of_mem p hq)]
    simp

/-- A string from its first quote to its last. -/
theorem run_string {pieces : List PyStr} (h : ∀ p ∈ pieces, StringPiece p) :
    Reader.run ⟨doc, .value key arrays⟩ (dquote :: (pieces.flatten ++ [dquote])) =
      match unescape pieces.flatten with
      | some s => complete doc key arrays (.str s)
      | none => .error .malformed := by
  have hstep : Reader.step ⟨doc, .value key arrays⟩ dquote = .ok ⟨doc, .str key arrays [] false⟩ := rfl
  rw [run_cons hstep, run_append_ok (run_stringPieces h []), List.append_nil]
  simp only [Reader.run, List.foldlM_cons, List.foldlM_nil, bind_pure]
  simp [Reader.step]

/-! ## The integers of a document -/

def ShortInts (doc : Dict PyStr Value) : Prop :=
  ∀ key n, doc.get? key = some (.int n) → intTooLong n = false

theorem complete_short {v : Value} (hdoc : ShortInts doc)
    (hv : ∀ n, v = .int n → intTooLong n = false) (h : complete doc key arrays v = .ok r) :
    ShortInts r.doc := by
  cases arrays with
  | cons items arrays =>
    cases h
    exact hdoc
  | nil =>
    simp only [complete] at h
    split_ifs at h
    cases h
    intro k n hget
    rw [Dict.get?_set] at hget
    split_ifs at hget
    · exact hv n (Option.some.inj hget)
    · exact hdoc k n hget

theorem behind_short {c : CodePoint} (hdoc : ShortInts r.doc) (h : r.behind c = .ok r') :
    ShortInts r'.doc := by
  unfold Reader.behind at h
  split at h
  · split_ifs at h
    all_goals first
      | exact complete_short hdoc (by intro n hn; cases hn) h
      | (cases h; exact hdoc)
  · split_ifs at h
    all_goals
      cases h
      exact hdoc
  · cases h

/-- What one character adds to a document has a text. -/
theorem step_short {c : CodePoint} (hdoc : ShortInts r.doc) (h : r.step c = .ok r') :
    ShortInts r'.doc := by
  cases hmode : r.mode with
  | value key arrays =>
    simp only [Reader.step, hmode] at h
    cases arrays with
    | nil =>
      split_ifs at h
      all_goals
        cases h
        exact hdoc
    | cons items arrays =>
      split_ifs at h
      all_goals first
        | exact complete_short hdoc (by intro n hn; cases hn) h
        | (cases h; exact hdoc)
  | str key arrays raw escaped =>
    simp only [Reader.step, hmode] at h
    cases hs : unescape raw.reverse with
    | none =>
      simp only [hs] at h
      split_ifs at h
      all_goals
        cases h
        exact hdoc
    | some s =>
      simp only [hs] at h
      split_ifs at h
      · cases h; exact hdoc
      · exact complete_short hdoc (by intro n hn; cases hn) h
      · cases h; exact hdoc
  | scalar key arrays raw =>
    simp only [Reader.step, hmode] at h
    split_ifs at h
    · -- the integer is read at its end
      obtain ⟨v, hv, hrest⟩ := bind_ok_iff.1 h
      obtain ⟨behind, hcomplete, hbehind⟩ := bind_ok_iff.1 hrest
      refine behind_short (complete_short hdoc (fun n hn => ?_) hcomplete) hbehind
      rw [hn] at hv
      exact short_of_integerOf hv
    · cases h; exact hdoc
  | item _ _ _ | endOfLine =>
    simp only [Reader.step, hmode] at h
    exact behind_short hdoc h
  | _ =>
    simp only [Reader.step, hmode] at h
    split_ifs at h
    all_goals
      cases h
      exact hdoc

theorem run_short (hdoc : ShortInts r.doc) (h : r.run s = .ok r') : ShortInts r'.doc := by
  induction s generalizing r with
  | nil =>
    cases h
    exact hdoc
  | cons c s ih =>
    rw [Reader.run, List.foldlM_cons] at h
    obtain ⟨mid, hmid, hrest⟩ := bind_ok_iff.1 h
    exact ih (step_short hdoc hmid) hrest

/-- Every integer of a document that is read has a text. -/
theorem loads_short (h : loads s = .ok doc) : ShortInts doc := by
  obtain ⟨r, hrun, hfinish⟩ := bind_ok_iff.1 h
  have hdoc : ShortInts r.doc := run_short (r := ⟨.empty, .line⟩) (fun key n hget => nomatch hget) hrun
  unfold Reader.finish at hfinish
  split at hfinish
  case h_4 =>
    obtain ⟨v, hv, hrest⟩ := bind_ok_iff.1 hfinish
    obtain ⟨behind, hcomplete, hdone⟩ := bind_ok_iff.1 hrest
    cases hdone
    refine complete_short hdoc (fun n hn => ?_) hcomplete
    rw [hn] at hv
    exact short_of_integerOf hv
  case h_5 => cases hfinish
  all_goals
    cases hfinish
    exact hdoc

end Run

end Toml
end Python
end Tempest
