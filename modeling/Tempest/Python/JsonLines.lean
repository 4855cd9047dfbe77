import Tempest.Python.Lines
import Tempest.Python.Torn
import Tempest.Python.Utf8

/-!
# JsonLines — logs of one object a line

A log is appended to line by line, and read by splitting it into lines, stripping each and loading
it.  `readLog_torn` is what a reader gets behind an append that was broken off: the whole log where
nothing or everything of the line is there, and an error as soon as something else is.
-/

namespace Tempest
namespace Python

/-! ## AsciiPlain texts -/

def AsciiPlain (c : CodePoint) : Prop := 0x20 ≤ c.val ∧ c.val < 0x7F

instance (c : CodePoint) : Decidable (AsciiPlain c) := inferInstanceAs (Decidable (_ ∧ _))

theorem plain_of_all {s : PyStr} (h : s.all (fun c => decide (AsciiPlain c)) = true) :
    ∀ c ∈ s, AsciiPlain c :=
  fun c hc => of_decide_eq_true (List.all_eq_true.mp h c hc)

theorem plain_append {s t : PyStr} (hs : ∀ c ∈ s, AsciiPlain c) (ht : ∀ c ∈ t, AsciiPlain c) :
    ∀ c ∈ s ++ t, AsciiPlain c :=
  fun c hc => (List.mem_append.mp hc).elim (hs c) (ht c)

theorem plain_jsonUnit (u : CodeUnit) : ∀ c ∈ jsonUnit u, AsciiPlain c := by
  have hslash : AsciiPlain backslash := by unfold AsciiPlain; decide
  rcases jsonUnit_cases u with ⟨c, hunit, -, -, -, hlow, hhigh⟩ | ⟨d, hunit, -, hd, -⟩ | hunit
  · rw [hunit]
    intro c' hc'
    obtain rfl := List.mem_singleton.mp hc'
    exact ⟨hlow, hhigh⟩
  · rw [hunit]
    refine List.forall_mem_cons.mpr ⟨hslash, List.forall_mem_cons.mpr ⟨?_, nofun⟩⟩
    unfold unescapeOne at hd
    unfold AsciiPlain
    have hquote : dquote.val = 0x22 := rfl
    have hback : backslash.val = 0x5C := rfl
    split_ifs at hd with h1 h2 h3 h4 h5 h6
    · rcases h1 with rfl | rfl | h1 <;> omega
    all_goals omega
  · rw [hunit]
    refine List.forall_mem_cons.mpr ⟨hslash, List.forall_mem_cons.mpr ⟨by unfold AsciiPlain; decide, ?_⟩⟩
    intro c hc
    obtain ⟨d, hd, rfl⟩ := mem_hexFixed hc
    unfold AsciiPlain
    interval_cases d <;> decide

theorem plain_jsonStr (s : PyStr) : ∀ c ∈ jsonStr s, AsciiPlain c := by
  have hquote : AsciiPlain dquote := by unfold AsciiPlain; decide
  have hbody : ∀ c ∈ (utf16 s).flatMap jsonUnit, AsciiPlain c := fun c hc => by
    obtain ⟨u, -, hu⟩ := List.mem_flatMap.mp hc
    exact plain_jsonUnit u c hu
  exact List.forall_mem_cons.mpr ⟨hquote, plain_append hbody (plain_of_all rfl)⟩

theorem plain_join {parts : List PyStr} (h : ∀ part ∈ parts, ∀ c ∈ part, AsciiPlain c) :
    ∀ c ∈ join (lit ", ") parts, AsciiPlain c := by
  induction parts with
  | nil => nofun
  | cons part parts ih =>
    obtain ⟨hpart, hparts⟩ := List.forall_mem_cons.mp h
    cases parts with
    | nil => exact hpart
    | cons next rest =>
      rw [join]
      exact plain_append (plain_append hpart (plain_of_all rfl)) (ih hparts)

def PrintsPlain (j : Json) : Prop := ∀ c ∈ dumpsSorted j, AsciiPlain c

theorem plain_arr {items : List Json}
    (h : ∀ item ∈ items, PrintsPlain item) : PrintsPlain (.arr items) := by
  unfold PrintsPlain
  rw [dumpsSorted, dumpsSortedItems_eq_map]
  refine List.forall_mem_cons.mpr ⟨by unfold AsciiPlain; decide, plain_append ?_ (plain_of_all rfl)⟩
  refine plain_join fun part hpart => ?_
  obtain ⟨item, hitem, rfl⟩ := List.mem_map.mp hpart
  exact h item hitem

theorem plain_obj {fields : List (PyStr × Json)} (h : ∀ p ∈ fields, PrintsPlain p.2) :
    PrintsPlain (.obj fields) := by
  unfold PrintsPlain
  rw [dumpsSorted, sortFields_dumpsSortedFields, List.map_map]
  refine List.forall_mem_cons.mpr ⟨by unfold AsciiPlain; decide, plain_append ?_ (plain_of_all rfl)⟩
  refine plain_join fun part hpart => ?_
  obtain ⟨p, hp, rfl⟩ := List.mem_map.mp hpart
  exact plain_append (plain_append (plain_jsonStr p.1) (plain_of_all rfl)) (h p (mem_sortByKey.mp hp))

mutual

theorem plain_dumpsSorted : ∀ j : Json, PrintsPlain j
  | .null => plain_of_all rfl
  | .bool true => plain_of_all rfl
  | .bool false => plain_of_all rfl
  | .int n => fun c h => by
    have hchar : IntChar c := intChar_of_mem_intText h
    unfold IntChar at hchar
    unfold AsciiPlain
    omega
  | .str s => plain_jsonStr s
  | .arr items => plain_arr (plain_items items)
  | .obj fields => plain_obj (plain_fields fields)

theorem plain_items : ∀ items : List Json, ∀ item ∈ items, PrintsPlain item
  | first :: items, item, h => by
    rcases List.mem_cons.mp h with hfirst | hlater
    · rw [hfirst]
      exact plain_dumpsSorted first
    · exact plain_items items item hlater

theorem plain_fields : ∀ fields : List (PyStr × Json), ∀ p ∈ fields, PrintsPlain p.2
  | (key, value) :: fields, p, h => by
    rcases List.mem_cons.mp h with hfirst | hlater
    · rw [hfirst]
      exact plain_dumpsSorted value
    · exact plain_fields fields p hlater

end

/-! ## Lines of a log -/

theorem isLineBreak_of_plain {c : CodePoint} (h : AsciiPlain c) : isLineBreak c = false := by
  unfold AsciiPlain at h
  simp only [isLineBreak, Bool.or_eq_false_iff, Bool.and_eq_false_iff, decide_eq_false_iff_not]
  omega

theorem splitLinesFrom_lineFeed (begun s : PyStr) :
    splitLinesFrom begun (lineFeed :: s) = begun.reverse :: splitLinesFrom [] s := by
  have hbreak : isLineBreak lineFeed = true := by decide
  have hreturn : lineFeed ≠ carriageReturn := by decide
  cases s with
  | nil => cases begun <;> simp [splitLinesFrom, hbreak]
  | cons d s => cases begun <;> simp [splitLinesFrom, hbreak, hreturn]

theorem splitLinesFrom_cons {c : CodePoint} (hc : isLineBreak c = false) (begun s : PyStr) :
    splitLinesFrom begun (c :: s) = splitLinesFrom (c :: begun) s := by
  have hreturn : c ≠ carriageReturn := by
    rintro rfl
    exact absurd hc (by decide)
  cases s with
  | nil => cases begun <;> simp [splitLinesFrom, hc]
  | cons d s => cases begun <;> simp [splitLinesFrom, hc, hreturn]

theorem splitLinesFrom_append {line : PyStr} (hline : ∀ c ∈ line, AsciiPlain c) (begun s : PyStr) :
    splitLinesFrom begun (line ++ s) = splitLinesFrom (line.reverse ++ begun) s := by
  induction line generalizing begun with
  | nil => rfl
  | cons c line ih =>
    obtain ⟨hc, hline⟩ := List.forall_mem_cons.mp hline
    rw [List.cons_append, splitLinesFrom_cons (isLineBreak_of_plain hc), ih hline]
    simp

/-- A whole line comes first. -/
theorem splitLines_line {line : PyStr} (hline : ∀ c ∈ line, AsciiPlain c) (s : PyStr) :
    splitLines (line ++ lineFeed :: s) = line :: splitLines s := by
  rw [splitLines, splitLinesFrom_append hline, splitLinesFrom_lineFeed]
  simp [splitLines]

/-- A text without a line break is its own line, if it is there. -/
theorem splitLines_last {line : PyStr} (hline : ∀ c ∈ line, AsciiPlain c) :
    splitLines line = if line = [] then [] else [line] := by
  have hall := splitLinesFrom_append hline [] []
  rw [List.append_nil, List.append_nil] at hall
  rw [splitLines, hall]
  cases hreverse : line.reverse with
  | nil =>
    rw [List.reverse_eq_nil_iff.mp hreverse]
    rfl
  | cons c begun =>
    have hne : line ≠ [] := by
      rintro rfl
      cases hreverse
    rw [if_neg hne, splitLinesFrom, ← hreverse, List.reverse_reverse]

/-! ## Reading and appending -/

structure LogRecord where
  fields : List (PyStr × Json)
  lettered : Lettered fields
  printable : (Json.obj fields).hasLongInt = false
  shallow : (Json.obj fields).height ≤ 2

def LogRecord.text (r : LogRecord) : PyStr := dumpsSorted (.obj r.fields)

/-- `json.dumps(record, sort_keys=True) + "\n"`. -/
def LogRecord.line (r : LogRecord) : PyStr := r.text ++ [lineFeed]

def LogRecord.value (r : LogRecord) : List (PyStr × JsonValue) := assignAll (sortByKey (wireJsonFields r.fields)) []

def appendLine (file : Bytes) (r : LogRecord) : Bytes := file ++ utf8 r.line

inductive LogError where
  /-- `UnicodeDecodeError`. -/
  | undecodable
  | line (error : LoadsError)
  deriving DecidableEq

section Log

variable (interp : Interpreter)

/-- The loop over the lines; what is no object is passed over. -/
def readLines : List PyStr → Except LoadsError (List (List (PyStr × JsonValue)))
  | [] => .ok []
  | raw :: raws =>
    if strip raw = [] then readLines raws
    else do
      let parsed ← loads interp (strip raw)
      let records ← readLines raws
      return match parsed with
        | .obj fields => fields :: records
        | _ => records

def readLog (file : Bytes) : Except LogError (List (List (PyStr × JsonValue))) :=
  match decodeUtf8 file with
  | none => .error .undecodable
  | some text => (readLines interp (splitLines (universalNewlines text))).mapError .line

end Log

/-! ## Stripping a line -/

theorem isSpace_brace : isSpace openObj = false ∧ isSpace closeObj = false := by decide

theorem strip_eq_self {s : PyStr} {c d : CodePoint} {t u : PyStr} (hhead : s = c :: t)
    (hlast : s = u ++ [d])
    (hc : isSpace c = false) (hd : isSpace d = false) : strip s = s := by
  unfold strip stripBy
  have hleft : s.dropWhile isSpace = s := by
    rw [hhead, List.dropWhile_cons_of_neg (by rw [hc]; nofun)]
  rw [hleft, hlast, List.rdropWhile_concat_neg _ _ _ (by rw [hd]; nofun)]

/-- Stripping leaves a prefix of a line that begins with a character. -/
theorem strip_prefix {s : PyStr} {c : CodePoint} {t : PyStr} (hhead : s = c :: t)
    (hc : isSpace c = false) :
    strip s <+: s ∧ strip s ≠ [] := by
  unfold strip stripBy
  have hleft : s.dropWhile isSpace = s := by
    rw [hhead, List.dropWhile_cons_of_neg (by rw [hc]; nofun)]
  rw [hleft]
  refine ⟨List.rdropWhile_prefix _ _, fun hnone => ?_⟩
  rw [List.rdropWhile_eq_nil_iff] at hnone
  have hspace := hnone c (hhead ▸ List.mem_cons_self)
  rw [hc] at hspace
  cases hspace

/-! ## Whole lines -/

section Records

variable {interp : Interpreter} (r : LogRecord)

theorem LogRecord.plain : ∀ c ∈ r.text, AsciiPlain c := plain_dumpsSorted (.obj r.fields)

theorem LogRecord.within : (Json.obj r.fields).height ≤ interp.depth := r.shallow.trans interp.roomy

theorem LogRecord.text_head : ∃ s, r.text = openObj :: s := by
  obtain ⟨c, s, htext, -⟩ := dumpsSorted_lettered r.lettered
  exact ⟨_, htext⟩

theorem LogRecord.loads_text : loads interp r.text = .ok (.obj r.value) :=
  loads_dumpsSorted r.printable r.within

/-- Something that begins with a brace and ends with one is not stripped. -/
theorem strip_behind {p : PyStr}
    (hp : ∃ s, p ++ r.text = openObj :: s) : strip (p ++ r.text) = p ++ r.text := by
  obtain ⟨s, hhead⟩ := hp
  obtain ⟨t, hclose⟩ := dumpsSorted_closes r.fields
  have hlast : p ++ r.text = (p ++ t) ++ [closeObj] := by
    rw [LogRecord.text, hclose, List.append_assoc]
  exact strip_eq_self hhead hlast isSpace_brace.1 isSpace_brace.2

theorem LogRecord.strip_text : strip r.text = r.text := @strip_behind r [] r.text_head

variable {r} in
theorem LogRecord.text_ne_nil : r.text ≠ [] := by
  obtain ⟨s, hs⟩ := r.text_head
  rw [hs]
  exact List.cons_ne_nil _ _

theorem readLines_record (raws : List PyStr) :
    readLines interp (r.text :: raws) = (readLines interp raws).map (r.value :: ·) := by
  rw [readLines, r.strip_text, if_neg r.text_ne_nil, r.loads_text]
  cases readLines interp raws <;> rfl

theorem readLines_records (rs : List LogRecord) (tail : PyStr) :
    readLines interp (splitLines (rs.flatMap LogRecord.line ++ tail)) =
      (readLines interp (splitLines tail)).map (rs.map LogRecord.value ++ ·) := by
  induction rs with
  | nil =>
    rw [List.flatMap_nil, List.nil_append]
    cases readLines interp (splitLines tail) <;> rfl
  | cons r rs ih =>
    have hline : (r :: rs).flatMap LogRecord.line ++ tail =
        r.text ++ lineFeed :: (rs.flatMap LogRecord.line ++ tail) := by
      simp [LogRecord.line]
    rw [hline, splitLines_line r.plain, readLines_record, ih]
    cases readLines interp (splitLines tail) <;> rfl

/-! ## A broken line -/

/-- The lines of a log whose last one is a beginning of a record. -/
theorem readLines_broken_last {p q : PyStr} (htext : r.text = p ++ q) (hp : p ≠ []) (hq : q ≠ []) :
    ∃ e, readLines interp (splitLines p) = .error e := by
  have hplain : ∀ c ∈ p, AsciiPlain c := fun c hc => r.plain c (htext ▸ List.mem_append_left _ hc)
  obtain ⟨s, hhead⟩ := r.text_head
  obtain ⟨p', rfl⟩ : ∃ p', p = openObj :: p' := by
    cases p with
    | nil => exact absurd rfl hp
    | cons c p' =>
      obtain ⟨rfl, -⟩ := List.cons.inj (hhead.symm.trans htext)
      exact ⟨p', rfl⟩
  -- What is left after the strip is again a proper prefix.
  obtain ⟨hpre, hne⟩ := strip_prefix rfl isSpace_brace.1 (t := p')
  obtain ⟨stripped, hstripped⟩ := hpre
  have hloads : loads interp (strip (openObj :: p')) = .error .malformed := by
    refine loads_prefix r.lettered r.printable r.within (q := stripped ++ q) ?_ hne ?_
    · rw [← List.append_assoc, hstripped]
      exact htext
    · exact fun h => hq (List.append_eq_nil_iff.mp h).2
  rw [splitLines_last hplain, if_neg hp, readLines, if_neg hne, hloads]
  exact ⟨_, rfl⟩

/-- The lines of a log that goes on behind a beginning of a record. -/
theorem readLines_broken_more {p q : PyStr} (htext : r.text = p ++ q) (hp : p ≠ []) (next : LogRecord)
    (tail : PyStr) : ∃ e, readLines interp (splitLines (p ++ (next.line ++ tail))) = .error e := by
  have hplain : ∀ c ∈ p ++ next.text, AsciiPlain c :=
    plain_append (fun c hc => r.plain c (htext ▸ List.mem_append_left _ hc)) next.plain
  obtain ⟨s, hhead⟩ := r.text_head
  have hbrace : ∃ s, p ++ next.text = openObj :: s := by
    cases p with
    | nil => exact absurd rfl hp
    | cons c p' =>
      obtain ⟨rfl, -⟩ := List.cons.inj (hhead.symm.trans htext)
      exact ⟨_, rfl⟩
  obtain ⟨e, hloads⟩ := loads_behind interp r.lettered r.printable r.within next.lettered
    next.printable htext hp
  have hline : p ++ (next.line ++ tail) = (p ++ next.text) ++ lineFeed :: tail := by
    simp [LogRecord.line]
  rw [hline, splitLines_line hplain, readLines, strip_behind next hbrace]
  have hne : p ++ next.text ≠ [] := fun h => hp (List.append_eq_nil_iff.mp h).1
  rw [if_neg hne]
  exact ⟨e, by rw [LogRecord.text, hloads]; rfl⟩

end Records

/-! ## Bytes -/

theorem utf8_append (s t : PyStr) : utf8 (s ++ t) = utf8 s ++ utf8 t := List.flatMap_append

theorem utf8_ascii {s : PyStr} (h : ∀ c ∈ s, c.val < 0x80) : utf8 s = s.map fun c => byte c.val := by
  induction s with
  | nil => rfl
  | cons c s ih =>
    obtain ⟨hc, hs⟩ := List.forall_mem_cons.mp h
    rw [utf8, List.flatMap_cons, utf8Char, if_pos hc, List.map_cons]
    exact congrArg _ (ih hs)

theorem utf8_take {s : PyStr} (h : ∀ c ∈ s, c.val < 0x80)
    (k : Nat) : (utf8 s).take k = utf8 (s.take k) := by
  rw [utf8_ascii h, utf8_ascii fun c hc => h c (List.mem_of_mem_take hc), List.map_take]

theorem LogRecord.line_ascii (r : LogRecord) : ∀ c ∈ r.line, c.val < 0x80 := by
  intro c hc
  rcases List.mem_append.mp hc with hc | hc
  · exact (r.plain c hc).2.trans (by decide)
  · obtain rfl := List.mem_singleton.mp hc
    decide

theorem LogRecord.no_return (r : LogRecord) : carriageReturn ∉ r.line := by
  intro hc
  rcases List.mem_append.mp hc with hc | hc
  · exact absurd (r.plain _ hc) (by decide)
  · exact absurd (List.mem_singleton.mp hc) (by decide)

def tornText (rs : List LogRecord) (last : LogRecord) (k : Nat) (later : List LogRecord) : PyStr :=
  rs.flatMap LogRecord.line ++ (last.line.take k ++ later.flatMap LogRecord.line)

/-- The file behind appends, an append of which `k` bytes got to the disk, and more appends. -/
def tornLog (rs : List LogRecord) (last : LogRecord) (k : Nat) (later : List LogRecord) : Bytes :=
  later.foldl appendLine (rs.foldl appendLine [] ++ (utf8 last.line).take k)

theorem foldl_appendLine (rs : List LogRecord) (file : Bytes) :
    rs.foldl appendLine file = file ++ utf8 (rs.flatMap LogRecord.line) := by
  induction rs generalizing file with
  | nil => exact (List.append_nil _).symm
  | cons r rs ih =>
    rw [List.foldl_cons, ih, appendLine, List.flatMap_cons, utf8_append, List.append_assoc]

theorem tornLog_eq (rs : List LogRecord) (last : LogRecord) (k : Nat) (later : List LogRecord) :
    tornLog rs last k later = utf8 (tornText rs last k later) := by
  rw [tornLog, foldl_appendLine, foldl_appendLine, utf8_take last.line_ascii, List.nil_append, tornText,
    utf8_append, utf8_append, List.append_assoc]

theorem mem_tornText {rs : List LogRecord} {last : LogRecord} {k : Nat} {later : List LogRecord}
    {c : CodePoint} (h : c ∈ tornText rs last k later) : ∃ r : LogRecord, c ∈ r.line := by
  rcases List.mem_append.mp h with h | h
  · obtain ⟨r, -, hr⟩ := List.mem_flatMap.mp h
    exact ⟨r, hr⟩
  · rcases List.mem_append.mp h with h | h
    · exact ⟨last, List.mem_of_mem_take h⟩
    · obtain ⟨r, -, hr⟩ := List.mem_flatMap.mp h
      exact ⟨r, hr⟩

theorem readLog_tornLog (interp : Interpreter) (rs : List LogRecord) (last : LogRecord) (k : Nat)
    (later : List LogRecord) : readLog interp (tornLog rs last k later) =
      ((readLines interp (splitLines (last.line.take k ++ later.flatMap LogRecord.line))).map
        (rs.map LogRecord.value ++ ·)).mapError .line := by
  have hencodable : encodable (tornText rs last k later) = true := by
    refine List.all_eq_true.mpr fun c hc => ?_
    obtain ⟨r, hr⟩ := mem_tornText hc
    have hlow := r.line_ascii c hr
    simp only [isSurrogate, isHighSurrogate, isLowSurrogate, Bool.not_eq_true', Bool.or_eq_false_iff,
      Bool.and_eq_false_iff, decide_eq_false_iff_not]
    omega
  have hreturn : carriageReturn ∉ tornText rs last k later := fun hc => by
    obtain ⟨r, hr⟩ := mem_tornText hc
    exact r.no_return hr
  rw [readLog, tornLog_eq, decodeUtf8_utf8 hencodable]
  simp only
  rw [universalNewlines_eq_iff.mpr hreturn, tornText, readLines_records]

/-! ## A log behind a crash -/

/-- The record whose write was broken off, if its text is all there. -/
def completed {α : Type} (log : α → LogRecord) (last : α) (k : Nat) : List α :=
  if (log last).text.length ≤ k then [last] else []

/-- Nothing of the line is there, or all of it, or all but its end with nothing behind it. -/
def CleanBreak {α : Type} (last : LogRecord) (k : Nat) (later : List α) : Prop :=
  k = 0 ∨ last.line.length ≤ k ∨ (k + 1 = last.line.length ∧ later = [])

section Crash

variable {α : Type} (interp : Interpreter) (log : α → LogRecord) (rs : List α) {last : α} {k : Nat}
  {later : List α}

theorem LogRecord.line_length (r : LogRecord) : r.line.length = r.text.length + 1 := by
  simp [LogRecord.line]

theorem readLines_all (rs : List LogRecord) :
    readLines interp (splitLines (rs.flatMap LogRecord.line)) = .ok (rs.map LogRecord.value) := by
  have hall := @readLines_records interp rs []
  rw [List.append_nil] at hall
  rw [hall]
  simp [splitLines, splitLinesFrom, readLines, Except.map]

theorem readLog_kept (h : CleanBreak (log last) k later) :
    readLog interp (tornLog (rs.map log) (log last) k (later.map log)) =
      .ok ((rs ++ completed log last k ++ later).map fun r => (log r).value) := by
  have hpos : 0 < (log last).text.length := List.length_pos_iff.mpr LogRecord.text_ne_nil
  have hlength := (log last).line_length
  have hall (later : List α) : readLines interp (splitLines ((later.map log).flatMap LogRecord.line)) =
      .ok (later.map fun r => (log r).value) := by
    rw [readLines_all, List.map_map]
    rfl
  have htail : readLines interp
      (splitLines ((log last).line.take k ++ (later.map log).flatMap LogRecord.line)) =
      .ok ((completed log last k ++ later).map fun r => (log r).value) := by
    rcases h with rfl | hwhole | ⟨hend, rfl⟩
    · rw [completed, if_neg (by omega), List.take_zero, List.nil_append, List.nil_append]
      exact hall later
    · rw [completed, if_pos (by omega), List.take_of_length_le hwhole]
      exact hall (last :: later)
    · -- The line is complete but for its end, and it is the last one.
      have htake : (log last).line.take k = (log last).text := by
        rw [LogRecord.line, List.take_append_of_le_length (by omega), List.take_of_length_le (by omega)]
      rw [completed, if_pos (by omega), htake, List.map_nil, List.flatMap_nil, List.append_nil,
        splitLines_last (log last).plain, if_neg LogRecord.text_ne_nil, readLines_record]
      rfl
  rw [readLog_tornLog, htail, List.append_assoc, List.map_map]
  exact congrArg Except.ok List.map_append.symm

/-- Behind any other break the log is not read any more. -/
theorem readLog_broken (h : ¬ CleanBreak (log last) k later) :
    ∃ e, readLog interp (tornLog (rs.map log) (log last) k (later.map log)) = .error e := by
  unfold CleanBreak at h
  push Not at h
  obtain ⟨hsome, hpart, hend⟩ := h
  have hlength := (log last).line_length
  have htake : (log last).line.take k = (log last).text.take k := by
    rw [LogRecord.line, List.take_append_of_le_length (by omega)]
  have hpos : 0 < (log last).text.length := List.length_pos_iff.mpr LogRecord.text_ne_nil
  have htext : (log last).text = (log last).text.take k ++ (log last).text.drop k :=
    (List.take_append_drop k _).symm
  have hp : (log last).text.take k ≠ [] := fun hnone => by
    have := congrArg List.length hnone
    rw [List.length_take, List.length_nil] at this
    omega
  obtain ⟨e, hlines⟩ : ∃ e, readLines interp
      (splitLines ((log last).line.take k ++ (later.map log).flatMap LogRecord.line)) = .error e := by
    rw [htake]
    cases later with
    | nil =>
      have hq : (log last).text.drop k ≠ [] := fun hnone => by
        have := congrArg List.length hnone
        rw [List.length_drop, List.length_nil] at this
        exact hend (by omega) rfl
      rw [List.map_nil, List.flatMap_nil, List.append_nil]
      exact readLines_broken_last (log last) htext hp hq
    | cons next later =>
      rw [List.map_cons, List.flatMap_cons]
      exact readLines_broken_more (log last) htext hp (log next) _
  rw [readLog_tornLog, hlines]
  exact ⟨_, rfl⟩

end Crash

end Python
end Tempest
