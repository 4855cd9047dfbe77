import Tempest.Execute.TsValue

/-!
# TsCoverage — the lines that a call ran (`execute/ts_worker.mjs`)

`executedLines` turns V8's block coverage of one call into lines of the target: every line that a
range with a count touches is painted, and after that every line that a range without one covers is
erased.  Beside it stands the reading that follows the innermost range around each character.
-/

namespace Tempest
namespace Ts

open Python

/-! ## Searching -/

/-- `while (lo < hi)` with the upper middle: the last place where `p` holds. -/
def searchLast (p : Nat → Bool) (lo hi : Nat) : Nat :=
  if lo < hi then
    let mid := (lo + hi + 1) / 2
    if p mid then searchLast p mid hi else searchLast p lo (mid - 1)
  else lo
termination_by hi - lo

theorem searchLast_eq {p : Nat → Bool} {last : Nat} {lo hi : Nat}
    (h : ∀ k, lo ≤ k → k ≤ hi → (p k = true ↔ k ≤ last)) (hlo : lo ≤ last) (hhi : last ≤ hi) :
    searchLast p lo hi = last := by
  induction lo, hi using searchLast.induct p with
  | case1 lo hi hlt mid hmid ih =>
    have hle : mid ≤ last := (h mid (by omega) (by omega)).1 hmid
    rw [searchLast, if_pos hlt, if_pos hmid]
    exact ih (fun k hk => h k (by omega)) hle hhi
  | case2 lo hi hlt mid hmid ih =>
    have hgt : ¬ mid ≤ last := fun hle => hmid ((h mid (by omega) (by omega)).2 hle)
    rw [searchLast, if_pos hlt, if_neg hmid]
    exact ih (fun k hk hk' => h k hk (by omega)) hlo (by omega)
  | case3 lo hi hlt =>
    rw [searchLast, if_neg hlt]
    omega

/-! ## The code -/

def newline : CodeUnit := codeUnit 0x0A

def startsFrom (i : Nat) : JsStr → List Nat
  | [] => []
  | c :: text => if c = newline then (i + 1) :: startsFrom (i + 1) text else startsFrom (i + 1) text

def offsetsToLineStarts (text : JsStr) : List Nat := 0 :: startsFrom 0 text

def lineOfOffset (starts : List Nat) (offset : Nat) : Nat :=
  searchLast (fun mid => starts.getD mid 0 ≤ offset) 0 (starts.length - 1) + 1

structure CoverageRange where
  startOffset : Nat
  endOffset : Nat
  count : Nat

structure FunctionCoverage where
  ranges : List CoverageRange

structure ScriptCoverage where
  url : JsStr
  functions : List FunctionCoverage

def targetRanges (coverage : List ScriptCoverage) (targetUrl : JsStr) : List CoverageRange :=
  (coverage.filter fun script => script.url = targetUrl).flatMap fun script =>
    script.functions.flatMap FunctionCoverage.ranges

section Lines

variable (lineStarts : List Nat) (textLength : Nat)

def CoverageRange.lines (range : CoverageRange) : Finset Nat :=
  Finset.Icc (lineOfOffset lineStarts range.startOffset)
    (lineOfOffset lineStarts (max range.startOffset (range.endOffset - 1)))

def lineStart (line : Nat) : Nat := lineStarts.getD (line - 1) 0

def lineEnd (line : Nat) : Nat :=
  if line < lineStarts.length then lineStarts.getD line 0 - 1 else textLength

def CoverageRange.covers (range : CoverageRange) (line : Nat) : Bool :=
  range.startOffset ≤ lineStart lineStarts line && lineEnd lineStarts textLength line ≤ range.endOffset

structure Painted where
  lines : Finset Nat
  dead : List CoverageRange

def paint (painted : Painted) (range : CoverageRange) : Painted :=
  if 0 < range.count then { painted with lines := painted.lines ∪ range.lines lineStarts }
  else { painted with dead := painted.dead ++ [range] }

def erase (lines : Finset Nat) (range : CoverageRange) : Finset Nat :=
  lines \ (range.lines lineStarts).filter fun line => range.covers lineStarts textLength line

def executedLines (coverage : List ScriptCoverage) (targetUrl : JsStr) : List Nat :=
  let painted := (targetRanges coverage targetUrl).foldl (paint lineStarts) ⟨∅, []⟩
  (painted.dead.foldl (erase lineStarts textLength) painted.lines).sort (· ≤ ·)

end Lines

/-! ## The innermost range -/

def lineNumber (text : JsStr) (offset : Nat) : Nat := (text.take offset).count newline + 1

/-- A character of a line; `ends` says whether its line feed is one. -/
def OnLine (ends : Bool) (text : JsStr) (line offset : Nat) : Prop :=
  offset < text.length ∧ lineNumber text offset = line ∧ (ends = true ∨ text[offset]? ≠ some newline)

def CoverageRange.Contains (range : CoverageRange) (offset : Nat) : Prop :=
  range.startOffset ≤ offset ∧ offset < range.endOffset

def CoverageRange.Within (range around : CoverageRange) : Prop :=
  around.startOffset ≤ range.startOffset ∧ range.endOffset ≤ around.endOffset

def Live (ranges : List CoverageRange) (offset : Nat) : Prop :=
  ∃ range ∈ ranges, 0 < range.count ∧ range.Contains offset ∧
    ∀ around ∈ ranges, around.Contains offset → range.Within around

def FollowsInnermost (ends : Bool) (coverage : List ScriptCoverage) (targetUrl text : JsStr) : Prop :=
  ∀ line, line ∈ executedLines (offsetsToLineStarts text) text.length coverage targetUrl ↔
    ∃ offset, OnLine ends text line offset ∧ Live (targetRanges coverage targetUrl) offset

/-! ## Lines and offsets -/

theorem length_startsFrom (i : Nat) (text : JsStr) :
    (startsFrom i text).length = text.count newline := by
  induction text generalizing i with
  | nil => rfl
  | cons c text ih =>
    by_cases hc : c = newline
    · rw [startsFrom, if_pos hc, List.length_cons, ih, hc, List.count_cons_self]
    · rw [startsFrom, if_neg hc, ih, List.count_cons_of_ne hc]

theorem startsFrom_le_iff (text : JsStr) : ∀ i k offset, k < text.count newline →
    ((startsFrom i text).getD k 0 ≤ i + offset ↔ k < (text.take offset).count newline) := by
  induction text with
  | nil =>
    intro i k offset h
    exact absurd h (Nat.not_lt_zero k)
  | cons c text ih =>
    intro i k offset h
    by_cases hc : c = newline
    · subst hc
      rw [List.count_cons_self] at h
      rw [startsFrom, if_pos rfl]
      cases k with
      | zero =>
        cases offset with
        | zero => simp
        | succ offset => simp
      | succ k =>
        rw [List.getD_cons_succ]
        cases offset with
        | zero =>
          have hnext := ih (i + 1) k 0 (by omega)
          simp only [List.take_zero, List.count_nil, Nat.not_lt_zero, iff_false] at hnext ⊢
          omega
        | succ offset =>
          rw [List.take_succ_cons, List.count_cons_self, Nat.add_lt_add_iff_right,
            ← ih (i + 1) k offset (by omega), Nat.add_right_comm, Nat.add_assoc i]
    · rw [List.count_cons_of_ne hc] at h
      rw [startsFrom, if_neg hc]
      cases offset with
      | zero =>
        have hnext := ih (i + 1) k 0 h
        simp only [List.take_zero, List.count_nil, Nat.not_lt_zero, iff_false] at hnext ⊢
        omega
      | succ offset =>
        rw [List.take_succ_cons, List.count_cons_of_ne hc, ← ih (i + 1) k offset h,
          Nat.add_right_comm, Nat.add_assoc i]

theorem length_offsetsToLineStarts (text : JsStr) :
    (offsetsToLineStarts text).length = text.count newline + 1 := by
  rw [offsetsToLineStarts, List.length_cons, length_startsFrom]

theorem starts_le_iff (text : JsStr) {k : Nat} (offset : Nat) (h : k ≤ text.count newline) :
    (offsetsToLineStarts text).getD k 0 ≤ offset ↔ k ≤ (text.take offset).count newline := by
  cases k with
  | zero => simp [offsetsToLineStarts]
  | succ k =>
    rw [offsetsToLineStarts, List.getD_cons_succ]
    have hstart := startsFrom_le_iff text 0 k offset h
    rwa [Nat.zero_add] at hstart

theorem count_take_le (text : JsStr) (offset : Nat) :
    (text.take offset).count newline ≤ text.count newline :=
  (List.take_sublist offset text).count_le newline

theorem lineOfOffset_eq (text : JsStr) (offset : Nat) :
    lineOfOffset (offsetsToLineStarts text) offset = lineNumber text offset := by
  rw [lineOfOffset, lineNumber, length_offsetsToLineStarts, Nat.add_sub_cancel]
  congr 1
  refine searchLast_eq (fun k _ hk => ?_) (Nat.zero_le _) (count_take_le text offset)
  rw [decide_eq_true_iff]
  exact starts_le_iff text offset hk

theorem lineNumber_mono (text : JsStr) {a b : Nat} (h : a ≤ b) :
    lineNumber text a ≤ lineNumber text b := by
  have hsub := (List.take_sublist_take_left h (l := text)).count_le newline
  exact Nat.succ_le_succ hsub

/-! ## What is painted and what is erased -/

def CoverageRange.Touches (text : JsStr) (range : CoverageRange) (line : Nat) : Prop :=
  lineNumber text range.startOffset ≤ line ∧
    line ≤ lineNumber text (max range.startOffset (range.endOffset - 1))

theorem mem_lines {text : JsStr} {range : CoverageRange} {line : Nat} :
    line ∈ range.lines (offsetsToLineStarts text) ↔ range.Touches text line := by
  rw [CoverageRange.lines, Finset.mem_Icc, lineOfOffset_eq, lineOfOffset_eq]
  exact Iff.rfl

theorem mem_foldl_paint (starts : List Nat) (line : Nat) (ranges : List CoverageRange)
    (painted : Painted) : line ∈ (ranges.foldl (paint starts) painted).lines ↔
      line ∈ painted.lines ∨ ∃ range ∈ ranges, 0 < range.count ∧ line ∈ range.lines starts := by
  induction ranges generalizing painted with
  | nil => simp
  | cons range ranges ih =>
    rw [List.foldl_cons, ih]
    by_cases hcount : 0 < range.count
    · simp only [paint, hcount, if_true, Finset.mem_union, List.mem_cons, exists_eq_or_imp, true_and,
        or_assoc]
    · simp only [paint, hcount, if_false, List.mem_cons, exists_eq_or_imp, false_and, false_or]

theorem foldl_paint_dead (starts : List Nat) (ranges : List CoverageRange) (painted : Painted) :
    (ranges.foldl (paint starts) painted).dead =
      painted.dead ++ ranges.filter fun range => range.count = 0 := by
  induction ranges generalizing painted with
  | nil => simp
  | cons range ranges ih =>
    rw [List.foldl_cons, ih]
    by_cases hcount : 0 < range.count
    · have hne : range.count ≠ 0 := Nat.ne_of_gt hcount
      simp only [paint, hcount, if_true, List.filter_cons, hne, decide_false, Bool.false_eq_true,
        if_false]
    · have hzero : range.count = 0 := Nat.eq_zero_of_not_pos hcount
      simp [paint, hzero]

theorem mem_foldl_erase (starts : List Nat) (textLength line : Nat) (dead : List CoverageRange)
    (lines : Finset Nat) : line ∈ dead.foldl (erase starts textLength) lines ↔
      line ∈ lines ∧ ∀ range ∈ dead, line ∈ range.lines starts →
        range.covers starts textLength line = false := by
  induction dead generalizing lines with
  | nil => simp
  | cons range dead ih =>
    rw [List.foldl_cons, ih, erase, Finset.mem_sdiff, Finset.mem_filter, List.forall_mem_cons, and_assoc]
    simp only [not_and, Bool.not_eq_true]

theorem mem_executedLines {coverage : List ScriptCoverage} {targetUrl text : JsStr} {line : Nat} :
    line ∈ executedLines (offsetsToLineStarts text) text.length coverage targetUrl ↔
      (∃ range ∈ targetRanges coverage targetUrl, 0 < range.count ∧ range.Touches text line) ∧
        ∀ range ∈ targetRanges coverage targetUrl, range.count = 0 → range.Touches text line →
          range.covers (offsetsToLineStarts text) text.length line = false := by
  rw [executedLines, Finset.mem_sort, mem_foldl_erase, mem_foldl_paint, foldl_paint_dead]
  simp only [Finset.notMem_empty, false_or, List.nil_append, List.mem_filter, decide_eq_true_eq,
    mem_lines,
    and_imp]

/-! ## When both readings agree -/

structure PaintsInnermost (ends : Bool) (ranges : List CoverageRange) (text : JsStr) : Prop where
  spared : ∀ line, (∃ offset, OnLine ends text line offset ∧ Live ranges offset) →
    ∀ range ∈ ranges, range.count = 0 → range.Touches text line →
      range.covers (offsetsToLineStarts text) text.length line = false
  joint : ∀ line, ∀ range ∈ ranges, 0 < range.count → range.Touches text line →
    (∃ offset, OnLine ends text line offset ∧ Live ranges offset) ∨
      ∃ dead ∈ ranges, dead.count = 0 ∧ dead.Touches text line ∧
        dead.covers (offsetsToLineStarts text) text.length line = true

theorem CoverageRange.Contains.touches {text : JsStr} {range : CoverageRange} {offset : Nat}
    (h : range.Contains offset) : range.Touches text (lineNumber text offset) := by
  refine ⟨lineNumber_mono text h.1, lineNumber_mono text ?_⟩
  have hlast := h.2
  omega

/-- A target whose `make` keeps a function for later calls. -/
def keptText : JsStr := js <|
  "let kept;\nexport function entry() \x7b\n  function make() \x7b\n    kept = () => \x7b\n" ++
  "      return 1;\n    \x7d;\n  \x7d\n  if (!kept) return make();\n  return kept();\n\x7d\n"

def keptUrl : JsStr := js "file:///kept.mjs"

/-- The second call of `entry`: `make` does not run, the kept function does. -/
def keptCoverage : List ScriptCoverage :=
  [⟨keptUrl, [⟨[⟨17, 148, 1⟩, ⟨115, 129, 0⟩]⟩, ⟨[⟨38, 101, 0⟩]⟩, ⟨[⟨67, 96, 1⟩]⟩]⟩]

end Ts
end Tempest
