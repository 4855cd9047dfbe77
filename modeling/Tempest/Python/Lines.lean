import Tempest.Python.Text

/-!
# Lines — whitespace and line boundaries of `str`

`strip` and `splitLines` with the characters Python counts: `splitlines` breaks at more of them than
a text file does.
-/

namespace Tempest
namespace Python

/-- `str.isspace()` of one character. -/
def isSpace (c : CodePoint) : Bool :=
  (0x09 ≤ c.val && c.val ≤ 0x0D) || (0x1C ≤ c.val && c.val ≤ 0x20) || c.val = 0x85 ||
    c.val = 0xA0 || c.val = 0x1680 || (0x2000 ≤ c.val && c.val ≤ 0x200A) || c.val = 0x2028 ||
    c.val = 0x2029 || c.val = 0x202F || c.val = 0x205F || c.val = 0x3000

/-- `s.strip(chars)`, for the characters with `p`. -/
def stripBy (p : CodePoint → Bool) (s : PyStr) : PyStr := (s.dropWhile p).rdropWhile p

/-- `s.strip()`. -/
def strip (s : PyStr) : PyStr := stripBy isSpace s

/-- `qualname.split(".")[-1]`. -/
def lastComponent (qualname : PyStr) : PyStr :=
  (qualname.reverse.takeWhile fun c => c ≠ codePoint 0x2E).reverse

theorem lastComponent_of_notMem {name : PyStr} (h : codePoint 0x2E ∉ name) :
    lastComponent name = name := by
  have hall : ∀ c ∈ name.reverse, (c ≠ codePoint 0x2E : Bool) = true := by
    intro c hc
    have hne : c ≠ codePoint 0x2E := fun heq => h (heq ▸ List.mem_reverse.1 hc)
    simpa using hne
  rw [lastComponent, List.takeWhile_eq_self_iff.2 hall, List.reverse_reverse]

/-- A character at which `str.splitlines` breaks. -/
def isLineBreak (c : CodePoint) : Bool :=
  (0x0A ≤ c.val && c.val ≤ 0x0D) || (0x1C ≤ c.val && c.val ≤ 0x1E) || c.val = 0x85 ||
    c.val = 0x2028 || c.val = 0x2029

/-- The lines of a text behind the characters of a line that has begun, the last one first. -/
def splitLinesFrom : PyStr → PyStr → List PyStr
  | [], [] => []
  | c :: begun, [] => [(c :: begun).reverse]
  | begun, [c] => if isLineBreak c then [begun.reverse] else [(c :: begun).reverse]
  | begun, c :: d :: s =>
    if c = carriageReturn ∧ d = lineFeed then begun.reverse :: splitLinesFrom [] s
    else if isLineBreak c then begun.reverse :: splitLinesFrom [] (d :: s)
    else splitLinesFrom (c :: begun) (d :: s)

/-- `s.splitlines()`. -/
def splitLines (s : PyStr) : List PyStr := splitLinesFrom [] s

example : splitLines (lit "a\r\nb\n\nc") = [lit "a", lit "b", [], lit "c"] := by decide

theorem splitLinesFrom_line {begun line s : PyStr} (h : line.all (fun c => !isLineBreak c) = true) :
    splitLinesFrom begun (line ++ lineFeed :: s) = (begun.reverse ++ line) :: splitLinesFrom [] s := by
  have hfeed : isLineBreak lineFeed = true ∧ lineFeed ≠ carriageReturn := by decide
  induction line generalizing begun with
  | nil =>
    cases s with
    | nil => simp [splitLinesFrom, hfeed]
    | cons d s => simp [splitLinesFrom, hfeed]
  | cons c line ih =>
    rw [List.all_cons, Bool.and_eq_true, Bool.not_eq_true'] at h
    have hreturn : c ≠ carriageReturn := by
      rintro rfl
      exact absurd h.1 (by decide)
    have hnext : splitLinesFrom (c :: begun) (line ++ lineFeed :: s) = _ := ih h.2
    cases hrest : line ++ lineFeed :: s with
    | nil => simp at hrest
    | cons d rest =>
      rw [List.cons_append, hrest, splitLinesFrom, if_neg fun hc => hreturn hc.1, if_neg (by simp [h.1]),
        ← hrest, hnext]
      simp

/-- Lines without a boundary in them, each with a line feed, are split into themselves. -/
theorem splitLines_lines {lines : List PyStr}
    (h : ∀ line ∈ lines, line.all (fun c => !isLineBreak c) = true) :
    splitLines (lines.flatMap fun line => line ++ [lineFeed]) = lines := by
  induction lines with
  | nil => rfl
  | cons line lines ih =>
    obtain ⟨hline, hrest⟩ := List.forall_mem_cons.1 h
    rw [splitLines, List.flatMap_cons, List.append_assoc, List.singleton_append,
      splitLinesFrom_line hline, ← splitLines, ih hrest, List.reverse_nil, List.nil_append]

end Python
end Tempest
