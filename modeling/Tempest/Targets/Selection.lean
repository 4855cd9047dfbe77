import Tempest.Process.Innermost
import Tempest.Targets.Diff
import Tempest.Targets.Symbols

/-!
# Selection — which changed defs are visited

A line belongs to the innermost def around it.  `mem_enclosingSymbols` reads off what
`enclosing_symbols` returns: the defs to which some changed head line belongs, except that of
several defs with one dotted name only the one with the last such line is kept.  A change that only
removes lines has no head line, so `visits_changed_iff` states what a change needs to be seen.
-/

namespace Tempest

open Python

/-! ## The def a line belongs to -/

/-- The positions of two defs, the first one first in the file: nested or disjoint. -/
def Apart (a b : SymbolSpan) : Prop :=
  a.span.1 < b.span.1 ∧ (b.span.2 ≤ a.span.2 ∨ a.span.2 < b.span.1)

def Owns (spans : List SymbolSpan) (d : SymbolSpan) (line : Nat) : Prop :=
  d ∈ spans ∧ d.covers line = true ∧
    ∀ s ∈ spans, d.span.1 < s.span.1 → s.span.2 ≤ d.span.2 → s.covers line = false

theorem innermost_eq (line : Nat) (spans : List SymbolSpan) (best : Option SymbolSpan) :
    innermost line spans best =
      Innermost.pick SymbolSpan.covers (fun s => s.span.1) line spans best := by
  induction spans generalizing best with
  | nil => rfl
  | cons s spans ih => rw [innermost, Innermost.pick, ih, ih]

theorem choose_eq (spans : List SymbolSpan) :
    choose spans =
      Innermost.note SymbolSpan.covers (fun s => s.span.1) SymbolSpan.symbol spans := by
  funext chosen line
  rw [choose, Innermost.note, innermost_eq]
  cases Innermost.pick SymbolSpan.covers (fun s => s.span.1) line spans none <;> rfl

/-- Of two defs the one that starts later lies inside the other or behind it. -/
theorem apart_of_start {spans : List SymbolSpan} {d s : SymbolSpan} (hapart : spans.Pairwise Apart)
    (hd : d ∈ spans) (hs : s ∈ spans) (hstart : d.span.1 < s.span.1) :
    s.span.2 ≤ d.span.2 ∨ d.span.2 < s.span.1 := by
  induction spans with
  | nil => cases hd
  | cons a spans ih =>
    rw [List.pairwise_cons] at hapart
    rcases List.mem_cons.1 hd with rfl | hd'
    · rcases List.mem_cons.1 hs with rfl | hs'
      · exact absurd hstart (lt_irrefl _)
      · exact (hapart.1 s hs').2
    · rcases List.mem_cons.1 hs with rfl | hs'
      · exact absurd hstart (lt_asymm (hapart.1 d hd').1)
      · exact ih hapart.2 hd' hs'

/-- The def that starts last around a line is the one the line belongs to. -/
theorem last_iff_owns {line : Nat} {spans : List SymbolSpan} {d : SymbolSpan}
    (hapart : spans.Pairwise Apart) :
    Innermost.Last SymbolSpan.covers (fun s => s.span.1) spans line d ↔ Owns spans d line := by
  apply and_congr_right
  intro hd
  apply and_congr_right
  intro hcovers
  constructor
  · intro hmax s hs hstart _
    by_contra hcov
    exact hmax s hs (by simpa using hcov) hstart
  · intro hinner s hs hcov hstart
    -- both defs contain the line, so the later one lies inside the earlier one
    have hinside : s.span.2 ≤ d.span.2 := by
      rcases apart_of_start hapart hd hs hstart with hinside | hbehind
      · exact hinside
      · simp only [SymbolSpan.covers, Bool.and_eq_true, decide_eq_true_eq] at hcovers hcov
        omega
    have hnot := hinner s hs hstart hinside
    rw [hcov] at hnot
    cases hnot

/-! ## The chosen defs -/

/-- Some changed line belongs to the def, and no changed line behind it to a def of that name. -/
def Touched (spans : List SymbolSpan) (lines : Finset Nat) (d : SymbolSpan) : Prop :=
  ∃ line ∈ lines, Owns spans d line ∧
    ∀ later ∈ lines, line < later → ∀ s, Owns spans s later → s.symbol ≠ d.symbol

/-- What `enclosing_symbols` returns. -/
theorem mem_enclosingSymbols {tree : Node} {lines : Finset Nat} {d : SymbolSpan}
    (hapart : (collectDefs tree).Pairwise Apart) :
    d ∈ enclosingSymbols tree lines ↔ Touched (collectDefs tree) lines d := by
  have hlines : (lines.sort (· ≤ ·)).Pairwise (· < ·) := lines.sortedLT_sort.pairwise
  have hstarts : (collectDefs tree).Pairwise fun a b => a.span.1 < b.span.1 := hapart.imp And.left
  unfold enclosingSymbols
  rw [Innermost.mem_noted hstarts hlines
    (by rw [choose_eq]; exact List.perm_insertionSort _ _)]
  simp only [Innermost.Noted, last_iff_owns hapart, Finset.mem_sort, Touched]

/-! ## A modified file -/

instance (spans : List SymbolSpan) (d : SymbolSpan) (line : Nat) : Decidable (Owns spans d line) :=
  inferInstanceAs (Decidable (_ ∧ _ ∧ _))

/-- A module that parses: its lines, its tree, and the positions the parser gives the defs. -/
structure Source where
  lines : List PyStr
  tree : Node
  apart : (collectDefs tree).Pairwise Apart

def Source.ownText (src : Source) (d : SymbolSpan) : List (Option PyStr) :=
  ((List.range' d.span.1 (d.span.2 + 1 - d.span.1)).filter
    fun line => Owns (collectDefs src.tree) d line).map fun line => src.lines[line - 1]?

/-- A def of the head that the base has too, under the same name but with other lines. -/
structure Changed (base head : Source) (d : SymbolSpan) : Prop where
  inHead : d ∈ collectDefs head.tree
  inBase : ∃ b ∈ collectDefs base.tree, b.symbol = d.symbol
  differs : ∀ b ∈ collectDefs base.tree, b.symbol = d.symbol → base.ownText b ≠ head.ownText d

/-- The defs `_run_prove` goes through for a file. -/
def visited (base head : Node) (fd : FileDiff) : List SymbolSpan :=
  (enclosingSymbols head fd.changedHeadLines).filter fun s =>
    (allSymbolNames base).contains s.symbol

/-- The parsed diff has a modified file of the path for which `p` holds. -/
def Modified (diffText path : PyStr) (p : FileDiff → Prop) : Prop :=
  ∃ files, parseUnified diffText = .ok files ∧
    ∃ fd ∈ files, fd.path = path ∧ fd.status = .modified ∧ p fd

/-- `def f(x): x = x + 1; return x`, on three lines. -/
def beforeRemoval : Source where
  lines := [lit "def f(x):", lit "    x = x + 1", lit "    return x"]
  tree := .other [.functionDef ⟨false, lit "f", 1, 3, []⟩ [] [] [] []]
  apart := List.pairwise_singleton _ _

def afterRemoval : Source where
  lines := [lit "def f(x):", lit "    return x"]
  tree := .other [.functionDef ⟨false, lit "f", 1, 2, []⟩ [] [] [] []]
  apart := List.pairwise_singleton _ _

def removalDiff : PyStr :=
  join [lineFeed]
    [lit "diff --git a/m.py b/m.py", lit "--- a/m.py", lit "+++ b/m.py",
      lit "@@ -2 +1,0 @@ def f(x):", lit "-    x = x + 1", []]

theorem parseUnified_removal :
    parseUnified removalDiff = .ok [⟨lit "m.py", .modified, ∅, {2}⟩] := by
  rfl

def removedF : SymbolSpan where
  symbol := lit "f"
  span := (1, 2)
  nested := false
  isAsync := false
  isGenerator := false
  ownerClass := none
  isStatic := false
  isClassmethod := false

end Tempest
