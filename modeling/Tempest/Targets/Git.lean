import Tempest.Bundle.Bundle
import Tempest.Python.Lines
import Tempest.Python.Utf8

/-!
# Git — what `git diff` prints

Paths as `git` prints them under its default `core.quotePath`, and the list of `--name-only`.
-/

namespace Tempest
namespace Git

open Python

/-- The bytes that `git` does not print as they are. -/
def isQuoted (n : Nat) : Bool := n < 0x20 || 0x7F ≤ n || n = 0x22 || n = 0x5C

def octal (n : Nat) : PyStr := [n / 64, n / 8 % 8, n % 8].map fun d => codePoint (0x30 + d)

def escapeByte (b : Byte) : PyStr :=
  match b.val with
  | 0x07 => lit "\\a"
  | 0x08 => lit "\\b"
  | 0x09 => lit "\\t"
  | 0x0A => lit "\\n"
  | 0x0B => lit "\\v"
  | 0x0C => lit "\\f"
  | 0x0D => lit "\\r"
  | 0x22 => lit "\\\""
  | 0x5C => lit "\\\\"
  | n => if isQuoted n then lit "\\" ++ octal n else [codePoint n]

def needsQuotes (path : PyStr) : Bool := path.any fun c => isQuoted c.val

/-- A path behind a prefix (`a/` and `b/` in a diff), in quotes where a byte of it needs them. -/
def quote (start path : PyStr) : PyStr :=
  if needsQuotes path then lit "\"" ++ (start ++ (utf8 path).flatMap escapeByte) ++ lit "\""
  else start ++ path

/-- `git diff --name-only`. -/
def nameOnly (paths : List PyStr) : PyStr := paths.flatMap fun path => quote [] path ++ [lineFeed]

/-! ## What is printed -/

def isPrinted (c : CodePoint) : Bool := 0x20 ≤ c.val && c.val < 0x7F

theorem isPrinted_codePoint {n : Nat} (hlow : 0x20 ≤ n) (hhigh : n < 0x7F) :
    isPrinted (codePoint n) = true := by
  have hval : (codePoint n).val = n := Nat.mod_eq_of_lt (by omega)
  simp [isPrinted, hval, hlow, hhigh]

theorem isPrinted_octal {n : Nat} (h : n < 256) : (octal n).all isPrinted = true := by
  refine List.all_eq_true.2 fun c hc => ?_
  obtain ⟨d, hd, rfl⟩ := List.mem_map.1 hc
  simp only [List.mem_cons, List.not_mem_nil, or_false] at hd
  exact isPrinted_codePoint (by omega) (by omega)

theorem isPrinted_escapeByte (b : Byte) : (escapeByte b).all isPrinted = true := by
  rw [escapeByte]
  split
  case h_10 =>
    split
    · have hslash : (lit "\\").all isPrinted = true := by decide
      rw [List.all_append, hslash, isPrinted_octal b.isLt]
      rfl
    · next hplain =>
      simp only [isQuoted, Bool.or_eq_true, decide_eq_true_eq] at hplain
      simp [isPrinted_codePoint (n := b.val) (by omega) (by omega)]
  all_goals decide

theorem quote_plain {start path : PyStr} (h : needsQuotes path = false) :
    quote start path = start ++ path := by
  rw [quote, h]
  rfl

theorem isPrinted_quote (path : PyStr) : (quote [] path).all isPrinted = true := by
  rw [quote]
  split
  · have hmark : (lit "\"").all isPrinted = true := by decide
    have hbytes : ((utf8 path).flatMap escapeByte).all isPrinted = true := by
      simp [List.all_flatMap, isPrinted_escapeByte]
    rw [List.all_append, List.all_append, hmark, List.nil_append, hbytes]
    rfl
  · next hplain =>
    refine List.all_eq_true.2 fun c hc => ?_
    simp only [needsQuotes, List.any_eq_true, not_exists, not_and] at hplain
    have hnot := hplain c hc
    simp only [isQuoted, Bool.or_eq_true, decide_eq_true_eq] at hnot
    simp only [isPrinted, Bool.and_eq_true, decide_eq_true_eq]
    omega

theorem length_le_flatMap {α β : Type} {f : α → List β} (h : ∀ x, f x ≠ []) (xs : List α) :
    xs.length ≤ (xs.flatMap f).length := by
  induction xs with
  | nil => exact Nat.zero_le _
  | cons x xs ih =>
    have hx := List.length_pos_iff.2 (h x)
    rw [List.length_cons, List.flatMap_cons, List.length_append]
    omega

theorem escapeByte_ne_nil (b : Byte) : escapeByte b ≠ [] := by
  rw [escapeByte]
  split
  case h_10 => split <;> simp [octal]
  all_goals decide

/-- What a quoted path is: longer than the path, between quotation marks. -/
theorem quote_marked {path : PyStr} (h : needsQuotes path = true) :
    ∃ inside, path.length ≤ inside.length ∧
      quote [] path = codePoint 0x22 :: inside ++ [codePoint 0x22] := by
  have hchar : ∀ c : CodePoint, utf8Char c ≠ [] := by
    intro c
    rw [utf8Char]
    split_ifs <;> simp
  refine ⟨(utf8 path).flatMap escapeByte, ?_, by rw [quote, h]; rfl⟩
  exact (length_le_flatMap hchar path).trans (length_le_flatMap escapeByte_ne_nil _)

end Git
end Tempest
