import Tempest.Python.Text

/-!
# Fnmatch — patterns of file names (`fnmatch.fnmatchcase`)

A pattern is cut into tokens as `fnmatch.translate` does, sets with their ranges included.  A pattern
without `*`, `?` and `[` matches itself and nothing else.
-/

namespace Tempest
namespace Python
namespace Fnmatch

def starChar : CodePoint := codePoint 0x2A

def questionMark : CodePoint := codePoint 0x3F

def openBracket : CodePoint := codePoint 0x5B

def closeBracket : CodePoint := codePoint 0x5D

def exclamation : CodePoint := codePoint 0x21

def hyphen : CodePoint := codePoint 0x2D

inductive Member where
  | one (c : CodePoint)
  | range (lo hi : CodePoint)
  deriving DecidableEq

def Member.has (c : CodePoint) : Member → Bool
  | .one d => c = d
  | .range lo hi => lo ≤ c && c ≤ hi

inductive Token where
  | star
  | anyChar
  | char (c : CodePoint)
  | set (negated : Bool) (members : List Member)
  deriving DecidableEq

/-! ## Sets -/

/-- A hyphen between two characters makes a range; one with no character behind it is itself. -/
def members : PyStr → List Member
  | [] => []
  | [c] => [.one c]
  | [c, d] => [.one c, .one d]
  | c :: d :: e :: rest =>
    if d = hyphen then .range c e :: members rest else .one c :: members (d :: e :: rest)

/-- The set of what stands in brackets.  An empty range goes first; an exclamation mark that then
stands at the front negates the rest, even where a range was before it. -/
def setToken (inside : PyStr) : Token :=
  let all : List Member := match inside with
    | c :: rest => if c = exclamation then .one c :: members rest else members (c :: rest)
    | [] => []
  let kept : List Member := all.filter fun m =>
    match m with
    | .one _ => true
    | .range lo hi => lo ≤ hi
  match kept with
  | .one c :: rest => if c = exclamation then .set true rest else .set false kept
  | .range lo hi :: rest =>
    if lo = exclamation then .set true (.one hyphen :: .one hi :: rest) else .set false kept
  | [] => .set false []

/-- What is between the brackets and what follows them, behind the opening one: a closing bracket at
the front, or behind the exclamation mark there, is inside. -/
def closing (s : PyStr) : Option (PyStr × PyStr) :=
  let skipped : Nat := match s with
    | c :: d :: _ =>
      if c = exclamation then if d = closeBracket then 2 else 1 else if c = closeBracket then 1 else 0
    | [c] => if c = exclamation ∨ c = closeBracket then 1 else 0
    | [] => 0
  let found := (s.drop skipped).takeWhile fun c => c ≠ closeBracket
  match (s.drop skipped).dropWhile fun c => c ≠ closeBracket with
  | [] => none
  | _ :: rest => some (s.take skipped ++ found, rest)

/-- The tokens of a pattern, `fuel` of them at most. -/
def tokens : Nat → PyStr → List Token
  | 0, _ => []
  | _, [] => []
  | fuel + 1, c :: rest =>
    if c = starChar then .star :: tokens fuel rest
    else if c = questionMark then .anyChar :: tokens fuel rest
    else if c = openBracket then
      match closing rest with
      | some (inside, behind) => setToken inside :: tokens fuel behind
      | none => .char c :: tokens fuel rest
    else .char c :: tokens fuel rest

/-! ## Matching -/

def Token.hasChar (c : CodePoint) : Token → Bool
  | .star => true
  | .anyChar => true
  | .char d => c = d
  | .set negated members => (members.any (Member.has c)) != negated

def matchesEnd (rest : PyStr → Bool) : PyStr → Bool
  | [] => rest []
  | c :: name => rest (c :: name) || matchesEnd rest name

def matchTokens : List Token → PyStr → Bool
  | [], name => name.isEmpty
  | .star :: tokens, name => matchesEnd (matchTokens tokens) name
  | _ :: _, [] => false
  | token :: tokens, c :: name => token.hasChar c && matchTokens tokens name

end Fnmatch

/-- `fnmatchcase(name, pattern)`. -/
def fnmatchcase (name pattern : PyStr) : Bool :=
  Fnmatch.matchTokens (Fnmatch.tokens pattern.length pattern) name

namespace Fnmatch

example : fnmatchcase (lit "pkg/a_pb2.py") (lit "*_pb2.py") = true := by decide

example : fnmatchcase (lit "[a].py") (lit "[a].py") = false := by decide

/-! ## Patterns that are names -/

def isMagic (c : CodePoint) : Bool := c = starChar || c = questionMark || c = openBracket

theorem tokens_plain {pattern : PyStr} (h : ∀ c ∈ pattern, isMagic c = false) :
    tokens pattern.length pattern = pattern.map .char := by
  induction pattern with
  | nil => rfl
  | cons c pattern ih =>
    obtain ⟨hc, hrest⟩ := List.forall_mem_cons.1 h
    simp only [isMagic, Bool.or_eq_false_iff, decide_eq_false_iff_not] at hc
    rw [List.length_cons, tokens, if_neg hc.1.1, if_neg hc.1.2, if_neg hc.2, ih hrest, List.map_cons]

theorem matchTokens_chars {pattern name : PyStr} :
    matchTokens (pattern.map .char) name = true ↔ name = pattern := by
  induction pattern generalizing name with
  | nil => simp [matchTokens]
  | cons c pattern ih =>
    cases name with
    | nil => simp [matchTokens]
    | cons d name => simp [matchTokens, Token.hasChar, ih]

theorem fnmatchcase_plain {name pattern : PyStr} (h : ∀ c ∈ pattern, isMagic c = false) :
    fnmatchcase name pattern = true ↔ name = pattern := by
  rw [fnmatchcase, tokens_plain h, matchTokens_chars]

end Fnmatch
end Python
end Tempest
