import Tempest.Compare.Normalize
import Tempest.Python.Lines

/-!
# Diff — reading the output of `git diff --unified=0` (`targets/diff.py`)

The parser splits the whole output into lines as `str.splitlines` does and looks at how each of
them begins; only the file headers and the hunk headers matter to it.
-/

namespace Tempest

open Python

/-! ## Strings -/

/-- The characters `str.splitlines` ends a line at, besides `\r\n`. -/
def isLineBoundary (c : CodePoint) : Bool :=
  c.val = 0x0A || c.val = 0x0B || c.val = 0x0C || c.val = 0x0D || c.val = 0x1C || c.val = 0x1D ||
    c.val = 0x1E || c.val = 0x85 || c.val = 0x2028 || c.val = 0x2029

/-- `splitlines`, with the characters of the line so far. -/
def splitLinesFrom : PyStr → PyStr → List PyStr
  | line, [] => if line = [] then [] else [line]
  | line, [c] => if isLineBoundary c then [line] else [line ++ [c]]
  | line, c :: d :: rest =>
    if c = carriageReturn && d = lineFeed then line :: splitLinesFrom [] rest
    else if isLineBoundary c then line :: splitLinesFrom [] (d :: rest)
    else splitLinesFrom (line ++ [c]) (d :: rest)

def splitLines (s : PyStr) : List PyStr := splitLinesFrom [] s

def startsWith (start s : PyStr) : Bool := start.isPrefixOf s

def afterFirst (sep : PyStr) : PyStr → Option PyStr
  | [] => none
  | c :: s => if startsWith sep (c :: s) then some ((c :: s).drop sep.length) else afterFirst sep s

/-- `s.split(" ")`. -/
def splitSpaces (s : PyStr) : List PyStr := s.splitOn (codePoint 0x20)

def digitOf (c : CodePoint) : Option Nat :=
  decimalZeros.findSome? fun first =>
    if first ≤ c.val && c.val < first + 10 then some (c.val - first) else none

/-- The digits behind a first one, which single underscores may part. -/
def readDigits (value : Nat) : PyStr → Option Nat
  | [] => some value
  | [c] => (digitOf c).map fun d => value * 10 + d
  | c :: d :: rest =>
    if c = codePoint 0x5F then
      match digitOf d with
      | some digit => readDigits (value * 10 + digit) rest
      | none => none
    else
      match digitOf c with
      | some digit => readDigits (value * 10 + digit) (d :: rest)
      | none => none

def readNat : PyStr → Option Nat
  | [] => none
  | c :: rest =>
    match digitOf c with
    | some digit => readDigits digit rest
    | none => none

/-- `int(text)`, without its limit on the number of digits. -/
def readInt (text : PyStr) : Option Int :=
  match Python.strip text with
  | [] => none
  | c :: rest =>
    if c = codePoint 0x2D then (readNat rest).map fun n => -(n : Int)
    else if c = codePoint 0x2B then (readNat rest).map fun n => (n : Int)
    else (readNat (c :: rest)).map fun n => (n : Int)

/-! ## Files -/

inductive FileStatus where
  | modified
  | added
  | deleted
  deriving DecidableEq

structure FileDiff where
  path : PyStr
  status : FileStatus
  changedHeadLines : Finset Nat
  changedBaseLines : Finset Nat

/-- What the parser raises on a header it cannot take apart. -/
inductive DiffError where
  | indexError
  | valueError
  deriving DecidableEq

/-- `_hunk_lines`.  Below zero there is no line, and a range that goes there is an error here. -/
def hunkLines (part : PyStr) : Except DiffError (Finset Nat) :=
  let raw := part.drop 1
  let start := raw.takeWhile fun c => c ≠ codePoint 0x2C
  let count := (raw.dropWhile fun c => c ≠ codePoint 0x2C).drop 1
  match readInt start, if count = [] then some 1 else readInt count with
  | some start, some count =>
    if count ≤ 0 then .ok ∅
    else if start < 0 then .error .valueError
    else .ok (Finset.Ico start.toNat (start + count).toNat)
  | _, _ => .error .valueError

structure ParseState where
  files : List FileDiff := []
  path : Option PyStr := none
  status : FileStatus := .modified
  headLines : Finset Nat := ∅
  baseLines : Finset Nat := ∅

def ParseState.flush (s : ParseState) : ParseState :=
  match s.path with
  | none => s
  | some path =>
    { s with files := s.files ++ [⟨path, s.status, s.headLines, s.baseLines⟩], path := none }

def ParseState.line (s : ParseState) (line : PyStr) : Except DiffError ParseState :=
  if startsWith (lit "diff --git ") line then
    match afterFirst (lit " b/") line with
    | none => .error .indexError
    | some path =>
      .ok { s.flush with path := some path, status := .modified, headLines := ∅, baseLines := ∅ }
  else if startsWith (lit "new file mode") line then .ok { s with status := .added }
  else if startsWith (lit "deleted file mode") line then .ok { s with status := .deleted }
  else if startsWith (lit "@@ ") line then
    match (splitSpaces line).drop 1 with
    | basePart :: headPart :: _ => do
      let base ← hunkLines basePart
      let head ← hunkLines headPart
      return { s with baseLines := s.baseLines ∪ base, headLines := s.headLines ∪ head }
    | _ => .error .valueError
  else .ok s

def parseLines : List PyStr → ParseState → Except DiffError ParseState
  | [], s => .ok s
  | line :: lines, s =>
    match s.line line with
    | .error e => .error e
    | .ok s => parseLines lines s

def parseUnified (diffText : PyStr) : Except DiffError (List FileDiff) :=
  match parseLines (splitLines diffText) {} with
  | .error e => .error e
  | .ok s => .ok (s.flush.files.insertionSort fun a b => a.path ≤ b.path)

end Tempest
