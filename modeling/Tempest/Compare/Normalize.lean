import Tempest.Python.Text

/-!
# Normalize — the rules that rewrite texts before they are compared (`compare/normalize.py`)

A pattern is the function that gives the length of its match at the front of a text.  The three
patterns never match the empty text, and none of them has a choice that a later failure would
revise, so the greedy length is the length `re` finds.
-/

namespace Tempest

open Python

/-- The length of a match at the front of a text. -/
abbrev Pattern := PyStr → Option Nat

/-- `pattern.sub(replacement, text)`; `skip` characters still belong to the last match. -/
def subFrom (pattern : Pattern) (replacement : PyStr) : Nat → PyStr → PyStr
  | _, [] => []
  | skip + 1, _ :: text => subFrom pattern replacement skip text
  | 0, c :: text =>
    match pattern (c :: text) with
    | some (n + 1) => replacement ++ subFrom pattern replacement n text
    | _ => c :: subFrom pattern replacement 0 text

def sub (pattern : Pattern) (replacement text : PyStr) : PyStr :=
  subFrom pattern replacement 0 text

/-! ## Character classes -/

/-- `\s` on text. -/
def isSpace (c : CodePoint) : Bool :=
  (0x09 ≤ c.val && c.val ≤ 0x0D) || (0x1C ≤ c.val && c.val ≤ 0x20) ||
    (0x2000 ≤ c.val && c.val ≤ 0x200A) ||
    [0x85, 0xA0, 0x1680, 0x2028, 0x2029, 0x202F, 0x205F, 0x3000].contains c.val

def decimalZeros : List Nat :=
  [0x30, 0x660, 0x6F0, 0x7C0, 0x966, 0x9E6, 0xA66, 0xAE6, 0xB66, 0xBE6, 0xC66, 0xCE6, 0xD66, 0xDE6,
    0xE50, 0xED0, 0xF20, 0x1040, 0x1090, 0x17E0, 0x1810, 0x1946, 0x19D0, 0x1A80, 0x1A90, 0x1B50,
    0x1BB0, 0x1C40, 0x1C50, 0xA620, 0xA8D0, 0xA900, 0xA9D0, 0xA9F0, 0xAA50, 0xABF0, 0xFF10, 0x104A0,
    0x10D30, 0x11066, 0x110F0, 0x11136, 0x111D0, 0x112F0, 0x11450, 0x114D0, 0x11650, 0x116C0,
    0x11730, 0x118E0, 0x11950, 0x11C50, 0x11D50, 0x11DA0, 0x11F50, 0x16A60, 0x16AC0, 0x16B50,
    0x1D7CE, 0x1D7D8, 0x1D7E2, 0x1D7EC, 0x1D7F6, 0x1E140, 0x1E2F0, 0x1E4F0, 0x1E950, 0x1FBF0]

/-- `\d` on text. -/
def isDecimal (c : CodePoint) : Bool :=
  decimalZeros.any fun first => first ≤ c.val && c.val < first + 10

def isHexDigit (c : CodePoint) : Bool :=
  (0x30 ≤ c.val && c.val ≤ 0x39) || (0x41 ≤ c.val && c.val ≤ 0x46) ||
    (0x61 ≤ c.val && c.val ≤ 0x66)

def isChar (n : Nat) (c : CodePoint) : Bool := c.val == n

/-! ## Patterns -/

/-- A literal followed by at least `least` characters of a class. -/
def literalRun (literal : PyStr) (p : CodePoint → Bool) (least : Nat) : Pattern := fun text =>
  let run := ((text.drop literal.length).takeWhile p).length
  if literal.isPrefixOf text && least ≤ run then some (literal.length + run) else none

def layout : List (CodePoint → Bool) → PyStr → Bool
  | [], _ => true
  | _ :: _, [] => false
  | p :: ps, c :: text => p c && layout ps text

/-- `0x[0-9a-fA-F]{4,}`. -/
def addressPattern : Pattern := literalRun (lit "0x") isHexDigit 4

/-- `/var/folders/\S+|/tmp/\S+`. -/
def tempDirPattern : Pattern := fun text =>
  literalRun (lit "/var/folders/") (fun c => !isSpace c) 1 text <|>
    literalRun (lit "/tmp/") (fun c => !isSpace c) 1 text

/-- `(?:/private)?(?:/var/folders/\S+|/tmp/\S+)`. -/
def tempPathPattern : Pattern := fun text =>
  let optional := lit "/private"
  if optional.isPrefixOf text then
    (tempDirPattern (text.drop optional.length)).map (optional.length + ·)
  else tempDirPattern text

/-- `\d{4}-\d{2}-\d{2}[T ]\d{2}:\d{2}:\d{2}`. -/
def dateTimeLayout : List (CodePoint → Bool) :=
  let d := isDecimal
  let dash := isChar 0x2D
  let colon := isChar 0x3A
  [d, d, d, d, dash, d, d, dash, d, d, fun c => isChar 0x54 c || isChar 0x20 c,
    d, d, colon, d, d, colon, d, d]

/-- `(?:Z|[+-]\d{2}:?\d{2})?`. -/
def zoneLength (text : PyStr) : Nat :=
  let d := isDecimal
  let sign := fun c => isChar 0x2B c || isChar 0x2D c
  if layout [isChar 0x5A] text then 1
  else if layout [sign, d, d, isChar 0x3A, d, d] text then 6
  else if layout [sign, d, d, d, d] text then 5
  else 0

def timestampPattern : Pattern := fun text =>
  if layout dateTimeLayout text then
    let rest := text.drop dateTimeLayout.length
    let fraction := (literalRun (lit ".") isDecimal 1 rest).getD 0
    some (dateTimeLayout.length + fraction + zoneLength (rest.drop fraction))
  else none

/-! ## The ruleset -/

structure Rule where
  name : PyStr
  pattern : Pattern
  replacement : PyStr

def rules : List Rule :=
  [⟨lit "memory-address", addressPattern, lit "0xADDR"⟩,
    ⟨lit "temp-path", tempPathPattern, lit "<TMPPATH>"⟩,
    ⟨lit "iso-timestamp", timestampPattern, lit "<TIMESTAMP>"⟩]

def normalizeMessage (text : PyStr) : PyStr :=
  rules.foldl (fun text rule => sub rule.pattern rule.replacement text) text

example : normalizeMessage (lit "<Foo object at 0x7f3a2b> in /private/tmp/ab12 x") =
    lit "<Foo object at 0xADDR> in <TMPPATH> x" := by decide

example : normalizeMessage (lit "took 3 s at 2024-01-31T12:00:59.25+01:00.") =
    lit "took 3 s at <TIMESTAMP>." := by decide

end Tempest
