import Tempest.Python.Float

/-!
# Repr — strings as source text

`reprStr` is `repr` of a `str`: a literal that Python reads back as the same string.  `jsonStr` is
`json.dumps` of a `str`, which is also a JavaScript literal.  Which characters beyond ASCII are
printable is the interpreter's Unicode table, a parameter here.
-/

namespace Tempest
namespace Python

def quoteMark : CodePoint := codePoint 0x27

/-- `repr` takes double quotes only around a string with single quotes and no double ones. -/
def reprMark (s : PyStr) : CodePoint := if quoteMark ∈ s ∧ dquote ∉ s then dquote else quoteMark

def reprChar (printable : CodePoint → Bool) (mark c : CodePoint) : PyStr :=
  if c = mark ∨ c = backslash then [backslash, c]
  else if c.val = 0x09 then [backslash, codePoint 0x74]
  else if c.val = 0x0A then [backslash, codePoint 0x6E]
  else if c.val = 0x0D then [backslash, codePoint 0x72]
  else if 0x20 ≤ c.val ∧ c.val < 0x7F then [c]
  else if 0x7F < c.val ∧ printable c then [c]
  else if c.val < 0x100 then backslash :: codePoint 0x78 :: hexFixed 2 c.val
  else if c.val < 0x10000 then backslash :: codePoint 0x75 :: hexFixed 4 c.val
  else backslash :: codePoint 0x55 :: hexFixed 8 c.val

def reprStr (printable : CodePoint → Bool) (s : PyStr) : PyStr :=
  reprMark s :: s.flatMap (reprChar printable (reprMark s)) ++ [reprMark s]

/-- `repr` of a list of strings. -/
def reprStrs (printable : CodePoint → Bool) (items : List PyStr) : PyStr :=
  lit "[" ++ join (lit ", ") (items.map (reprStr printable)) ++ lit "]"

def jsonUnit (u : CodeUnit) : PyStr :=
  match escapeTail (codePoint u.val) with
  | some tail => backslash :: tail
  | none =>
    if 0x20 ≤ u.val ∧ u.val < 0x7F then [codePoint u.val]
    else backslash :: codePoint 0x75 :: hexFixed 4 u.val

/-- `json.dumps` of a `str`, in ASCII. -/
def jsonStr (s : PyStr) : PyStr := dquote :: (utf16 s).flatMap jsonUnit ++ [dquote]

end Python
end Tempest
