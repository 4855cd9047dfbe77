import Tempest.Python.Dict
import Tempest.Python.Repr

/-!
# Loads — `json.loads` of a string

The reader is a machine over the characters: a stack of the arrays and objects that are open, and
what comes next (`Mode`).  It accepts what Python accepts, `NaN` and the infinities among it, raises
at a nesting beyond the recursion limit and at an integer with too many digits, and keeps the last
value of a key that comes twice.
-/

namespace Tempest
namespace Python

/-! ## Values -/

inductive JsonValue where
  | null
  | bool (b : Bool)
  | int (n : Int)
  | float (x : PyFloat)
  | str (s : PyStr)
  | arr (items : List JsonValue)
  | obj (fields : List (PyStr × JsonValue))

/-- What the interpreter brings to the reader and to the conversions of what is read. -/
structure Interpreter where
  depth : Nat
  /-- An array in an object is within the limit. -/
  roomy : 2 ≤ depth
  /-- `float` of a number with a fraction or an exponent. -/
  floatOf : PyStr → PyFloat
  /-- `str` of a value that is no string. -/
  strOf : JsonValue → PyStr
  /-- `int` of a string. -/
  intOfText : PyStr → Option Int

inductive LoadsError where
  /-- `JSONDecodeError`, a `ValueError`. -/
  | malformed
  /-- The `ValueError` of an integer with too many digits. -/
  | tooLong
  /-- `RecursionError`. -/
  | tooDeep
  deriving DecidableEq

/-! ## Scalars -/

def isDigit (c : CodePoint) : Bool := 0x30 ≤ c.val && c.val ≤ 0x39

def digitsValue (digits : PyStr) : Nat :=
  digits.foldl (fun n c => 10 * n + (c.val - 0x30)) 0

/-- `0|[1-9]\d*`. -/
def isWholePart (s : PyStr) : Bool :=
  s.all isDigit && match s with
    | [] => false
    | [_] => true
    | c :: _ => c.val ≠ 0x30

/-- `[eE][-+]?\d+`, or nothing. -/
def isExponent : PyStr → Bool
  | [] => true
  | e :: s =>
    let digits := match s with
      | sign :: rest => if sign.val = 0x2B ∨ sign.val = 0x2D then rest else s
      | [] => []
    (e.val = 0x65 || e.val = 0x45) && digits ≠ [] && digits.all isDigit

/-- `(\.\d+)?([eE][-+]?\d+)?` -/
def isFractionExponent : PyStr → Bool
  | [] => true
  | c :: s =>
    if c.val = 0x2E then
      let (digits, rest) := s.span isDigit
      digits ≠ [] && isExponent rest
    else isExponent (c :: s)

def numberOf (interp : Interpreter) (neg : Bool) (raw text : PyStr) : Except LoadsError JsonValue :=
  let (whole, rest) := text.span isDigit
  if !isWholePart whole then .error .malformed
  else if rest = [] then
    if maxStrDigits < whole.length then .error .tooLong
    else .ok (.int (if neg then -(digitsValue whole : Int) else digitsValue whole))
  else if isFractionExponent rest then .ok (.float (interp.floatOf raw))
  else .error .malformed

/-- A run of characters that is no string and holds no delimiter. -/
def scalarOf (interp : Interpreter) (raw : PyStr) : Except LoadsError JsonValue :=
  if raw = lit "null" then .ok .null
  else if raw = lit "true" then .ok (.bool true)
  else if raw = lit "false" then .ok (.bool false)
  else if raw = lit "NaN" then .ok (.float (.nan false ⟨2 ^ 51 - 1, by decide⟩))
  else if raw = lit "Infinity" then .ok (.float (.inf false))
  else if raw = lit "-Infinity" then .ok (.float (.inf true))
  else match raw with
    | [] => .error .malformed
    | c :: text => if c.val = 0x2D then numberOf interp true raw text else numberOf interp false raw raw

/-! ## Strings -/

def hexDigitOf (c : CodePoint) : Option Nat :=
  if isDigit c then some (c.val - 0x30)
  else if 0x61 ≤ c.val ∧ c.val ≤ 0x66 then some (c.val - 0x61 + 10)
  else if 0x41 ≤ c.val ∧ c.val ≤ 0x46 then some (c.val - 0x41 + 10)
  else none

/-- The character behind a backslash, other than `u`. -/
def unescapeOne (c : CodePoint) : Option CodePoint :=
  if c = dquote ∨ c = backslash ∨ c.val = 0x2F then some c
  else if c.val = 0x62 then some (codePoint 0x08)
  else if c.val = 0x66 then some (codePoint 0x0C)
  else if c.val = 0x6E then some (codePoint 0x0A)
  else if c.val = 0x72 then some (codePoint 0x0D)
  else if c.val = 0x74 then some (codePoint 0x09)
  else none

/-- `\uXXXX`. -/
def unescapeUnicode (a b c d : CodePoint) : Option CodePoint := do
  let a ← hexDigitOf a
  let b ← hexDigitOf b
  let c ← hexDigitOf c
  let d ← hexDigitOf d
  return codePoint (((a * 16 + b) * 16 + c) * 16 + d)

/-- The characters of a string, each with whether it was written as `\uXXXX`. -/
def stringUnits : PyStr → Option (List (CodePoint × Bool))
  | [] => some []
  | [c] => if c = backslash ∨ c.val < 0x20 then none else some [(c, false)]
  | c :: d :: s =>
    if c = backslash then
      if d.val = 0x75 then
        match s with
        | h₁ :: h₂ :: h₃ :: h₄ :: s => do
          let u ← unescapeUnicode h₁ h₂ h₃ h₄
          return (u, true) :: (← stringUnits s)
        | _ => none
      else do
        let u ← unescapeOne d
        return (u, false) :: (← stringUnits s)
    else if c.val < 0x20 then none
    else do return (c, false) :: (← stringUnits (d :: s))

def joinUnits : List (CodePoint × Bool) → PyStr
  | [] => []
  | [(c, _)] => [c]
  | (c, escaped) :: (d, escaped') :: units =>
    if escaped && escaped' && isHighSurrogate c && isLowSurrogate d then
      codePoint (0x10000 + (c.val - 0xD800) * 0x400 + (d.val - 0xDC00)) :: joinUnits units
    else c :: joinUnits ((d, escaped') :: units)

/-- The string whose characters between the quotes are these. -/
def unescape (raw : PyStr) : Option PyStr := (stringUnits raw).map joinUnits

/-! ## The machine -/

inductive Frame where
  | arr (items : List JsonValue)
  /-- The fields so far, and the key whose value comes next. -/
  | obj (fields : List (PyStr × JsonValue)) (key : PyStr)

inductive Mode where
  | value
  | firstItem
  | firstKey
  | nextKey
  | colon
  | after (value : JsonValue)
  | str (forKey : Bool) (raw : PyStr) (escaped : Bool)
  /-- Inside a number or a name: its characters, the last one first. -/
  | scalar (raw : PyStr)

structure Machine where
  stack : List Frame
  mode : Mode

def isJsonSpace (c : CodePoint) : Bool := c.val = 0x20 || c.val = 0x09 || c.val = 0x0A || c.val = 0x0D

def openArr : CodePoint := codePoint 0x5B

def openObj : CodePoint := codePoint 0x7B

def colonChar : CodePoint := codePoint 0x3A

/-- A character that ends a number or a name. -/
def isDelimiter (c : CodePoint) : Bool :=
  isJsonSpace c || c = comma || c = colonChar || c = openArr || c = closeArr || c = openObj ||
    c = closeObj || c = dquote

section Machine

variable (interp : Interpreter)

def beginValue (stack : List Frame) (c : CodePoint) : Except LoadsError Machine :=
  if c = dquote then .ok ⟨stack, .str false [] false⟩
  else if c = openArr then
    if interp.depth ≤ stack.length then .error .tooDeep else .ok ⟨.arr [] :: stack, .firstItem⟩
  else if c = openObj then
    if interp.depth ≤ stack.length then .error .tooDeep else .ok ⟨.obj [] [] :: stack, .firstKey⟩
  else if isDelimiter c then .error .malformed
  else .ok ⟨stack, .scalar [c]⟩

def endValue (stack : List Frame) (v : JsonValue) (c : CodePoint) : Except LoadsError Machine :=
  match stack with
  | [] => .error .malformed
  | .arr items :: stack =>
    if c = comma then .ok ⟨.arr (v :: items) :: stack, .value⟩
    else if c = closeArr then .ok ⟨stack, .after (.arr (v :: items).reverse)⟩
    else .error .malformed
  | .obj fields key :: stack =>
    if c = comma then .ok ⟨.obj (Dict.assign key v fields) [] :: stack, .nextKey⟩
    else if c = closeObj then .ok ⟨stack, .after (.obj (Dict.assign key v fields))⟩
    else .error .malformed

def endString (stack : List Frame) (forKey : Bool) (raw : PyStr) : Except LoadsError Machine :=
  match unescape raw.reverse with
  | none => .error .malformed
  | some s =>
    if forKey then
      match stack with
      | .obj fields _ :: stack => .ok ⟨.obj fields s :: stack, .colon⟩
      | _ => .error .malformed
    else .ok ⟨stack, .after (.str s)⟩

def Machine.step (m : Machine) (c : CodePoint) : Except LoadsError Machine :=
  match m.mode with
  | .str forKey raw escaped =>
    if escaped then .ok ⟨m.stack, .str forKey (c :: raw) false⟩
    else if c = dquote then endString m.stack forKey raw
    else .ok ⟨m.stack, .str forKey (c :: raw) (c = backslash)⟩
  | .scalar raw =>
    if isDelimiter c then do
      let v ← scalarOf interp raw.reverse
      if isJsonSpace c then return ⟨m.stack, .after v⟩ else endValue m.stack v c
    else .ok ⟨m.stack, .scalar (c :: raw)⟩
  | mode =>
    if isJsonSpace c then .ok m
    else
      match mode with
      | .value => beginValue interp m.stack c
      | .firstItem =>
        match m.stack with
        | .arr _ :: stack =>
          if c = closeArr then .ok ⟨stack, .after (.arr [])⟩ else beginValue interp m.stack c
        | _ => .error .malformed
      | .firstKey =>
        match m.stack with
        | .obj _ _ :: stack =>
          if c = closeObj then .ok ⟨stack, .after (.obj [])⟩
          else if c = dquote then .ok ⟨m.stack, .str true [] false⟩
          else .error .malformed
        | _ => .error .malformed
      | .nextKey => if c = dquote then .ok ⟨m.stack, .str true [] false⟩ else .error .malformed
      | .colon => if c = colonChar then .ok ⟨m.stack, .value⟩ else .error .malformed
      | .after v => endValue m.stack v c
      | _ => .error .malformed

def Machine.run (m : Machine) (s : PyStr) : Except LoadsError Machine := s.foldlM (Machine.step interp) m

def Machine.finish (m : Machine) : Except LoadsError JsonValue :=
  match m.stack, m.mode with
  | [], .after v => .ok v
  | [], .scalar raw => scalarOf interp raw.reverse
  | _, _ => .error .malformed

def loads (s : PyStr) : Except LoadsError JsonValue := do
  (← Machine.run interp ⟨[], .value⟩ s).finish interp

end Machine

end Python
end Tempest
