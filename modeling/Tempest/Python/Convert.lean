import Tempest.Python.Loads

/-!
# Convert — `str`, `int` and the truth of what `loads` reads
-/

namespace Tempest
namespace Python

/-- Why `int` raises. -/
inductive IntError where
  /-- `TypeError`: the value is no number and no string. -/
  | kind
  /-- `ValueError`: a text that is no integer, or `nan`. -/
  | value
  /-- `OverflowError`: an infinity. -/
  | overflow
  deriving DecidableEq

/-- `int(x)` of a float. -/
def PyFloat.trunc (x : PyFloat) : Except IntError Int :=
  match x with
  | .nan _ _ => .error .value
  | .inf _ => .error .overflow
  | .finite neg expo frac =>
    match (HexFloat.finite neg expo frac).toRat? with
    | some q => .ok (if 0 ≤ q then ⌊q⌋ else ⌈q⌉)
    | none => .error .value

section Convert

variable (interp : Interpreter)

/-- `str(value)`. -/
def JsonValue.text : JsonValue → PyStr
  | .str s => s
  | v => interp.strOf v

/-- `int(value)`. -/
def JsonValue.toInt : JsonValue → Except IntError Int
  | .int n => .ok n
  | .bool b => .ok (if b then 1 else 0)
  | .float x => x.trunc
  | .str s =>
    match interp.intOfText s with
    | some n => .ok n
    | none => .error .value
  | _ => .error .kind

end Convert

/-- `bool(value)`. -/
def JsonValue.truthy : JsonValue → Bool
  | .null => false
  | .bool b => b
  | .int n => n ≠ 0
  | .float x => !x.hexval.isZero
  | .str s => s ≠ []
  | .arr items => !items.isEmpty
  | .obj fields => !fields.isEmpty

/-- An interpreter for documents without floats and conversions. -/
def bareInterpreter : Interpreter where
  depth := 900
  roomy := by decide
  floatOf _ := .finite false 0 0
  strOf _ := []
  intOfText _ := none

end Python
end Tempest
