import Tempest.Python.Float

/-!
# Value — the Python objects a target hands back

`PyVal` is a returned object as `canonicalize` can see it: the built-in values, and for everything
else which of its branches applies (a rejected type, a structural fingerprint, nothing to
fingerprint).  Attribute access runs code of the target, so an object may also be `hostile`: the
access raises.

`PyExc` is an exception object.  The harness asks it for its text, and each such question runs
target code too; an `Asked` answer that is an error says with which status the worker process ends
when nothing catches what was raised.
-/

namespace Tempest
namespace Python

/-- The answer to a question put to a foreign object: a value, or the exit status of a process
that lets the raised exception through. -/
abbrev Asked (α : Type) := Except Int α

structure PyExc where
  /-- `type(exc).__name__`. -/
  typeName : PyStr
  /-- `type(exc).__module__` as JSON text reads it back; `none` if it is no JSON value. -/
  module : Option PyStr
  /-- `isinstance(exc, Exception)`. -/
  isException : Bool
  /-- `str(exc)`. -/
  str : Asked PyStr
  /-- `repr(exc)`. -/
  repr : Asked PyStr
  /-- `getattr(exc, "reason", None)` where that is a string. -/
  reason : Asked (Option PyStr)
  /-- The status of a process this exception ends. -/
  exit : Int

inductive PyVal where
  | none
  | bool (b : Bool)
  | int (n : Int)
  | float (x : PyFloat)
  | str (s : PyStr)
  | bytes (data : Bytes)
  | list (items : List PyVal)
  | tuple (items : List PyVal)
  | set (items : List PyVal)
  | frozenset (items : List PyVal)
  | dict (items : List (PyVal × PyVal))
  /-- A function, module, generator, class, …: one of `_REJECTED_TYPES`. -/
  | rejected (typeName : PyStr)
  /-- A dataclass, an object with a `__dict__` or with `__slots__`: its qualified type and its
  attributes, in the order of their names. -/
  | object (typeName : PyStr) (attrs : List (PyStr × PyVal))
  | bare (typeName : PyStr)
  /-- An object whose attributes raise when they are read. -/
  | hostile (error : PyExc)
  /-- A container met again inside itself. -/
  | cycle

mutual

/-- The number of containers around the deepest value. -/
def PyVal.height : PyVal → Nat
  | .list items => heightItems items
  | .tuple items => heightItems items
  | .set items => heightItems items
  | .frozenset items => heightItems items
  | .dict items => heightPairs items
  | .object _ attrs => heightAttrs attrs
  | _ => 0

def heightItems : List PyVal → Nat
  | [] => 0
  | item :: items => max (item.height + 1) (heightItems items)

def heightPairs : List (PyVal × PyVal) → Nat
  | [] => 0
  | (key, value) :: items => max (max (key.height + 1) (value.height + 1)) (heightPairs items)

def heightAttrs : List (PyStr × PyVal) → Nat
  | [] => 0
  | (_, value) :: attrs => max (value.height + 1) (heightAttrs attrs)

end

mutual

def PyVal.plain : PyVal → Bool
  | .none | .bool _ | .int _ | .float _ | .str _ | .bytes _ => true
  | .list items => plainItems items
  | .tuple items => plainItems items
  | .set items => plainItems items
  | .frozenset items => plainItems items
  | .dict items => plainPairs items
  | _ => false

def plainItems : List PyVal → Bool
  | [] => true
  | item :: items => item.plain && plainItems items

def plainPairs : List (PyVal × PyVal) → Bool
  | [] => true
  | (key, value) :: items => key.plain && value.plain && plainPairs items

end

theorem plainItems_iff {items : List PyVal} :
    plainItems items = true ↔ ∀ v ∈ items, v.plain = true := by
  induction items with
  | nil => simp [plainItems]
  | cons v items ih => simp [plainItems, ih]

theorem plainPairs_iff {items : List (PyVal × PyVal)} :
    plainPairs items = true ↔ ∀ p ∈ items, p.1.plain = true ∧ p.2.plain = true := by
  induction items with
  | nil => simp [plainPairs]
  | cons p items ih => simp [plainPairs, ih]

end Python
end Tempest
