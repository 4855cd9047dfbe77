import Tempest.Compare.Compare
import Tempest.Execute.TsValue

/-!
# Untagged — the comparison of documents a TypeScript worker sent (`compare/compare.py`)

`_values_equal` knows the tags of the Python encoder; every other document is compared with `==`,
and to Python `True == 1`.  An observation comes as one line of text, which is lost when a string in
it holds a character at which `splitlines` breaks and `JSON.stringify` does not escape.
-/

namespace Tempest
namespace Ts

open Python

/-! ## `==` -/

/-- A number for `==`: a `bool` is one as well. -/
inductive Numeric where
  | finite (q : ℚ)
  | inf (neg : Bool)
  deriving DecidableEq

def numeric : JsonValue → Option Numeric
  | .bool b => some (.finite (if b then 1 else 0))
  | .int n => some (.finite n)
  | .float (.inf neg) => some (.inf neg)
  | .float (.finite neg expo frac) => some (.finite (finiteValue neg expo frac))
  | _ => none

def scalarEq (a b : JsonValue) : Bool :=
  match numeric a, numeric b with
  | some x, some y => x = y
  | _, _ => false

mutual

/-- `a == b`. -/
@[grind =]
def pyEq : JsonValue → JsonValue → Bool
  | .null, .null => true
  | .str s, .str t => s = t
  | .arr xs, .arr ys => itemsEq xs ys
  | .obj xs, .obj ys => xs.length = ys.length && fieldsIn xs ys
  | a, b => scalarEq a b

def itemsEq : List JsonValue → List JsonValue → Bool
  | [], [] => true
  | x :: xs, y :: ys => pyEq x y && itemsEq xs ys
  | _, _ => false

def fieldsIn : List (PyStr × JsonValue) → List (PyStr × JsonValue) → Bool
  | [], _ => true
  | (key, x) :: xs, ys =>
    (match Dict.find key ys with
      | some y => pyEq x y
      | none => false) && fieldsIn xs ys

end

/-! ## `_values_equal` -/

inductive PyError where
  | keyError
  | typeError
  | valueError
  deriving DecidableEq

/-- `str` of a document, and `float.fromhex`. -/
structure TextReader where
  strOf : JsonValue → PyStr
  fromHex : PyStr → Option HexFloat

def getTag (fields : List (PyStr × JsonValue)) : JsonValue :=
  (Dict.find (lit "__t") fields).getD .null

inductive TagKind where
  | float
  | sequence
  | dict
  | obj
  | bytes
  deriving DecidableEq

def tagKind : JsonValue → Option TagKind
  | .str s =>
    if s = lit "float" then some .float
    else if s ∈ [lit "list", lit "tuple", lit "set", lit "frozenset"] then some .sequence
    else if s = lit "dict" then some .dict
    else if s = lit "obj" then some .obj
    else if s = lit "bytes" then some .bytes
    else none
  | _ => none

def content (fields : List (PyStr × JsonValue)) : Except PyError JsonValue :=
  match Dict.find (lit "v") fields with
  | some v => .ok v
  | none => .error .keyError

/-- `list(value)`. -/
def listOf : JsonValue → Except PyError (List JsonValue)
  | .arr items => .ok items
  | .str s => .ok (s.map fun c => .str [c])
  | .obj fields => .ok (fields.map fun f => .str f.1)
  | _ => .error .typeError

section Tagged

variable (reader : TextReader) (cfg : CompareConfig)

def hexFloat (text : PyStr) : Except PyError HexFloat :=
  if text = lit "nan" then .ok .nan
  else
    match reader.fromHex text with
    | some x => .ok x
    | none => .error .valueError

/-- `_floats_equal`, on the texts. -/
def floatTextsEqual (a b : PyStr) : Except PyError (Bool × Bool) :=
  if a = b then .ok (true, false)
  else do
    let x ← hexFloat reader a
    let y ← hexFloat reader b
    if x.isNan && y.isNan then return (true, false)
    else if x.isNan || y.isNan then return (false, false)
    else if x.isZero && y.isZero then
      return if cfg.floatRelTol.isSome then (true, false) else (false, true)
    else
      match cfg.floatRelTol with
      | some tol => return (isclose x y tol, false)
      | none => return (false, false)

/-- `_values_equal`; the recursion goes through the content of tagged dicts only, and `fuel` bounds
its depth. -/
@[grind =]
def valuesEqual : Nat → JsonValue → JsonValue → Except PyError (Bool × Bool)
  | 0, _, _ => .ok (false, false)
  | fuel + 1, .obj xs, .obj ys =>
    if !pyEq (getTag xs) (getTag ys) then .ok (false, false)
    else
      match tagKind (getTag xs) with
      | none => .ok (pyEq (.obj xs) (.obj ys), false)
      | some .float => do
        let x ← content xs
        let y ← content ys
        floatTextsEqual reader cfg (reader.strOf x) (reader.strOf y)
      | some .bytes => do
        let x ← content xs
        let y ← content ys
        return (pyEq x y, false)
      | some .sequence => do
        let us ← content xs >>= listOf
        let vs ← content ys >>= listOf
        if us.length ≠ vs.length then return (false, false)
        else sequenceLoop (valuesEqual fuel) us vs true true
      | some .dict => do
        let us ← content xs >>= listOf
        let vs ← content ys >>= listOf
        if us.length ≠ vs.length then return (false, false)
        else pairLoop (valuesEqual fuel) us vs true true
      | some .obj =>
        if !pyEq ((Dict.find (lit "type") xs).getD .null)
            ((Dict.find (lit "type") ys).getD .null) then .ok (false, false)
        else do
          let us ← content xs >>= listOf
          let vs ← content ys >>= listOf
          if us.length ≠ vs.length then return (false, false)
          else pairLoop (valuesEqual fuel) us vs true true
  | _, .obj _, _ => .ok (false, false)
  | _, _, .obj _ => .ok (false, false)
  | _, .bool a, .bool b => .ok (a == b, false)
  | _, .bool _, _ => .ok (false, false)
  | _, _, .bool _ => .ok (false, false)
  | _, a, b => .ok (pyEq a b && sameType a b, false)
where
  /-- `type(a) is type(b)`. -/
  sameType : JsonValue → JsonValue → Bool
    | .null, .null => true
    | .bool _, .bool _ => true
    | .int _, .int _ => true
    | .float _, .float _ => true
    | .str _, .str _ => true
    | .arr _, .arr _ => true
    | .obj _, .obj _ => true
    | _, _ => false
  sequenceLoop (equal? : JsonValue → JsonValue → Except PyError (Bool × Bool)) :
      List JsonValue → List JsonValue → Bool → Bool → Except PyError (Bool × Bool)
    | x :: xs, y :: ys, equal, signOnly => do
      let child ← equal? x y
      sequenceLoop equal? xs ys (equal && child.1) (signOnly && (child.1 || child.2))
    | _, _, equal, signOnly => .ok (loopResult equal signOnly)
  pairLoop (equal? : JsonValue → JsonValue → Except PyError (Bool × Bool)) :
      List JsonValue → List JsonValue → Bool → Bool → Except PyError (Bool × Bool)
    | .arr [key, x] :: xs, .arr [key', y] :: ys, equal, signOnly => do
      let keys ← equal? key key'
      if !keys.1 then return (false, false)
      else do
        let child ← equal? x y
        pairLoop equal? xs ys (equal && child.1) (signOnly && (child.1 || child.2))
    | x :: _, y :: _, _, _ => .ok (pyEq x y, false)
    | _, _, equal, signOnly => .ok (loopResult equal signOnly)

end Tagged

mutual

def nesting : JsonValue → Nat
  | .arr items => nestingItems items + 1
  | .obj fields => nestingFields fields + 1
  | _ => 0

def nestingItems : List JsonValue → Nat
  | [] => 0
  | item :: items => max (nesting item) (nestingItems items)

def nestingFields : List (PyStr × JsonValue) → Nat
  | [] => 0
  | (_, value) :: fields => max (nesting value) (nestingFields fields)

end

/-! ## From the worker to the answer -/

/-- A break of `splitlines` that `JSON.stringify` leaves as it is. -/
def isBreak (c : CodePoint) : Bool := c.val == 0x85 || c.val == 0x2028 || c.val == 0x2029

def oneLineText (s : PyStr) : Bool := s.all fun c => !isBreak c

mutual

@[grind =]
def oneLine : JsonValue → Bool
  | .str s => oneLineText s
  | .arr items => oneLineItems items
  | .obj fields => oneLineFields fields
  | _ => true

def oneLineItems : List JsonValue → Bool
  | [] => true
  | item :: items => oneLine item && oneLineItems items

def oneLineFields : List (PyStr × JsonValue) → Bool
  | [] => true
  | (key, value) :: fields => oneLineText key && oneLine value && oneLineFields fields

end

structure TsObservation where
  returnPresent : Bool
  returnCanon : JsonValue
  unrepresentable : Option PyStr
  stdout : PyStr
  stderr : PyStr

/-- The line of an input whose target returned `value`, and `_observation` of it; `none` if the line
is lost. -/
def observe (collation : Collation) (value : JsVal) (stdout stderr : PyStr) :
    Option TsObservation :=
  if oneLineText stdout && oneLineText stderr then
    match canonicalize collation 0 value with
    | .ok doc => if oneLine doc then some ⟨true, doc, none, stdout, stderr⟩ else none
    | .error reason =>
      some ⟨false, .null, if reason = [] then none else some reason, stdout, stderr⟩
  else none

section Compared

variable (reader : TextReader) (cfg : CompareConfig)

/-- `compare`, of two observations without an exception. -/
def compareObserved (base head : TsObservation) : Except PyError CompareResult :=
  match base.unrepresentable, head.unrepresentable with
  | some reason, _ => .ok (notEncoded (lit "base") reason)
  | none, some reason => .ok (notEncoded (lit "head") reason)
  | none, none => do
    let values ← if base.returnPresent && head.returnPresent then
        valuesEqual reader cfg (nesting base.returnCanon + 1) base.returnCanon head.returnCanon
      else .ok (true, false)
    if !values.1 then return .diverged (returnsDiffer values.2)
    else if normalizeMessage base.stdout ≠ normalizeMessage head.stdout then
      return .diverged ⟨.outputStream, .normal, [.text (lit "stdout differs")], none⟩
    else if normalizeMessage base.stderr ≠ normalizeMessage head.stderr then
      return .diverged ⟨.outputStream, .normal, [.text (lit "stderr differs")], none⟩
    else return .equal

/-- What comes of two values: a result, an exception of `compare`, or a target given up because an
observation is missing. -/
inductive Answer where
  | compared (result : CompareResult)
  | raised (error : PyError)
  | missing

def answer (collation : Collation) (stdout stderr : PyStr) (u v : JsVal) : Answer :=
  match observe collation u stdout stderr, observe collation v stdout stderr with
  | some base, some head =>
    match compareObserved reader cfg base head with
    | .ok result => .compared result
    | .error error => .raised error
  | _, _ => .missing

end Compared

end Ts
end Tempest
