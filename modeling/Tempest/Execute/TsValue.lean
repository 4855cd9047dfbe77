import Tempest.Python.Doubles
import Tempest.Python.Loads

/-!
# TsValue — what a TypeScript target returns, and how it is written (`execute/ts_worker.mjs`)

`canonicalize` turns a JavaScript value into a JSON document: what JSON cannot say becomes an object
with a `__tempest__` key, and what lies deeper than `MAX_DEPTH` becomes one constant.  The documents
are those that `json.loads` gives on the other side.
-/

namespace Tempest
namespace Ts

open Python

/-! ## JavaScript values -/

abbrev JsStr := List CodeUnit

def js (text : String) : JsStr := utf16 (lit text)

/-- What `toISOString` prints; no two dates share it. -/
structure IsoText where
  text : PyStr
  ascii : ∀ c ∈ text, c.val < 0x80

/-- A returned value, its maps and sets in the order of insertion and its objects with their own
enumerable properties.  An invalid date has no text. -/
inductive JsVal where
  | null
  | undefined
  | bool (b : Bool)
  | num (x : HexFloat)
  | str (s : JsStr)
  | bigint (n : Int)
  | arr (items : List JsVal)
  | map (entries : List (JsVal × JsVal))
  | set (items : List JsVal)
  | date (iso : Option IsoText)
  | obj (fields : List (JsStr × JsVal))

/-- Reading code units as characters loses nothing. -/
theorem utf16_ofUtf16 : ∀ us : List CodeUnit, utf16 (ofUtf16 us) = us
  | [] => rfl
  | [u] => by
    have hu := u.isLt
    have hval : (codePoint u.val).val = u.val := codePoint_of_unit u
    have hlt : (codePoint u.val).val < 0x10000 := by omega
    simp only [ofUtf16, utf16, List.flatMap_cons, List.flatMap_nil, List.append_nil, utf16Char, hval]
    simp [codeUnit]
  | u :: v :: rest => by
    have hu := u.isLt
    have hv := v.isLt
    rw [ofUtf16]
    split_ifs with hpair
    · rw [utf16_cons, utf16_ofUtf16 rest, utf16Char]
      simp only [Bool.and_eq_true, highUnit, lowUnit, decide_eq_true_eq] at hpair
      have hval : (codePoint (0x10000 + (u.val - 0xD800) * 0x400 + (v.val - 0xDC00))).val =
          0x10000 + (u.val - 0xD800) * 0x400 + (v.val - 0xDC00) := by
        simp only [codePoint, Fin.val_ofNat]
        omega
      have hge : ¬ (codePoint (0x10000 + (u.val - 0xD800) * 0x400 + (v.val - 0xDC00))).val <
          0x10000 := by omega
      have hhigh : codeUnit (0xD800 +
          (0x10000 + (u.val - 0xD800) * 0x400 + (v.val - 0xDC00) - 0x10000) / 0x400) = u := by
        apply Fin.ext
        simp only [codeUnit, Fin.val_ofNat]
        omega
      have hlow : codeUnit (0xDC00 +
          (0x10000 + (u.val - 0xD800) * 0x400 + (v.val - 0xDC00) - 0x10000) % 0x400) = v := by
        apply Fin.ext
        simp only [codeUnit, Fin.val_ofNat]
        omega
      rw [if_neg hge, hval, hhigh, hlow]
      rfl
    · rw [utf16_cons, utf16_ofUtf16 (v :: rest), utf16Char]
      have hval : (codePoint u.val).val = u.val := codePoint_of_unit u
      have hlt : (codePoint u.val).val < 0x10000 := by omega
      rw [if_pos hlt, hval]
      simp [codeUnit]

theorem ofUtf16_injective {s t : JsStr} (h : ofUtf16 s = ofUtf16 t) : s = t := by
  rw [← utf16_ofUtf16 s, ← utf16_ofUtf16 t, h]

/-! ## Numbers -/

/-- The two multiples of `p` around `v`, the nearer one first; between two as near, the even one. -/
def around (v p : Nat) : List Nat :=
  let low := v / p * p
  let high := low + p
  if v - low < high - v ∨ v - low = high - v ∧ v / p % 2 = 0 then [low, high] else [high, low]

/-- The digits of `Number::toString` for an integral number: as few as are read back as the number,
filled up with zeros. -/
def printedInteger (v : Nat) : Nat :=
  let candidates := (List.range 22).reverse.flatMap fun i => around v (10 ^ i)
  (candidates.find? fun n : Nat => roundMagnitude n = some (v : ℚ)).getD v

/-- A finite number after `JSON.stringify` and `json.loads`: an `int` if it is printed without a
point and an exponent. -/
def numberDocument (neg : Bool) (expo : Fin 2047) (frac : Fin (2 ^ 52)) : JsonValue :=
  let q := finiteValue neg expo frac
  if q.den = 1 ∧ |q| < 10 ^ 21 then
    .int (if neg then -(printedInteger q.num.natAbs : Int) else printedInteger q.num.natAbs)
  else .float (.finite neg expo frac)

/-! ## `canonicalize` -/

def maxDepth : Nat := 8

def maxItems : Nat := 256

def tempestKey : PyStr := lit "__tempest__"

def marker (name : PyStr) : JsonValue := .obj [(tempestKey, .str name)]

def tagged (name : PyStr) (content : JsonValue) : JsonValue :=
  .obj [(tempestKey, .str name), (lit "v", content)]

/-- The check at the head of `canonicalize`. -/
def atDepth (depth : Nat) (doc : Except PyStr JsonValue) : Except PyStr JsonValue :=
  if maxDepth < depth then .ok (marker (lit "depth-capped")) else doc

def canonicalNumber : HexFloat → JsonValue
  | .nan => marker (lit "nan")
  | .inf false => marker (lit "inf")
  | .inf true => marker (lit "-inf")
  | .finite neg expo frac =>
    if neg = true ∧ units expo frac = 0 then marker (lit "negzero")
    else numberDocument neg expo frac

def protoKey : JsStr := js "__proto__"

/-- `JSON.stringify(a).localeCompare(JSON.stringify(b)) <= 0`, in the locale of the process. -/
structure Collation where
  le : JsonValue → JsonValue → Bool
  total : ∀ a b, le a b = true ∨ le b a = true
  trans : ∀ a b c, le a b = true → le b c = true → le a c = true

def Collation.sort (collation : Collation) (items : List JsonValue) : List JsonValue :=
  items.insertionSort fun a b => collation.le a b = true

def Collation.sortEntries (collation : Collation) (entries : List (JsonValue × JsonValue)) :
    List (JsonValue × JsonValue) :=
  entries.insertionSort fun a b => collation.le a.1 b.1 = true

/-- The loop over the sorted keys: the first one whose value throws ends it. -/
def inOrder : List (JsStr × Except PyStr JsonValue) → Except PyStr (List (JsStr × JsonValue))
  | [] => .ok []
  | (key, doc) :: fields => do
    let value ← doc
    let values ← inOrder fields
    return (key, value) :: values

/-- `Object.keys(value).sort()`. -/
def sortKeys {α : Type} (fields : List (JsStr × α)) : List (JsStr × α) :=
  fields.insertionSort fun a b => a.1 ≤ b.1

/-- What `out` has of its own: an assignment to `__proto__` makes no property. -/
def ownFields (fields : List (JsStr × JsonValue)) : List (PyStr × JsonValue) :=
  (fields.filter fun f => f.1 ≠ protoKey).map fun f => (ofUtf16 f.1, f.2)

variable (collation : Collation)

mutual

def canonicalize (depth : Nat) : JsVal → Except PyStr JsonValue
  | .null => atDepth depth (.ok .null)
  | .undefined => atDepth depth (.ok (marker (lit "undefined")))
  | .num x => atDepth depth (.ok (canonicalNumber x))
  | .str s => atDepth depth (.ok (.str (ofUtf16 s)))
  | .bool b => atDepth depth (.ok (.bool b))
  | .bigint n => atDepth depth (.ok (tagged (lit "bigint") (.str (intText n))))
  | .arr items => atDepth depth
      (if maxItems < items.length then .error (lit "array of " ++ natText items.length)
      else do return .arr (← canonicalizeItems (depth + 1) items))
  | .date (some iso) => atDepth depth (.ok (tagged (lit "date") (.str iso.text)))
  | .date none => atDepth depth (.error (lit "Invalid time value"))
  | .map entries => atDepth depth do
      let docs ← canonicalizeEntries (depth + 1) entries
      return tagged (lit "map") (.arr ((collation.sortEntries docs).map fun e => .arr [e.1, e.2]))
  | .set items => atDepth depth do
      let docs ← canonicalizeItems (depth + 1) items
      return tagged (lit "set") (.arr (collation.sort docs))
  | .obj fields => atDepth depth
      (if maxItems < fields.length then
        .error (lit "object of " ++ natText fields.length ++ lit " keys")
      else do return .obj (ownFields (← inOrder (sortKeys (canonicalizeFields (depth + 1) fields)))))

def canonicalizeItems (depth : Nat) : List JsVal → Except PyStr (List JsonValue)
  | [] => .ok []
  | item :: items => do
    let doc ← canonicalize depth item
    let docs ← canonicalizeItems depth items
    return doc :: docs

def canonicalizeEntries (depth : Nat) :
    List (JsVal × JsVal) → Except PyStr (List (JsonValue × JsonValue))
  | [] => .ok []
  | (key, value) :: entries => do
    let k ← canonicalize depth key
    let v ← canonicalize depth value
    let docs ← canonicalizeEntries depth entries
    return (k, v) :: docs

def canonicalizeFields (depth : Nat) :
    List (JsStr × JsVal) → List (JsStr × Except PyStr JsonValue)
  | [] => []
  | (key, value) :: fields => (key, canonicalize depth value) :: canonicalizeFields depth fields

end

end Ts
end Tempest
