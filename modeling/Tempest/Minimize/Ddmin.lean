import Tempest.Prove.Record
import Tempest.Search.Greedy

/-!
# Ddmin — shrinking the input of a divergence (`minimize/ddmin.py`, `prove._minimize`)

`minimizeInput` is the greedy search over the arguments and keyword arguments of an input; what it
needs of Python (`repr`, the parser of literals, `==`, halving and rounding of floats) comes in as
`Builtins`.
-/

namespace Tempest

open Python

structure Builtins where
  repr : PyVal → PyStr
  /-- `parse_input_literal`. -/
  parse : PyStr → Option PyVal
  /-- `==`. -/
  eq : PyVal → PyVal → Bool
  halve : PyFloat → PyFloat
  /-- `float(round(x))`. -/
  rounded : PyFloat → PyFloat

namespace Builtins

variable (b : Builtins)

/-! ## Smaller values -/

def arrow : PyStr := lit "→"

/-- `f"{old}→{new}"`. -/
def arrowNote (old new : PyStr) : PyStr := old ++ arrow ++ new

/-- `f"kind[{n}]→what"`. -/
def sizeNote (kind : PyStr) (n : Nat) (what : PyStr) : PyStr :=
  kind ++ lit "[" ++ natText n ++ lit "]" ++ arrow ++ what

abbrev Smaller := PyVal × PyStr

def shrinkInt (n : Int) : List Smaller :=
  let cand := fun m : Int => ((.int m, arrowNote (intText n) (intText m)) : Smaller)
  if n = 0 then []
  else
    let half := if 0 < n then n / 2 else -(-n / 2)
    let step := if 0 < n then n - 1 else n + 1
    cand 0 :: ((if half = 0 ∨ half = n then [] else [cand half]) ++ [cand step])

def isZero : PyFloat → Bool
  | .finite _ expo frac => expo = 0 && frac = 0
  | _ => false

def isFinite : PyFloat → Bool
  | .finite _ _ _ => true
  | _ => false

def zeroFloat : PyFloat := .finite false 0 0

def shrinkFloat (x : PyFloat) : List Smaller :=
  let cand := fun y : PyFloat =>
    ((.float y, arrowNote (b.repr (.float x)) (b.repr (.float y))) : Smaller)
  if isZero x then []
  else
    cand zeroFloat :: cand (b.halve x) ::
      (if isFinite x && b.rounded x ≠ x then [cand (b.rounded x)] else [])

def shrinkStr (s : PyStr) : List Smaller :=
  let n := s.length
  let cand := fun (t what : PyStr) => ((.str t, sizeNote (lit "str") n what) : Smaller)
  let simple := List.replicate n (codePoint 0x61)
  if n = 0 then []
  else
    cand [] (lit "''") ::
      ((if 1 < n then
          [cand (s.take (n / 2)) (lit "first half"), cand (s.drop (n / 2)) (lit "second half"),
            cand s.dropLast (lit "drop last"), cand (s.drop 1) (lit "drop first")]
        else []) ++
        if simple = s then [] else [cand simple (lit "'a'*" ++ natText n)])

def shrinkBytes (data : Bytes) : List Smaller :=
  let n := data.length
  let cand := fun (d : Bytes) (what : PyStr) =>
    ((.bytes d, sizeNote (lit "bytes") n what) : Smaller)
  if n = 0 then []
  else
    cand [] (lit "b''") ::
      if 1 < n then
        [cand (data.take (n / 2)) (lit "first half"), cand data.dropLast (lit "drop last")]
      else []

/-- A `list` or a `tuple`; `inner` shrinks an item one level deeper. -/
def shrinkSeq (wrap : List PyVal → PyVal) (items : List PyVal) (inner : PyVal → List Smaller) :
    List Smaller :=
  let n := items.length
  let cand := fun (xs : List PyVal) (what : PyStr) =>
    ((wrap xs, sizeNote (lit "seq") n what) : Smaller)
  if n = 0 then []
  else
    cand [] (lit "empty") ::
      ((if 1 < n then
          cand (items.take (n / 2)) (lit "first half") ::
            cand (items.drop (n / 2)) (lit "second half") ::
              (List.range (min n 8)).map fun i =>
                cand (items.eraseIdx i) (lit "drop [" ++ natText i ++ lit "]")
        else []) ++
        (items.zipIdx.take 4).flatMap fun p =>
          (inner p.1).map fun smaller =>
            ((wrap (items.set p.2 smaller.1),
              lit "[" ++ natText p.2 ++ lit "]." ++ smaller.2) : Smaller))

/-- The items of a dict with their positions, sorted by the `repr` of their keys. -/
def sortedItems (items : List (PyVal × PyVal)) : List ((PyVal × PyVal) × Nat) :=
  items.zipIdx.insertionSort fun p q => b.repr p.1.1 ≤ b.repr q.1.1

/-- `{k: v for k, v in items if k != key}`. -/
def dropKey (items : List (PyVal × PyVal)) (key : PyVal) : List (PyVal × PyVal) :=
  items.filter fun p => !b.eq p.1 key

def shrinkDict (items : List (PyVal × PyVal)) (inner : PyVal → List Smaller) : List Smaller :=
  let keys := b.sortedItems items
  if keys = [] then []
  else
    ((.dict [], sizeNote (lit "dict") keys.length (lit "empty")) : Smaller) ::
      ((keys.take 8).map (fun p =>
          ((.dict (b.dropKey items p.1.1), lit "dict→drop " ++ b.repr p.1.1) : Smaller)) ++
        (keys.take 4).flatMap fun p =>
          (inner p.1.2).map fun smaller =>
            ((.dict (items.set p.2 (p.1.1, smaller.1)),
              lit "[" ++ b.repr p.1.1 ++ lit "]." ++ smaller.2) : Smaller))

/-- A `set` or a `frozenset`. -/
def shrinkSet (wrap : List PyVal → PyVal) (elements : List PyVal) : List Smaller :=
  let items := elements.insertionSort fun x y => b.repr x ≤ b.repr y
  if items = [] then []
  else
    ((wrap [], sizeNote (lit "set") items.length (lit "empty")) : Smaller) ::
      (items.take 8).map fun item =>
        ((wrap (items.filter fun x => !b.eq x item), lit "set→drop " ++ b.repr item) : Smaller)

/-- `_shrink_value`, with the levels it may still go down. -/
def shrinkValue : Nat → PyVal → List Smaller
  | 0, _ => []
  | _ + 1, .bool true => [(.bool false, lit "True→False")]
  | _ + 1, .int n => shrinkInt n
  | _ + 1, .float x => b.shrinkFloat x
  | _ + 1, .str s => shrinkStr s
  | _ + 1, .bytes data => shrinkBytes data
  | depth + 1, .list items => shrinkSeq .list items (shrinkValue depth)
  | depth + 1, .tuple items => shrinkSeq .tuple items (shrinkValue depth)
  | depth + 1, .dict items => b.shrinkDict items (shrinkValue depth)
  | _ + 1, .set items => b.shrinkSet .set items
  | _ + 1, .frozenset items => b.shrinkSet .frozenset items
  | _ + 1, _ => []

/-- `depth > 4` ends the descent. -/
def shrinkLevels : Nat := 5

/-! ## Inputs -/

structure Point where
  args : List PyVal
  kwargs : List (PyVal × PyVal)
  path : List PyStr

def literals (p : Point) : Literals := (b.repr (.tuple p.args), b.repr (.dict p.kwargs))

def candidates (p : Point) : List Point :=
  p.args.zipIdx.flatMap (fun arg =>
      (b.shrinkValue shrinkLevels arg.1).map fun smaller =>
        (⟨p.args.set arg.2 smaller.1, p.kwargs,
          p.path ++ [lit "args[" ++ natText arg.2 ++ lit "]: " ++ smaller.2]⟩ : Point)) ++
    (b.sortedItems p.kwargs).flatMap fun item =>
      (⟨p.args, b.dropKey p.kwargs item.1.1,
          p.path ++ [lit "dropped kwarg " ++ b.repr item.1.1]⟩ : Point) ::
        (b.shrinkValue shrinkLevels item.1.2).map fun smaller =>
          (⟨p.args, p.kwargs.set item.2 (item.1.1, smaller.1),
            p.path ++ [lit "kwargs[" ++ b.repr item.1.1 ++ lit "]: " ++ smaller.2]⟩ : Point)

/-- The arguments and keyword arguments a worker unpacks from two literals. -/
def unpack (l : Literals) : Option (List PyVal × List (PyVal × PyVal)) :=
  match b.parse l.1, b.parse l.2 with
  | some (.tuple args), some (.dict kwargs) => some (args, kwargs)
  | some (.list args), some (.dict kwargs) => some (args, kwargs)
  | _, _ => none

/-! ## The search -/

structure MinimizedInput where
  argsLiteral : PyStr
  kwargsLiteral : PyStr
  shrinkPath : List PyStr
  attemptsUsed : Nat

def sameLiterals (p q : Point) : Bool := b.literals q = b.literals p

def diverges (rerun : Literals → Option Diverged) (c : DivergenceClass) (p : Point) : Bool :=
  (rerun (b.literals p)).map Diverged.divergenceClass = some c

def minimizeInput (rerun : Literals → Option Diverged) (l : Literals) (maxAttempts : Nat) :
    Option MinimizedInput :=
  match rerun l with
  | none => none
  | some d =>
    match b.unpack l with
    -- a literal that does not decode fails alike on both sides and does not diverge
    | none => none
    | some (args, kwargs) =>
      let last := Greedy.descend b.candidates b.sameLiterals (b.diverges rerun d.divergenceClass)
        maxAttempts maxAttempts ⟨args, kwargs, []⟩ 1
      some
        { argsLiteral := (b.literals last.1).1
          kwargsLiteral := (b.literals last.1).2
          shrinkPath := last.1.path
          attemptsUsed := last.2 }

/-- `_minimize`, given what a rerun of the worker pair shows. -/
def minimize (rerun : Literals → Option Diverged) (maxAttempts : Nat) (d : FoundDivergence) :
    Minimized :=
  match b.minimizeInput rerun (d.argsLiteral, d.kwargsLiteral) maxAttempts with
  | none => ⟨d.argsLiteral, d.kwargsLiteral, []⟩
  | some m => ⟨m.argsLiteral, m.kwargsLiteral, m.shrinkPath⟩

end Builtins

end Tempest
