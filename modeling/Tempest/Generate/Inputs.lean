import Tempest.Execute.Dual
import Tempest.Generate.Strategies

/-!
# Inputs — what a target is called with (`generate/inputs.py`, `generate/mutate.py`)

`generateInputs` goes round the pools of the parameters and keeps every literal once; `mutateInput` edits
one argument of an input that has reached a changed line.  Both draw from a seeded generator, which is a
state here.
-/

namespace Tempest
namespace Inputs

open Python Strategies

/-! ## Signatures -/

inductive ParamKind where
  | positionalOnly
  | positionalOrKeyword
  | varPositional
  | keywordOnly
  | varKeyword
  deriving DecidableEq

/-- `ParamInfo`: a default that is no literal is not told. -/
structure ParamInfo where
  name : PyStr
  kind : ParamKind
  annotation : Option PyStr
  defaultLiteral : Option PyStr
  deriving DecidableEq

/-- `_POSITIONAL_KINDS`. -/
def ParamInfo.positional (p : ParamInfo) : Bool :=
  p.kind = .positionalOnly || p.kind = .positionalOrKeyword

def ParamInfo.keywordOnly (p : ParamInfo) : Bool := p.kind = .keywordOnly

/-- `inspect.Parameter`, with the `repr` of its default. -/
structure Parameter where
  name : PyStr
  kind : ParamKind
  annotation : Option PyStr
  default : Option PyStr
  deriving DecidableEq

structure Signature where
  params : List Parameter
  nodup_names : (params.map Parameter.name).Nodup

/-! ## What Python does -/

/-- What is asked of Python beyond the pools: the parser of annotations (`none` for what it refuses),
the examples of Hypothesis, the parsers of literals, a seeded generator, and arithmetic and case of
scalars.

The laws are about values built from literals: what has a literal is one of them, and so is what a
literal is read as; a tuple keeps its length in its literal, and a `dict` of distinct strings its
keys. -/
structure Interpreter (σ : Type) extends PoolBuiltins where
  annotation : PyStr → Annotation
  examples : Annotation → List PyVal
  isLiteral : PyStr → Bool
  parse : PyStr → Option PyVal
  seeded : Int → σ
  random : σ → ℚ × σ
  randrange : Nat → σ → Nat × σ
  plusOne : PyFloat → PyFloat
  halve : PyFloat → PyFloat
  negate : PyFloat → PyFloat
  tenfold : PyFloat → PyFloat
  upper : PyStr → PyStr
  swapcase : PyStr → PyStr
  literal_plain : ∀ v, literalOk v → v.plain
  repr_keys : ∀ (keys keys' : List PyStr) (items items' : List (PyVal × PyVal)),
    items.map Prod.fst = keys.map PyVal.str → items'.map Prod.fst = keys'.map PyVal.str →
    plainPairs items → plainPairs items' → repr (.dict items) = repr (.dict items') → keys = keys'
  parse_tuple : ∀ items v, plainItems items → parse (repr (.tuple items)) = some v →
    ∃ items', v = .tuple items' ∧ items'.length = items.length ∧ plainItems items'
  parse_dict : ∀ (keys : List PyStr) (items : List (PyVal × PyVal)) (v : PyVal), keys.Nodup →
    items.map Prod.fst = keys.map PyVal.str →
    plainPairs items → parse (repr (.dict items)) = some v →
      ∃ items', v = .dict items' ∧ items'.map Prod.fst = keys.map PyVal.str ∧ plainPairs items'

variable {σ : Type} (p : Interpreter σ)

namespace Interpreter

/-- `_default_literal` and the rest of the introspection. -/
def paramInfo (q : Parameter) : ParamInfo where
  name := q.name
  kind := q.kind
  annotation := q.annotation
  defaultLiteral := q.default.filter p.isLiteral

def literals (args : List PyVal) (kwargs : List (PyVal × PyVal)) : Literals :=
  (p.repr (.tuple args), p.repr (.dict kwargs))

/-! ## Generation -/

def annotationOf (q : ParamInfo) : Annotation :=
  match q.annotation with
  | none => .none
  | some text => if text = [] then .none else p.annotation text

/-- `values_for` of the annotation of a parameter. -/
def poolOf (mined : List PyVal) (seed : Int) (q : ParamInfo) : Option (List PyVal) :=
  valuesFor p.toPoolBuiltins (p.examples (p.annotationOf q)) (p.annotationOf q) seed mined

/-- The pools of the positional parameters from the `i`-th on. -/
def poolsFrom (mined : List PyVal) (seed : Int) : Nat → List ParamInfo → Option (List (List PyVal))
  | _, [] => some []
  | i, q :: qs =>
    (p.poolOf mined (seed * 1000 + i) q).bind fun pool =>
      (poolsFrom mined seed (i + 1) qs).map (pool :: ·)

/-- `pool[k % len(pool)]`, and `None` of an empty pool. -/
def pick (pool : List PyVal) (k : Nat) : PyVal := (pool[k % pool.length]?).getD .none

def pickArgs (round : Nat) : List (List PyVal) → σ → List PyVal × σ
  | [], s => ([], s)
  | [] :: pools, s =>
    let rest := pickArgs round pools s
    (.none :: rest.1, rest.2)
  | pool :: pools, s =>
    let offset := p.randrange 3 s
    let rest := pickArgs round pools offset.2
    (pick pool (round + offset.1) :: rest.1, rest.2)

/-- `param.default_literal is None or rng.random() < 0.5`. -/
def supplies (q : ParamInfo) (s : σ) : Bool × σ :=
  if q.defaultLiteral = none then (true, s)
  else
    let drawn := p.random s
    (drawn.1 < 1 / 2, drawn.2)

/-- The keyword-only parameters from the `j`-th on: one with a default is left out half the time, one
without values always. -/
def pickKwargs (mined : List PyVal) (seed : Int) (round : Nat) :
    Nat → List ParamInfo → σ → Option (List (PyVal × PyVal) × σ)
  | _, [], s => some ([], s)
  | j, q :: qs, s =>
    let coin := p.supplies q s
    if coin.1 then
      (p.poolOf mined (seed * 7000 + j) q).bind fun pool =>
        (pickKwargs mined seed round (j + 1) qs coin.2).map fun rest =>
          (if pool = [] then rest.1 else (.str q.name, pick pool round) :: rest.1, rest.2)
    else pickKwargs mined seed round (j + 1) qs coin.2

def generateRounds (mined : List PyVal) (budget : Budget) (arityOptions : List Nat)
    (pools : List (List PyVal)) (keywordOnly : List ParamInfo) :
    List Nat → List Literals → σ → Option (List Literals)
  | [], found, _ => some found
  | round :: rounds, found, s =>
    if budget.maxInputs ≤ found.length then some found
    else
      let arity := (arityOptions[round % arityOptions.length]?).getD 0
      let args := p.pickArgs round (pools.take arity) s
      (p.pickKwargs mined budget.seed round 0 keywordOnly args.2).bind fun kwargs =>
        let key := p.literals args.1 kwargs.1
        generateRounds mined budget arityOptions pools keywordOnly rounds
          (if key ∈ found then found else found ++ [key]) kwargs.2

/-- `sorted({required_count, len(positional)})`. -/
def arityOptions (positional : List ParamInfo) : List Nat :=
  let required := positional.countP fun q => q.defaultLiteral = none
  if required = positional.length then [required] else [required, positional.length]

/-- `generate_inputs`; `none` where a pool raises. -/
def generateInputs (introspection : List ParamInfo) (mined : List PyVal) (budget : Budget) :
    Option (List Literals) :=
  let positional := introspection.filter ParamInfo.positional
  let keywordOnly := introspection.filter ParamInfo.keywordOnly
  (p.poolsFrom mined budget.seed 0 positional).bind fun pools =>
    let depth := (pools.map List.length).max?.getD 1
    (p.generateRounds mined budget (arityOptions positional) pools keywordOnly (List.range (depth * 2))
      [] (p.seeded budget.seed)).map (List.take budget.maxInputs)

/-! ## Mutation -/

def choice {α : Type} (options : List α) (default : α) (s : σ) : α × σ :=
  let drawn := p.randrange options.length s
  ((options[drawn.1]?).getD default, drawn.2)

def floatZero : PyFloat := .finite false 0 0

def isZero : PyFloat → Bool
  | .finite _ expo frac => expo = 0 && frac = 0
  | _ => false

def mutateInt (n : Int) : List Int := [n + 1, n - 1, n * 2, -n, 0, if n = 0 then 1 else n]

def mutateFloat (x : PyFloat) : List PyFloat :=
  [p.plusOne x, if isZero x then floatOne else p.halve x, p.negate x, floatZero, p.tenfold x]

def mutateStr (text : PyStr) : List PyStr :=
  let choices := [[], text ++ lit "a", text.dropLast, p.upper text, text ++ text, p.swapcase text].filter
    fun c => c ≠ text
  if choices = [] then [text ++ lit "x"] else choices

def mutateBytes (data : Bytes) : List Bytes := [[], data ++ [0], data.dropLast]

def third : ℚ := 5944751508129055 / 2 ^ 54

def twoThirds : ℚ := 5944751508129055 / 2 ^ 53

def fourFifths : ℚ := 3602879701896397 / 2 ^ 52

/-- The branch of lists; `inner` mutates an item one level deeper. -/
def mutateItems (inner : PyVal → σ → PyVal × σ) (items : List PyVal) (s : σ) : List PyVal × σ :=
  if items = [] then ([.int 0], s)
  else
    let op := p.random s
    if op.1 < third then
      let drawn := p.randrange items.length op.2
      (items.eraseIdx drawn.1, drawn.2)
    else if op.1 < twoThirds then
      let drawn := p.choice items .none op.2
      (items ++ [drawn.1], drawn.2)
    else
      let drawn := p.randrange items.length op.2
      let item := inner ((items[drawn.1]?).getD .none) drawn.2
      (items.set drawn.1 item.1, item.2)

/-- The items of a `dict` with their positions, sorted by a text of their keys. -/
def sortedBy (key : PyVal → PyStr) (items : List (PyVal × PyVal)) : List ((PyVal × PyVal) × Nat) :=
  items.zipIdx.insertionSort fun a b => key a.1.1 ≤ key b.1.1

def mutatePairs (inner : PyVal → σ → PyVal × σ) (items : List (PyVal × PyVal)) (s : σ) :
    List (PyVal × PyVal) × σ :=
  if items = [] then ([(.str (lit "k"), .int 0)], s)
  else
    let drawn := p.choice (sortedBy p.repr items) ((.none, .none), items.length) s
    let op := p.random drawn.2
    if op.1 < 1 / 2 then (items.eraseIdx drawn.1.2, op.2)
    else
      let value := inner drawn.1.1.2 op.2
      (items.set drawn.1.2 (drawn.1.1.1, value.1), value.2)

/-- `{v for v in value if rng.random() < 0.8}`. -/
def keepSome : List PyVal → σ → List PyVal × σ
  | [], s => ([], s)
  | v :: vs, s =>
    let drawn := p.random s
    let rest := keepSome vs drawn.2
    (if drawn.1 < fourFifths then v :: rest.1 else rest.1, rest.2)

/-- `_mutate_value`, with the levels it may still go down; a tuple is mutated as a list one level
deeper. -/
def mutateValue : Nat → PyVal → σ → PyVal × σ
  | 0, v, s => (v, s)
  | depth + 1, v, s =>
    match v with
    | .bool a => (.bool (!a), s)
    | .int n =>
      let drawn := p.choice (mutateInt n) n s
      (.int drawn.1, drawn.2)
    | .float x =>
      let drawn := p.choice (p.mutateFloat x) x s
      (.float drawn.1, drawn.2)
    | .str text =>
      let drawn := p.choice (p.mutateStr text) text s
      (.str drawn.1, drawn.2)
    | .bytes data =>
      let drawn := p.choice (mutateBytes data) data s
      (.bytes drawn.1, drawn.2)
    | .list items =>
      let made := p.mutateItems (mutateValue depth) items s
      (.list made.1, made.2)
    | .tuple items =>
      match depth with
      | 0 => (.tuple items, s)
      | deeper + 1 =>
        let made := p.mutateItems (mutateValue deeper) items s
        (.tuple made.1, made.2)
    | .dict items =>
      let made := p.mutatePairs (mutateValue depth) items s
      (.dict made.1, made.2)
    | .set items =>
      let kept := p.keepSome items s
      (.set (if kept.1 = [] then [.int 0] else kept.1), kept.2)
    | v => (v, s)

/-- `depth > 4` ends the descent. -/
def mutateLevels : Nat := 5

/-- The key that `sorted(kwargs)` goes by. -/
def keyText : PyVal → PyStr
  | .str text => text
  | _ => []

/-- `args and (not kwargs or rng.random() < 0.8)`. -/
def editsArgs (args : List PyVal) (kwargs : List (PyVal × PyVal)) (s : σ) : Bool × σ :=
  if args = [] then (false, s)
  else if kwargs = [] then (true, s)
  else
    let drawn := p.random s
    (drawn.1 < fourFifths, drawn.2)

def mutateArguments (args : List PyVal) (kwargs : List (PyVal × PyVal)) (s : σ) :
    List PyVal × List (PyVal × PyVal) :=
  let coin := p.editsArgs args kwargs s
  if coin.1 then
    let drawn := p.randrange args.length coin.2
    (args.set drawn.1 (p.mutateValue mutateLevels ((args[drawn.1]?).getD .none) drawn.2).1, kwargs)
  else if kwargs = [] then (args, kwargs)
  else
    let drawn := p.choice (sortedBy keyText kwargs) ((.none, .none), kwargs.length) coin.2
    (args, kwargs.set drawn.1.2 (drawn.1.1.1, (p.mutateValue mutateLevels drawn.1.1.2 drawn.2).1))

/-- `mutate_input`; the literal of an input is that of a tuple and of a `dict`. -/
def mutateInput (l : Literals) (seed : Int) : Literals :=
  match p.parse l.1, p.parse l.2 with
  | some (.tuple args), some (.dict kwargs) =>
    let made := p.mutateArguments args kwargs (p.seeded seed)
    p.literals made.1 made.2
  | _, _ => l

end Interpreter

end Inputs
end Tempest
