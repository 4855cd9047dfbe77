import Tempest.Python.Value

/-!
# Strategies — the values a parameter is tried with (`generate/strategies.py`)

A pool starts with the edge cases of the annotation, goes on with examples of Hypothesis and ends with
what was mined from the repository as far as it belongs to the type.  What has no literal or has been
seen is left out, the rest is shuffled, and the first eighty are kept, boundary values first.
-/

namespace Tempest
namespace Strategies

open Python

/-! ## Annotations -/

inductive Cls where
  | int
  | str
  | float
  | bool
  | bytes
  | list
  | dict
  | tuple
  | set
  | frozenset
  | noneType
  | object
  deriving DecidableEq

inductive Origin where
  | list
  | dict
  | tuple
  | set
  | frozenset
  deriving DecidableEq

/-- What an annotation evaluates to: `None` itself, `...`, a class, `list[int]` and the like, a union
written with `|`, one of `typing`, or `typing.Optional` alone.  `Any` is `object` in the namespace. -/
inductive Annotation where
  | none
  | ellipsis
  | cls (c : Cls)
  | generic (origin : Origin) (args : List Annotation)
  | union (args : List Annotation)
  | typingUnion (args : List Annotation)
  | optional

namespace Annotation

def isNoneType : Annotation → Bool
  | cls .noneType => true
  | _ => false

def isEllipsis : Annotation → Bool
  | ellipsis => true
  | _ => false

/-- `str(annotation)` starts with `typing.Optional`: a union of two, one of them `None`. -/
def isOptional (args : List Annotation) : Bool := args.length = 2 && args.any isNoneType

/-- `not args or (len(args) == 2 and args[1] is Ellipsis)`. -/
def isVariadic : List Annotation → Bool
  | [] => true
  | [_, second] => second.isEllipsis
  | _ => false

end Annotation

/-! ## What Python and Hypothesis do -/

/-- Floats of one value; no NaN equals anything. -/
def floatEq : PyFloat → PyFloat → Bool
  | .finite neg expo frac, .finite neg' expo' frac' =>
    expo = expo' && frac = frac' && (neg = neg' || expo = 0 && frac = 0)
  | .inf neg, .inf neg' => neg = neg'
  | _, _ => false

/-- `==` of two scalars of one class. -/
def scalarEq : PyVal → PyVal → Option Bool
  | .int m, .int n => some (m = n)
  | .bool a, .bool b => some (a = b)
  | .str s, .str t => some (s = t)
  | .bytes c, .bytes d => some (c = d)
  | .float x, .float y => some (floatEq x y)
  | _, _ => none

/-- What the pools ask of Python: `repr`, `==`, whether `parse_input_literal` gives a value back from
its `repr` (`_literal_ok`), and the shuffle of a seeded generator. -/
structure PoolBuiltins where
  repr : PyVal → PyStr
  eq : PyVal → PyVal → Bool
  literalOk : PyVal → Bool
  shuffle : Int → List PyVal → List PyVal
  repr_nan : ∀ neg payload, repr (.float (.nan neg payload)) = lit "nan"
  eq_scalar : ∀ v w r, scalarEq v w = some r → eq v w = r
  shuffle_perm : ∀ seed values, (shuffle seed values).Perm values

def isBool : PyVal → Bool
  | .bool _ => true
  | _ => false

/-- `isinstance`; a `bool` is an `int`. -/
def isInstance : PyVal → Cls → Bool
  | _, .object => true
  | .none, .noneType => true
  | .bool _, .bool => true
  | .bool _, .int => true
  | .int _, .int => true
  | .float _, .float => true
  | .str _, .str => true
  | .bytes _, .bytes => true
  | .list _, .list => true
  | .tuple _, .tuple => true
  | .set _, .set => true
  | .frozenset _, .frozenset => true
  | .dict _, .dict => true
  | _, _ => false

mutual

/-- `hash(value)` does not raise. -/
def hashable : PyVal → Bool
  | .list _ | .set _ | .dict _ => false
  | .tuple items => hashableItems items
  | _ => true

def hashableItems : List PyVal → Bool
  | [] => true
  | item :: items => hashable item && hashableItems items

end

/-! ## Edge cases -/

def floatOne : PyFloat := .finite false 1023 0

/-- `_EDGE_CASES[float]`. -/
def floatEdges : List PyFloat :=
  [.finite false 0 0, .finite true 0 0, floatOne, .finite true 1023 2251799813685248,
    .finite false 1022 0, .finite false 993 332103651088021, .finite false 2019 2221273467876764,
    .finite true 2019 2221273467876764, .inf false, .inf true, .nan false ⟨2251799813685247, by decide⟩]

/-- `_EDGE_CASES`, nothing for a class it does not have. -/
def edgeCases : Cls → List PyVal
  | .int =>
    ([0, 1, -1, 2, 7, -13, 255, 256, -256, 10 ^ 6, 2 ^ 31 - 1, -(2 ^ 31), 2 ^ 63] : List Int).map .int
  | .float => floatEdges.map .float
  | .str =>
    ["", "a", "abc", " ", "0", "None", "hello world", "ünïcode-✓", "line\nbreak", "'quoted'"].map
      fun s => .str (lit s)
  | .bool => [.bool true, .bool false]
  | .bytes => ([[], [0], [0x61, 0x62, 0x63], [0xFF, 0xFE]] : List Bytes).map .bytes
  | .list | .dict | .tuple | .set | .frozenset | .noneType | .object => []

variable (b : PoolBuiltins)

/-- `{element[0]} if element else set()`, which raises a `TypeError` on what cannot be hashed. -/
def singleton : List PyVal → Option (List PyVal)
  | [] => some []
  | first :: _ => if hashable first then some [first] else none

/-- One assignment `d[key] = value`: an equal key keeps its place and its object. -/
def assign (key value : PyVal) : List (PyVal × PyVal) → List (PyVal × PyVal)
  | [] => [(key, value)]
  | item :: items =>
    if b.eq item.1 key then (item.1, value) :: items else item :: assign key value items

/-- `dict(zip(keys, vals, strict=False))`. -/
def dictOf (keys vals : List PyVal) : Option (List (PyVal × PyVal)) :=
  let pairs := keys.zip vals
  if pairs.all fun pair => hashable pair.1 then
    some (pairs.foldl (fun items pair => assign b pair.1 pair.2 items) [])
  else none

/-- `element`, from the edge cases of the arguments. -/
def elementOf : List (Option (List PyVal)) → Option (List PyVal)
  | [] => some [.int 0, .str (lit "a")]
  | first :: _ => first.map (List.take 4)

/-- What `_edge_cases_for` returns for each origin; `none` is a `TypeError`. -/
def originEdges (origin : Origin) (edges : List (Option (List PyVal))) (element : List PyVal) :
    Option (List PyVal) :=
  match origin with
  | .list =>
    some [.list [], .list (match element with | [] => [] | first :: _ => [first]), .list element,
      .list (element ++ element)]
  | .tuple => some [.tuple (element.take (if edges.length = 0 then 2 else edges.length))]
  | .set => (singleton element).map fun items => [.set [], .set items]
  | .frozenset => (singleton element).map fun items => [.frozenset [], .frozenset items]
  | .dict =>
    match edges with
    | [keys, vals] =>
      keys.bind fun keys => vals.bind fun vals =>
        (dictOf b (keys.take 3) (vals.take 3)).map fun items => [.dict [], .dict items]
    | _ => some []

mutual

def edgeCasesFor : Annotation → Option (List PyVal)
  | .none | .ellipsis | .optional => some []
  | .cls c => some (edgeCases c)
  | .generic origin args => (elementOf (edgesEach args)).bind (originEdges b origin (edgesEach args))
  | .union args => edgesUnion args
  -- its origin is no container, so that the edge cases of its first argument are dropped
  | .typingUnion args => edgesFirst args

def edgesEach : List Annotation → List (Option (List PyVal))
  | [] => []
  | arg :: args => edgeCasesFor arg :: edgesEach args

def edgesUnion : List Annotation → Option (List PyVal)
  | [] => some []
  | arg :: args =>
    (if arg.isNoneType then some [.none] else edgeCasesFor arg).bind fun edges =>
      (edgesUnion args).map (edges ++ ·)

def edgesFirst : List Annotation → Option (List PyVal)
  | [] => some []
  | arg :: _ => (edgeCasesFor arg).map fun _ => []

end

/-! ## Matching -/

mutual

/-- `_matches`. -/
def matchesType : Annotation → PyVal → Bool
  | .none, _ | .ellipsis, _ => true
  | .cls c, v => isInstance v c && !(c ≠ .bool && isBool v)
  | .union args, v => matchesAny args v
  | .typingUnion args, v => ! Annotation.isOptional args || matchesAny args v
  | .optional, _ => false
  | .generic .list args, .list items => items.all fun item => matchesFirst args item
  | .generic .set args, .set items => items.all fun item => matchesFirst args item
  | .generic .frozenset args, .frozenset items => items.all fun item => matchesFirst args item
  | .generic .tuple args, .tuple items =>
    if Annotation.isVariadic args then items.all fun item => matchesFirst args item
    else matchesEach args items
  | .generic .dict args, .dict items =>
    items.all fun item => args.length ≠ 2 || matchesEach args [item.1, item.2]
  | .generic _ _, _ => false

def matchesAny : List Annotation → PyVal → Bool
  | [], _ => false
  | arg :: args, v => matchesType arg v || matchesAny args v

def matchesFirst : List Annotation → PyVal → Bool
  | [], _ => true
  | arg :: _, v => matchesType arg v

def matchesEach : List Annotation → List PyVal → Bool
  | [], [] => true
  | arg :: args, v :: vs => matchesType arg v && matchesEach args vs
  | [], _ :: _ | _ :: _, [] => false

end

@[grind =]
def isEdge : Annotation → PyVal → Bool
  | .cls c, v =>
    (edgeCases c).any (b.eq v) ||
      match c, v with
      | .float, .float x => !floatEq x x || b.eq v (.float (.finite false 0 0))
      | _, _ => false
  | _, _ => false

/-! ## Pools -/

def mixedPool : List PyVal :=
  [Cls.int, .str, .float, .bool].flatMap (fun c => (edgeCases c).take 6) ++
    [.none, .list [], .dict [], .tuple [.int 1, .int 2], .list [.int 1, .int 2, .int 3],
      .dict [(.str (lit "k"), .int 1)]]

/-- The candidates before the mined ones; `examples` is what `_hypothesis_examples` collects. -/
def poolFor (examples : List PyVal) : Annotation → Option (List PyVal)
  | .none => some mixedPool
  | annotation => (edgeCasesFor b annotation).map (· ++ examples)

/-- What has a literal, each `repr` once. -/
def distinct : List PyVal → List PyStr → List PyVal
  | [], _ => []
  | v :: vs, seen =>
    if !b.literalOk v || b.repr v ∈ seen then distinct vs seen
    else v :: distinct vs (b.repr v :: seen)

def poolCap : Nat := 80

/-- `values_for`; `none` is the `TypeError` of an edge case. -/
def valuesFor (examples : List PyVal) ( annotation : Annotation) (seed : Int) (mined : List PyVal) :
    Option (List PyVal) :=
  (poolFor b examples annotation).map fun pool =>
    let filtered := b.shuffle seed (distinct b (pool ++ mined.filter (matchesType annotation)) [])
    (filtered.filter (isEdge b annotation) ++ filtered.filter fun v => !isEdge b annotation v).take
      poolCap

/-! ## Tuple types whose edge case is one of theirs -/

def edgeCount ( annotation : Annotation) : Nat := ((edgeCasesFor b annotation).map List.length).getD 0

/-- The edge cases of the first argument are as many as the arguments, of the first four, and each is of
the type at its place. -/
def TupleFits (first : Annotation) (args : List Annotation) : Prop :=
  ∀ edges, edgeCasesFor b first = some edges → args.length ≤ 4 ∧ args.length ≤ edges.length ∧
    matchesEach args (edges.take args.length)

mutual

/-- Every tuple type that the first `n` edge cases of an annotation are built with fits. -/
def Fits : Nat → Annotation → Prop
  | n, .generic .list args => 2 ≤ n → FitsFirst (if n = 2 then 1 else 4) args
  | n, .generic .set args | n, .generic .frozenset args => 2 ≤ n → FitsFirst 1 args
  | n, .generic .tuple args =>
    1 ≤ n → if Annotation.isVariadic args then FitsFirst 2 args else FitsTuple args
  | n, .generic .dict args => 2 ≤ n → FitsDict args
  | n, .union args => FitsUnion n args
  | _, .none | _, .ellipsis | _, .cls _ | _, .typingUnion _ | _, .optional => True

def FitsFirst : Nat → List Annotation → Prop
  | _, [] => True
  | n, arg :: _ => Fits n arg

def FitsTuple : List Annotation → Prop
  | [] => True
  | arg :: args => TupleFits b arg (arg :: args)

def FitsDict : List Annotation → Prop
  | [key, value] =>
    Fits (min 3 (edgeCount b value)) key ∧ Fits (min 3 (edgeCount b key)) value
  | _ => True

def FitsUnion : Nat → List Annotation → Prop
  | _, [] => True
  | n, arg :: args =>
    (arg.isNoneType ∨ Fits n arg) ∧
      FitsUnion (n - if arg.isNoneType then 1 else edgeCount b arg) args

end

variable {b}

/-! ## Edge cases of the type -/

theorem matches_edgeCases {c : Cls} {v : PyVal} (hv : v ∈ edgeCases c) : matchesType (.cls c) v := by
  have hall : (edgeCases c).all (matchesType (.cls c)) := by
    cases c <;> rfl
  exact List.all_eq_true.mp hall v hv

/-- An edge case of a `list` type has its items among the first of the argument. -/
theorem items_list {element : List PyVal} {n : Nat} {v : PyVal}
    (hv : v ∈ ([.list [], .list (match element with | [] => [] | first :: _ => [first]), .list element,
      .list (element ++ element)] : List PyVal).take n) :
    ∃ items, v = .list items ∧
      ∀ item ∈ items, 2 ≤ n ∧ item ∈ element ∧ (n = 2 → item ∈ element.take 1) := by
  match n with
  | 0 => cases hv
  | 1 =>
    rw [List.mem_singleton.mp hv]
    exact ⟨[], rfl, fun _ h => by cases h⟩
  | 2 =>
    cases hv with
    | head => exact ⟨[], rfl, fun _ h => by cases h⟩
    | tail _ hv =>
      refine ⟨_, List.mem_singleton.mp hv, ?_⟩
      intro item hitem
      cases element with
      | nil => cases hitem
      | cons first rest =>
        exact ⟨le_refl 2, List.mem_singleton.mp hitem ▸ List.mem_cons_self, fun _ => hitem⟩
  | n + 3 =>
    have hshape : ∃ items, v = .list items ∧ ∀ item ∈ items, item ∈ element := by
      have hmem := List.mem_of_mem_take hv
      simp only [List.mem_cons, List.not_mem_nil, or_false] at hmem
      obtain rfl | rfl | rfl | rfl := hmem
      · exact ⟨[], rfl, fun _ h => by cases h⟩
      · refine ⟨_, rfl, ?_⟩
        intro item hitem
        cases element with
        | nil => cases hitem
        | cons first rest => exact List.mem_singleton.mp hitem ▸ List.mem_cons_self
      · exact ⟨element, rfl, fun _ h => h⟩
      · exact ⟨_, rfl, fun _ h => (List.mem_append.mp h).elim id id⟩
    obtain ⟨items, rfl, hitems⟩ := hshape
    refine ⟨items, rfl, ?_⟩
    intro item hitem
    exact ⟨by omega, hitems item hitem, fun htwo => by omega⟩

/-- The one value of a set is the first of the argument. -/
theorem mem_singleton_edges {element items : List PyVal} {item : PyVal}
    (h : singleton element = some items) (hitem : item ∈ items) : item ∈ element.take 1 := by
  cases element with
  | nil =>
    cases h
    cases hitem
  | cons first rest =>
    simp only [singleton] at h
    split_ifs at h
    cases h
    exact hitem

theorem mem_assign {key value : PyVal} {items : List (PyVal × PyVal)} {item : PyVal × PyVal}
    (h : item ∈ assign b key value items) :
    (item.1 = key ∨ item.1 ∈ items.map Prod.fst) ∧ (item.2 = value ∨ item.2 ∈ items.map Prod.snd) := by
  induction items with
  | nil =>
    cases List.mem_singleton.mp h
    exact ⟨Or.inl rfl, Or.inl rfl⟩
  | cons head items ih =>
    simp only [assign] at h
    split_ifs at h with heq
    · cases h with
      | head => exact ⟨Or.inr List.mem_cons_self, Or.inl rfl⟩
      | tail _ h =>
        exact ⟨Or.inr (List.mem_cons_of_mem _ (List.mem_map_of_mem h)),
          Or.inr (List.mem_cons_of_mem _ (List.mem_map_of_mem h))⟩
    · cases h with
      | head => exact ⟨Or.inr List.mem_cons_self, Or.inr List.mem_cons_self⟩
      | tail _ h =>
        exact ⟨(ih h).1.imp_right (List.mem_cons_of_mem _),
          (ih h).2.imp_right (List.mem_cons_of_mem _)⟩

theorem mem_take_of_zip {keys vals : List PyVal} {pair : PyVal × PyVal} (h : pair ∈ keys.zip vals) :
    pair.1 ∈ keys.take vals.length ∧ pair.2 ∈ vals.take keys.length := by
  induction keys generalizing vals with
  | nil => cases h
  | cons key keys ih =>
    cases vals with
    | nil => cases h
    | cons value vals =>
      cases h with
      | head => exact ⟨List.mem_cons_self, List.mem_cons_self⟩
      | tail _ h => exact (ih h).imp (List.mem_cons_of_mem _) (List.mem_cons_of_mem _)

/-- The keys and the values of a `dict` are some of those it is built from. -/
theorem mem_dictOf {keys vals : List PyVal} {items : List (PyVal × PyVal)} {item : PyVal × PyVal}
    (h : dictOf b keys vals = some items) (hitem : item ∈ items) :
    item.1 ∈ keys.take vals.length ∧ item.2 ∈ vals.take keys.length := by
  simp only [dictOf] at h
  split_ifs at h
  have hfold : ∀ (pairs acc : List (PyVal × PyVal)),
      ∀ item ∈ pairs.foldl (fun items pair => assign b pair.1 pair.2 items) acc,
        (item.1 ∈ acc.map Prod.fst ∨ item.1 ∈ pairs.map Prod.fst) ∧
          (item.2 ∈ acc.map Prod.snd ∨ item.2 ∈ pairs.map Prod.snd) := by
    intro pairs
    induction pairs with
    | nil =>
      intro acc item hitem
      exact ⟨Or.inl (List.mem_map_of_mem hitem), Or.inl (List.mem_map_of_mem hitem)⟩
    | cons pair pairs ih =>
      intro acc item hitem
      have hrest := ih (assign b pair.1 pair.2 acc) item hitem
      constructor
      · cases hrest.1 with
        | inl hacc =>
          obtain ⟨other, hother, heq⟩ := List.mem_map.mp hacc
          cases (mem_assign hother).1 with
          | inl hkey => exact Or.inr (heq ▸ hkey ▸ List.mem_cons_self)
          | inr hold => exact Or.inl (heq ▸ hold)
        | inr hpairs => exact Or.inr (List.mem_cons_of_mem _ hpairs)
      · cases hrest.2 with
        | inl hacc =>
          obtain ⟨other, hother, heq⟩ := List.mem_map.mp hacc
          cases (mem_assign hother).2 with
          | inl hvalue => exact Or.inr (heq ▸ hvalue ▸ List.mem_cons_self)
          | inr hold => exact Or.inl (heq ▸ hold)
        | inr hpairs => exact Or.inr (List.mem_cons_of_mem _ hpairs)
  have hmem := hfold _ [] item (Option.some.inj h ▸ hitem)
  obtain ⟨pair, hpair, hkey⟩ := List.mem_map.mp (hmem.1.resolve_left (by rintro ⟨⟩))
  obtain ⟨pair', hpair', hvalue⟩ := List.mem_map.mp (hmem.2.resolve_left (by rintro ⟨⟩))
  exact ⟨hkey ▸ (mem_take_of_zip hpair).1, hvalue ▸ (mem_take_of_zip hpair').2⟩

section Generic

variable {arg : Annotation} {args : List Annotation} {n : Nat} {edges element : List PyVal} {v : PyVal}

@[simp] theorem length_edgesEach (args : List Annotation) :
    (edgesEach b args).length = args.length := by
  induction args with
  | nil => rfl
  | cons arg args ih => rw [edgesEach, List.length_cons, List.length_cons, ih]

/-- What the edge cases of the first argument are good for. -/
def FirstMatches (b : PoolBuiltins) (args : List Annotation) (element : List PyVal) : Prop :=
  ∀ n ≤ 4, FitsFirst b n args → ∀ v ∈ element.take n, matchesFirst args v

theorem firstMatches_nil (element : List PyVal) : FirstMatches b [] element :=
  fun _ _ _ _ _ => rfl

theorem firstMatches_cons
    (ih : ∀ n, Fits b n arg → ∀ v ∈ edges.take n, matchesType arg v) :
    FirstMatches b (arg :: args) (edges.take 4) := by
  intro n hn hfits v hv
  rw [List.take_take, min_eq_left hn] at hv
  exact ih n hfits v hv

theorem list_matches (hfirst : FirstMatches b args element) (hlen : element.length ≤ 4)
    (hfits : Fits b n (.generic .list args))
    (h : originEdges b .list (edgesEach b args) element = some edges) (hv : v ∈ edges.take n) :
    matchesType (.generic .list args) v := by
  cases h
  obtain ⟨items, rfl, hitems⟩ := items_list hv
  refine List.all_eq_true.mpr ?_
  intro item hitem
  obtain ⟨hn, hmem, hone⟩ := hitems item hitem
  have hfit := hfits hn
  by_cases htwo : n = 2
  · rw [if_pos htwo] at hfit
    exact hfirst 1 (by omega) hfit item (hone htwo)
  · rw [if_neg htwo] at hfit
    exact hfirst 4 le_rfl hfit item ((List.take_of_length_le hlen).symm ▸ hmem)

/-- The edge cases of a `set` or of a `frozenset`: the empty one and a singleton. -/
theorem singleton_matches {wrap : List PyVal → PyVal} (hfirst : FirstMatches b args element)
    (hfits : 2 ≤ n → FitsFirst b 1 args)
    (h : (singleton element).map (fun items => [wrap [], wrap items]) = some edges)
    (hv : v ∈ edges.take n) :
    ∃ items, v = wrap items ∧ items.all fun item => matchesFirst args item := by
  obtain ⟨items, hitems, rfl⟩ := Option.map_eq_some_iff.mp h
  match n with
  | 0 => cases hv
  | 1 =>
    rw [List.mem_singleton.mp hv]
    exact ⟨[], rfl, rfl⟩
  | n + 2 =>
    have hmem := List.mem_of_mem_take hv
    simp only [List.mem_cons, List.not_mem_nil, or_false] at hmem
    obtain rfl | rfl := hmem
    · exact ⟨[], rfl, rfl⟩
    · refine ⟨items, rfl, List.all_eq_true.mpr ?_⟩
      intro item hitem
      exact hfirst 1 (by omega) (hfits (by omega)) item (mem_singleton_edges hitems hitem)

theorem tuple_matches (hfirst : FirstMatches b args element) (hlen : element.length ≤ 4)
    (hargs : elementOf (edgesEach b args) = some element)
    (hfits : Fits b n (.generic .tuple args))
    (h : originEdges b .tuple (edgesEach b args) element = some edges) (hv : v ∈ edges.take n) :
    matchesType (.generic .tuple args) v := by
  cases h
  have hn : 1 ≤ n := by
    by_contra hzero
    rw [Nat.lt_one_iff.mp (not_le.mp hzero)] at hv
    cases hv
  have hmem := List.mem_singleton.mp (List.mem_of_mem_take hv)
  have hfit := hfits hn
  subst hmem
  simp only [matchesType]
  by_cases hvariadic : Annotation.isVariadic args = true
  · rw [if_pos hvariadic] at hfit ⊢
    refine List.all_eq_true.mpr ?_
    intro item hitem
    refine hfirst 2 (by omega) hfit item ?_
    match args with
    | [] => exact hitem
    | [_, _] => exact hitem
  · rw [if_neg hvariadic] at hfit ⊢
    match args with
    | [] => exact absurd rfl hvariadic
    | arg :: args =>
      obtain ⟨first, hedges, rfl⟩ := Option.map_eq_some_iff.mp hargs
      obtain ⟨hfour, -, heach⟩ := hfit first hedges
      have hsome : (arg :: args).length ≠ 0 := Nat.succ_ne_zero _
      rw [length_edgesEach, if_neg hsome, List.take_take, min_eq_left hfour]
      exact heach

theorem dict_matches {key value : Annotation}
    (hkey : ∀ n edges, edgeCasesFor b key = some edges → Fits b n key →
      ∀ v ∈ edges.take n, matchesType key v)
    (hvalue : ∀ n edges, edgeCasesFor b value = some edges → Fits b n value →
      ∀ v ∈ edges.take n, matchesType value v)
    (hfits : Fits b n (.generic .dict [key, value]))
    (h : originEdges b .dict (edgesEach b [key, value]) element = some edges) (hv : v ∈ edges.take n) :
    matchesType (.generic .dict [key, value]) v := by
  simp only [originEdges, edgesEach, Option.bind_eq_some_iff, Option.map_eq_some_iff] at h
  obtain ⟨keys, hkeys, vals, hvals, items, hitems, rfl⟩ := h
  match n with
  | 0 => cases hv
  | 1 =>
    rw [List.mem_singleton.mp hv]
    rfl
  | n + 2 =>
    have hmem := List.mem_of_mem_take hv
    simp only [List.mem_cons, List.not_mem_nil, or_false] at hmem
    obtain rfl | rfl := hmem
    · rfl
    · obtain ⟨hfitKey, hfitValue⟩ := hfits (by omega)
      simp only [edgeCount, hkeys, hvals, Option.map_some, Option.getD_some] at hfitKey hfitValue
      refine List.all_eq_true.mpr ?_
      intro item hitem
      obtain ⟨hk, hw⟩ := mem_dictOf hitems hitem
      -- the longer of the two lists is cut to the shorter
      rw [List.take_take, List.length_take, min_eq_left (min_le_left _ _)] at hk hw
      have hmatchKey := hkey _ keys hkeys hfitKey _ hk
      have hmatchValue := hvalue _ vals hvals hfitValue _ hw
      simp only [matchesEach, hmatchKey, hmatchValue, Bool.and_self, Bool.or_true]

theorem none_of_isNoneType (h : arg.isNoneType) : arg = .cls .noneType := by
  unfold Annotation.isNoneType at h
  split at h
  · rfl
  · cases h

end Generic

mutual

theorem edges_match : ∀ ( annotation : Annotation) (n : Nat) (edges : List PyVal),
    edgeCasesFor b annotation = some edges → Fits b n annotation →
    ∀ v ∈ edges.take n, matchesType annotation v
  | .none, _, _, _, _, _, _ => rfl
  | .ellipsis, _, _, _, _, _, _ => rfl
  | .optional, n, edges, h, _, v, hv => by
    cases h
    rw [List.take_nil] at hv
    cases hv
  | .cls c, n, edges, h, _, v, hv => by
    cases h
    exact matches_edgeCases (List.mem_of_mem_take hv)
  | .typingUnion args, n, edges, h, _, v, hv => by
    have hempty : edges = [] := by
      cases args with
      | nil => exact (Option.some.inj h).symm
      | cons arg args => 
          obtain ⟨_, -, hedges⟩ := Option.map_eq_some_iff.mp h
          exact hedges.symm
    rw [hempty, List.take_nil] at hv
    cases hv
  | .union args, n, edges, h, hfits, v, hv => union_match args n edges h hfits v hv
  | .generic origin args, n, edges, h, hfits, v, hv => by
    obtain ⟨element, helement, horigin⟩ := Option.bind_eq_some_iff.mp h
    have hfirst := first_match args element helement
    cases origin with
    | list => exact list_matches hfirst.2 hfirst.1 hfits horigin hv
    | tuple => exact tuple_matches hfirst.2 hfirst.1 helement hfits horigin hv
    | set | frozenset =>
      obtain ⟨items, rfl, hall⟩ := singleton_matches hfirst.2 hfits horigin hv
      exact hall
    | dict =>
      match args with
      | [key, value] => exact dict_matches (edges_match key) (edges_match value) hfits horigin hv
      | [] | [_] | _ :: _ :: _ :: _ =>
        cases horigin
        rw [List.take_nil] at hv
        cases hv

theorem first_match : ∀ (args : List Annotation) (element : List PyVal),
    elementOf (edgesEach b args) = some element → element.length ≤ 4 ∧ FirstMatches b args element
  | [], element, h => by
    cases h
    exact ⟨by decide, firstMatches_nil _⟩
  | arg :: args, element, h => by
    obtain ⟨edges, hedges, rfl⟩ := Option.map_eq_some_iff.mp h
    exact ⟨List.length_take_le _ _, firstMatches_cons fun n => edges_match arg n edges hedges⟩

theorem union_match : ∀ (args : List Annotation) (n : Nat) (edges : List PyVal),
    edgesUnion b args = some edges → FitsUnion b n args → ∀ v ∈ edges.take n, matchesAny args v
  | [], n, edges, h, _, v, hv => by
    cases h
    rw [List.take_nil] at hv
    cases hv
  | arg :: args, n, edges, h, hfits, v, hv => by
    obtain ⟨first, hfirst, hmap⟩ := Option.bind_eq_some_iff.mp h
    obtain ⟨rest, hrest, rfl⟩ := Option.map_eq_some_iff.mp hmap
    rw [List.take_append, List.mem_append] at hv
    simp only [matchesAny, Bool.or_eq_true]
    by_cases hnone : arg.isNoneType = true
    · rw [if_pos hnone] at hfirst
      cases hfirst
      have hfit : FitsUnion b (n - 1) args := by
        have hfit := hfits.2
        rwa [if_pos hnone] at hfit
      refine hv.imp ?_ (union_match args _ rest hrest hfit v)
      intro hv
      rw [none_of_isNoneType hnone, List.mem_singleton.mp (List.mem_of_mem_take hv)]
      rfl
    · rw [if_neg hnone] at hfirst
      have hfit : FitsUnion b (n - first.length) args := by
        have hfit := hfits.2
        rwa [if_neg hnone, edgeCount, hfirst] at hfit
      exact hv.imp (edges_match arg n first hfirst (hfits.1.resolve_left hnone) v)
        (union_match args _ rest hrest hfit v)

end

/-! ## Pools -/

section Pool

variable { annotation : Annotation} {pool xs ys : List PyVal} {seen : List PyStr} {v : PyVal}

theorem distinct_cons (v : PyVal) (vs : List PyVal) (seen : List PyStr) :
    distinct b (v :: vs) seen =
      if !b.literalOk v || b.repr v ∈ seen then distinct b vs seen
      else v :: distinct b vs (b.repr v :: seen) := rfl

theorem mem_of_distinct (h : v ∈ distinct b pool seen) : v ∈ pool ∧ b.repr v ∉ seen := by
  induction pool generalizing seen with
  | nil => cases h
  | cons w pool ih =>
    rw [distinct_cons] at h
    split_ifs at h with hskip
    · exact ⟨List.mem_cons_of_mem _ (ih h).1, (ih h).2⟩
    · simp only [Bool.or_eq_true, Bool.not_eq_true', decide_eq_true_eq, not_or] at hskip
      cases h with
      | head => exact ⟨List.mem_cons_self, hskip.2⟩
      | tail _ h =>
        have hrest := ih h
        exact ⟨List.mem_cons_of_mem _ hrest.1, fun hseen => hrest.2 (List.mem_cons_of_mem _ hseen)⟩

theorem literalOk_of_distinct (h : v ∈ distinct b pool seen) : b.literalOk v := by
  induction pool generalizing seen with
  | nil => cases h
  | cons w pool ih =>
    rw [distinct_cons] at h
    split_ifs at h with hskip
    · exact ih h
    · simp only [Bool.or_eq_true, Bool.not_eq_true', decide_eq_true_eq, not_or,
      Bool.not_eq_false] at hskip
      cases h with
      | head => exact hskip.1
      | tail _ h => exact ih h

theorem nodup_distinct (pool : List PyVal) (seen : List PyStr) :
    ((distinct b pool seen).map b.repr).Nodup := by
  induction pool generalizing seen with
  | nil => exact List.nodup_nil
  | cons w pool ih =>
    rw [distinct_cons]
    split_ifs
    · exact ih seen
    · refine List.nodup_cons.mpr ⟨?_, ih _⟩
      intro hmem
      obtain ⟨v, hv, heq⟩ := List.mem_map.mp hmem
      exact (mem_of_distinct hv).2 (heq ▸ List.mem_cons_self)

/-- What comes first in a pool is kept whatever comes behind it. -/
theorem mem_distinct_append (h : v ∈ distinct b xs seen) : v ∈ distinct b (xs ++ ys) seen := by
  induction xs generalizing seen with
  | nil => cases h
  | cons w xs ih =>
    simp only [List.cons_append, distinct_cons] at h ⊢
    split_ifs at h ⊢
    · exact ih h
    · cases h with
      | head => exact List.mem_cons_self
      | tail _ h => exact List.mem_cons_of_mem _ (ih h)

theorem distinct_sublist (pool : List PyVal) (seen : List PyStr) :
    (distinct b pool seen).Sublist pool := by
  induction pool generalizing seen with
  | nil => exact List.Sublist.refl []
  | cons w pool ih =>
    rw [distinct_cons]
    split_ifs
    · exact (ih seen).cons w
    · exact (ih _).cons_cons w

theorem exists_distinct (hv : v ∈ pool) (hok : b.literalOk v) :
    b.repr v ∈ seen ∨ ∃ w ∈ distinct b pool seen, b.repr w = b.repr v := by
  induction pool generalizing seen with
  | nil => cases hv
  | cons u pool ih =>
    rw [distinct_cons]
    cases hv with
    | head =>
      split_ifs with hskip
      · simp only [hok, Bool.not_true, Bool.false_or, decide_eq_true_eq] at hskip
        exact Or.inl hskip
      · exact Or.inr ⟨v, List.mem_cons_self, rfl⟩
    | tail _ hv =>
      split_ifs
      · exact ih hv
      · cases @ih (b.repr u :: seen) hv with
        | inl hseen =>
          cases List.mem_cons.mp hseen with
          | inl heq => exact Or.inr ⟨u, List.mem_cons_self, heq.symm⟩
          | inr hseen => exact Or.inl hseen
        | inr hrest =>
          obtain ⟨w, hw, heq⟩ := hrest
          exact Or.inr ⟨w, List.mem_cons_of_mem _ hw, heq⟩

theorem mem_of_valuesFor {examples mined values : List PyVal} {seed : Int}
    (h : valuesFor b examples annotation seed mined = some values) (hv : v ∈ values) :
    (∃ pool, poolFor b examples annotation = some pool ∧ v ∈ pool) ∨ matchesType annotation v := by
  obtain ⟨pool, hpool, rfl⟩ := Option.map_eq_some_iff.mp h
  have hmem := List.mem_of_mem_take hv
  have hshuffled :
      v ∈ b.shuffle seed (distinct b (pool ++ mined.filter (matchesType annotation)) []) := by
    cases List.mem_append.mp hmem with
    | inl hedge => exact (List.mem_filter.mp hedge).1
    | inr hrest => exact (List.mem_filter.mp hrest).1
  have hdistinct := (b.shuffle_perm seed _).mem_iff.mp hshuffled
  cases List.mem_append.mp (mem_of_distinct hdistinct).1 with
  | inl hpooled => exact Or.inl ⟨pool, hpool, hpooled⟩
  | inr hmined => exact Or.inr (List.mem_filter.mp hmined).2

theorem literalOk_of_valuesFor {examples mined values : List PyVal} {seed : Int}
    (h : valuesFor b examples annotation seed mined = some values) (hv : v ∈ values) :
    b.literalOk v := by
  obtain ⟨pool, -, rfl⟩ := Option.map_eq_some_iff.mp h
  have hshuffled :
      v ∈ b.shuffle seed (distinct b (pool ++ mined.filter (matchesType annotation)) []) := by
    cases List.mem_append.mp (List.mem_of_mem_take hv) with
    | inl hedge => exact (List.mem_filter.mp hedge).1
    | inr hrest => exact (List.mem_filter.mp hrest).1
  exact literalOk_of_distinct ((b.shuffle_perm seed _).mem_iff.mp hshuffled)

/-- Whether a pool is empty does not depend on the seed. -/
theorem valuesFor_empty {examples mined : List PyVal} {seed seed' : Int}
    (h : valuesFor b examples annotation seed mined = some []) :
    valuesFor b examples annotation seed' mined = some [] := by
  obtain ⟨pool, hpool, hempty⟩ := Option.map_eq_some_iff.mp h
  let kept := distinct b (pool ++ mined.filter (matchesType annotation)) []
  have hnone : kept = [] := by
    by_contra hsome
    obtain ⟨v, hv⟩ := List.exists_mem_of_ne_nil _ hsome
    have hshuffled : v ∈ b.shuffle seed kept := (b.shuffle_perm seed kept).mem_iff.mpr hv
    have hlong : 0 < ((b.shuffle seed kept).filter (isEdge b annotation) ++
        (b.shuffle seed kept).filter fun v => !isEdge b annotation v).length := by
      refine List.length_pos_of_mem (a := v) ?_
      rw [List.mem_append, List.mem_filter, List.mem_filter]
      cases isEdge b annotation v with
      | true => exact Or.inl ⟨hshuffled, rfl⟩
      | false => exact Or.inr ⟨hshuffled, rfl⟩
    have hcut : ((b.shuffle seed kept).filter (isEdge b annotation) ++
        (b.shuffle seed kept).filter fun v => !isEdge b annotation v).take poolCap = [] := hempty
    have hshort := congrArg List.length hcut
    rw [List.length_take, List.length_nil, poolCap] at hshort
    omega
  have hshuffle : b.shuffle seed' kept = [] :=
    (hnone ▸ b.shuffle_perm seed' kept : (b.shuffle seed' kept).Perm []).eq_nil
  refine Option.map_eq_some_iff.mpr ⟨pool, hpool, ?_⟩
  simp only [hshuffle, kept, List.filter_nil, List.append_nil, List.take_nil]

def Typed (b : PoolBuiltins) ( annotation : Annotation) : Prop :=
  ∀ examples seed mined values, valuesFor b examples annotation seed mined = some values →
    ∀ v ∈ values, v ∈ examples ∨ matchesType annotation v

theorem typed_of_fits (hfits : ∀ n, Fits b n annotation) : Typed b annotation := by
  intro examples seed mined values h v hv
  cases mem_of_valuesFor h hv with
  | inr hmatch => exact Or.inr hmatch
  | inl hpooled =>
    obtain ⟨pool, hpool, hmem⟩ := hpooled
    by_cases hnone : annotation = .none
    · rw [hnone]
      exact Or.inr rfl
    · have hedges : (edgeCasesFor b annotation).map (· ++ examples) = some pool := by
        rw [← hpool]
        cases annotation <;> first | rfl | exact absurd rfl hnone
      obtain ⟨edges, hsome, rfl⟩ := Option.map_eq_some_iff.mp hedges
      cases List.mem_append.mp hmem with
      | inl hedge =>
        refine Or.inr (edges_match annotation edges.length edges hsome (hfits _) v ?_)
        rwa [List.take_length]
      | inr hexample => exact Or.inl hexample

end Pool

/-! ## The cap -/

section Cap

variable {c : Cls} {v : PyVal}

theorem float_of_floatEq {x y : PyFloat} (h : floatEq x y) : x = y ∨ ∃ neg, x = .finite neg 0 0 := by
  unfold floatEq at h
  split at h
  · next neg expo frac neg' expo' frac' =>
    simp only [Bool.and_eq_true, Bool.or_eq_true, decide_eq_true_eq] at h
    obtain ⟨⟨rfl, rfl⟩, rfl | ⟨rfl, rfl⟩⟩ := h
    · exact Or.inl rfl
    · exact Or.inr ⟨neg, rfl⟩
  · exact Or.inl (congrArg _ (of_decide_eq_true h))
  · cases h

theorem zero_mem_floatEdges (neg : Bool) : .float (.finite neg 0 0) ∈ edgeCases .float := by
  cases neg
  · exact List.mem_cons_self
  · exact List.mem_cons_of_mem _ List.mem_cons_self

/-- A value of the class that equals an edge case is one. -/
theorem mem_edgeCases_of_eq {e : PyVal} (hmatch : matchesType (.cls c) v) (he : e ∈ edgeCases c)
    (heq : b.eq v e) : v ∈ edgeCases c := by
  simp only [matchesType] at hmatch
  cases c with
  | int =>
    obtain ⟨m, hm, rfl⟩ := List.mem_map.mp he
    cases v with
    | int n =>
      rw [b.eq_scalar (.int n) (.int m) _ rfl] at heq
      exact of_decide_eq_true heq ▸ he
    | _ => cases hmatch
  | str =>
    obtain ⟨t, ht, rfl⟩ := List.mem_map.mp he
    cases v with
    | str s =>
      rw [b.eq_scalar (.str s) (.str (lit t)) _ rfl] at heq
      exact of_decide_eq_true heq ▸ he
    | _ => cases hmatch
  | bool =>
    cases v with
    | bool a =>
      cases a
      · exact List.mem_cons_of_mem _ List.mem_cons_self
      · exact List.mem_cons_self
    | _ => cases hmatch
  | bytes =>
    obtain ⟨d, hd, rfl⟩ := List.mem_map.mp he
    cases v with
    | bytes data =>
      rw [b.eq_scalar (.bytes data) (.bytes d) _ rfl] at heq
      exact of_decide_eq_true heq ▸ he
    | _ => cases hmatch
  | float =>
    obtain ⟨y, hy, rfl⟩ := List.mem_map.mp he
    cases v with
    | float x =>
      rw [b.eq_scalar (.float x) (.float y) _ rfl] at heq
      cases float_of_floatEq heq with
      | inl hsame => exact hsame ▸ he
      | inr hzero =>
        obtain ⟨neg, rfl⟩ := hzero
        exact zero_mem_floatEdges neg
    | _ => cases hmatch
  | _ => cases he

theorem nan_of_floatEq {x : PyFloat} (h : floatEq x x = false) :
    ∃ neg payload, x = .nan neg payload := by
  cases x with
  | nan neg payload => exact ⟨neg, payload, rfl⟩
  | inf neg => simp only [floatEq, decide_true, Bool.true_eq_false] at h
  | finite neg expo frac =>
    simp only [floatEq, decide_true, Bool.true_or, Bool.and_self, Bool.true_eq_false] at h

/-- A boundary value of the class has the literal of an edge case. -/
theorem repr_mem_of_isEdge (hmatch : matchesType (.cls c) v) (hedge : isEdge b (.cls c) v) :
    b.repr v ∈ (edgeCases c).map b.repr := by
  have hsame : v ∈ edgeCases c → b.repr v ∈ (edgeCases c).map b.repr := List.mem_map_of_mem
  simp only [isEdge, Bool.or_eq_true, List.any_eq_true] at hedge
  cases hedge with
  | inl hany =>
    obtain ⟨e, he, heq⟩ := hany
    exact hsame (mem_edgeCases_of_eq hmatch he heq)
  | inr hfloat =>
    split at hfloat
    · next x =>
      simp only [Bool.or_eq_true, Bool.not_eq_true'] at hfloat
      cases hfloat with
      | inl hnan =>
        obtain ⟨neg, payload, rfl⟩ := nan_of_floatEq hnan
        have hlast : .float (floatEdges.getLast (by decide)) ∈ edgeCases .float :=
          List.mem_map_of_mem (List.getLast_mem _)
        refine List.mem_map.mpr ⟨_, hlast, ?_⟩
        rw [b.repr_nan]
        exact b.repr_nan _ _
      | inr hzero =>
        exact hsame (mem_edgeCases_of_eq hmatch (zero_mem_floatEdges false) hzero)
    · cases hfloat

theorem isEdge_of_mem (hv : v ∈ edgeCases c) : isEdge b (.cls c) v := by
  simp only [isEdge, Bool.or_eq_true, List.any_eq_true]
  cases c with
  | int =>
    obtain ⟨m, hm, rfl⟩ := List.mem_map.mp hv
    exact Or.inl ⟨_, hv, (b.eq_scalar _ _ _ rfl).trans (decide_eq_true rfl)⟩
  | str =>
    obtain ⟨t, ht, rfl⟩ := List.mem_map.mp hv
    exact Or.inl ⟨_, hv, (b.eq_scalar _ _ _ rfl).trans (decide_eq_true rfl)⟩
  | bool =>
    refine Or.inl ⟨_, hv, ?_⟩
    obtain ⟨a, rfl⟩ : ∃ a, v = .bool a := by
      cases hv with
      | head => exact ⟨_, rfl⟩
      | tail _ hv => exact ⟨_, List.mem_singleton.mp hv⟩
    exact (b.eq_scalar _ _ _ rfl).trans (decide_eq_true rfl)
  | bytes =>
    obtain ⟨d, hd, rfl⟩ := List.mem_map.mp hv
    exact Or.inl ⟨_, hv, (b.eq_scalar _ _ _ rfl).trans (decide_eq_true rfl)⟩
  | float =>
    obtain ⟨x, hx, rfl⟩ := List.mem_map.mp hv
    cases hself : floatEq x x with
    | true => exact Or.inl ⟨_, hv, (b.eq_scalar _ _ _ rfl).trans hself⟩
    | false =>
      refine Or.inr ?_
      simp only [hself, Bool.not_false, Bool.true_or]
  | _ => cases hv

theorem length_edgeCases (c : Cls) : (edgeCases c).length ≤ poolCap := by
  cases c <;> decide

def KeepsEdges (b : PoolBuiltins) (c : Cls) : Prop :=
  ∀ examples seed mined values, (∀ v ∈ examples, matchesType (.cls c) v) →
    valuesFor b examples (.cls c) seed mined = some values →
    ∀ e ∈ edgeCases c, b.literalOk e → ∃ v ∈ values, v ∈ edgeCases c ∧ b.repr v = b.repr e

theorem keepsEdges (c : Cls) : KeepsEdges b c := by
  intro examples seed mined values hexamples h e he hok
  cases h
  let pool := edgeCases c ++ examples ++ mined.filter (matchesType (.cls c))
  let filtered := b.shuffle seed (distinct b pool [])
  have hperm : filtered.Perm (distinct b pool []) := b.shuffle_perm seed _
  have hmatch : ∀ v ∈ filtered, matchesType (.cls c) v := by
    intro v hv
    cases List.mem_append.mp (mem_of_distinct (hperm.mem_iff.mp hv)).1 with
    | inl hleft =>
      cases List.mem_append.mp hleft with
      | inl hedge => exact matches_edgeCases hedge
      | inr hexample => exact hexamples v hexample
    | inr hmined => exact (List.mem_filter.mp hmined).2
  -- there are no more boundary values than edge cases, as each has another literal
  have hcount : (filtered.filter (isEdge b (.cls c))).length ≤ poolCap := by
    have hnodup : ((filtered.filter (isEdge b (.cls c))).map b.repr).Nodup := by
      have hall : (filtered.map b.repr).Nodup :=
        (hperm.map b.repr).nodup_iff.mpr (nodup_distinct pool [])
      exact hall.sublist (List.filter_sublist.map b.repr)
    have hsubset : (filtered.filter (isEdge b (.cls c))).map b.repr ⊆ (edgeCases c).map b.repr := by
      intro text htext
      obtain ⟨v, hv, rfl⟩ := List.mem_map.mp htext
      have hfilter := List.mem_filter.mp hv
      exact repr_mem_of_isEdge (hmatch v hfilter.1) hfilter.2
    calc
      (filtered.filter (isEdge b (.cls c))).length
          = ((filtered.filter (isEdge b (.cls c))).map b.repr).length := (List.length_map _).symm
      _ ≤ ((edgeCases c).map b.repr).length := (hnodup.subperm hsubset).length_le
      _ = (edgeCases c).length := List.length_map _
      _ ≤ poolCap := length_edgeCases c
  obtain ⟨v, hv, hrepr⟩ := (@exists_distinct b _ [] _ he hok).resolve_left (by rintro ⟨⟩)
  have hedge : v ∈ edgeCases c := (mem_of_distinct hv).1
  have hpool : v ∈ distinct b pool [] := by
    have hfirst := @mem_distinct_append b _ (examples ++ mined.filter (matchesType (.cls c))) _ _ hv
    rwa [← List.append_assoc] at hfirst
  have hfilter : v ∈ filtered.filter (isEdge b (.cls c)) :=
    List.mem_filter.mpr ⟨hperm.mem_iff.mpr hpool, isEdge_of_mem hedge⟩
  have hvalues : v ∈ (filtered.filter (isEdge b (.cls c)) ++
      filtered.filter fun v => !isEdge b (.cls c) v).take poolCap := by
    rw [List.take_append, List.take_of_length_le hcount]
    exact List.mem_append_left _ hfilter
  exact ⟨v, hvalues, hedge, hrepr⟩

end Cap

/-! ## Where a tuple type does not fit -/

mutual

/-- Without unions and without `dict` types. -/
def Simple : Annotation → Prop
  | .none | .ellipsis | .cls _ | .typingUnion _ | .optional => True
  | .union _ | .generic .dict _ => False
  | .generic .list args | .generic .tuple args | .generic .set args | .generic .frozenset args =>
    SimpleFirst args

def SimpleFirst : List Annotation → Prop
  | [] => True
  | arg :: _ => Simple arg

end

section Converse

variable { annotation arg : Annotation} {args : List Annotation} {n : Nat} {edges : List PyVal}

theorem length_edges (hsimple : Simple annotation) (h : edgeCasesFor b annotation = some edges) :
    edges.length ≤ poolCap := by
  cases annotation with
  | none | ellipsis | optional =>
    cases h
    exact Nat.zero_le _
  | cls c =>
    cases h
    exact length_edgeCases c
  | union args => exact hsimple.elim
  | typingUnion args =>
    cases args with
    | nil =>
      cases h
      exact Nat.zero_le _
    | cons arg args =>
      obtain ⟨_, -, rfl⟩ := Option.map_eq_some_iff.mp h
      exact Nat.zero_le _
  | generic origin args =>
    obtain ⟨element, -, h⟩ := Option.bind_eq_some_iff.mp h
    cases origin with
    | list | tuple =>
      cases h
      simp only [List.length_cons, List.length_nil, poolCap]
      omega
    | set | frozenset =>
      obtain ⟨items, -, rfl⟩ := Option.map_eq_some_iff.mp h
      simp only [List.length_cons, List.length_nil, poolCap]
      omega
    | dict => exact hsimple.elim

theorem length_of_matchesEach {items : List PyVal} (h : matchesEach args items) :
    items.length = args.length := by
  induction args generalizing items with
  | nil =>
    cases items with
    | nil => rfl
    | cons item items => cases h
  | cons arg args ih =>
    cases items with
    | nil => cases h
    | cons item items =>
      simp only [matchesEach, Bool.and_eq_true] at h
      rw [List.length_cons, List.length_cons, ih h.2]

/-- The first value of a set is the first of the argument. -/
theorem mem_of_singleton {element items : List PyVal} {item : PyVal}
    (h : singleton element = some items) (hitem : item ∈ element.take 1) : item ∈ items := by
  cases element with
  | nil => cases hitem
  | cons first rest =>
    simp only [singleton] at h
    split_ifs at h
    cases h
    exact hitem

/-- A tuple of the type has as many items as the type. -/
theorem fitsTuple_of_matches {element : List PyVal}
    (helement : elementOf (edgesEach b args) = some element)
    (hmatch : matchesEach args (element.take (if args.length = 0 then 2 else args.length))) :
    FitsTuple b args := by
  cases args with
  | nil => trivial
  | cons arg args =>
    have hsome : (arg :: args).length ≠ 0 := Nat.succ_ne_zero _
    rw [if_neg hsome] at hmatch
    obtain ⟨edges, hedges, rfl⟩ := Option.map_eq_some_iff.mp helement
    intro edges' hedges'
    cases hedges.symm.trans hedges'
    have hlength := length_of_matchesEach hmatch
    rw [List.length_take, List.length_take] at hlength
    have hfour : (arg :: args).length ≤ 4 := by omega
    refine ⟨hfour, by omega, ?_⟩
    rwa [List.take_take, min_eq_left hfour] at hmatch

mutual

/-- Where the edge cases are of the annotation, the tuple types they are built with fit. -/
theorem fits_of_matches : ∀ ( annotation : Annotation) (n : Nat) (edges : List PyVal),
    Simple annotation → edgeCasesFor b annotation = some edges →
    (∀ v ∈ edges.take n, matchesType annotation v) → Fits b n annotation
  | .none, _, _, _, _, _ | .ellipsis, _, _, _, _, _ | .optional, _, _, _, _, _ => trivial
  | .cls _, _, _, _, _, _ | .typingUnion _, _, _, _, _, _ => trivial
  | .union args, n, edges, hsimple, _, _ => hsimple.elim
  | .generic origin args, n, edges, hsimple, h, hall => by
    obtain ⟨element, helement, horigin⟩ := Option.bind_eq_some_iff.mp h
    have hargs := fitsFirst_of_matches args
    cases origin with
    | dict => exact hsimple.elim
    | list =>
      intro hn
      cases horigin
      match n with
      | 2 =>
        refine hargs 1 element (by decide) hsimple helement ?_
        intro v hv
        have hsecond := hall _ (List.mem_cons_of_mem _ List.mem_cons_self)
        cases element with
        | nil => cases hv
        | cons first rest => exact List.all_eq_true.mp hsecond v hv
      | n + 3 =>
        refine hargs 4 element le_rfl hsimple helement ?_
        intro v hv
        have hthird := hall (.list element)
          (List.mem_cons_of_mem _ (List.mem_cons_of_mem _ List.mem_cons_self))
        exact List.all_eq_true.mp hthird v (List.mem_of_mem_take hv)
    | tuple =>
      intro hn
      cases horigin
      match n with
      | n + 1 =>
        have htuple := hall _ List.mem_cons_self
        simp only [matchesType, length_edgesEach] at htuple
        by_cases hvariadic : Annotation.isVariadic args = true
        · rw [if_pos hvariadic] at htuple ⊢
          refine hargs 2 element (by decide) hsimple helement ?_
          intro v hv
          refine List.all_eq_true.mp htuple v ?_
          match args with
          | [] => exact hv
          | [_, _] => exact hv
        · rw [if_neg hvariadic] at htuple ⊢
          exact fitsTuple_of_matches helement htuple
    | set =>
      intro hn
      obtain ⟨items, hitems, rfl⟩ := Option.map_eq_some_iff.mp horigin
      match n with
      | n + 2 =>
        refine hargs 1 element (by decide) hsimple helement ?_
        intro v hv
        have hsecond := hall (.set items) (List.mem_cons_of_mem _ List.mem_cons_self)
        exact List.all_eq_true.mp hsecond v (mem_of_singleton hitems hv)
    | frozenset =>
      intro hn
      obtain ⟨items, hitems, rfl⟩ := Option.map_eq_some_iff.mp horigin
      match n with
      | n + 2 =>
        refine hargs 1 element (by decide) hsimple helement ?_
        intro v hv
        have hsecond := hall (.frozenset items) (List.mem_cons_of_mem _ List.mem_cons_self)
        exact List.all_eq_true.mp hsecond v (mem_of_singleton hitems hv)

theorem fitsFirst_of_matches : ∀ (args : List Annotation) (n : Nat) (element : List PyVal), n ≤ 4 →
    SimpleFirst args → elementOf (edgesEach b args) = some element →
    (∀ v ∈ element.take n, matchesFirst args v) → FitsFirst b n args
  | [], _, _, _, _, _, _ => trivial
  | arg :: args, n, element, hn, hsimple, h, hall => by
    obtain ⟨edges, hedges, rfl⟩ := Option.map_eq_some_iff.mp h
    rw [List.take_take, min_eq_left hn] at hall
    exact fits_of_matches arg n edges hsimple hedges hall

end

/-- An annotation with edge cases that have a literal each is typed only if its tuple types fit. -/
theorem fits_of_typed (hsimple : Simple annotation) (h : edgeCasesFor b annotation = some edges)
    (hok : ∀ v ∈ edges, b.literalOk v)
    (hrepr : ∀ v ∈ edges, ∀ w ∈ edges, b.repr v = b.repr w → v = w) (htyped : Typed b annotation) :
    Fits b n annotation := by
  by_cases hnone : annotation = .none
  · rw [hnone]
    trivial
  · refine fits_of_matches annotation n edges hsimple h ?_
    intro v hv
    have hpool : poolFor b [] annotation = some edges := by
      have hmap : poolFor b [] annotation = (edgeCasesFor b annotation).map (· ++ []) := by
        cases annotation <;> first | rfl | exact absurd rfl hnone
      rw [hmap, h, Option.map_some, List.append_nil]
    have hedge : v ∈ edges := List.mem_of_mem_take hv
    let filtered := b.shuffle 0 (distinct b (edges ++ []) [])
    have hperm : filtered.Perm (distinct b edges []) := by
      have hshuffle : filtered.Perm (distinct b (edges ++ []) []) := b.shuffle_perm 0 _
      rwa [List.append_nil] at hshuffle
    have hfiltered : v ∈ filtered := by
      obtain ⟨w, hw, heq⟩ := (@exists_distinct b _ [] _ hedge (hok v hedge)).resolve_left
        (by rintro ⟨⟩)
      exact hperm.mem_iff.mpr (hrepr w (mem_of_distinct hw).1 v hedge heq ▸ hw)
    have hvalues : v ∈ (filtered.filter (isEdge b annotation) ++
        filtered.filter fun v => !isEdge b annotation v).take poolCap := by
      have hlength : (filtered.filter (isEdge b annotation) ++
          filtered.filter fun v => !isEdge b annotation v).length ≤ poolCap := by
        have hsum := List.length_eq_length_filter_add (l := filtered) (isEdge b annotation)
        have hsub := (distinct_sublist (b := b) edges []).length_le
        have hcap := length_edges hsimple h
        rw [List.length_append, ← hsum, hperm.length_eq]
        exact hsub.trans hcap
      rw [List.take_of_length_le hlength, List.mem_append, List.mem_filter, List.mem_filter]
      cases hcase : isEdge b annotation v with
      | true => exact Or.inl ⟨hfiltered, rfl⟩
      | false => exact Or.inr ⟨hfiltered, rfl⟩
    have hsome : valuesFor b [] annotation 0 [] = some ((filtered.filter (isEdge b annotation) ++
        filtered.filter fun v => !isEdge b annotation v).take poolCap) := by
      rw [valuesFor, hpool]
      rfl
    exact (htyped [] 0 [] _ hsome v hvalues).resolve_left (by rintro ⟨⟩)

end Converse

/-! ## The pools of the annotations -/

/-- Where the tuple types of an annotation fit its pool stays within it, the examples apart; only there,
as far as nothing hides an edge case from the pool or lends it to another type.  No edge case of a class
is lost to the cap. -/
theorem pool_typed (b : PoolBuiltins) ( annotation : Annotation) :
    ((∀ n, Fits b n annotation) → Typed b annotation) ∧
      (∀ edges, Simple annotation → edgeCasesFor b annotation = some edges →
        (∀ v ∈ edges, b.literalOk v) →
        (∀ v ∈ edges, ∀ w ∈ edges, b.repr v = b.repr w → v = w) →
        Typed b annotation → ∀ n, Fits b n annotation) ∧
      ∀ c, annotation = .cls c → KeepsEdges b c := by
  refine ⟨typed_of_fits, ?_, ?_⟩
  · intro edges hsimple h hok hrepr htyped n
    exact fits_of_typed hsimple h hok hrepr htyped
  · rintro c -
    exact keepsEdges c

/-- Python as far as the counterexample asks it. -/
def plainBuiltins : PoolBuiltins where
  repr v :=
    match v with
    | .float (.nan _ _) => lit "nan"
    | .tuple [.int 0, .int 1] => lit "(0, 1)"
    | _ => []
  eq v w := (scalarEq v w).getD false
  literalOk _ := true
  shuffle _ values := values
  repr_nan _ _ := rfl
  eq_scalar v w r h := by rw [h, Option.getD_some]
  shuffle_perm _ _ := List.Perm.refl _

theorem pool_typed_pair : Typed plainBuiltins (.generic .tuple [.cls .int, .cls .int]) := by
  refine (pool_typed plainBuiltins _).1 ?_
  intro n _ edges h
  cases h
  exact ⟨by decide, by decide, rfl⟩

/-- `tuple[int, str]` is tried with `(0, 1)`. -/
theorem untyped_tuple : ¬ ∀ b annotation, Typed b annotation := by
  intro htyped
  have hmem : PyVal.tuple [.int 0, .int 1] ∈ ([.tuple [.int 0, .int 1]] : List PyVal) :=
    List.mem_cons_self
  have hvalues : valuesFor plainBuiltins [] (.generic .tuple [.cls .int, .cls .str]) 0 [] =
      some [.tuple [.int 0, .int 1]] := rfl
  cases htyped plainBuiltins _ [] 0 [] _ hvalues _ hmem with
  | inl hexample => cases hexample
  | inr hmatch => cases hmatch

end Strategies
end Tempest
