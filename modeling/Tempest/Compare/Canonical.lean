import Tempest.Model
import Tempest.Python.Sort

/-!
# Canonical — the value encoding every comparison rests on (`compare/canonical.py`)

`encode` is `_encode`: a tree for the built-in values, a structural fingerprint for objects, and
an error for everything else.  `canonicalBytes` prints the tree as compact JSON; it is the sort key
of sets and dicts, so what it raises is raised by `encode` as well.
-/

namespace Tempest

open Python

/-! ## Encoding -/

/-- What escapes from `canonicalize` or `canonical_bytes`. -/
inductive CanonError where
  | unrepresentable (reason : PyStr)
  /-- `UnicodeEncodeError` of `str.encode()`. -/
  | surrogates
  /-- `ValueError` of `int.__repr__`. -/
  | intTooLong
  /-- What an attribute of the target's own object raised. -/
  | raised (error : PyExc)

def maxDepth : Nat := 64

def tooDeep : PyStr := lit "nesting deeper than " ++ natText maxDepth

/-- The check at the head of `_encode`. -/
def atDepth (depth : Nat) (canon : Except CanonError Canon) : Except CanonError Canon :=
  if maxDepth < depth then .error (.unrepresentable tooDeep) else canon

def SeqTag.text : SeqTag → PyStr
  | .list => lit "list"
  | .tuple => lit "tuple"
  | .set => lit "set"
  | .frozenset => lit "frozenset"

def tagField (tag : PyStr) : PyStr × Json := (lit "__t", .str tag)

mutual

/-- The JSON document a tree is: scalars raw, everything else a tagged dict. -/
def Canon.toJson : Canon → Json
  | .none => .null
  | .bool b => .bool b
  | .int n => .int n
  | .str s => .str s
  | .float x => .obj [tagField (lit "float"), (lit "v", .str x.text)]
  | .bytes data => .obj [tagField (lit "bytes"), (lit "v", .str (base64 data))]
  | .seq tag items => .obj [tagField tag.text, (lit "v", .arr (toJsonItems items))]
  | .dict pairs => .obj [tagField (lit "dict"), (lit "v", .arr (toJsonPairs pairs))]
  | .obj typeName attrs =>
    .obj [tagField (lit "obj"), (lit "type", .str typeName), (lit "v", .arr (toJsonAttrs attrs))]

def toJsonItems : List Canon → List Json
  | [] => []
  | item :: items => item.toJson :: toJsonItems items

def toJsonPairs : List (Canon × Canon) → List Json
  | [] => []
  | (key, value) :: pairs => .arr [key.toJson, value.toJson] :: toJsonPairs pairs

def toJsonAttrs : List (PyStr × Canon) → List Json
  | [] => []
  | (name, value) :: attrs => .arr [.str name, value.toJson] :: toJsonAttrs attrs

end

/-- `json.dumps(…)` stops at an integer it cannot print, `.encode()` at a surrogate. -/
def canonicalBytes (canon : Canon) : Except CanonError Bytes :=
  if canon.toJson.hasLongInt then .error .intTooLong
  else if encodable (dumps canon.toJson) then .ok (utf8 (dumps canon.toJson))
  else .error .surrogates

mutual

def encode (depth : Nat) : PyVal → Except CanonError Canon
  | .none => atDepth depth (.ok .none)
  | .bool b => atDepth depth (.ok (.bool b))
  | .int n => atDepth depth (.ok (.int n))
  | .float x => atDepth depth (.ok (.float x.hexval))
  | .str s => atDepth depth (.ok (.str s))
  | .bytes data => atDepth depth (.ok (.bytes data))
  | .list items => atDepth depth do
      let canons ← encodeItems (depth + 1) items
      return .seq .list canons
  | .tuple items => atDepth depth do
      let canons ← encodeItems (depth + 1) items
      return .seq .tuple canons
  | .set items => atDepth depth do
      let canons ← encodeItems (depth + 1) items
      let sorted ← sortBy canonicalBytes canons
      return .seq .set sorted
  | .frozenset items => atDepth depth do
      let canons ← encodeItems (depth + 1) items
      let sorted ← sortBy canonicalBytes canons
      return .seq .frozenset sorted
  | .dict items => atDepth depth do
      let pairs ← encodePairs (depth + 1) items
      let sorted ← sortBy (fun kv => canonicalBytes kv.1) pairs
      return .dict sorted
  | .rejected typeName =>
    atDepth depth (.error (.unrepresentable (lit "cannot canonicalize " ++ typeName)))
  | .object typeName attrs => atDepth depth do
      let canons ← encodeAttrs (depth + 1) attrs
      return .obj typeName canons
  | .bare typeName =>
    atDepth depth (.error (.unrepresentable
      (lit "no value encoding or structural fingerprint for " ++ typeName)))
  | .hostile error => atDepth depth (.error (.raised error))
  | .cycle => atDepth depth (.error (.unrepresentable (lit "cyclic structure")))

def encodeItems (depth : Nat) : List PyVal → Except CanonError (List Canon)
  | [] => .ok []
  | item :: items => do
    let canon ← encode depth item
    let canons ← encodeItems depth items
    return canon :: canons

def encodePairs (depth : Nat) : List (PyVal × PyVal) → Except CanonError (List (Canon × Canon))
  | [] => .ok []
  | (key, value) :: items => do
    let k ← encode depth key
    let v ← encode depth value
    let pairs ← encodePairs depth items
    return (k, v) :: pairs

def encodeAttrs (depth : Nat) : List (PyStr × PyVal) → Except CanonError (List (PyStr × Canon))
  | [] => .ok []
  | (name, value) :: attrs => do
    let v ← encode depth value
    let canons ← encodeAttrs depth attrs
    return (name, v) :: canons

end

def canonicalize (obj : PyVal) : Except CanonError Canon := encode 0 obj

theorem atDepth_eq_ok {depth : Nat} {x : Except CanonError Canon} {c : Canon} :
    atDepth depth x = .ok c ↔ depth ≤ maxDepth ∧ x = .ok c := by
  unfold atDepth
  split_ifs with h
  · simp [Nat.not_le.2 h]
  · simp [Nat.not_lt.1 h]

/-! ## The elements of an encoded container -/

/-- `encode` at a fixed depth as a relation. -/
def Encodes (depth : Nat) (v : PyVal) (c : Canon) : Prop := encode depth v = .ok c

def PairEncodes (depth : Nat) (p : PyVal × PyVal) (c : Canon × Canon) : Prop :=
  Encodes depth p.1 c.1 ∧ Encodes depth p.2 c.2

theorem encodeItems_iff {depth : Nat} {items : List PyVal} {canons : List Canon} :
    encodeItems depth items = .ok canons ↔ List.Forall₂ (Encodes depth) items canons := by
  refine loop_ok_iff (encodeItems depth) rfl fun item items canons => ?_
  simp only [encodeItems, bind_eq_ok, pure_eq_ok, exists_and_left, Encodes]

theorem encodePairs_iff {depth : Nat} {items : List (PyVal × PyVal)}
    {pairs : List (Canon × Canon)} :
    encodePairs depth items = .ok pairs ↔ List.Forall₂ (PairEncodes depth) items pairs := by
  refine loop_ok_iff (encodePairs depth) rfl fun item items pairs => ?_
  simp only [encodePairs, bind_eq_ok, pure_eq_ok, Prod.exists, PairEncodes, Encodes]
  constructor
  · rintro ⟨k, hk, v, hv, cs, hcs, rfl⟩
    exact ⟨k, v, cs, ⟨hk, hv⟩, hcs, rfl⟩
  · rintro ⟨k, v, cs, ⟨hk, hv⟩, hcs, rfl⟩
    exact ⟨k, hk, v, hv, cs, hcs, rfl⟩

/-! ## The printed tree determines the tree -/

/-- The document of a tree holds its keys in the order they are printed in. -/
theorem sortedKeys_two {a b : Json} (ha : SortedKeys a) (hb : SortedKeys b) :
    SortedKeys (.obj [(lit "__t", a), (lit "v", b)]) := by
  have hkeys : lit "__t" < lit "v" := by decide
  simp [SortedKeys, SortedFields, ha, hb, hkeys]

mutual

theorem sortedKeys_toJson : ∀ c : Canon, SortedKeys c.toJson
  | .none | .bool _ | .int _ | .str _ => trivial
  | .float _ | .bytes _ => sortedKeys_two trivial trivial
  | .seq _ items => sortedKeys_two trivial (sortedKeys_toJsonItems items)
  | .dict pairs => sortedKeys_two trivial (sortedKeys_toJsonPairs pairs)
  | .obj _ attrs => by
    have hitems := sortedKeys_toJsonAttrs attrs
    have h1 : lit "__t" < lit "type" := by decide
    have h2 : lit "__t" < lit "v" := by decide
    have h3 : lit "type" < lit "v" := by decide
    simp [Canon.toJson, tagField, SortedKeys, SortedFields, hitems, h1, h2, h3]

theorem sortedKeys_toJsonItems : ∀ items : List Canon, SortedItems (toJsonItems items)
  | [] => trivial
  | item :: items => ⟨sortedKeys_toJson item, sortedKeys_toJsonItems items⟩

theorem sortedKeys_toJsonPairs : ∀ pairs : List (Canon × Canon), SortedItems (toJsonPairs pairs)
  | [] => trivial
  | (key, value) :: pairs =>
    ⟨⟨sortedKeys_toJson key, sortedKeys_toJson value, trivial⟩, sortedKeys_toJsonPairs pairs⟩

theorem sortedKeys_toJsonAttrs : ∀ attrs : List (PyStr × Canon), SortedItems (toJsonAttrs attrs)
  | [] => trivial
  | (_, value) :: attrs =>
    ⟨⟨trivial, sortedKeys_toJson value, trivial⟩, sortedKeys_toJsonAttrs attrs⟩

end

theorem seqTag_text_injective {s t : SeqTag} (h : s.text = t.text) : s = t := by
  cases s <;> cases t <;> first | rfl | exact absurd h (by decide)

/-- The tag a tree is printed under; scalars are printed without one. -/
def Canon.tag : Canon → Option PyStr
  | .float _ => some (lit "float")
  | .bytes _ => some (lit "bytes")
  | .seq tag _ => some tag.text
  | .dict _ => some (lit "dict")
  | .obj _ _ => some (lit "obj")
  | _ => Option.none

def tagOf : Json → Option PyStr
  | .obj ((_, .str tag) :: _) => some tag
  | _ => Option.none

theorem tagOf_toJson (c : Canon) : tagOf c.toJson = c.tag := by
  cases c <;> simp [Canon.toJson, tagField, tagOf, Canon.tag]

theorem tag_eq_of_toJson {c d : Canon} (h : c.toJson = d.toJson) : c.tag = d.tag := by
  simpa [tagOf_toJson] using congrArg tagOf h

/-- The tag of a sequence is none of the others. -/
theorem seqTag_text_ne (tag : SeqTag) :
    tag.text ≠ lit "float" ∧ tag.text ≠ lit "bytes" ∧ tag.text ≠ lit "dict" ∧
      tag.text ≠ lit "obj" := by
  cases tag <;> decide

mutual

/-- No two trees are the same document: user data only stands behind a `"v"` or a `"type"`, so it
is never taken for a tag. -/
theorem toJson_injective : ∀ {c d : Canon}, c.toJson = d.toJson → c = d
  | .none, d, h => by cases d <;> first | rfl | cases h
  | .bool b, d, h => by cases d <;> first | (cases h; rfl) | cases h
  | .int n, d, h => by cases d <;> first | (cases h; rfl) | cases h
  | .str s, d, h => by cases d <;> first | (cases h; rfl) | cases h
  | .float x, d, h => by
    have htag := tag_eq_of_toJson h
    cases d with
    | float y =>
      simp only [Canon.toJson, Json.obj.injEq, List.cons.injEq, Prod.mk.injEq, Json.str.injEq,
        true_and, and_true] at h
      rw [HexFloat.text_injective h]
    | seq tag _ => exact absurd (Option.some.inj htag).symm (seqTag_text_ne tag).1
    | bytes _ | dict _ | obj _ _ => exact absurd (Option.some.inj htag) (by decide)
    | none | bool _ | int _ | str _ => cases htag
  | .bytes data, d, h => by
    have htag := tag_eq_of_toJson h
    cases d with
    | bytes data' =>
      simp only [Canon.toJson, Json.obj.injEq, List.cons.injEq, Prod.mk.injEq, Json.str.injEq,
        true_and, and_true] at h
      rw [base64_injective h]
    | seq tag _ => exact absurd (Option.some.inj htag).symm (seqTag_text_ne tag).2.1
    | float _ | dict _ | obj _ _ => exact absurd (Option.some.inj htag) (by decide)
    | none | bool _ | int _ | str _ => cases htag
  | .seq tag items, d, h => by
    have htag := tag_eq_of_toJson h
    cases d with
    | seq tag' items' =>
      simp only [Canon.toJson, Json.obj.injEq, List.cons.injEq, Prod.mk.injEq, Json.arr.injEq,
        true_and, and_true] at h
      rw [seqTag_text_injective (Option.some.inj htag), toJsonItems_injective h.2]
    | float _ => exact absurd (Option.some.inj htag) (seqTag_text_ne tag).1
    | bytes _ => exact absurd (Option.some.inj htag) (seqTag_text_ne tag).2.1
    | dict _ => exact absurd (Option.some.inj htag) (seqTag_text_ne tag).2.2.1
    | obj _ _ => exact absurd (Option.some.inj htag) (seqTag_text_ne tag).2.2.2
    | none | bool _ | int _ | str _ => cases htag
  | .dict pairs, d, h => by
    have htag := tag_eq_of_toJson h
    cases d with
    | dict pairs' =>
      simp only [Canon.toJson, Json.obj.injEq, List.cons.injEq, Prod.mk.injEq, Json.arr.injEq,
        true_and, and_true] at h
      rw [toJsonPairs_injective h]
    | seq tag _ => exact absurd (Option.some.inj htag).symm (seqTag_text_ne tag).2.2.1
    | float _ | bytes _ | obj _ _ => exact absurd (Option.some.inj htag) (by decide)
    | none | bool _ | int _ | str _ => cases htag
  | .obj typeName attrs, d, h => by
    have htag := tag_eq_of_toJson h
    cases d with
    | obj typeName' attrs' =>
      simp only [Canon.toJson, Json.obj.injEq, List.cons.injEq, Prod.mk.injEq, Json.str.injEq,
        Json.arr.injEq, true_and, and_true] at h
      rw [h.1, toJsonAttrs_injective h.2]
    | seq tag _ => exact absurd (Option.some.inj htag).symm (seqTag_text_ne tag).2.2.2
    | float _ | bytes _ | dict _ => exact absurd (Option.some.inj htag) (by decide)
    | none | bool _ | int _ | str _ => cases htag

theorem toJsonItems_injective : ∀ {xs ys : List Canon}, toJsonItems xs = toJsonItems ys → xs = ys
  | [], [], _ => rfl
  | [], _ :: _, h => by cases h
  | _ :: _, [], h => by cases h
  | x :: xs, y :: ys, h => by
    have hcons := List.cons.inj h
    rw [toJson_injective hcons.1, toJsonItems_injective hcons.2]

theorem toJsonPairs_injective : ∀ {xs ys : List (Canon × Canon)},
    toJsonPairs xs = toJsonPairs ys → xs = ys
  | [], [], _ => rfl
  | [], _ :: _, h => by cases h
  | _ :: _, [], h => by cases h
  | (key, value) :: xs, (key', value') :: ys, h => by
    have hcons := List.cons.inj h
    have hpair := Json.arr.inj hcons.1
    simp only [List.cons.injEq, and_true] at hpair
    rw [toJson_injective hpair.1, toJson_injective hpair.2, toJsonPairs_injective hcons.2]

theorem toJsonAttrs_injective : ∀ {xs ys : List (PyStr × Canon)},
    toJsonAttrs xs = toJsonAttrs ys → xs = ys
  | [], [], _ => rfl
  | [], _ :: _, h => by cases h
  | _ :: _, [], h => by cases h
  | (name, value) :: xs, (name', value') :: ys, h => by
    have hcons := List.cons.inj h
    have hpair := Json.arr.inj hcons.1
    simp only [List.cons.injEq, Json.str.injEq, and_true] at hpair
    rw [hpair.1, toJson_injective hpair.2, toJsonAttrs_injective hcons.2]

end

/-- Trees with the same bytes are the same tree. -/
theorem canonicalBytes_injective {c d : Canon} {k : Bytes} (hc : canonicalBytes c = .ok k)
    (hd : canonicalBytes d = .ok k) : c = d := by
  have hprinted : ∀ {e : Canon}, canonicalBytes e = .ok k → utf8 (dumps e.toJson) = k := by
    intro e he
    unfold canonicalBytes at he
    split_ifs at he
    exact Except.ok.inj he
  have hutf8 : utf8 (dumps c.toJson) = utf8 (dumps d.toJson) := by
    rw [hprinted hc, hprinted hd]
  apply toJson_injective
  exact dumps_injective (sortedKeys_toJson c) (sortedKeys_toJson d) (utf8_injective hutf8)

/-! ## Trees that have bytes -/

/-- No integer too long to print, no surrogate. -/
def Canon.clean (c : Canon) : Bool := c.toJson.printable

theorem canonicalBytes_of_clean {c : Canon} (h : c.clean = true) :
    ∃ k, canonicalBytes c = .ok k := by
  have hparts : c.toJson.hasLongInt = false ∧ c.toJson.encodable = true := by
    simpa [Canon.clean, Json.printable] using h
  refine ⟨utf8 (dumps c.toJson), ?_⟩
  simp [canonicalBytes, hparts, encodable_dumps]

theorem clean_of_canonicalBytes {c : Canon} {k : Bytes} (h : canonicalBytes c = .ok k) :
    c.clean = true := by
  unfold canonicalBytes at h
  split_ifs at h with hlong hsurrogate
  have hencodable : c.toJson.encodable = true := by simpa [encodable_dumps] using hsurrogate
  simp [Canon.clean, Json.printable, hlong, hencodable]

theorem printable_tagged {tag : PyStr} {content : Json} (htag : encodable tag = true) :
    (Json.obj [tagField tag, (lit "v", content)]).printable = true ↔
      content.printable = true := by
  have hnames : encodable (lit "__t") = true ∧ encodable (lit "v") = true := by decide
  have hstr : (Json.str tag).printable = true := by
    simp [Json.printable, Json.hasLongInt, Json.encodable, htag]
  simp [printable_obj, tagField, hnames, hstr]

theorem toJsonItems_eq_map (items : List Canon) : toJsonItems items = items.map Canon.toJson := by
  induction items with
  | nil => rfl
  | cons item items ih => simp [toJsonItems, ih]

theorem toJsonPairs_eq_map (pairs : List (Canon × Canon)) :
    toJsonPairs pairs = pairs.map fun p => .arr [p.1.toJson, p.2.toJson] := by
  induction pairs with
  | nil => rfl
  | cons p pairs ih => simp [toJsonPairs, ih]

theorem clean_seq {tag : SeqTag} {items : List Canon} :
    (Canon.seq tag items).clean = true ↔ ∀ c ∈ items, c.clean = true := by
  have htag : encodable tag.text = true := by cases tag <;> decide
  simp [Canon.clean, Canon.toJson, printable_tagged htag, printable_arr, toJsonItems_eq_map]

theorem clean_dict {pairs : List (Canon × Canon)} :
    (Canon.dict pairs).clean = true ↔ ∀ p ∈ pairs, p.1.clean = true ∧ p.2.clean = true := by
  have htag : encodable (lit "dict") = true := by decide
  have hpair : ∀ a b : Json, (Json.arr [a, b]).printable = true ↔
      a.printable = true ∧ b.printable = true := by
    intro a b
    simp [printable_arr]
  simp only [Canon.clean, Canon.toJson, printable_tagged htag, printable_arr, toJsonPairs_eq_map,
    List.forall_mem_map, hpair]

end Tempest
