import Tempest.Compare.Untagged

/-!
# TsAgree — JavaScript values that agree, and documents that are equal

`Agree` is the equality of JavaScript values, objects, maps and sets unordered; read loosely it lets
pass what the code does not see: what lies below the depth cap, a member named `__proto__`, a nested
boolean in the place of the number it equals.  Values with equal documents agree loosely, unless one
of them spells a marker.
-/

namespace Tempest
namespace Ts

open Python

/-! ## Induction over values -/

def JsVal.isScalar : JsVal → Bool
  | .arr _ | .map _ | .set _ | .obj _ => false
  | _ => true

section Induction

set_option linter.unusedSectionVars false

variable {P : JsVal → Prop} (scalar : ∀ u, u.isScalar = true → P u)
  (arr : ∀ items, (∀ x ∈ items, P x) → P (.arr items))
  (map : ∀ entries, (∀ e ∈ entries, P e.1 ∧ P e.2) → P (.map entries))
  (set : ∀ items, (∀ x ∈ items, P x) → P (.set items))
  (obj : ∀ fields, (∀ f ∈ fields, P f.2) → P (.obj fields))

include scalar arr map set obj

mutual

theorem JsVal.ind : ∀ u, P u
  | .null | .undefined | .bool _ | .num _ | .str _ | .bigint _ | .date _ => scalar _ rfl
  | .arr items => arr items (JsVal.ind_items items)
  | .map entries => map entries (JsVal.ind_entries entries)
  | .set items => set items (JsVal.ind_items items)
  | .obj fields => obj fields (JsVal.ind_fields fields)

theorem JsVal.ind_items : ∀ items : List JsVal, ∀ x ∈ items, P x
  | [] => by simp
  | item :: items => List.forall_mem_cons.2 ⟨JsVal.ind item, JsVal.ind_items items⟩

theorem JsVal.ind_entries : ∀ entries : List (JsVal × JsVal), ∀ e ∈ entries, P e.1 ∧ P e.2
  | [] => by simp
  | (key, value) :: entries =>
    List.forall_mem_cons.2 ⟨⟨JsVal.ind key, JsVal.ind value⟩, JsVal.ind_entries entries⟩

theorem JsVal.ind_fields : ∀ fields : List (JsStr × JsVal), ∀ f ∈ fields, P f.2
  | [] => by simp
  | (_, value) :: fields => List.forall_mem_cons.2 ⟨JsVal.ind value, JsVal.ind_fields fields⟩

end

end Induction

/-! ## Agreement -/

/-- How two values are read: `capped` passes over what lies below the depth cap, `loose` over
`__proto__` members and takes a nested boolean for its number. -/
structure Reading where
  capped : Bool
  loose : Bool

/-- A condition that is not asked below the cap. -/
def Reading.at (r : Reading) (depth : Nat) (p : Prop) : Prop :=
  r.capped = true ∧ maxDepth < depth ∨ p

def Reading.keeps (r : Reading) (key : JsStr) : Bool := !(r.loose && key == protoKey)

/-- `0` and `1` as numbers. -/
def bit (b : Bool) : HexFloat := .finite false (if b then 1023 else 0) 0

mutual

def Agree (r : Reading) (depth : Nat) : JsVal → JsVal → Prop
  | .null, v => r.at depth (v = .null)
  | .undefined, v => r.at depth (v = .undefined)
  | .bool b, v => r.at depth (v = .bool b ∨ r.loose = true ∧ 0 < depth ∧ v = .num (bit b))
  | .num x, v =>
    r.at depth (v = .num x ∨ r.loose = true ∧ 0 < depth ∧ ∃ b, x = bit b ∧ v = .bool b)
  | .str s, v => r.at depth (v = .str s)
  | .bigint n, v => r.at depth (v = .bigint n)
  | .date iso, v => r.at depth (v = .date iso)
  | .arr xs, v => r.at depth (∃ ys, v = .arr ys ∧ AgreeItems r (depth + 1) xs ys)
  | .set xs, v => r.at depth (∃ ys zs, v = .set ys ∧ ys.Perm zs ∧ AgreeItems r (depth + 1) xs zs)
  | .map xs, v => r.at depth (∃ ys zs, v = .map ys ∧ ys.Perm zs ∧ AgreeEntries r (depth + 1) xs zs)
  | .obj xs, v => r.at depth (∃ ys zs, v = .obj ys ∧
      (ys.filter fun f => r.keeps f.1).Perm zs ∧ AgreeFields r (depth + 1) xs zs)

def AgreeItems (r : Reading) (depth : Nat) : List JsVal → List JsVal → Prop
  | [], zs => zs = []
  | x :: xs, zs => ∃ y ys, zs = y :: ys ∧ Agree r depth x y ∧ AgreeItems r depth xs ys

def AgreeEntries (r : Reading) (depth : Nat) :
    List (JsVal × JsVal) → List (JsVal × JsVal) → Prop
  | [], zs => zs = []
  | (key, x) :: xs, zs => ∃ key' y ys, zs = (key', y) :: ys ∧ Agree r depth key key' ∧
      Agree r depth x y ∧ AgreeEntries r depth xs ys

def AgreeFields (r : Reading) (depth : Nat) :
    List (JsStr × JsVal) → List (JsStr × JsVal) → Prop
  | [], zs => zs = []
  | (key, x) :: xs, zs =>
    if r.keeps key = true then
      ∃ y ys, zs = (key, y) :: ys ∧ Agree r depth x y ∧ AgreeFields r depth xs ys
    else AgreeFields r depth xs zs

end

def Same (u v : JsVal) : Prop := Agree ⟨false, false⟩ 0 u v

def SameAbove (u v : JsVal) : Prop := Agree ⟨true, false⟩ 0 u v

/-- The same to one who does not see what the code does not see. -/
def Close (u v : JsVal) : Prop := Agree ⟨true, true⟩ 0 u v

/-! ## Conditions on the nodes of a value -/

section Nodes

variable (P : Nat → JsVal → Prop)

mutual

/-- `P` of a value and of all that is in it, each at its depth. -/
@[grind =]
def Everywhere (depth : Nat) : JsVal → Prop
  | .arr items => P depth (.arr items) ∧ EverywhereItems (depth + 1) items
  | .map entries => P depth (.map entries) ∧ EverywhereEntries (depth + 1) entries
  | .set items => P depth (.set items) ∧ EverywhereItems (depth + 1) items
  | .obj fields => P depth (.obj fields) ∧ EverywhereFields (depth + 1) fields
  | u => P depth u

def EverywhereItems (depth : Nat) : List JsVal → Prop
  | [] => True
  | item :: items => Everywhere depth item ∧ EverywhereItems depth items

def EverywhereEntries (depth : Nat) : List (JsVal × JsVal) → Prop
  | [] => True
  | (key, value) :: entries =>
    Everywhere depth key ∧ Everywhere depth value ∧ EverywhereEntries depth entries

def EverywhereFields (depth : Nat) : List (JsStr × JsVal) → Prop
  | [] => True
  | (_, value) :: fields => Everywhere depth value ∧ EverywhereFields depth fields

end

end Nodes

/-! ## Members of lists -/

section Lists

variable {collation : Collation} {depth : Nat} {r : Reading} {P : Nat → JsVal → Prop}

/-- `canonicalize` as a relation. -/
def Written (collation : Collation) (depth : Nat) (u : JsVal) (doc : JsonValue) : Prop :=
  canonicalize collation depth u = .ok doc

def EntryWritten (collation : Collation) (depth : Nat) (e : JsVal × JsVal)
    (doc : JsonValue × JsonValue) : Prop :=
  Written collation depth e.1 doc.1 ∧ Written collation depth e.2 doc.2

def FieldWritten (collation : Collation) (depth : Nat) (f : JsStr × JsVal)
    (doc : JsStr × JsonValue) : Prop :=
  f.1 = doc.1 ∧ Written collation depth f.2 doc.2

theorem items_ok {items : List JsVal} {docs : List JsonValue} :
    canonicalizeItems collation depth items = .ok docs ↔
      List.Forall₂ (Written collation depth) items docs := by
  refine loop_ok_iff (canonicalizeItems collation depth) rfl fun item items docs => ?_
  simp only [canonicalizeItems, bind_eq_ok, pure_eq_ok, exists_and_left, Written]

theorem entries_ok {entries : List (JsVal × JsVal)} {docs : List (JsonValue × JsonValue)} :
    canonicalizeEntries collation depth entries = .ok docs ↔
      List.Forall₂ (EntryWritten collation depth) entries docs := by
  refine loop_ok_iff (canonicalizeEntries collation depth) rfl fun e entries docs => ?_
  simp only [canonicalizeEntries, bind_eq_ok, pure_eq_ok, Prod.exists, EntryWritten, Written]
  constructor
  · rintro ⟨k, hk, v, hv, rest, hrest, rfl⟩
    exact ⟨k, v, rest, ⟨hk, hv⟩, hrest, rfl⟩
  · rintro ⟨k, v, rest, ⟨hk, hv⟩, hrest, rfl⟩
    exact ⟨k, hk, v, hv, rest, hrest, rfl⟩

theorem canonicalizeFields_eq_map (fields : List (JsStr × JsVal)) :
    canonicalizeFields collation depth fields =
      fields.map fun f => (f.1, canonicalize collation depth f.2) := by
  induction fields with
  | nil => rfl
  | cons f fields ih => simp [canonicalizeFields, ih]

theorem inOrder_ok {fields : List (JsStr × Except PyStr JsonValue)}
    {docs : List (JsStr × JsonValue)} :
    inOrder fields = .ok docs ↔ fields = docs.map fun f => (f.1, .ok f.2) := by
  induction fields generalizing docs with
  | nil =>
    constructor
    · intro h
      cases h
      rfl
    · intro h
      rw [List.map_eq_nil_iff.1 h.symm]
      rfl
  | cons f fields ih =>
    rcases f with ⟨key, doc⟩
    simp only [inOrder, bind_eq_ok, pure_eq_ok]
    constructor
    · rintro ⟨value, rfl, values, hvalues, rfl⟩
      rw [ih.1 hvalues]
      rfl
    · intro h
      cases docs with
      | nil => cases h
      | cons g docs =>
        obtain ⟨hhead, htail⟩ := List.cons.inj h
        obtain ⟨rfl, rfl⟩ := Prod.mk.inj hhead
        exact ⟨g.2, rfl, docs, ih.2 htail, rfl⟩

theorem sortKeys_map {α β : Type} (g : α → β) (fields : List (JsStr × α)) :
    sortKeys (fields.map fun f => (f.1, g f.2)) = (sortKeys fields).map fun f => (f.1, g f.2) :=
  (List.map_insertionSort _ _ (fun f : JsStr × α => (f.1, g f.2)) fields
    fun _ _ _ _ => Iff.rfl).symm

variable {fields : List (JsStr × JsVal)}

theorem fieldWritten_iff {docs : List (JsStr × JsonValue)} :
    List.Forall₂ (FieldWritten collation depth) fields docs ↔
      (fields.map fun f => (f.1, canonicalize collation depth f.2)) =
        docs.map fun f => (f.1, Except.ok f.2) := by
  induction fields generalizing docs with
  | nil =>
    cases docs with
    | nil => simp
    | cons g docs => simp
  | cons f fields ih =>
    cases docs with
    | nil => simp
    | cons g docs => simp [FieldWritten, Written, ih]

/-- The members of an object are written one by one, and sorted afterwards. -/
theorem fields_ok {out : List (JsStr × JsonValue)} :
    inOrder (sortKeys (canonicalizeFields collation depth fields)) = .ok out ↔
      ∃ docs, List.Forall₂ (FieldWritten collation depth) fields docs ∧ out = sortKeys docs := by
  have hwritten : ∀ docs, List.Forall₂ (FieldWritten collation depth) fields docs →
      inOrder (sortKeys (canonicalizeFields collation depth fields)) = .ok (sortKeys docs) := by
    intro docs hdocs
    rw [canonicalizeFields_eq_map, fieldWritten_iff.1 hdocs, sortKeys_map (Except.ok (ε := PyStr))]
    exact inOrder_ok.2 rfl
  constructor
  · intro h
    -- Every member was written, or the loop had thrown.
    have hmember : ∀ f ∈ fields, ∃ doc, Written collation depth f.2 doc := by
      intro f hf
      have hmem : (f.1, canonicalize collation depth f.2) ∈
          sortKeys (canonicalizeFields collation depth fields) := by
        rw [canonicalizeFields_eq_map]
        exact (List.mem_insertionSort _).2 (List.mem_map.2 ⟨f, hf, rfl⟩)
      rw [inOrder_ok.1 h] at hmem
      obtain ⟨g, -, hg⟩ := List.mem_map.1 hmem
      exact ⟨g.2, (Prod.mk.inj hg).2.symm⟩
    have hdocs : ∃ docs, List.Forall₂ (FieldWritten collation depth) fields docs := by
      clear h hwritten
      induction fields with
      | nil => exact ⟨[], .nil⟩
      | cons f fields ih =>
        obtain ⟨doc, hdoc⟩ := hmember f List.mem_cons_self
        obtain ⟨docs, hdocs⟩ := ih fun g hg => hmember g (List.mem_cons_of_mem _ hg)
        exact ⟨(f.1, doc) :: docs, .cons ⟨rfl, hdoc⟩ hdocs⟩
    obtain ⟨docs, hdocs⟩ := hdocs
    exact ⟨docs, hdocs, Except.ok.inj (h.symm.trans (hwritten docs hdocs))⟩
  · rintro ⟨docs, hdocs, rfl⟩
    exact hwritten docs hdocs

theorem agreeItems_iff {xs ys : List JsVal} :
    AgreeItems r depth xs ys ↔ List.Forall₂ (Agree r depth) xs ys := by
  induction xs generalizing ys with
  | nil => simp [AgreeItems]
  | cons x xs ih =>
    simp only [AgreeItems, List.forall₂_cons_left_iff, ih]
    constructor
    · rintro ⟨y, ys, rfl, hxy, hxs⟩
      exact ⟨y, ys, hxy, hxs, rfl⟩
    · rintro ⟨y, ys, hxy, hxs, rfl⟩
      exact ⟨y, ys, rfl, hxy, hxs⟩

theorem agreeEntries_iff {xs ys : List (JsVal × JsVal)} :
    AgreeEntries r depth xs ys ↔
      List.Forall₂ (fun e f => Agree r depth e.1 f.1 ∧ Agree r depth e.2 f.2) xs ys := by
  induction xs generalizing ys with
  | nil => simp [AgreeEntries]
  | cons x xs ih =>
    rcases x with ⟨key, x⟩
    simp only [AgreeEntries, List.forall₂_cons_left_iff, ih]
    constructor
    · rintro ⟨key', y, ys, rfl, hkey, hxy, hxs⟩
      exact ⟨(key', y), ys, ⟨hkey, hxy⟩, hxs, rfl⟩
    · rintro ⟨⟨key', y⟩, ys, ⟨hkey, hxy⟩, hxs, rfl⟩
      exact ⟨key', y, ys, rfl, hkey, hxy, hxs⟩

theorem agreeFields_iff {xs ys : List (JsStr × JsVal)} :
    AgreeFields r depth xs ys ↔ List.Forall₂ (fun f g => f.1 = g.1 ∧ Agree r depth f.2 g.2)
      (xs.filter fun f => r.keeps f.1) ys := by
  induction xs generalizing ys with
  | nil => simp [AgreeFields]
  | cons x xs ih =>
    rcases x with ⟨key, x⟩
    cases hkeeps : r.keeps key with
    | true =>
      simp only [AgreeFields, hkeeps, if_true, List.filter_cons, List.forall₂_cons_left_iff, ih]
      constructor
      · rintro ⟨y, ys, rfl, hxy, hxs⟩
        exact ⟨(key, y), ys, ⟨rfl, hxy⟩, hxs, rfl⟩
      · rintro ⟨⟨key', y⟩, ys, ⟨hkey, hxy⟩, hxs, rfl⟩
        obtain rfl : key = key' := hkey
        exact ⟨y, ys, rfl, hxy, hxs⟩
    | false =>
      simp only [AgreeFields, hkeeps, Bool.false_eq_true, if_false, List.filter_cons, ih]

theorem everywhereItems_iff {items : List JsVal} :
    EverywhereItems P depth items ↔ ∀ x ∈ items, Everywhere P depth x := by
  induction items with
  | nil => simp [EverywhereItems]
  | cons x items ih => simp [EverywhereItems, ih]

theorem everywhereEntries_iff {entries : List (JsVal × JsVal)} :
    EverywhereEntries P depth entries ↔
      ∀ e ∈ entries, Everywhere P depth e.1 ∧ Everywhere P depth e.2 := by
  induction entries with
  | nil => simp [EverywhereEntries]
  | cons e entries ih => simp [EverywhereEntries, ih, and_assoc]

theorem everywhereFields_iff :
    EverywhereFields P depth fields ↔ ∀ f ∈ fields, Everywhere P depth f.2 := by
  induction fields with
  | nil => simp [EverywhereFields]
  | cons f fields ih => simp [EverywhereFields, ih]

end Lists

/-! ## Numbers -/

section Numbers

variable {neg : Bool} {expo : Fin 2047} {frac : Fin (2 ^ 52)}

def roundSigned (q : ℚ) : Option ℚ :=
  if q < 0 then (roundMagnitude (-q)).map fun m => -m else roundMagnitude q

theorem finiteValue_eq (neg : Bool) (expo : Fin 2047) (frac : Fin (2 ^ 52)) :
    finiteValue neg expo frac =
      if neg then -(units expo frac * (2 : ℚ) ^ (-1074 : ℤ))
      else units expo frac * (2 : ℚ) ^ (-1074 : ℤ) := rfl

theorem magnitude_pos (h : units expo frac ≠ 0) :
    (0 : ℚ) < units expo frac * (2 : ℚ) ^ (-1074 : ℤ) :=
  mul_pos (by exact_mod_cast Nat.pos_of_ne_zero h) (by positivity)

theorem magnitude_nonneg : (0 : ℚ) ≤ units expo frac * (2 : ℚ) ^ (-1074 : ℤ) := by positivity

/-- The printed digits are read back as the number. -/
theorem printedInteger_rounds {v : Nat} (h : roundMagnitude (v : ℚ) = some (v : ℚ)) :
    roundMagnitude (printedInteger v : ℚ) = some (v : ℚ) := by
  unfold printedInteger
  dsimp only
  cases hfind : ((List.range 22).reverse.flatMap fun i => around v (10 ^ i)).find?
      fun n : Nat => decide (roundMagnitude n = some (v : ℚ)) with
  | some n =>
    have hn := List.find?_some hfind
    exact of_decide_eq_true hn
  | none => exact h

theorem roundSigned_signed {m n : ℚ} (hm : 0 ≤ m) (hn : 0 < n ∨ neg = false)
    (h : roundMagnitude m = some n) :
    roundSigned (if neg then -m else m) = some (if neg then -n else n) := by
  cases neg with
  | false => simp [roundSigned, not_lt.2 hm, h]
  | true =>
    have hpos : 0 < n := hn.resolve_right (by simp)
    have hne : m ≠ 0 := by
      rintro rfl
      have hzero : roundMagnitude 0 = some 0 := by
        refine @roundMagnitude_of_log 0 0 (-52) ?_ ?_ ?_
        · simp
        · simp
        · positivity
      rw [hzero] at h
      exact hpos.ne (Option.some.inj h)
    have hlt : -m < 0 := neg_neg_of_pos (lt_of_le_of_ne hm hne.symm)
    simp [roundSigned, h, lt_of_le_of_ne hm hne.symm]

/-- A number that is no negative zero is sent as a number that rounds to it. -/
theorem numeric_numberDocument (h : ¬ (neg = true ∧ units expo frac = 0)) :
    ∃ q, numeric (numberDocument neg expo frac) = some (.finite q) ∧
      roundSigned q = some (finiteValue neg expo frac) := by
  have hpos : (0 : ℚ) < units expo frac * (2 : ℚ) ^ (-1074 : ℤ) ∨ neg = false := by
    cases neg with
    | false => exact .inr rfl
    | true => exact .inl (magnitude_pos fun hzero => h ⟨rfl, hzero⟩)
  unfold numberDocument
  dsimp only
  by_cases hint : (finiteValue neg expo frac).den = 1 ∧ |finiteValue neg expo frac| < 10 ^ 21
  · rw [if_pos hint]
    -- The magnitude of an integral number is a natural number.
    have hmagnitude : (((finiteValue neg expo frac).num.natAbs : ℕ) : ℚ) =
        units expo frac * (2 : ℚ) ^ (-1074 : ℤ) := by
      have hnum : ((finiteValue neg expo frac).num : ℚ) = finiteValue neg expo frac :=
        Rat.coe_int_num_of_den_eq_one hint.1
      rw [Nat.cast_natAbs, Int.cast_abs, hnum, finiteValue_eq]
      cases neg with
      | false => exact abs_of_nonneg magnitude_nonneg
      | true => exact (abs_neg _).trans (abs_of_nonneg magnitude_nonneg)
    have hprinted : roundMagnitude (printedInteger (finiteValue neg expo frac).num.natAbs : ℚ) =
        some (units expo frac * (2 : ℚ) ^ (-1074 : ℤ)) := by
      rw [← hmagnitude]
      refine printedInteger_rounds ?_
      rw [hmagnitude]
      exact roundMagnitude_units expo frac
    generalize printedInteger (finiteValue neg expo frac).num.natAbs = printed at hprinted ⊢
    have hcast : ((if neg = true then -(printed : Int) else printed : Int) : ℚ) =
        if neg = true then -(printed : ℚ) else printed := by
      split_ifs <;> simp
    refine ⟨_, rfl, ?_⟩
    rw [hcast, finiteValue_eq]
    exact roundSigned_signed (Nat.cast_nonneg _) hpos hprinted
  · rw [if_neg hint]
    refine ⟨_, rfl, ?_⟩
    rw [finiteValue_eq]
    exact roundSigned_signed magnitude_nonneg hpos (roundMagnitude_units expo frac)

/-- Equal numbers come from one number. -/
theorem number_eq {neg' : Bool} {expo' : Fin 2047} {frac' : Fin (2 ^ 52)}
    (h : ¬ (neg = true ∧ units expo frac = 0)) (h' : ¬ (neg' = true ∧ units expo' frac' = 0))
    (heq : numeric (numberDocument neg expo frac) = numeric (numberDocument neg' expo' frac')) :
    HexFloat.finite neg expo frac = .finite neg' expo' frac' := by
  obtain ⟨q, hq, hround⟩ := numeric_numberDocument h
  obtain ⟨q', hq', hround'⟩ := numeric_numberDocument h'
  obtain rfl : q = q' := by
    rw [hq, hq'] at heq
    exact Numeric.finite.inj (Option.some.inj heq)
  obtain ⟨rfl, rfl, hneg⟩ := eq_of_finiteValue (Option.some.inj (hround.symm.trans hround'))
  rcases hneg with rfl | hzero
  · rfl
  · -- A zero that is no negative zero has no sign.
    have hpos : neg = false := by simpa [hzero] using h
    have hpos' : neg' = false := by simpa [hzero] using h'
    rw [hpos, hpos']

theorem finiteValue_bit (b : Bool) :
    finiteValue false (if b then 1023 else 0) 0 = if b then 1 else 0 := by
  cases b with
  | false => simp [finiteValue, units]
  | true =>
    have hnormal : (1023 : Fin 2047).val ≠ 0 := by decide
    have hexpo : ((1023 : Fin 2047).val : ℤ) - 1075 = -52 := by decide
    simp only [finiteValue_eq, if_true, Bool.false_eq_true, if_false, units_normal 0 hnormal,
      hexpo]
    norm_num

/-- A boolean equals the number it stands for. -/
theorem number_eq_bool {b : Bool} (h : ¬ (neg = true ∧ units expo frac = 0))
    (heq : numeric (.bool b) = numeric (numberDocument neg expo frac)) :
    HexFloat.finite neg expo frac = bit b := by
  obtain ⟨q, hq, hround⟩ := numeric_numberDocument h
  have hbit : q = finiteValue false (if b then 1023 else 0) 0 := by
    rw [hq] at heq
    rw [finiteValue_bit]
    exact (Numeric.finite.inj (Option.some.inj heq)).symm
  have hself : roundSigned (finiteValue false (if b then 1023 else 0) 0) =
      some (finiteValue false (if b then 1023 else 0) 0) :=
    @roundSigned_signed false _ _ magnitude_nonneg (.inr rfl) (roundMagnitude_units _ _)
  rw [hbit, hself] at hround
  obtain ⟨hexpo, hfrac, hneg⟩ := eq_of_finiteValue (Option.some.inj hround)
  have hpos : neg = false := by
    rcases hneg with hneg | hzero
    · exact hneg.symm
    · rw [hexpo, hfrac] at hzero
      simpa [hzero] using h
  rw [bit, hpos, hexpo, hfrac]

end Numbers

/-! ## What a value is written as -/

section Shapes

variable {collation : Collation} {depth : Nat} {u v : JsVal} {doc : JsonValue}

def plainName : JsVal → Option PyStr
  | .undefined => some (lit "undefined")
  | .num .nan => some (lit "nan")
  | .num (.inf false) => some (lit "inf")
  | .num (.inf true) => some (lit "-inf")
  | .num (.finite neg expo frac) =>
    if neg = true ∧ units expo frac = 0 then some (lit "negzero") else none
  | _ => none

inductive TaggedShape (collation : Collation) (depth : Nat) : JsVal → PyStr → JsonValue → Prop
  | bigint (n : Int) : TaggedShape collation depth (.bigint n) (lit "bigint") (.str (intText n))
  | date (iso : IsoText) :
      TaggedShape collation depth (.date (some iso)) (lit "date") (.str iso.text)
  | map {entries : List (JsVal × JsVal)} {docs : List (JsonValue × JsonValue)}
      (hdocs : List.Forall₂ (EntryWritten collation (depth + 1)) entries docs) :
      TaggedShape collation depth (.map entries) (lit "map")
        (.arr ((collation.sortEntries docs).map fun e => .arr [e.1, e.2]))
  | set {items : List JsVal} {docs : List JsonValue}
      (hdocs : List.Forall₂ (Written collation (depth + 1)) items docs) :
      TaggedShape collation depth (.set items) (lit "set") (.arr (collation.sort docs))

inductive Shape (collation : Collation) (depth : Nat) : JsVal → JsonValue → Prop
  | null : Shape collation depth .null .null
  | bool (b : Bool) : Shape collation depth (.bool b) (.bool b)
  | num {neg : Bool} {expo : Fin 2047} {frac : Fin (2 ^ 52)}
      (h : ¬ (neg = true ∧ units expo frac = 0)) :
      Shape collation depth (.num (.finite neg expo frac)) (numberDocument neg expo frac)
  | str (s : JsStr) : Shape collation depth (.str s) (.str (ofUtf16 s))
  | arr {items : List JsVal} {docs : List JsonValue} (hlen : items.length ≤ maxItems)
      (hdocs : List.Forall₂ (Written collation (depth + 1)) items docs) :
      Shape collation depth (.arr items) (.arr docs)
  | plain {u : JsVal} {name : PyStr} (h : plainName u = some name) :
      Shape collation depth u (marker name)
  | tagged {u : JsVal} {name : PyStr} {content : JsonValue}
      (h : TaggedShape collation depth u name content) : Shape collation depth u (tagged name content)
  | obj {fields : List (JsStr × JsVal)} {docs : List (JsStr × JsonValue)}
      (hlen : fields.length ≤ maxItems)
      (hdocs : List.Forall₂ (FieldWritten collation (depth + 1)) fields docs) :
      Shape collation depth (.obj fields) (.obj (ownFields (sortKeys docs)))

theorem atDepth_of_le {doc : Except PyStr JsonValue} (h : depth ≤ maxDepth) :
    atDepth depth doc = doc :=
  if_neg (Nat.not_lt.2 h)

theorem shape_num (x : HexFloat) : Shape collation depth (.num x) (canonicalNumber x) := by
  cases x with
  | nan => exact .plain rfl
  | inf neg => cases neg <;> exact .plain rfl
  | finite neg expo frac =>
    simp only [canonicalNumber]
    split_ifs with h
    · exact .plain (if_pos h)
    · exact .num h

theorem shape_of_written (hdepth : depth ≤ maxDepth) (h : Written collation depth u doc) :
    Shape collation depth u doc := by
  unfold Written at h
  cases u with
  | null =>
    rw [canonicalize, atDepth_of_le hdepth] at h
    cases h
    exact .null
  | undefined =>
    rw [canonicalize, atDepth_of_le hdepth] at h
    cases h
    exact .plain rfl
  | bool b =>
    rw [canonicalize, atDepth_of_le hdepth] at h
    cases h
    exact .bool b
  | num x =>
    rw [canonicalize, atDepth_of_le hdepth] at h
    cases h
    exact shape_num x
  | str s =>
    rw [canonicalize, atDepth_of_le hdepth] at h
    cases h
    exact .str s
  | bigint n =>
    rw [canonicalize, atDepth_of_le hdepth] at h
    cases h
    exact .tagged (.bigint n)
  | date iso =>
    cases iso with
    | none =>
      rw [canonicalize, atDepth_of_le hdepth] at h
      cases h
    | some iso =>
      rw [canonicalize, atDepth_of_le hdepth] at h
      cases h
      exact .tagged (.date iso)
  | arr items =>
    rw [canonicalize, atDepth_of_le hdepth] at h
    split_ifs at h with hlen
    obtain ⟨docs, hdocs, hdoc⟩ := bind_eq_ok.1 h
    obtain rfl := pure_eq_ok.1 hdoc
    exact .arr (Nat.not_lt.1 hlen) (items_ok.1 hdocs)
  | map entries =>
    rw [canonicalize, atDepth_of_le hdepth] at h
    obtain ⟨docs, hdocs, hdoc⟩ := bind_eq_ok.1 h
    obtain rfl := pure_eq_ok.1 hdoc
    exact .tagged (.map (entries_ok.1 hdocs))
  | set items =>
    rw [canonicalize, atDepth_of_le hdepth] at h
    obtain ⟨docs, hdocs, hdoc⟩ := bind_eq_ok.1 h
    obtain rfl := pure_eq_ok.1 hdoc
    exact .tagged (.set (items_ok.1 hdocs))
  | obj fields =>
    rw [canonicalize, atDepth_of_le hdepth] at h
    split_ifs at h with hlen
    obtain ⟨out, hout, hdoc⟩ := bind_eq_ok.1 h
    obtain rfl := pure_eq_ok.1 hdoc
    obtain ⟨docs, hdocs, rfl⟩ := fields_ok.1 hout
    exact .obj (Nat.not_lt.1 hlen) hdocs

/-! ## Kinds of documents -/

/-- `==` holds only between documents of one kind. -/
def docKind : JsonValue → Nat
  | .null => 0
  | .bool _ | .int _ | .float _ => 1
  | .str _ => 2
  | .arr _ => 3
  | .obj _ => 4

theorem docKind_eq {a b : JsonValue} (h : pyEq a b = true) : docKind a = docKind b := by
  cases a <;> cases b <;> simp_all [pyEq, docKind, scalarEq, numeric]

theorem docKind_number (neg : Bool) (expo : Fin 2047) (frac : Fin (2 ^ 52)) :
    docKind (numberDocument neg expo frac) = 1 := by
  unfold numberDocument
  dsimp only
  split_ifs <;> rfl

theorem pyEq_str {s : PyStr} {b : JsonValue} (h : pyEq (.str s) b = true) : b = .str s := by
  cases b <;> simp_all [pyEq, scalarEq, numeric]

theorem pyEq_of_str {s : PyStr} {a : JsonValue} (h : pyEq a (.str s) = true) : a = .str s := by
  cases a <;> simp_all [pyEq, scalarEq, numeric]

theorem itemsEq_iff {xs ys : List JsonValue} :
    itemsEq xs ys = true ↔ List.Forall₂ (fun x y => pyEq x y = true) xs ys := by
  induction xs generalizing ys with
  | nil => cases ys <;> simp [itemsEq]
  | cons x xs ih => cases ys <;> simp [itemsEq, ih]

theorem fieldsIn_iff {xs ys : List (PyStr × JsonValue)} :
    fieldsIn xs ys = true ↔
      ∀ f ∈ xs, ∃ y, Dict.find f.1 ys = some y ∧ pyEq f.2 y = true := by
  induction xs with
  | nil => simp [fieldsIn]
  | cons f xs ih =>
    cases hfind : Dict.find f.1 ys <;> simp [fieldsIn, hfind, ih]

theorem shape_null (h : Shape collation depth v doc) (hkind : docKind doc = 0) : v = .null := by
  cases h with
  | null => rfl
  | num h =>
    rw [docKind_number] at hkind
    cases hkind
  | _ => cases hkind

theorem shape_number (h : Shape collation depth v doc) (hkind : docKind doc = 1) :
    (∃ b, v = .bool b ∧ doc = .bool b) ∨
      ∃ neg expo frac, v = .num (.finite neg expo frac) ∧ doc = numberDocument neg expo frac ∧
        ¬ (neg = true ∧ units expo frac = 0) := by
  cases h with
  | bool b => exact .inl ⟨b, rfl, rfl⟩
  | num h => exact .inr ⟨_, _, _, rfl, rfl, h⟩
  | _ => cases hkind

theorem shape_str (h : Shape collation depth v doc) (hkind : docKind doc = 2) :
    ∃ s, v = .str s ∧ doc = .str (ofUtf16 s) := by
  cases h with
  | str s => exact ⟨s, rfl, rfl⟩
  | num h =>
    rw [docKind_number] at hkind
    cases hkind
  | _ => cases hkind

theorem shape_arr (h : Shape collation depth v doc) (hkind : docKind doc = 3) :
    ∃ items docs, v = .arr items ∧ doc = .arr docs ∧
      List.Forall₂ (Written collation (depth + 1)) items docs := by
  cases h with
  | arr _ hdocs => exact ⟨_, _, rfl, rfl, hdocs⟩
  | num h =>
    rw [docKind_number] at hkind
    cases hkind
  | _ => cases hkind

theorem shape_dict (h : Shape collation depth v doc) (hkind : docKind doc = 4) :
    (∃ name, plainName v = some name ∧ doc = marker name) ∨
      (∃ name content, TaggedShape collation depth v name content ∧ doc = tagged name content) ∨
      ∃ fields docs, v = .obj fields ∧ doc = .obj (ownFields (sortKeys docs)) ∧
        List.Forall₂ (FieldWritten collation (depth + 1)) fields docs := by
  cases h with
  | plain h => exact .inl ⟨_, h, rfl⟩
  | tagged h => exact .inr (.inl ⟨_, _, h, rfl⟩)
  | obj _ hdocs => exact .inr (.inr ⟨_, _, rfl, rfl, hdocs⟩)
  | num h =>
    rw [docKind_number] at hkind
    cases hkind
  | _ => cases hkind

end Shapes

/-! ## Members of objects -/

section Rearranged

variable {α β : Type} {R : α → β → Prop}

/-- A relation of lists is kept when one of them is rearranged. -/
theorem rearrange {xs : List α} {ys ys' : List β} (h : List.Forall₂ R xs ys)
    (hperm : ys.Perm ys') : ∃ xs', xs.Perm xs' ∧ List.Forall₂ R xs' ys' := by
  obtain ⟨xs', hxs', hxs⟩ := List.perm_comp_forall₂ hperm.symm h.flip
  exact ⟨xs', hxs.symm, hxs'.flip⟩

/-- Three relations in a row. -/
theorem forall₂_trans {γ δ : Type} {S : γ → δ → Prop} {T : β → δ → Prop} {Q : α → γ → Prop}
    {xs : List α} {ys : List β} {zs : List δ} {ws : List γ} (hxy : List.Forall₂ R xs ys)
    (hyz : List.Forall₂ T ys zs) (hwz : List.Forall₂ S ws zs)
    (h : ∀ x ∈ xs, ∀ y z, ∀ w ∈ ws, R x y → T y z → S w z → Q x w) : List.Forall₂ Q xs ws := by
  induction hxy generalizing zs ws with
  | nil =>
    cases hyz
    cases hwz
    exact .nil
  | cons hx _ ih =>
    cases hyz with
    | cons hy hyz =>
      cases hwz with
      | cons hw hwz =>
        refine .cons (h _ List.mem_cons_self _ _ _ List.mem_cons_self hx hy hw)
          (ih hyz hwz fun x hx y z w hw => h x (List.mem_cons_of_mem _ hx) y z w
            (List.mem_cons_of_mem _ hw))

end Rearranged

section Members

variable {collation : Collation} {depth : Nat}

def isOwn (f : JsStr × JsVal) : Bool := f.1 ≠ protoKey

def MemberWritten (collation : Collation) (depth : Nat) (f : JsStr × JsVal)
    (item : PyStr × JsonValue) : Prop :=
  ofUtf16 f.1 = item.1 ∧ Written collation depth f.2 item.2

theorem ownFields_perm (docs : List (JsStr × JsonValue)) :
    (ownFields (sortKeys docs)).Perm (ownFields docs) :=
  ((List.perm_insertionSort _ docs).filter _).map _

theorem members_written {fields : List (JsStr × JsVal)} {docs : List (JsStr × JsonValue)}
    (h : List.Forall₂ (FieldWritten collation depth) fields docs) :
    List.Forall₂ (MemberWritten collation depth) (fields.filter isOwn) (ownFields docs) := by
  induction h with
  | nil => exact .nil
  | @cons f doc fields docs hf _ ih =>
    have hkey : f.1 = doc.1 := hf.1
    by_cases hproto : doc.1 = protoKey
    · simpa [ownFields, isOwn, List.filter_cons, hkey, hproto] using ih
    · simp only [ownFields, isOwn, List.filter_cons, hkey, hproto, ne_eq, not_false_eq_true,
        decide_true, if_true, List.map_cons]
      exact .cons ⟨congrArg ofUtf16 hkey, hf.2⟩ ih

/-- The members of an object in the order of a rearranged dict. -/
theorem members_of_perm {fields : List (JsStr × JsVal)} {docs : List (JsStr × JsonValue)}
    {items : List (PyStr × JsonValue)}
    (h : List.Forall₂ (FieldWritten collation depth) fields docs)
    (hitems : (ownFields (sortKeys docs)).Perm items) :
    ∃ members, (fields.filter isOwn).Perm members ∧
      List.Forall₂ (MemberWritten collation depth) members items := by
  have hperm : (ownFields docs).Perm items := (ownFields_perm docs).symm.trans hitems
  exact rearrange (members_written h) hperm

theorem keys_written {members : List (JsStr × JsVal)} {items : List (PyStr × JsonValue)}
    (h : List.Forall₂ (MemberWritten collation depth) members items) :
    items.map Prod.fst = members.map fun f => ofUtf16 f.1 := by
  induction h with
  | nil => rfl
  | cons hf _ ih => rw [List.map_cons, List.map_cons, ih, hf.1]

/-- Lists of members match when every member has a partner and there are as many. -/
theorem exists_matching {R : JsVal → JsVal → Prop} {xs ys : List (JsStr × JsVal)}
    (hkeys : (xs.map Prod.fst).Nodup) (hlen : xs.length = ys.length)
    (hpartner : ∀ f ∈ xs, ∃ g ∈ ys, f.1 = g.1 ∧ R f.2 g.2) :
    ∃ zs, ys.Perm zs ∧ List.Forall₂ (fun f g => f.1 = g.1 ∧ R f.2 g.2) xs zs := by
  have hzs : ∃ zs, List.Forall₂ (fun f g => f.1 = g.1 ∧ R f.2 g.2) xs zs ∧ ∀ g ∈ zs, g ∈ ys := by
    clear hkeys hlen
    induction xs with
    | nil => exact ⟨[], .nil, by simp⟩
    | cons f xs ih =>
      obtain ⟨g, hg, hfg⟩ := hpartner f List.mem_cons_self
      obtain ⟨zs, hzs, hsub⟩ := ih fun f hf => hpartner f (List.mem_cons_of_mem _ hf)
      exact ⟨g :: zs, .cons hfg hzs, List.forall_mem_cons.2 ⟨hg, hsub⟩⟩
  obtain ⟨zs, hzs, hsub⟩ := hzs
  refine ⟨zs, ?_, hzs⟩
  -- The partners have different keys, so they are all of the other list.
  have hsame : zs.map Prod.fst = xs.map Prod.fst := by
    clear hkeys hlen hpartner hsub
    induction hzs with
    | nil => rfl
    | cons hfg _ ih => rw [List.map_cons, List.map_cons, ih, hfg.1]
  have hnodup : zs.Nodup := by
    rw [← hsame] at hkeys
    exact hkeys.of_map
  have hsubperm : zs.Subperm ys := List.subperm_of_subset hnodup hsub
  exact (hsubperm.perm_of_length_le (by rw [← hlen, hzs.length_eq])).symm

end Members

/-! ## Objects that look like markers -/

def plainNames : List PyStr :=
  [lit "undefined", lit "nan", lit "inf", lit "-inf", lit "negzero"]

def taggedNames : List PyStr := [lit "bigint", lit "date", lit "map", lit "set"]

def SpellsMarker (fields : List (JsStr × JsVal)) : Prop :=
  (∃ name ∈ plainNames, fields.filter isOwn = [(utf16 tempestKey, .str (utf16 name))]) ∨
    ∃ name ∈ taggedNames, ∃ value, (fields.filter isOwn).Perm
      [(utf16 tempestKey, .str (utf16 name)), (js "v", value)]

section Spelled

variable {collation : Collation} {depth : Nat} {u v : JsVal} {name : PyStr}
  {content : JsonValue}

theorem plainName_mem (h : plainName u = some name) : name ∈ plainNames := by
  unfold plainName at h
  split at h
  · cases h
    decide
  · cases h
    decide
  · cases h
    decide
  · cases h
    decide
  · split_ifs at h
    cases h
    decide
  · cases h

theorem taggedName_mem (h : TaggedShape collation depth u name content) : name ∈ taggedNames := by
  cases h <;> decide

theorem written_capped {doc : JsonValue} (hdepth : maxDepth < depth)
    (h : Written collation depth u doc) : doc = marker (lit "depth-capped") := by
  have hcapped : ∀ x, atDepth depth x = .ok (marker (lit "depth-capped")) := fun x => if_pos hdepth
  unfold Written at h
  cases u with
  | date iso => cases iso <;> rw [canonicalize, hcapped] at h <;> exact (Except.ok.inj h).symm
  | _ =>
    rw [canonicalize, hcapped] at h
    exact (Except.ok.inj h).symm

theorem written_str {s : PyStr} (h : Written collation depth u (.str s)) : u = .str (utf16 s) := by
  by_cases hdepth : depth ≤ maxDepth
  · obtain ⟨t, rfl, hs⟩ := shape_str (shape_of_written hdepth h) rfl
    rw [JsonValue.str.inj hs, utf16_ofUtf16]
  · cases written_capped (Nat.not_le.1 hdepth) h

theorem spells_plain {fields : List (JsStr × JsVal)} {docs : List (JsStr × JsonValue)}
    (hdocs : List.Forall₂ (FieldWritten collation depth) fields docs)
    (hitems : ownFields (sortKeys docs) = [(tempestKey, .str name)]) (hname : name ∈ plainNames) :
    SpellsMarker fields := by
  obtain ⟨members, hperm, hmembers⟩ := members_of_perm hdocs (.of_eq hitems)
  cases hmembers with
  | @cons f _ _ _ hf hnil =>
    cases hnil
    have hkey : f.1 = utf16 tempestKey := by rw [← utf16_ofUtf16 f.1, hf.1]
    refine .inl ⟨name, hname, ?_⟩
    rw [List.perm_singleton.1 hperm, ← hkey, ← written_str hf.2]

theorem spells_tagged {fields : List (JsStr × JsVal)} {docs : List (JsStr × JsonValue)}
    (hdocs : List.Forall₂ (FieldWritten collation depth) fields docs)
    (hitems : (ownFields (sortKeys docs)).Perm [(tempestKey, .str name), (lit "v", content)])
    (hname : name ∈ taggedNames) : SpellsMarker fields := by
  obtain ⟨members, hperm, hmembers⟩ := members_of_perm hdocs hitems
  cases hmembers with
  | @cons f _ _ _ hf hrest =>
    cases hrest with
    | @cons g _ _ _ hg hnil =>
      cases hnil
      have hkey : f.1 = utf16 tempestKey := by rw [← utf16_ofUtf16 f.1, hf.1]
      have hkey' : g.1 = js "v" := by
        rw [← utf16_ofUtf16 g.1, hg.1]
        rfl
      refine .inr ⟨name, hname, g.2, ?_⟩
      rwa [← hkey, ← hkey', ← written_str hf.2]

/-! ## Dicts that equal a marker -/

theorem pyEq_marker {b : JsonValue} (h : pyEq (marker name) b = true) : b = marker name := by
  cases b with
  | obj ys =>
    simp only [marker, pyEq, Bool.and_eq_true, decide_eq_true_eq] at h
    obtain ⟨⟨k, y⟩, rfl⟩ := List.length_eq_one_iff.1 h.1.symm
    obtain ⟨y', hfind, heq⟩ := fieldsIn_iff.1 h.2 _ List.mem_cons_self
    obtain rfl := pyEq_str heq
    have hmem := Dict.mem_of_find hfind
    obtain ⟨rfl, rfl⟩ := Prod.mk.inj (List.mem_singleton.1 hmem)
    rfl
  | _ => simp [marker, pyEq, scalarEq, numeric] at h

theorem pyEq_of_marker {xs : List (PyStr × JsonValue)} (h : pyEq (.obj xs) (marker name) = true) :
    xs = [(tempestKey, .str name)] := by
  simp only [marker, pyEq, Bool.and_eq_true, decide_eq_true_eq] at h
  obtain ⟨⟨k, x⟩, rfl⟩ := List.length_eq_one_iff.1 h.1
  obtain ⟨y, hfind, heq⟩ := fieldsIn_iff.1 h.2 _ List.mem_cons_self
  have hmem := List.mem_singleton.1 (Dict.mem_of_find hfind)
  obtain ⟨rfl, rfl⟩ := Prod.mk.inj hmem
  have hx : x = .str name := pyEq_of_str heq
  rw [hx]

theorem tempestKey_ne : tempestKey ≠ lit "v" := by decide

theorem pyEq_tagged {b : JsonValue} (h : pyEq (tagged name content) b = true) :
    ∃ ys content', b = .obj ys ∧ ys.Perm [(tempestKey, .str name), (lit "v", content')] ∧
      pyEq content content' = true := by
  cases b with
  | obj ys =>
    simp only [tagged, pyEq, Bool.and_eq_true, decide_eq_true_eq] at h
    have hin := fieldsIn_iff.1 h.2
    obtain ⟨y, hfind, heq⟩ := hin (tempestKey, .str name) List.mem_cons_self
    obtain rfl := pyEq_str heq
    obtain ⟨content', hfind', heq'⟩ := hin (lit "v", content) (by simp)
    refine ⟨ys, content', rfl, ?_, heq'⟩
    have hnodup : [(tempestKey, JsonValue.str name), (lit "v", content')].Nodup := by
      simp [tempestKey_ne]
    have hsub : [(tempestKey, JsonValue.str name), (lit "v", content')] ⊆ ys := by
      intro f hf
      rcases List.mem_cons.1 hf with rfl | hf
      · exact Dict.mem_of_find hfind
      · obtain rfl := List.mem_singleton.1 hf
        exact Dict.mem_of_find hfind'
    exact ((List.subperm_of_subset hnodup hsub).perm_of_length_le h.1.symm.le).symm
  | _ => simp [tagged, pyEq, scalarEq, numeric] at h

theorem pyEq_of_tagged {xs : List (PyStr × JsonValue)} (hkeys : (xs.map Prod.fst).Nodup)
    (h : pyEq (.obj xs) (tagged name content) = true) :
    ∃ content', xs.Perm [(tempestKey, .str name), (lit "v", content')] := by
  simp only [tagged, pyEq, Bool.and_eq_true, decide_eq_true_eq] at h
  have hitem : ∀ f ∈ xs, f = (tempestKey, .str name) ∨ f.1 = lit "v" := by
    rintro ⟨k, x⟩ hf
    obtain ⟨y, hfind, heq⟩ := fieldsIn_iff.1 h.2 _ hf
    rcases List.mem_cons.1 (Dict.mem_of_find hfind) with hmem | hmem
    · obtain ⟨rfl, rfl⟩ := Prod.mk.inj hmem
      have hx : x = .str name := pyEq_of_str heq
      exact .inl (by rw [hx])
    · obtain ⟨rfl, -⟩ := Prod.mk.inj (List.mem_singleton.1 hmem)
      exact .inr rfl
  obtain ⟨⟨k, x⟩, ⟨k', x'⟩, rfl⟩ := List.length_eq_two.1 h.1
  have hne : k ≠ k' := by simpa using hkeys
  rcases hitem (k, x) (by simp) with hfirst | hfirst
  · rcases hitem (k', x') (by simp) with hsecond | hsecond
    · exact absurd ((Prod.mk.inj hfirst).1.trans (Prod.mk.inj hsecond).1.symm) hne
    · have hk : k' = lit "v" := hsecond
      exact ⟨x', by rw [hfirst, hk]⟩
  · have hk : k = lit "v" := hfirst
    rcases hitem (k', x') (by simp) with hsecond | hsecond
    · exact ⟨x, by rw [hsecond, hk]; exact .swap _ _ _⟩
    · exact absurd (hk.trans (show k' = lit "v" from hsecond).symm) hne

end Spelled

/-! ## Equal documents come from values that agree -/

def KeysNodup (_ : Nat) : JsVal → Prop
  | .obj fields => (fields.map Prod.fst).Nodup
  | _ => True

def NoMarker (depth : Nat) : JsVal → Prop
  | .obj fields => depth ≤ maxDepth → ¬ SpellsMarker fields
  | _ => True

def isBoolDoc : JsonValue → Bool
  | .bool _ => true
  | _ => false

/-- What equal documents say of the values. -/
def Sound (collation : Collation) (u : JsVal) : Prop :=
  ∀ depth v a b, Written collation depth u a → Written collation depth v b →
    Everywhere KeysNodup depth u → Everywhere NoMarker depth u → Everywhere NoMarker depth v →
    0 < depth ∨ isBoolDoc a = isBoolDoc b → pyEq a b = true → Agree ⟨true, true⟩ depth u v

section Soundness

variable {collation : Collation} {depth : Nat} {u v : JsVal} {a b : JsonValue} {r : Reading}

theorem agree_below (hr : r.capped = true) (hdepth : maxDepth < depth) : Agree r depth u v := by
  cases u <;> rw [Agree] <;> exact Or.inl ⟨hr, hdepth⟩

theorem pyEq_number (hkind : docKind a = 1) (h : pyEq a b = true) : numeric a = numeric b := by
  have hscalar : scalarEq a b = true := by
    cases a with
    | bool _ | int _ | float _ => simpa [pyEq] using h
    | null | str _ | arr _ | obj _ => cases hkind
  unfold scalarEq at hscalar
  split at hscalar
  · next x y hx hy => rw [hx, hy, of_decide_eq_true hscalar]
  · cases hscalar

variable {name name' : PyStr}

theorem plainName_cases (h : plainName u = some name) :
    u = .undefined ∧ name = lit "undefined" ∨ u = .num .nan ∧ name = lit "nan" ∨
      u = .num (.inf false) ∧ name = lit "inf" ∨ u = .num (.inf true) ∧ name = lit "-inf" ∨
      ∃ expo frac, u = .num (.finite true expo frac) ∧ units expo frac = 0 ∧
        name = lit "negzero" := by
  cases u with
  | undefined => exact .inl ⟨rfl, (Option.some.inj h).symm⟩
  | num x =>
    cases x with
    | nan => exact .inr (.inl ⟨rfl, (Option.some.inj h).symm⟩)
    | inf neg =>
      cases neg
      · exact .inr (.inr (.inl ⟨rfl, (Option.some.inj h).symm⟩))
      · exact .inr (.inr (.inr (.inl ⟨rfl, (Option.some.inj h).symm⟩)))
    | finite neg expo frac =>
      simp only [plainName] at h
      split_ifs at h with hzero
      obtain ⟨rfl, hunits⟩ := hzero
      exact .inr (.inr (.inr (.inr ⟨expo, frac, rfl, hunits, (Option.some.inj h).symm⟩)))
  | _ => cases h

theorem plainName_injective (hu : plainName u = some name) (hv : plainName v = some name) : u = v := by
  rcases plainName_cases hu with ⟨rfl, rfl⟩ | ⟨rfl, rfl⟩ | ⟨rfl, rfl⟩ | ⟨rfl, rfl⟩ |
    ⟨expo, frac, rfl, hunits, rfl⟩ <;>
  rcases plainName_cases hv with ⟨rfl, hname⟩ | ⟨rfl, hname⟩ | ⟨rfl, hname⟩ | ⟨rfl, hname⟩ |
    ⟨expo', frac', rfl, hunits', hname⟩ <;>
  first
  | rfl
  | exact absurd hname (by decide)
  | skip
  obtain ⟨rfl, rfl⟩ := units_injective (hunits.trans hunits'.symm)
  rfl

theorem agree_plain (h : plainName u = some name) : Agree r depth u u := by
  cases u with
  | undefined =>
    rw [Agree]
    exact Or.inr rfl
  | num x =>
    rw [Agree]
    exact Or.inr (Or.inl rfl)
  | _ => cases h

theorem agree_number {neg : Bool} {expo : Fin 2047} {frac : Fin (2 ^ 52)}
    (hzero : ¬ (neg = true ∧ units expo frac = 0)) (hv : Shape collation depth v b)
    (hmix : 0 < depth ∨ isBoolDoc (numberDocument neg expo frac) = isBoolDoc b)
    (h : pyEq (numberDocument neg expo frac) b = true) :
    Agree ⟨true, true⟩ depth (.num (.finite neg expo frac)) v := by
  have hkind := docKind_number neg expo frac
  have hnumeric := pyEq_number hkind h
  rcases shape_number hv ((docKind_eq h).symm.trans hkind) with
    ⟨c, rfl, rfl⟩ | ⟨neg', expo', frac', rfl, rfl, hzero'⟩
  · have hbit := number_eq_bool hzero hnumeric.symm
    have hdepth : 0 < depth := by
      refine hmix.resolve_right ?_
      have hno : isBoolDoc (numberDocument neg expo frac) = false := by
        unfold numberDocument
        dsimp only
        split_ifs <;> rfl
      rw [hno]
      exact fun h => (by cases h)
    rw [Agree]
    exact Or.inr (Or.inr ⟨rfl, hdepth, c, hbit, rfl⟩)
  · rw [Agree]
    exact Or.inr (Or.inl (by rw [number_eq hzero hzero' hnumeric]))

theorem agree_bool {c : Bool} (hv : Shape collation depth v b)
    (hmix : 0 < depth ∨ isBoolDoc (.bool c) = isBoolDoc b) (h : pyEq (.bool c) b = true) :
    Agree ⟨true, true⟩ depth (.bool c) v := by
  have hnumeric := pyEq_number rfl h
  rcases shape_number hv (docKind_eq h).symm with
    ⟨c', rfl, rfl⟩ | ⟨neg', expo', frac', rfl, rfl, hzero'⟩
  · have hc : c = c' := by
      cases c <;> cases c' <;> simp_all [numeric]
    rw [Agree]
    exact Or.inr (Or.inl (by rw [hc]))
  · have hbit := number_eq_bool hzero' hnumeric
    have hdepth : 0 < depth := by
      refine hmix.resolve_right ?_
      have hno : isBoolDoc (numberDocument neg' expo' frac') = false := by
        unfold numberDocument
        dsimp only
        split_ifs <;> rfl
      rw [hno]
      exact fun h => (by cases h)
    rw [Agree]
    exact Or.inr (Or.inr ⟨rfl, hdepth, by rw [hbit]⟩)

theorem isoText_injective {iso iso' : IsoText} (h : iso.text = iso'.text) : iso = iso' := by
  cases iso
  cases iso'
  cases h
  rfl

/-- The members of two lists agree when their documents are equal. -/
theorem agree_items {xs ys : List JsVal} {docs docs' : List JsonValue}
    (hxs : List.Forall₂ (Written collation (depth + 1)) xs docs)
    (hys : List.Forall₂ (Written collation (depth + 1)) ys docs')
    (h : List.Forall₂ (fun x y => pyEq x y = true) docs docs')
    (hsound : ∀ x ∈ xs, Sound collation x)
    (hkeys : ∀ x ∈ xs, Everywhere KeysNodup (depth + 1) x)
    (hmx : ∀ x ∈ xs, Everywhere NoMarker (depth + 1) x)
    (hmy : ∀ y ∈ ys, Everywhere NoMarker (depth + 1) y) :
    List.Forall₂ (Agree ⟨true, true⟩ (depth + 1)) xs ys := by
  refine forall₂_trans hxs h hys ?_
  intro x hx doc doc' y hy hdoc heq hdoc'
  exact hsound x hx _ _ _ _ hdoc hdoc' (hkeys x hx) (hmx x hx) (hmy y hy)
    (.inl (Nat.succ_pos _)) heq

theorem agree_tagged {content content' : JsonValue} (hu : TaggedShape collation depth u name content)
    (hv : TaggedShape collation depth v name' content') (hname : name = name')
    (h : pyEq content content' = true)
    (hitems : ∀ items, u = .set items → ∀ x ∈ items, Sound collation x)
    (hentries : ∀ entries, u = .map entries → ∀ e ∈ entries, Sound collation e.1 ∧ Sound collation e.2)
    (hkeys : Everywhere KeysNodup depth u) (hmu : Everywhere NoMarker depth u)
    (hmv : Everywhere NoMarker depth v) : Agree ⟨true, true⟩ depth u v := by
  cases hu with
  | bigint n =>
    cases hv with
    | bigint n' =>
      have hn : n' = n := intText_injective (JsonValue.str.inj (pyEq_str h))
      rw [Agree, hn]
      exact Or.inr rfl
    | _ => exact absurd hname (by decide)
  | date iso =>
    cases hv with
    | date iso' =>
      have hiso : iso' = iso := isoText_injective (JsonValue.str.inj (pyEq_str h))
      rw [Agree, hiso]
      exact Or.inr rfl
    | _ => exact absurd hname (by decide)
  | set hdocs =>
    cases hv with
    | @set ys docs' hdocs' =>
      simp only [Everywhere, everywhereItems_iff] at hkeys hmu hmv
      rw [pyEq, itemsEq_iff] at h
      -- The documents are compared in their sorted orders.
      obtain ⟨docs₂, heq, hperm⟩ :=
        List.perm_comp_forall₂ (List.perm_insertionSort _ _).symm h
      obtain ⟨zs, hzs, hwritten⟩ :=
        rearrange hdocs' (hperm.trans (List.perm_insertionSort _ docs')).symm
      rw [Agree]
      refine Or.inr ⟨ys, zs, rfl, hzs, agreeItems_iff.2 ?_⟩
      exact agree_items hdocs hwritten heq (hitems _ rfl) hkeys.2 hmu.2
        fun y hy => hmv.2 y (hzs.mem_iff.2 hy)
    | _ => exact absurd hname (by decide)
  | map hdocs =>
    cases hv with
    | @map ys docs' hdocs' =>
      simp only [Everywhere, everywhereEntries_iff] at hkeys hmu hmv
      rw [pyEq, itemsEq_iff, List.forall₂_map_left_iff, List.forall₂_map_right_iff] at h
      obtain ⟨docs₂, heq, hperm⟩ :=
        List.perm_comp_forall₂ (List.perm_insertionSort _ _).symm h
      obtain ⟨zs, hzs, hwritten⟩ :=
        rearrange hdocs' (hperm.trans (List.perm_insertionSort _ docs')).symm
      rw [Agree]
      refine Or.inr ⟨ys, zs, rfl, hzs, agreeEntries_iff.2 ?_⟩
      refine forall₂_trans hdocs heq hwritten ?_
      intro x hx doc doc' y hy hdoc hdocEq hdoc'
      have hpair : pyEq doc.1 doc'.1 = true ∧ pyEq doc.2 doc'.2 = true := by
        simpa [pyEq, itemsEq] using hdocEq
      have hym := hmv.2 y (hzs.mem_iff.2 hy)
      have hsound := hentries _ rfl x hx
      exact ⟨hsound.1 _ _ _ _ hdoc.1 hdoc'.1 (hkeys.2 x hx).1 (hmu.2 x hx).1 hym.1
          (.inl (Nat.succ_pos _)) hpair.1,
        hsound.2 _ _ _ _ hdoc.2 hdoc'.2 (hkeys.2 x hx).2 (hmu.2 x hx).2 hym.2
          (.inl (Nat.succ_pos _)) hpair.2⟩
    | _ => exact absurd hname (by decide)

theorem filter_keeps (fields : List (JsStr × JsVal)) :
    (fields.filter fun f => (⟨true, true⟩ : Reading).keeps f.1) = fields.filter isOwn := by
  refine List.filter_congr fun f _ => ?_
  by_cases hproto : f.1 = protoKey <;> simp [Reading.keeps, isOwn, hproto]

theorem agree_obj {fields fields' : List (JsStr × JsVal)} {docs docs' : List (JsStr × JsonValue)}
    (hu : List.Forall₂ (FieldWritten collation (depth + 1)) fields docs)
    (hv : List.Forall₂ (FieldWritten collation (depth + 1)) fields' docs')
    (h : pyEq (.obj (ownFields (sortKeys docs))) (.obj (ownFields (sortKeys docs'))) = true)
    (hsound : ∀ f ∈ fields, Sound collation f.2)
    (hkeys : Everywhere KeysNodup depth (.obj fields))
    (hmu : Everywhere NoMarker depth (.obj fields))
    (hmv : Everywhere NoMarker depth (.obj fields')) :
    Agree ⟨true, true⟩ depth (.obj fields) (.obj fields') := by
  simp only [Everywhere, everywhereFields_iff] at hkeys hmu hmv
  simp only [pyEq, Bool.and_eq_true, decide_eq_true_eq] at h
  have hmembers := members_written hu
  have hmembers' := members_written hv
  have hlen : (fields.filter isOwn).length = (fields'.filter isOwn).length := by
    rw [hmembers.length_eq, hmembers'.length_eq, ← (ownFields_perm docs).length_eq,
      ← (ownFields_perm docs').length_eq, h.1]
  have hnodup : ((fields.filter isOwn).map Prod.fst).Nodup :=
    hkeys.1.sublist (List.filter_sublist.map _)
  have hpartner : ∀ f ∈ fields.filter isOwn, ∃ g ∈ fields'.filter isOwn, f.1 = g.1 ∧
      Agree ⟨true, true⟩ (depth + 1) f.2 g.2 := by
    intro f hf
    obtain ⟨item, hitem, hwritten⟩ := forall₂_mem_right hmembers.flip hf
    obtain ⟨y, hfind, heq⟩ :=
      fieldsIn_iff.1 h.2 item ((ownFields_perm docs).mem_iff.2 hitem)
    have hy := (ownFields_perm docs').mem_iff.1 (Dict.mem_of_find hfind)
    obtain ⟨g, hg, hwritten'⟩ := forall₂_mem_right hmembers' hy
    have hfield := (List.mem_filter.1 hf).1
    have hfield' := (List.mem_filter.1 hg).1
    refine ⟨g, hg, ofUtf16_injective (hwritten.1.trans hwritten'.1.symm), ?_⟩
    exact hsound f hfield _ _ _ _ hwritten.2 hwritten'.2 (hkeys.2 f hfield) (hmu.2 f hfield)
      (hmv.2 g hfield') (.inl (Nat.succ_pos _)) heq
  obtain ⟨zs, hzs, hagree⟩ := exists_matching hnodup hlen hpartner
  rw [Agree]
  refine Or.inr ⟨fields', zs, rfl, ?_, agreeFields_iff.2 ?_⟩
  · rwa [filter_keeps]
  · rwa [filter_keeps]

theorem ownFields_keys {fields : List (JsStr × JsVal)} {docs : List (JsStr × JsonValue)}
    (hu : List.Forall₂ (FieldWritten collation depth) fields docs)
    (hkeys : (fields.map Prod.fst).Nodup) :
    ((ownFields (sortKeys docs)).map Prod.fst).Nodup := by
  rw [((ownFields_perm docs).map Prod.fst).nodup_iff, keys_written (members_written hu)]
  have hown : ((fields.filter isOwn).map Prod.fst).Nodup :=
    hkeys.sublist (List.filter_sublist.map _)
  have hmap : ((fields.filter isOwn).map fun f => ofUtf16 f.1) =
      ((fields.filter isOwn).map Prod.fst).map ofUtf16 := by
    rw [List.map_map]
    rfl
  rw [hmap]
  exact hown.map fun _ _ h => ofUtf16_injective h

theorem marker_ne_tagged {content : JsonValue} :
    marker name ≠ tagged name' content := by
  simp [marker, tagged]

theorem tagged_perm {content content' : JsonValue}
    (h : [(tempestKey, JsonValue.str name'), (lit "v", content')].Perm [(tempestKey, .str name), (lit "v", content)]) : name' = name ∧ content = content' := by
  have hfirst := h.mem_iff.1 (List.mem_cons_self)
  have hsecond := h.mem_iff.1 (List.mem_cons_of_mem _ (List.mem_singleton_self _))
  simp only [List.mem_cons, List.not_mem_nil, or_false, Prod.mk.injEq, JsonValue.str.injEq,
    tempestKey_ne, tempestKey_ne.symm, true_and, false_and, false_or] at hfirst hsecond
  exact ⟨hfirst, hsecond.symm⟩

/-- What holds of the members holds of the value. -/
theorem sound_step (u : JsVal)
    (hitems : ∀ items, u = .arr items ∨ u = .set items → ∀ x ∈ items, Sound collation x)
    (hentries : ∀ entries, u = .map entries →
      ∀ e ∈ entries, Sound collation e.1 ∧ Sound collation e.2)
    (hfields : ∀ fields, u = .obj fields → ∀ f ∈ fields, Sound collation f.2) :
    Sound collation u := by
  intro depth v a b ha hb hkeys hmu hmv hmix heq
  by_cases hdepth : depth ≤ maxDepth
  · have hu := shape_of_written hdepth ha
    have hv := shape_of_written hdepth hb
    have hkind := docKind_eq heq
    cases hu with
    | null =>
      obtain rfl := shape_null hv hkind.symm
      rw [Agree]
      exact Or.inr rfl
    | bool c => exact agree_bool hv hmix heq
    | num hzero => exact agree_number hzero hv hmix heq
    | str s =>
      obtain ⟨t, rfl, rfl⟩ := shape_str hv hkind.symm
      have hst : t = s := ofUtf16_injective (JsonValue.str.inj (pyEq_str heq))
      rw [Agree, hst]
      exact Or.inr rfl
    | arr hlen hdocs =>
      obtain ⟨ys, docs', rfl, rfl, hdocs'⟩ := shape_arr hv hkind.symm
      simp only [Everywhere, everywhereItems_iff] at hkeys hmu hmv
      rw [pyEq, itemsEq_iff] at heq
      rw [Agree]
      refine Or.inr ⟨ys, rfl, agreeItems_iff.2 ?_⟩
      exact agree_items hdocs hdocs' heq (hitems _ (.inl rfl)) hkeys.2 hmu.2 hmv.2
    | @plain u name hname =>
      have hdoc := pyEq_marker heq
      rcases shape_dict hv hkind.symm with ⟨name', hname', rfl⟩ | ⟨_, _, _, rfl⟩ |
        ⟨fields, docs, rfl, rfl, hdocs⟩
      · obtain rfl : name' = name := by simpa [marker] using hdoc
        obtain rfl := plainName_injective hname hname'
        exact agree_plain hname
      · exact absurd hdoc.symm marker_ne_tagged
      · have hspells := spells_plain hdocs (JsonValue.obj.inj hdoc) (plainName_mem hname)
        simp only [Everywhere] at hmv
        exact absurd hspells (hmv.1 hdepth)
    | @tagged u name content hshape =>
      obtain ⟨ys, content', hdoc, hperm, hcontent⟩ := pyEq_tagged heq
      rcases shape_dict hv hkind.symm with ⟨name', hname', rfl⟩ | ⟨name', content₂, hshape', rfl⟩ |
        ⟨fields, docs, rfl, rfl, hdocs⟩
      · have hys : ys = [(tempestKey, .str name')] := (JsonValue.obj.inj hdoc).symm
        have hlen := hperm.length_eq
        rw [hys] at hlen
        cases hlen
      · have hys : ys = [(tempestKey, .str name'), (lit "v", content₂)] :=
          (JsonValue.obj.inj hdoc).symm
        rw [hys] at hperm
        obtain ⟨hname, hcontent'⟩ := tagged_perm hperm
        exact agree_tagged hshape hshape' hname.symm (hcontent' ▸ hcontent)
          (fun items hu => hitems items (.inr hu)) hentries hkeys hmu hmv
      · obtain rfl : ys = ownFields (sortKeys docs) := (JsonValue.obj.inj hdoc).symm
        have hspells := spells_tagged hdocs hperm (taggedName_mem hshape)
        simp only [Everywhere] at hmv
        exact absurd hspells (hmv.1 hdepth)
    | @obj fields docs hlen hdocs =>
      have hkeysOwn : ((ownFields (sortKeys docs)).map Prod.fst).Nodup := by
        simp only [Everywhere] at hkeys
        exact ownFields_keys hdocs hkeys.1
      rcases shape_dict hv hkind.symm with ⟨name, hname, rfl⟩ | ⟨name, content, hshape, rfl⟩ |
        ⟨fields', docs', rfl, rfl, hdocs'⟩
      · have hspells := spells_plain hdocs (pyEq_of_marker heq) (plainName_mem hname)
        simp only [Everywhere] at hmu
        exact absurd hspells (hmu.1 hdepth)
      · obtain ⟨content', hperm⟩ := pyEq_of_tagged hkeysOwn heq
        have hspells := spells_tagged hdocs hperm (taggedName_mem hshape)
        simp only [Everywhere] at hmu
        exact absurd hspells (hmu.1 hdepth)
      · exact agree_obj hdocs hdocs' heq (hfields _ rfl) hkeys hmu hmv
  · exact agree_below rfl (Nat.not_le.1 hdepth)

theorem sound_all (u : JsVal) : Sound collation u := by
  refine JsVal.ind ?_ ?_ ?_ ?_ ?_ u
  · intro u hscalar
    refine sound_step u ?_ ?_ ?_
    · rintro items (rfl | rfl) <;> cases hscalar
    · rintro entries rfl
      cases hscalar
    · rintro fields rfl
      cases hscalar
  · intro items ih
    refine sound_step _ ?_ ?_ ?_
    · rintro items' (h | h)
      · cases h
        exact ih
      · cases h
    · intro entries h
      cases h
    · intro fields h
      cases h
  · intro entries ih
    refine sound_step _ ?_ ?_ ?_
    · rintro items' (h | h) <;> cases h
    · intro entries' h
      cases h
      exact ih
    · intro fields h
      cases h
  · intro items ih
    refine sound_step _ ?_ ?_ ?_
    · rintro items' (h | h)
      · cases h
      · cases h
        exact ih
    · intro entries h
      cases h
    · intro fields h
      cases h
  · intro fields ih
    refine sound_step _ ?_ ?_ ?_
    · rintro items' (h | h) <;> cases h
    · intro entries h
      cases h
    · intro fields' h
      cases h
      exact ih

end Soundness

end Ts
end Tempest
