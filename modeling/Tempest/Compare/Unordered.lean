import Tempest.Compare.Compare

/-!
# Unordered — sets and dicts are compared place by place

`Alike R a b` is the equality `_values_equal` is asked for: sets and dicts up to a bijection of
their elements, floats up to `R`.  `_values_equal` itself walks two sorted lists side by side, so
what it computes is `InOrder`: the same comparison without the bijections, and with dict keys held
to the relation of equality even where only signs are ignored.

The two differ exactly where something is `Misplaced`: the elements of two sets or the entries of
two dicts can be paired off, but not in the order of their bytes.  The sign of a zero moves an
element in that order, and so does a change within the tolerance.
-/

namespace Tempest

open Python

/-! ## Matched lists -/

section Matched

variable {α β α' β' : Type} {R S : α → β → Prop}

/-- Some bijection of the items pairs related items. -/
def Matched (R : α → β → Prop) (xs : List α) (ys : List β) : Prop :=
  ∃ zs, zs.Perm ys ∧ List.Forall₂ R xs zs

theorem Matched.of_forall₂ {xs : List α} {ys : List β} (h : List.Forall₂ R xs ys) :
    Matched R xs ys :=
  ⟨ys, List.Perm.refl ys, h⟩

/-- Related lists are related by whatever holds of related items. -/
theorem forall₂_imp_of_mem {xs : List α} {ys : List β} (h : List.Forall₂ R xs ys)
    (himp : ∀ x ∈ xs, ∀ y, R x y → S x y) : List.Forall₂ S xs ys := by
  rw [List.forall₂_iff_zip] at h ⊢
  refine ⟨h.1, ?_⟩
  intro x y hxy
  exact himp x (List.of_mem_zip hxy).1 y (h.2 hxy)

theorem Matched.imp_of_mem {xs : List α} {ys : List β} (h : Matched R xs ys)
    (himp : ∀ x ∈ xs, ∀ y, R x y → S x y) : Matched S xs ys := by
  rcases h with ⟨zs, hperm, hzs⟩
  exact ⟨zs, hperm, forall₂_imp_of_mem hzs himp⟩

theorem matched_map {R : α' → β' → Prop} {f : α → α'} {g : β → β'} {xs : List α} {ys : List β} :
    Matched R (xs.map f) (ys.map g) ↔ Matched (fun x y => R (f x) (g y)) xs ys := by
  constructor
  · rintro ⟨zs, hperm, hzs⟩
    -- a list that permutes the images is the image of a list that permutes the items
    have hcomp : Relation.Comp (fun l l' => l = List.map g l') List.Perm zs ys := by
      rw [List.eq_map_comp_perm]
      exact hperm
    rcases hcomp with ⟨ws, rfl, hws⟩
    refine ⟨ws, hws, ?_⟩
    simpa only [List.forall₂_map_left_iff, List.forall₂_map_right_iff] using hzs
  · rintro ⟨zs, hperm, hzs⟩
    refine ⟨zs.map g, hperm.map g, ?_⟩
    simpa only [List.forall₂_map_left_iff, List.forall₂_map_right_iff] using hzs

/-- Two lists related throughout by `R` and not by `S` differ at a place. -/
theorem exists_place {xs : List α} {ys : List β} (hR : List.Forall₂ R xs ys)
    (hS : ¬ List.Forall₂ S xs ys) : ∃ x y, (x, y) ∈ xs.zip ys ∧ R x y ∧ ¬ S x y := by
  rw [List.forall₂_iff_zip] at hR hS
  by_contra hnone
  refine hS ⟨hR.1, ?_⟩
  intro x y hxy
  by_contra hne
  exact hnone ⟨x, y, hxy, hR.2 hxy, hne⟩

theorem related_at {xs : List α} {ys : List β} (h : List.Forall₂ R xs ys) {x : α} {y : β}
    (hxy : (x, y) ∈ xs.zip ys) : R x y :=
  (List.forall₂_iff_zip.1 h).2 hxy

end Matched

/-! ## Equality up to bijections -/

def SeqTag.unordered : SeqTag → Bool
  | .list => false
  | .tuple => false
  | .set => true
  | .frozenset => true

mutual

/-- Deep equality with floats up to `R`: lists and tuples item by item, sets and dicts up to a
bijection, the attributes of objects by their names. -/
def Alike (R : HexFloat → HexFloat → Prop) : Canon → Canon → Prop
  | .float x, .float y => R x y
  | .seq tag xs, .seq tag' ys =>
    tag = tag' ∧
      if tag.unordered then ∃ zs, zs.Perm ys ∧ AlikeItems R xs zs else AlikeItems R xs ys
  | .dict xs, .dict ys => ∃ zs, zs.Perm ys ∧ AlikePairs R xs zs
  | .obj typeName xs, .obj typeName' ys => typeName = typeName' ∧ AlikeAttrs R xs ys
  | .bytes x, .bytes y => x = y
  | .bool x, .bool y => x = y
  | .int x, .int y => x = y
  | .str x, .str y => x = y
  | .none, .none => True
  | _, _ => False

def AlikeItems (R : HexFloat → HexFloat → Prop) : List Canon → List Canon → Prop
  | [], [] => True
  | x :: xs, y :: ys => Alike R x y ∧ AlikeItems R xs ys
  | _, _ => False

def AlikePairs (R : HexFloat → HexFloat → Prop) :
    List (Canon × Canon) → List (Canon × Canon) → Prop
  | [], [] => True
  | (key, x) :: xs, (key', y) :: ys => Alike R key key' ∧ Alike R x y ∧ AlikePairs R xs ys
  | _, _ => False

def AlikeAttrs (R : HexFloat → HexFloat → Prop) :
    List (PyStr × Canon) → List (PyStr × Canon) → Prop
  | [], [] => True
  | (name, x) :: xs, (name', y) :: ys => name = name' ∧ Alike R x y ∧ AlikeAttrs R xs ys
  | _, _ => False

end

/-- Entries of two dicts: the keys by `S`, the values by `T`. -/
def Entries (S T : Canon → Canon → Prop) (p q : Canon × Canon) : Prop := S p.1 q.1 ∧ T p.2 q.2

/-- Attributes of two objects: one name, the values by `T`. -/
def Attrs (T : Canon → Canon → Prop) (p q : PyStr × Canon) : Prop := p.1 = q.1 ∧ T p.2 q.2

theorem alikeItems_iff {R : HexFloat → HexFloat → Prop} {xs ys : List Canon} :
    AlikeItems R xs ys ↔ List.Forall₂ (Alike R) xs ys := by
  induction xs generalizing ys with
  | nil => cases ys <;> simp [AlikeItems]
  | cons x xs ih => cases ys <;> simp [AlikeItems, ih]

theorem alikePairs_iff {R : HexFloat → HexFloat → Prop} {xs ys : List (Canon × Canon)} :
    AlikePairs R xs ys ↔ List.Forall₂ (Entries (Alike R) (Alike R)) xs ys := by
  induction xs generalizing ys with
  | nil => cases ys <;> simp [AlikePairs]
  | cons p xs ih =>
    cases ys with
    | nil => simp [AlikePairs]
    | cons q ys =>
      rcases p with ⟨key, x⟩
      rcases q with ⟨key', y⟩
      simp [AlikePairs, Entries, ih, and_assoc]

theorem alikeAttrs_iff {R : HexFloat → HexFloat → Prop} {xs ys : List (PyStr × Canon)} :
    AlikeAttrs R xs ys ↔ List.Forall₂ (Attrs (Alike R)) xs ys := by
  induction xs generalizing ys with
  | nil => cases ys <;> simp [AlikeAttrs]
  | cons p xs ih =>
    cases ys with
    | nil => simp [AlikeAttrs]
    | cons q ys =>
      rcases p with ⟨name, x⟩
      rcases q with ⟨name', y⟩
      simp [AlikeAttrs, Attrs, ih, and_assoc]

theorem tag_eq_of_alike {R : HexFloat → HexFloat → Prop} {tag tag' : SeqTag} {xs ys : List Canon}
    (h : Alike R (.seq tag xs) (.seq tag' ys)) : tag = tag' := by
  simp only [Alike] at h
  exact h.1

/-- Two sets are alike when some bijection of their elements pairs alike elements. -/
theorem alike_unordered {R : HexFloat → HexFloat → Prop} {tag : SeqTag}
    (htag : tag.unordered = true) {xs ys : List Canon} :
    Alike R (.seq tag xs) (.seq tag ys) ↔ Matched (Alike R) xs ys := by
  simp [Alike, htag, Matched, alikeItems_iff]

theorem alike_ordered {R : HexFloat → HexFloat → Prop} {tag : SeqTag}
    (htag : tag.unordered = false) {xs ys : List Canon} :
    Alike R (.seq tag xs) (.seq tag ys) ↔ List.Forall₂ (Alike R) xs ys := by
  simp [Alike, htag, alikeItems_iff]

/-- Two dicts are alike when some bijection of their entries pairs alike keys with alike values. -/
theorem alike_dict {R : HexFloat → HexFloat → Prop} {xs ys : List (Canon × Canon)} :
    Alike R (.dict xs) (.dict ys) ↔ Matched (Entries (Alike R) (Alike R)) xs ys := by
  simp [Alike, Matched, alikePairs_iff]

theorem alike_obj {R : HexFloat → HexFloat → Prop} {typeName typeName' : PyStr}
    {xs ys : List (PyStr × Canon)} :
    Alike R (.obj typeName xs) (.obj typeName' ys) ↔
      typeName = typeName' ∧ List.Forall₂ (Attrs (Alike R)) xs ys := by
  simp [Alike, alikeAttrs_iff]

theorem alike_seq_of_forall₂ {R : HexFloat → HexFloat → Prop} {tag : SeqTag} {xs ys : List Canon}
    (h : List.Forall₂ (Alike R) xs ys) : Alike R (.seq tag xs) (.seq tag ys) := by
  cases htag : tag.unordered with
  | true => exact (alike_unordered htag).2 (.of_forall₂ h)
  | false => exact (alike_ordered htag).2 h

/-! ## Equality place by place -/

mutual

/-- Deep equality of what stands at one place, floats up to `R`; the floats of dict keys are held
to `K`. -/
@[grind =]
def InOrder (K R : HexFloat → HexFloat → Prop) : Canon → Canon → Prop
  | .float x, .float y => R x y
  | .seq tag xs, .seq tag' ys => tag = tag' ∧ InOrderItems K R xs ys
  | .dict xs, .dict ys => InOrderPairs K R xs ys
  | .obj typeName xs, .obj typeName' ys => typeName = typeName' ∧ InOrderAttrs K R xs ys
  | .bytes x, .bytes y => x = y
  | .bool x, .bool y => x = y
  | .int x, .int y => x = y
  | .str x, .str y => x = y
  | .none, .none => True
  | _, _ => False

def InOrderItems (K R : HexFloat → HexFloat → Prop) : List Canon → List Canon → Prop
  | [], [] => True
  | x :: xs, y :: ys => InOrder K R x y ∧ InOrderItems K R xs ys
  | _, _ => False

def InOrderPairs (K R : HexFloat → HexFloat → Prop) :
    List (Canon × Canon) → List (Canon × Canon) → Prop
  | [], [] => True
  | (key, x) :: xs, (key', y) :: ys =>
    InOrder K K key key' ∧ InOrder K R x y ∧ InOrderPairs K R xs ys
  | _, _ => False

def InOrderAttrs (K R : HexFloat → HexFloat → Prop) :
    List (PyStr × Canon) → List (PyStr × Canon) → Prop
  | [], [] => True
  | (name, x) :: xs, (name', y) :: ys => name = name' ∧ InOrder K R x y ∧ InOrderAttrs K R xs ys
  | _, _ => False

end

theorem inOrderItems_iff {K R : HexFloat → HexFloat → Prop} {xs ys : List Canon} :
    InOrderItems K R xs ys ↔ List.Forall₂ (InOrder K R) xs ys := by
  induction xs generalizing ys with
  | nil => cases ys <;> simp [InOrderItems]
  | cons x xs ih => cases ys <;> simp [InOrderItems, ih]

theorem inOrderPairs_iff {K R : HexFloat → HexFloat → Prop} {xs ys : List (Canon × Canon)} :
    InOrderPairs K R xs ys ↔ List.Forall₂ (Entries (InOrder K K) (InOrder K R)) xs ys := by
  induction xs generalizing ys with
  | nil => cases ys <;> simp [InOrderPairs]
  | cons p xs ih =>
    cases ys with
    | nil => simp [InOrderPairs]
    | cons q ys =>
      rcases p with ⟨key, x⟩
      rcases q with ⟨key', y⟩
      simp [InOrderPairs, Entries, ih, and_assoc]

theorem inOrderAttrs_iff {K R : HexFloat → HexFloat → Prop} {xs ys : List (PyStr × Canon)} :
    InOrderAttrs K R xs ys ↔ List.Forall₂ (Attrs (InOrder K R)) xs ys := by
  induction xs generalizing ys with
  | nil => cases ys <;> simp [InOrderAttrs]
  | cons p xs ih =>
    cases ys with
    | nil => simp [InOrderAttrs]
    | cons q ys =>
      rcases p with ⟨name, x⟩
      rcases q with ⟨name', y⟩
      simp [InOrderAttrs, Attrs, ih, and_assoc]

/-! ## Misplaced elements -/

/-- Two alike trees hold, at one place, an unordered container whose elements can be paired off
but not in the order they stand in, or a dict key that is alike for `R` and not for `K`.  A place
is reached through containers whose elements are alike where they stand. -/
inductive Misplaced (K : HexFloat → HexFloat → Prop) :
    (HexFloat → HexFloat → Prop) → Canon → Canon → Prop
  | set {R : HexFloat → HexFloat → Prop} {tag : SeqTag} {xs ys : List Canon}
      (htag : tag.unordered = true) (hmatched : Matched (Alike R) xs ys)
      (hmoved : ¬ List.Forall₂ (Alike R) xs ys) : Misplaced K R (.seq tag xs) (.seq tag ys)
  | dict {R : HexFloat → HexFloat → Prop} {xs ys : List (Canon × Canon)}
      (hmatched : Matched (Entries (Alike R) (Alike R)) xs ys)
      (hmoved : ¬ List.Forall₂ (Entries (Alike R) (Alike R)) xs ys) :
      Misplaced K R (.dict xs) (.dict ys)
  | item {R : HexFloat → HexFloat → Prop} {tag : SeqTag} {xs ys : List Canon} {x y : Canon}
      (halike : List.Forall₂ (Alike R) xs ys) (hplace : (x, y) ∈ xs.zip ys)
      (h : Misplaced K R x y) : Misplaced K R (.seq tag xs) (.seq tag ys)
  | signedKey {R : HexFloat → HexFloat → Prop} {xs ys : List (Canon × Canon)}
      {p q : Canon × Canon} (halike : List.Forall₂ (Entries (Alike R) (Alike R)) xs ys)
      (hplace : (p, q) ∈ xs.zip ys) (hkey : ¬ Alike K p.1 q.1) : Misplaced K R (.dict xs) (.dict ys)
  | key {R : HexFloat → HexFloat → Prop} {xs ys : List (Canon × Canon)} {p q : Canon × Canon}
      (halike : List.Forall₂ (Entries (Alike R) (Alike R)) xs ys) (hplace : (p, q) ∈ xs.zip ys)
      (h : Misplaced K K p.1 q.1) : Misplaced K R (.dict xs) (.dict ys)
  | value {R : HexFloat → HexFloat → Prop} {xs ys : List (Canon × Canon)} {p q : Canon × Canon}
      (halike : List.Forall₂ (Entries (Alike R) (Alike R)) xs ys) (hplace : (p, q) ∈ xs.zip ys)
      (h : Misplaced K R p.2 q.2) : Misplaced K R (.dict xs) (.dict ys)
  | attr {R : HexFloat → HexFloat → Prop} {typeName : PyStr} {xs ys : List (PyStr × Canon)}
      {p q : PyStr × Canon} (halike : List.Forall₂ (Attrs (Alike R)) xs ys)
      (hplace : (p, q) ∈ xs.zip ys) (h : Misplaced K R p.2 q.2) :
      Misplaced K R (.obj typeName xs) (.obj typeName ys)

theorem Misplaced.alike {K R : HexFloat → HexFloat → Prop} {a b : Canon}
    (h : Misplaced K R a b) : Alike R a b := by
  cases h with
  | set htag hmatched _ => exact (alike_unordered htag).2 hmatched
  | dict hmatched _ => exact alike_dict.2 hmatched
  | item halike _ _ => exact alike_seq_of_forall₂ halike
  | signedKey halike _ _ | key halike _ _ | value halike _ _ => exact alike_dict.2 (.of_forall₂ halike)
  | attr halike _ _ => exact alike_obj.2 ⟨rfl, halike⟩

/-! ## Induction on trees -/

def Canon.children : Canon → List Canon
  | .seq _ items => items
  | .dict pairs => pairs.map Prod.fst ++ pairs.map Prod.snd
  | .obj _ attrs => attrs.map Prod.snd
  | _ => []

theorem Canon.sizeOf_child {c d : Canon} (h : d ∈ c.children) : sizeOf d < sizeOf c := by
  cases c with
  | seq tag items =>
    have hlt := List.sizeOf_lt_of_mem (show d ∈ items from h)
    simp only [Canon.seq.sizeOf_spec]
    omega
  | dict pairs =>
    have hmem : ∃ p ∈ pairs, p.1 = d ∨ p.2 = d := by
      rcases List.mem_append.1 h with hkey | hvalue
      · rcases List.mem_map.1 hkey with ⟨p, hp, rfl⟩
        exact ⟨p, hp, .inl rfl⟩
      · rcases List.mem_map.1 hvalue with ⟨p, hp, rfl⟩
        exact ⟨p, hp, .inr rfl⟩
    rcases hmem with ⟨⟨key, value⟩, hp, hd⟩
    have hlt := List.sizeOf_lt_of_mem hp
    simp only [Prod.mk.sizeOf_spec] at hlt
    simp only [Canon.dict.sizeOf_spec]
    rcases hd with rfl | rfl
    · simp only
      omega
    · simp only
      omega
  | obj typeName attrs =>
    rcases List.mem_map.1 (show d ∈ attrs.map Prod.snd from h) with ⟨⟨name, value⟩, hp, rfl⟩
    have hlt := List.sizeOf_lt_of_mem hp
    simp only [Prod.mk.sizeOf_spec] at hlt
    simp only [Canon.obj.sizeOf_spec]
    omega
  | none | bool _ | int _ | str _ | float _ | bytes _ => cases h

/-- What holds of a tree when it holds of its children holds of every tree. -/
theorem Canon.induct {motive : Canon → Prop}
    (step : ∀ c, (∀ d ∈ c.children, motive d) → motive c) (c : Canon) : motive c :=
  step c fun d _ => Canon.induct step d
termination_by sizeOf c
decreasing_by exact Canon.sizeOf_child ‹_›

theorem key_mem_children {pairs : List (Canon × Canon)} {p : Canon × Canon} (hp : p ∈ pairs) :
    p.1 ∈ (Canon.dict pairs).children :=
  List.mem_append_left _ (List.mem_map_of_mem hp)

theorem value_mem_children {pairs : List (Canon × Canon)} {p : Canon × Canon} (hp : p ∈ pairs) :
    p.2 ∈ (Canon.dict pairs).children :=
  List.mem_append_right _ (List.mem_map_of_mem hp)

theorem attr_mem_children {typeName : PyStr} {attrs : List (PyStr × Canon)} {p : PyStr × Canon}
    (hp : p ∈ attrs) : p.2 ∈ (Canon.obj typeName attrs).children :=
  List.mem_map_of_mem (f := Prod.snd) hp

/-! ## In order and alike -/

section Places

variable {K R S : HexFloat → HexFloat → Prop}

theorem inOrder_seq {tag tag' : SeqTag} {xs ys : List Canon} :
    InOrder K R (.seq tag xs) (.seq tag' ys) ↔
      tag = tag' ∧ List.Forall₂ (InOrder K R) xs ys := by
  simp [InOrder, inOrderItems_iff]

theorem inOrder_dict {xs ys : List (Canon × Canon)} :
    InOrder K R (.dict xs) (.dict ys) ↔
      List.Forall₂ (Entries (InOrder K K) (InOrder K R)) xs ys := by
  simp [InOrder, inOrderPairs_iff]

theorem inOrder_obj {typeName typeName' : PyStr} {xs ys : List (PyStr × Canon)} :
    InOrder K R (.obj typeName xs) (.obj typeName' ys) ↔
      typeName = typeName' ∧ List.Forall₂ (Attrs (InOrder K R)) xs ys := by
  simp [InOrder, inOrderAttrs_iff]

theorem inOrder_mono (hRS : ∀ x y, R x y → S x y) (a : Canon) :
    ∀ b, InOrder K R a b → InOrder K S a b := by
  induction a using Canon.induct with
  | step a ih =>
    intro b h
    cases a with
    | none | bool _ | int _ | str _ | bytes _ => cases b <;> simp_all [InOrder]
    | float x =>
      cases b with
      | float y => simpa [InOrder] using hRS x y (by simpa [InOrder] using h)
      | _ => simp [InOrder] at h
    | seq tag xs =>
      cases b with
      | seq tag' ys =>
        have hxs := inOrder_seq.1 h
        exact inOrder_seq.2 ⟨hxs.1, forall₂_imp_of_mem hxs.2 ih⟩
      | _ => simp [InOrder] at h
    | dict xs =>
      cases b with
      | dict ys =>
        refine inOrder_dict.2 (forall₂_imp_of_mem (inOrder_dict.1 h) ?_)
        intro p hp q hpq
        exact ⟨hpq.1, ih _ (value_mem_children hp) _ hpq.2⟩
      | _ => simp [InOrder] at h
    | obj typeName xs =>
      cases b with
      | obj typeName' ys =>
        have hxs := inOrder_obj.1 h
        refine inOrder_obj.2 ⟨hxs.1, forall₂_imp_of_mem hxs.2 ?_⟩
        intro p hp q hpq
        exact ⟨hpq.1, ih _ (attr_mem_children hp) _ hpq.2⟩
      | _ => simp [InOrder] at h

/-- What is equal place by place is equal up to bijections: the bijections leave all in place. -/
theorem alike_of_inOrder (hKR : ∀ x y, K x y → R x y) (a : Canon) :
    ∀ (S : HexFloat → HexFloat → Prop) (b : Canon), (∀ x y, S x y → R x y) → InOrder K S a b →
      Alike R a b := by
  induction a using Canon.induct with
  | step a ih =>
    intro S b hSR h
    cases a with
    | none | bool _ | int _ | str _ | bytes _ => cases b <;> simp_all [InOrder, Alike]
    | float x =>
      cases b with
      | float y => simpa [Alike] using hSR x y (by simpa [InOrder] using h)
      | _ => simp [InOrder] at h
    | seq tag xs =>
      cases b with
      | seq tag' ys =>
        have hxs := inOrder_seq.1 h
        obtain rfl : tag = tag' := hxs.1
        refine alike_seq_of_forall₂ (forall₂_imp_of_mem hxs.2 ?_)
        intro x hx y hxy
        exact ih x hx S y hSR hxy
      | _ => simp [InOrder] at h
    | dict xs =>
      cases b with
      | dict ys =>
        refine alike_dict.2 (.of_forall₂ (forall₂_imp_of_mem (inOrder_dict.1 h) ?_))
        intro p hp q hpq
        exact ⟨ih _ (key_mem_children hp) K q.1 hKR hpq.1, ih _ (value_mem_children hp) S q.2 hSR hpq.2⟩
      | _ => simp [InOrder] at h
    | obj typeName xs =>
      cases b with
      | obj typeName' ys =>
        have hxs := inOrder_obj.1 h
        refine alike_obj.2 ⟨hxs.1, forall₂_imp_of_mem hxs.2 ?_⟩
        intro p hp q hpq
        exact ⟨hpq.1, ih _ (attr_mem_children hp) S q.2 hSR hpq.2⟩
      | _ => simp [InOrder] at h

/-- Nothing is misplaced in trees that are equal place by place. -/
theorem not_inOrder_of_misplaced {a b : Canon} (hKR : ∀ x y, K x y → R x y)
    (h : Misplaced K R a b) : ¬ InOrder K R a b := by
  induction h with
  | set _ _ hmoved =>
    intro horder
    refine hmoved (forall₂_imp_of_mem (inOrder_seq.1 horder).2 ?_)
    intro x _ y hxy
    exact alike_of_inOrder hKR x _ y (fun _ _ hxy => hxy) hxy
  | dict _ hmoved =>
    intro horder
    refine hmoved (forall₂_imp_of_mem (inOrder_dict.1 horder) ?_)
    intro p _ q hpq
    exact ⟨alike_of_inOrder hKR p.1 K q.1 hKR hpq.1,
      alike_of_inOrder hKR p.2 _ q.2 (fun _ _ hxy => hxy) hpq.2⟩
  | item _ hplace _ ih =>
    intro horder
    exact ih hKR (related_at (inOrder_seq.1 horder).2 hplace)
  | @signedKey _ _ _ p q _ hplace hkey =>
    intro horder
    have hpq := related_at (inOrder_dict.1 horder) hplace
    exact hkey (alike_of_inOrder (fun _ _ hxy => hxy) p.1 K q.1 (fun _ _ hxy => hxy) hpq.1)
  | key _ hplace _ ih =>
    intro horder
    exact ih (fun _ _ hxy => hxy) (related_at (inOrder_dict.1 horder) hplace).1
  | value _ hplace _ ih =>
    intro horder
    exact ih hKR (related_at (inOrder_dict.1 horder) hplace).2
  | attr _ hplace _ ih =>
    intro horder
    exact ih hKR (related_at (inOrder_obj.1 horder).2 hplace).2

/-- Alike trees that are not equal place by place have something misplaced. -/
theorem misplaced_of_not_inOrder (a : Canon) : ∀ (R : HexFloat → HexFloat → Prop) (b : Canon),
    Alike R a b → ¬ InOrder K R a b → Misplaced K R a b := by
  induction a using Canon.induct with
  | step a ih =>
    intro R b halike horder
    cases a with
    | none | bool _ | int _ | str _ | bytes _ =>
      cases b <;> simp_all [InOrder, Alike]
    | float x =>
      cases b with
      | float y => exact absurd (by simpa [InOrder, Alike] using halike) horder
      | _ => simp [Alike] at halike
    | seq tag xs =>
      cases b with
      | seq tag' ys =>
        obtain rfl := tag_eq_of_alike halike
        by_cases hxs : List.Forall₂ (Alike R) xs ys
        · have hdeep : ¬ List.Forall₂ (InOrder K R) xs ys := fun h =>
            horder (inOrder_seq.2 ⟨rfl, h⟩)
          rcases exists_place hxs hdeep with ⟨x, y, hxy, hR, hK⟩
          exact .item hxs hxy (ih x (List.of_mem_zip hxy).1 R y hR hK)
        · cases htag : tag.unordered with
          | true => exact .set htag ((alike_unordered htag).1 halike) hxs
          | false => exact absurd ((alike_ordered htag).1 halike) hxs
      | _ => simp [Alike] at halike
    | dict xs =>
      cases b with
      | dict ys =>
        by_cases hxs : List.Forall₂ (Entries (Alike R) (Alike R)) xs ys
        · have hdeep : ¬ List.Forall₂ (Entries (InOrder K K) (InOrder K R)) xs ys :=
            fun h => horder (inOrder_dict.2 h)
          rcases exists_place hxs hdeep with ⟨p, q, hpq, hR, hK⟩
          have hp := (List.of_mem_zip hpq).1
          -- the key is unlike for `K`, or out of order, or it is the value
          by_cases hkey : Alike K p.1 q.1
          · by_cases hkeyOrder : InOrder K K p.1 q.1
            · have hvalue : ¬ InOrder K R p.2 q.2 := fun h => hK ⟨hkeyOrder, h⟩
              exact .value hxs hpq (ih p.2 (value_mem_children hp) R q.2 hR.2 hvalue)
            · exact .key hxs hpq (ih p.1 (key_mem_children hp) K q.1 hkey hkeyOrder)
          · exact .signedKey hxs hpq hkey
        · exact .dict (alike_dict.1 halike) hxs
      | _ => simp [Alike] at halike
    | obj typeName xs =>
      cases b with
      | obj typeName' ys =>
        have hxs := alike_obj.1 halike
        obtain rfl : typeName = typeName' := hxs.1
        have hdeep : ¬ List.Forall₂ (Attrs (InOrder K R)) xs ys := fun h =>
          horder (inOrder_obj.2 ⟨rfl, h⟩)
        rcases exists_place hxs.2 hdeep with ⟨p, q, hpq, hR, hK⟩
        have hvalue : ¬ InOrder K R p.2 q.2 := fun h => hK ⟨hR.1, h⟩
        have hp := (List.of_mem_zip hpq).1
        exact .attr hxs.2 hpq (ih p.2 (attr_mem_children hp) R q.2 hR.2 hvalue)
      | _ => simp [Alike] at halike

/-- Comparing place by place is comparing up to bijections exactly where nothing is misplaced. -/
theorem inOrder_iff_alike {a b : Canon} (hKR : ∀ x y, K x y → R x y) :
    (InOrder K R a b ↔ Alike R a b) ↔ ¬ Misplaced K R a b := by
  constructor
  · intro hiff hmisplaced
    exact not_inOrder_of_misplaced hKR hmisplaced (hiff.2 hmisplaced.alike)
  · intro hplaced
    refine ⟨alike_of_inOrder hKR a R b fun _ _ hxy => hxy, ?_⟩
    intro halike
    by_contra horder
    exact hplaced (misplaced_of_not_inOrder a R b halike horder)

end Places

/-! ## The floats -/

/-- `_floats_equal` on two floats, both kept. -/
def Close (cfg : CompareConfig) (x y : HexFloat) : Prop := (floatsEqual cfg x y).1 = true

/-- `0.0` for `-0.0`, any other float itself. -/
def unsignedFloat (x : HexFloat) : HexFloat := if x.isZero then .finite false 0 0 else x

def CloseUnsigned (cfg : CompareConfig) (x y : HexFloat) : Prop :=
  Close cfg (unsignedFloat x) (unsignedFloat y)

mutual

/-- Every `-0.0` of a tree replaced by `0.0`. -/
def Canon.unsigned : Canon → Canon
  | .float x => .float (unsignedFloat x)
  | .seq tag items => .seq tag (unsignedItems items)
  | .dict pairs => .dict (unsignedPairs pairs)
  | .obj typeName attrs => .obj typeName (unsignedAttrs attrs)
  | .none => .none
  | .bool b => .bool b
  | .int n => .int n
  | .str s => .str s
  | .bytes data => .bytes data

def unsignedItems : List Canon → List Canon
  | [] => []
  | item :: items => item.unsigned :: unsignedItems items

def unsignedPairs : List (Canon × Canon) → List (Canon × Canon)
  | [] => []
  | (key, value) :: pairs => (key.unsigned, value.unsigned) :: unsignedPairs pairs

def unsignedAttrs : List (PyStr × Canon) → List (PyStr × Canon)
  | [] => []
  | (name, value) :: attrs => (name, value.unsigned) :: unsignedAttrs attrs

end

theorem unsignedItems_eq_map (items : List Canon) :
    unsignedItems items = items.map Canon.unsigned := by
  induction items with
  | nil => rfl
  | cons item items ih => simp [unsignedItems, ih]

theorem unsignedPairs_eq_map (pairs : List (Canon × Canon)) :
    unsignedPairs pairs = pairs.map fun p => (p.1.unsigned, p.2.unsigned) := by
  induction pairs with
  | nil => rfl
  | cons p pairs ih => simp [unsignedPairs, ih]

theorem unsignedAttrs_eq_map (attrs : List (PyStr × Canon)) :
    unsignedAttrs attrs = attrs.map fun p => (p.1, p.2.unsigned) := by
  induction attrs with
  | nil => rfl
  | cons p attrs ih => simp [unsignedAttrs, ih]

theorem alike_unsigned {R : HexFloat → HexFloat → Prop} (a : Canon) : ∀ b : Canon,
    Alike R a.unsigned b.unsigned ↔
      Alike (fun x y => R (unsignedFloat x) (unsignedFloat y)) a b := by
  induction a using Canon.induct with
  | step a ih =>
    intro b
    cases a with
    | none | bool _ | int _ | str _ | bytes _ | float _ =>
      cases b <;> simp [Canon.unsigned, Alike]
    | seq tag xs =>
      cases b with
      | seq tag' ys =>
        by_cases htag : tag = tag'
        · subst htag
          simp only [Canon.unsigned, unsignedItems_eq_map]
          cases hun : tag.unordered with
          | true =>
            rw [alike_unordered hun, alike_unordered hun, matched_map]
            exact ⟨fun h => h.imp_of_mem fun x hx y => (ih x hx y).1,
              fun h => h.imp_of_mem fun x hx y => (ih x hx y).2⟩
          | false =>
            rw [alike_ordered hun, alike_ordered hun, List.forall₂_map_left_iff,
              List.forall₂_map_right_iff]
            exact ⟨fun h => forall₂_imp_of_mem h fun x hx y => (ih x hx y).1,
              fun h => forall₂_imp_of_mem h fun x hx y => (ih x hx y).2⟩
        · simp [Canon.unsigned, Alike, htag]
      | _ => simp [Canon.unsigned, Alike]
    | dict xs =>
      cases b with
      | dict ys =>
        simp only [Canon.unsigned, unsignedPairs_eq_map]
        rw [alike_dict, alike_dict, matched_map]
        constructor
        · intro h
          refine h.imp_of_mem fun p hp q hpq => ?_
          exact ⟨(ih _ (key_mem_children hp) _).1 hpq.1,
            (ih _ (value_mem_children hp) _).1 hpq.2⟩
        · intro h
          refine h.imp_of_mem fun p hp q hpq => ?_
          exact ⟨(ih _ (key_mem_children hp) _).2 hpq.1,
            (ih _ (value_mem_children hp) _).2 hpq.2⟩
      | _ => simp [Canon.unsigned, Alike]
    | obj typeName xs =>
      cases b with
      | obj typeName' ys =>
        simp only [Canon.unsigned, unsignedAttrs_eq_map]
        rw [alike_obj, alike_obj, List.forall₂_map_left_iff, List.forall₂_map_right_iff]
        refine and_congr_right fun _ => ?_
        constructor
        · intro h
          refine forall₂_imp_of_mem h fun p hp q hpq => ?_
          exact ⟨hpq.1, (ih _ (attr_mem_children hp) _).1 hpq.2⟩
        · intro h
          refine forall₂_imp_of_mem h fun p hp q hpq => ?_
          exact ⟨hpq.1, (ih _ (attr_mem_children hp) _).2 hpq.2⟩
      | _ => simp [Canon.unsigned, Alike]

/-- A zero stands for the number zero, whatever its sign. -/
theorem toRat?_of_isZero {x : HexFloat} (h : x.isZero = true) : x.toRat? = some 0 := by
  cases x with
  | finite neg expo frac =>
    have hparts : expo.val = 0 ∧ frac.val = 0 := by simpa [HexFloat.isZero] using h
    simp [HexFloat.toRat?, hparts]
  | nan | inf _ => cases h

theorem isclose_zeros {x x' : HexFloat} (hx : x.isZero = true) (hx' : x'.isZero = true)
    (y : HexFloat) (tol : ℚ≥0) :
    isclose x y tol = isclose x' y tol ∧ isclose y x tol = isclose y x' tol := by
  have hrat := toRat?_of_isZero hx
  have hrat' := toRat?_of_isZero hx'
  cases x with
  | nan | inf _ => cases hx
  | finite neg expo frac =>
    cases x' with
    | nan | inf _ => cases hx'
    | finite neg' expo' frac' =>
      cases hy : y.toRat? with
      | some r => simp [isclose, hrat, hrat', hy]
      | none => cases y <;> simp [isclose, hrat, hrat', hy]

/-- What a pair of flags says: the first one `P`, the second one `Q` without `P`. -/
def Reads (flags : Bool × Bool) (P Q : Prop) : Prop :=
  (flags.1 = true ↔ P) ∧ (flags.2 = true ↔ Q ∧ ¬ P)

theorem isNan_of_isZero {x : HexFloat} (h : x.isZero = true) : x.isNan = false := by
  cases x with
  | nan => cases h
  | inf _ | finite _ _ _ => rfl

theorem isZero_unsigned {x : HexFloat} (h : x.isZero = true) :
    unsignedFloat x = .finite false 0 0 := by
  simp [unsignedFloat, h]

theorem unsigned_of_not_isZero {x : HexFloat} (h : x.isZero = false) :
    unsignedFloat x = x := by
  simp [unsignedFloat, h]

/-- The sign of a zero decides nothing against a float that is no zero. -/
theorem floatsEqual_zeros (cfg : CompareConfig) (x x' y : HexFloat) (hx : x.isZero = true)
    (hx' : x'.isZero = true) (hy : y.isZero = false) :
    floatsEqual cfg x y = floatsEqual cfg x' y ∧ floatsEqual cfg y x = floatsEqual cfg y x' := by
  have hne : ∀ {z : HexFloat}, z.isZero = true → z ≠ y ∧ y ≠ z := by
    intro z hz
    constructor
    · rintro rfl
      exact absurd hz (by simp [hy])
    · rintro rfl
      exact absurd hz (by simp [hy])
  have hclose := isclose_zeros hx hx' y
  simp [floatsEqual, hne hx, hne hx', isNan_of_isZero hx, isNan_of_isZero hx', hx, hx', hy, hclose]

/-- Two zeros are close without their signs; otherwise the signs of zeros do not matter. -/
theorem closeUnsigned_iff (cfg : CompareConfig) (x y : HexFloat) :
    CloseUnsigned cfg x y ↔ (x.isZero = true ∧ y.isZero = true) ∨ Close cfg x y := by
  have hzero : (HexFloat.finite false 0 0).isZero = true := rfl
  cases hx : x.isZero with
  | true =>
    cases hy : y.isZero with
    | true => simp [CloseUnsigned, isZero_unsigned hx, isZero_unsigned hy, Close, floatsEqual]
    | false =>
      have hsame := (floatsEqual_zeros cfg x _ y hx hzero hy).1
      simp [CloseUnsigned, isZero_unsigned hx, unsigned_of_not_isZero hy, Close, hsame]
  | false =>
    cases hy : y.isZero with
    | true =>
      have hsame := (floatsEqual_zeros cfg y _ x hy hzero hx).2
      simp [CloseUnsigned, isZero_unsigned hy, unsigned_of_not_isZero hx, Close, hsame]
    | false =>
      simp [CloseUnsigned, unsigned_of_not_isZero hx, unsigned_of_not_isZero hy]

theorem closeUnsigned_of_close (cfg : CompareConfig) (x y : HexFloat) (h : Close cfg x y) :
    CloseUnsigned cfg x y :=
  (closeUnsigned_iff cfg x y).2 (.inr h)

theorem floatsEqual_reads (cfg : CompareConfig) (x y : HexFloat) :
    Reads (floatsEqual cfg x y) (Close cfg x y) (CloseUnsigned cfg x y) := by
  refine ⟨Iff.rfl, ?_⟩
  rw [closeUnsigned_iff]
  by_cases hzeros : x.isZero = true ∧ y.isZero = true
  · have hx := isNan_of_isZero hzeros.1
    have hy := isNan_of_isZero hzeros.2
    by_cases heq : x = y
    · simp [Close, floatsEqual, heq]
    · cases htol : cfg.floatRelTol with
      | none | some _ => simp [Close, floatsEqual, heq, hx, hy, hzeros, htol]
  · have hboth : (x.isZero && y.isZero) = false := by
      rw [← Bool.not_eq_true, Bool.and_eq_true]
      exact hzeros
    have hflag : (floatsEqual cfg x y).2 = false := by
      simp only [floatsEqual, hboth, Bool.false_eq_true, if_false]
      cases cfg.floatRelTol with
      | none => split_ifs <;> rfl
      | some tol =>
        dsimp only
        split_ifs <;> rfl
    simp [hflag, hzeros]

/-! ## The code -/

theorem Reads.either {flags : Bool × Bool} {P Q : Prop} (h : Reads flags P Q) (hPQ : P → Q) :
    (flags.1 || flags.2) = true ↔ Q := by
  rw [Bool.or_eq_true, h.1, h.2]
  by_cases hP : P
  · simp [hP, hPQ hP]
  · simp [hP]

theorem reads_loopResult {equal signOnly : Bool} {P Q : Prop} (hP : equal = true ↔ P)
    (hQ : signOnly = true ↔ Q) : Reads (loopResult equal signOnly) P Q := by
  cases equal with
  | true => simp [Reads, loopResult, ← hP]
  | false =>
    have hnot : ¬ P := fun h => Bool.false_ne_true (hP.2 h)
    simp [Reads, loopResult, hnot, hQ]

section Code

variable (cfg : CompareConfig)

mutual

/-- `_values_equal` compares place by place, and its flag says that the trees are equal so once
signs of zeros outside dict keys are ignored. -/
theorem valuesEqual_reads : ∀ a b : Canon, Reads (valuesEqual cfg a b)
    (InOrder (Close cfg) (Close cfg) a b) (InOrder (Close cfg) (CloseUnsigned cfg) a b)
  | .none, b => by cases b <;> simp [valuesEqual, InOrder, Reads]
  | .bool _, b => by cases b <;> simp [valuesEqual, InOrder, Reads]
  | .int _, b => by cases b <;> simp [valuesEqual, InOrder, Reads]
  | .str _, b => by cases b <;> simp [valuesEqual, InOrder, Reads]
  | .bytes _, b => by cases b <;> simp [valuesEqual, InOrder, Reads]
  | .float x, b => by
    cases b with
    | float y => simpa only [valuesEqual, InOrder] using floatsEqual_reads cfg x y
    | _ => simp [valuesEqual, InOrder, Reads]
  | .seq tag xs, b => by
    cases b with
    | seq tag' ys =>
      by_cases htag : tag = tag'
      · by_cases hlen : xs.length = ys.length
        · simpa [valuesEqual, InOrder, htag, hlen] using
            sequencesLoop_reads xs ys true true hlen
        · have hne : ∀ R, ¬ InOrderItems (Close cfg) R xs ys := fun R h =>
            hlen (inOrderItems_iff.1 h).length_eq
          simp [valuesEqual, InOrder, Reads, htag, hlen, hne]
      · simp [valuesEqual, InOrder, Reads, htag]
    | _ => simp [valuesEqual, InOrder, Reads]
  | .dict xs, b => by
    cases b with
    | dict ys =>
      by_cases hlen : xs.length = ys.length
      · simpa [valuesEqual, InOrder, hlen] using pairsLoop_reads xs ys true true hlen
      · have hne : ∀ R, ¬ InOrderPairs (Close cfg) R xs ys := fun R h =>
          hlen (inOrderPairs_iff.1 h).length_eq
        simp [valuesEqual, InOrder, Reads, hlen, hne]
    | _ => simp [valuesEqual, InOrder, Reads]
  | .obj typeName xs, b => by
    cases b with
    | obj typeName' ys =>
      by_cases htype : typeName = typeName'
      · by_cases hlen : xs.length = ys.length
        · simpa [valuesEqual, InOrder, htype, hlen] using
            attrsLoop_reads xs ys true true hlen
        · have hne : ∀ R, ¬ InOrderAttrs (Close cfg) R xs ys := fun R h =>
            hlen (inOrderAttrs_iff.1 h).length_eq
          simp [valuesEqual, InOrder, Reads, htype, hlen, hne]
      · simp [valuesEqual, InOrder, Reads, htype]
    | _ => simp [valuesEqual, InOrder, Reads]

theorem sequencesLoop_reads : ∀ (xs ys : List Canon) (equal signOnly : Bool),
    xs.length = ys.length → Reads (sequencesLoop cfg xs ys equal signOnly)
      (equal = true ∧ InOrderItems (Close cfg) (Close cfg) xs ys)
      (signOnly = true ∧ InOrderItems (Close cfg) (CloseUnsigned cfg) xs ys)
  | [], [], equal, signOnly, _ => by
    simpa [sequencesLoop, InOrderItems] using reads_loopResult Iff.rfl Iff.rfl
  | x :: xs, y :: ys, equal, signOnly, h => by
    have hlen : xs.length = ys.length := by simpa using h
    have hchild := valuesEqual_reads x y
    have heither := hchild.either (inOrder_mono (closeUnsigned_of_close cfg) x y)
    have ih := sequencesLoop_reads xs ys (equal && (valuesEqual cfg x y).1)
      (signOnly && ((valuesEqual cfg x y).1 || (valuesEqual cfg x y).2)) hlen
    simpa only [sequencesLoop, InOrderItems, Bool.and_eq_true, hchild.1, heither, and_assoc]
      using ih

theorem pairsLoop_reads : ∀ (xs ys : List (Canon × Canon)) (equal signOnly : Bool),
    xs.length = ys.length → Reads (pairsLoop cfg xs ys equal signOnly)
      (equal = true ∧ InOrderPairs (Close cfg) (Close cfg) xs ys)
      (signOnly = true ∧ InOrderPairs (Close cfg) (CloseUnsigned cfg) xs ys)
  | [], [], equal, signOnly, _ => by
    simpa [pairsLoop, InOrderPairs] using reads_loopResult Iff.rfl Iff.rfl
  | (key, x) :: xs, (key', y) :: ys, equal, signOnly, h => by
    have hlen : xs.length = ys.length := by simpa using h
    have hkey := (valuesEqual_reads key key').1
    have hchild := valuesEqual_reads x y
    have heither := hchild.either (inOrder_mono (closeUnsigned_of_close cfg) x y)
    have ih := pairsLoop_reads xs ys (equal && (valuesEqual cfg x y).1)
      (signOnly && ((valuesEqual cfg x y).1 || (valuesEqual cfg x y).2)) hlen
    by_cases hsame : InOrder (Close cfg) (Close cfg) key key'
    · simpa only [pairsLoop, InOrderPairs, hkey.2 hsame, hsame, if_true, true_and,
        Bool.and_eq_true, hchild.1, heither, and_assoc] using ih
    · have hdiffer : ¬ (valuesEqual cfg key key').1 = true := fun h => hsame (hkey.1 h)
      simp [pairsLoop, InOrderPairs, hdiffer, hsame, Reads]

theorem attrsLoop_reads : ∀ (xs ys : List (PyStr × Canon)) (equal signOnly : Bool),
    xs.length = ys.length → Reads (attrsLoop cfg xs ys equal signOnly)
      (equal = true ∧ InOrderAttrs (Close cfg) (Close cfg) xs ys)
      (signOnly = true ∧ InOrderAttrs (Close cfg) (CloseUnsigned cfg) xs ys)
  | [], [], equal, signOnly, _ => by
    simpa [attrsLoop, InOrderAttrs] using reads_loopResult Iff.rfl Iff.rfl
  | (name, x) :: xs, (name', y) :: ys, equal, signOnly, h => by
    have hlen : xs.length = ys.length := by simpa using h
    have hchild := valuesEqual_reads x y
    have heither := hchild.either (inOrder_mono (closeUnsigned_of_close cfg) x y)
    have ih := attrsLoop_reads xs ys (equal && (valuesEqual cfg x y).1)
      (signOnly && ((valuesEqual cfg x y).1 || (valuesEqual cfg x y).2)) hlen
    by_cases hname : name = name'
    · simpa only [attrsLoop, InOrderAttrs, hname, beq_self_eq_true, if_true, true_and,
        Bool.and_eq_true, hchild.1, heither, and_assoc] using ih
    · simp [attrsLoop, InOrderAttrs, hname, Reads]

end

end Code

/-! ## Severities -/

structure Returned (c : Canon) (o : Observation) : Prop where
  comparable : Comparable o
  completed : o.outcome = .completed
  quiet : o.raised = none
  tree : o.returnCanon = c

def ReportsLow (result : CompareResult) : Prop :=
  ∃ d, result = .diverged d ∧ d.severity = .low

theorem compareEffectsFrom_severity : ∀ (i : Nat) (bs hs : List EffectEntry) (d : Diverged),
    compareEffectsFrom i bs hs = some d → d.severity = .normal
  | _, [], [], d, h => by cases h
  | _, [], _ :: _, d, h => by
    cases h
    rfl
  | _, _ :: _, [], d, h => by
    cases h
    rfl
  | i, b :: bs, h :: hs, d, heq => by
    unfold compareEffectsFrom at heq
    split_ifs at heq
    · cases heq
      rfl
    · cases heq
      rfl
    · exact compareEffectsFrom_severity (i + 1) bs hs d heq

/-- Of two returned values, LOW is reported exactly for an unequal pair with the flag set. -/
theorem reportsLow_iff (cfg : CompareConfig) {a b : Canon} {base head : Observation}
    (hbase : Returned a base) (hhead : Returned b head) :
    ReportsLow (compare base head cfg) ↔
      (valuesEqual cfg a b).1 = false ∧ (valuesEqual cfg a b).2 = true := by
  have hexc : compareExceptions base head = none :=
    compareExceptions_none.2 (.inl ⟨hbase.quiet, hhead.quiet⟩)
  have hbasePresent := (hbase.comparable.returns hbase.completed).2 hbase.quiet
  have hheadPresent := (hhead.comparable.returns hhead.completed).2 hhead.quiet
  have hcompare : compare base head cfg = compareCompleted base head cfg := by
    rw [compare_of_comparable cfg hbase.comparable hhead.comparable]
    simp [compareOutcomes, hbase.completed, hhead.completed]
  rw [hcompare]
  unfold compareCompleted
  simp only [hexc, hbase.tree, hhead.tree, hbasePresent, hheadPresent, Bool.true_and,
    Bool.not_eq_true']
  cases hequal : (valuesEqual cfg a b).1 with
  | false =>
    cases hflag : (valuesEqual cfg a b).2 <;> simp [ReportsLow, returnsDiffer]
  | true =>
    -- what is reported of effects and streams is of normal severity
    simp only [Bool.true_eq_false, if_false, false_and, iff_false]
    rintro ⟨d, hd, hlow⟩
    cases heffects : compareEffects base head with
    | some d' =>
      obtain rfl : d' = d := by simpa [heffects] using hd
      have hnormal := compareEffectsFrom_severity 0 _ _ _ heffects
      simp [hnormal] at hlow
    | none =>
      simp only [heffects] at hd
      split_ifs at hd
      · obtain rfl := CompareResult.diverged.inj hd
        cases hlow
      · obtain rfl := CompareResult.diverged.inj hd
        cases hlow

/-! ## Unordered values -/

/-- Two trees compare as unordered values, and only differences in the signs of zeros are flagged
and reported as LOW. -/
structure ComparesUnordered (cfg : CompareConfig) (a b : Canon) : Prop where
  equal : (valuesEqual cfg a b).1 = true ↔ Alike (Close cfg) a b
  signOnly : (valuesEqual cfg a b).1 = false →
    ((valuesEqual cfg a b).2 = true ↔ Alike (Close cfg) a.unsigned b.unsigned)
  low : ∀ base head, Returned a base → Returned b head →
    (ReportsLow (compare base head cfg) ↔
      (valuesEqual cfg a b).1 = false ∧ Alike (Close cfg) a.unsigned b.unsigned)

/-- The comparison is the unordered one exactly where the order of bytes misplaces nothing, with
the signs of zeros and without them. -/
theorem comparesUnordered_iff (cfg : CompareConfig) (a b : Canon) :
    ComparesUnordered cfg a b ↔
      ¬ Misplaced (Close cfg) (Close cfg) a b ∧
        ¬ Misplaced (Close cfg) (CloseUnsigned cfg) a b := by
  have hcode := valuesEqual_reads cfg a b
  have hkeep : ∀ x y, Close cfg x y → Close cfg x y := fun _ _ h => h
  have hsigned := inOrder_iff_alike (a := a) (b := b) hkeep
  have hunsigned := inOrder_iff_alike (a := a) (b := b) (closeUnsigned_of_close cfg)
  have halike : Alike (Close cfg) a.unsigned b.unsigned ↔ Alike (CloseUnsigned cfg) a b :=
    alike_unsigned a b
  have hmono := inOrder_mono (K := Close cfg) (closeUnsigned_of_close cfg) a b
  have hdiffer : (valuesEqual cfg a b).1 = false ↔ ¬ InOrder (Close cfg) (Close cfg) a b := by
    rw [← hcode.1, Bool.not_eq_true]
  rw [← hsigned, ← hunsigned]
  constructor
  · intro h
    refine ⟨by rw [← hcode.1, h.equal], ?_⟩
    refine ⟨alike_of_inOrder (closeUnsigned_of_close cfg) a _ b fun _ _ hxy => hxy, ?_⟩
    intro hun
    by_cases hin : InOrder (Close cfg) (Close cfg) a b
    · exact hmono hin
    · have hflag := (h.signOnly (hdiffer.2 hin)).2 (halike.2 hun)
      exact (hcode.2.1 hflag).1
  · rintro ⟨hequal, hflagged⟩
    have hflag : (valuesEqual cfg a b).1 = false →
        ((valuesEqual cfg a b).2 = true ↔ Alike (Close cfg) a.unsigned b.unsigned) := by
      intro hfalse
      rw [hcode.2, halike, ← hflagged]
      exact and_iff_left (hdiffer.1 hfalse)
    refine ⟨by rw [hcode.1, hequal], hflag, ?_⟩
    intro base head hbase hhead
    rw [reportsLow_iff cfg hbase hhead]
    exact and_congr_right hflag

/-- `{0.0, -1.0}` and `{-0.0, -1.0}`: the sign moves the zero before `-1.0`. -/
def zeroSet (neg : Bool) : PyVal :=
  .set [.float (.finite neg 0 0), .float (.finite true 1023 0)]

def positiveZeroTree : Canon := .seq .set [.float (.finite true 1023 0), .float (.finite false 0 0)]

def negativeZeroTree : Canon := .seq .set [.float (.finite true 0 0), .float (.finite true 1023 0)]

/-- Once the zeros have no sign, the same two floats stand in the two sets. -/
theorem zeroTrees_alike (cfg : CompareConfig) :
    Alike (Close cfg) positiveZeroTree.unsigned negativeZeroTree.unsigned := by
  have hself : ∀ x : HexFloat, Alike (Close cfg) (.float x) (.float x) := by
    intro x
    simp [Alike, Close, floatsEqual]
  have hpositive : positiveZeroTree.unsigned =
      .seq .set [.float (.finite true 1023 0), .float (.finite false 0 0)] := by
    simp [positiveZeroTree, Canon.unsigned, unsignedItems, unsignedFloat, HexFloat.isZero]
  have hnegative : negativeZeroTree.unsigned =
      .seq .set [.float (.finite false 0 0), .float (.finite true 1023 0)] := by
    simp [negativeZeroTree, Canon.unsigned, unsignedItems, unsignedFloat, HexFloat.isZero]
  rw [hpositive, hnegative]
  apply (alike_unordered rfl).2
  exact ⟨_, List.Perm.swap _ _ _, .cons (hself _) (.cons (hself _) .nil)⟩

theorem zero_sign_moves_element :
    canonicalize (zeroSet false) = .ok positiveZeroTree ∧
      canonicalize (zeroSet true) = .ok negativeZeroTree ∧
      ¬ ComparesUnordered exact positiveZeroTree negativeZeroTree ∧
      ¬ ComparesUnordered ⟨some (1 / 1000000000)⟩ positiveZeroTree negativeZeroTree := by
  have hexact : valuesEqual exact positiveZeroTree negativeZeroTree = (false, false) := by
    decide +kernel
  have htol : valuesEqual ⟨some (1 / 1000000000)⟩ positiveZeroTree negativeZeroTree =
      (false, false) := by
    decide +kernel
  refine ⟨by rfl, by rfl, ?_, ?_⟩
  · intro h
    have hflag := (h.signOnly (by rw [hexact])).2 (zeroTrees_alike exact)
    rw [hexact] at hflag
    exact Bool.false_ne_true hflag
  · intro h
    have hflag := (h.signOnly (by rw [htol])).2 (zeroTrees_alike _)
    rw [htol] at hflag
    exact Bool.false_ne_true hflag

end Tempest
