import Mathlib.Data.List.Sort

/-!
# Dict — insertion-ordered dictionaries

A `dict` is the list of its items, and no two items have one key.  `get?` looks a key up, `set` is
`d[key] = value`, which keeps the place of a key that is already there.  Membership in the item
list (`get?_eq_some_iff`) is what the proofs about filters, maps and sorted copies go through.
-/

namespace Tempest
namespace Python

structure Dict (κ α : Type) where
  items : List (κ × α)
  nodup : (items.map Prod.fst).Nodup

namespace Dict

variable {κ α β : Type}

def empty : Dict κ α := ⟨[], List.nodup_nil⟩

def keys (d : Dict κ α) : List κ := d.items.map Prod.fst

/-! ## Lookup -/

section Lookup

variable [DecidableEq κ]

@[grind =]
def find (key : κ) : List (κ × α) → Option α
  | [] => none
  | (k, v) :: items => if k = key then some v else find key items

def get? (d : Dict κ α) (key : κ) : Option α := find key d.items

def contains (d : Dict κ α) (key : κ) : Bool := (d.get? key).isSome

theorem find_eq_none_iff {key : κ} {items : List (κ × α)} :
    find key items = none ↔ key ∉ items.map Prod.fst := by
  induction items with
  | nil => simp [find]
  | cons p items ih =>
    by_cases h : p.1 = key
    · simp [find, h]
    · have hne : ¬ key = p.1 := fun heq => h heq.symm
      simp only [find, h, if_false, List.map_cons, List.mem_cons, hne, false_or, ih]

theorem mem_of_find {key : κ} {value : α} {items : List (κ × α)} (h : find key items = some value) :
    (key, value) ∈ items := by
  induction items with
  | nil => simp [find] at h
  | cons p items ih =>
    by_cases hkey : p.1 = key
    · have hvalue : p.2 = value := by simpa [find, hkey] using h
      subst hkey hvalue
      exact List.mem_cons_self
    · have hrest : find key items = some value := by simpa [find, hkey] using h
      exact List.mem_cons_of_mem p (ih hrest)

theorem find_of_mem {key : κ} {value : α} {items : List (κ × α)}
    (hnodup : (items.map Prod.fst).Nodup) (h : (key, value) ∈ items) :
    find key items = some value := by
  induction items with
  | nil => cases h
  | cons p items ih =>
    rw [List.map_cons, List.nodup_cons] at hnodup
    rcases List.mem_cons.1 h with hhead | htail
    · subst hhead
      simp [find]
    · -- the key of the head is not the key of a later item
      have hne : p.1 ≠ key := by
        intro heq
        apply hnodup.1
        rw [heq]
        exact List.mem_map_of_mem htail
      simp only [find, hne, if_false]
      exact ih hnodup.2 htail

theorem get?_eq_some_iff {d : Dict κ α} {key : κ} {value : α} :
    d.get? key = some value ↔ (key, value) ∈ d.items :=
  ⟨mem_of_find, find_of_mem d.nodup⟩

theorem get?_eq_none_iff {d : Dict κ α} {key : κ} : d.get? key = none ↔ key ∉ d.keys :=
  find_eq_none_iff

end Lookup

/-! ## Assignment -/

section Assignment

variable [DecidableEq κ]

@[grind =]
def assign (key : κ) (value : α) : List (κ × α) → List (κ × α)
  | [] => [(key, value)]
  | (k, v) :: items => if k = key then (k, value) :: items else (k, v) :: assign key value items

variable {items : List (κ × α)}

theorem mem_keys_assign {key k : κ} {value : α} :
    k ∈ (assign key value items).map Prod.fst ↔ k = key ∨ k ∈ items.map Prod.fst := by
  induction items with
  | nil => simp [assign]
  | cons p items ih =>
    by_cases h : p.1 = key
    · simp only [assign, h, if_true, List.map_cons, List.mem_cons]
      tauto
    · simp only [assign, h, if_false, List.map_cons, List.mem_cons, ih]
      tauto

theorem nodup_assign {key : κ} {value : α} (h : (items.map Prod.fst).Nodup) :
    ((assign key value items).map Prod.fst).Nodup := by
  induction items with
  | nil => simp [assign]
  | cons p items ih =>
    rw [List.map_cons, List.nodup_cons] at h
    by_cases hkey : p.1 = key
    · simpa [assign, hkey] using h
    · simp only [assign, hkey, if_false, List.map_cons, List.nodup_cons]
      refine ⟨?_, ih h.2⟩
      rw [mem_keys_assign]
      rintro (heq | hmem)
      · exact hkey heq
      · exact h.1 hmem

def set (d : Dict κ α) (key : κ) (value : α) : Dict κ α :=
  ⟨assign key value d.items, nodup_assign d.nodup⟩

theorem find_assign (key k : κ) (value : α) (items : List (κ × α)) :
    find k (assign key value items) = if k = key then some value else find k items := by
  induction items with
  | nil =>
    by_cases h : k = key
    · simp [assign, find, h]
    · have hne : ¬ key = k := fun heq => h heq.symm
      simp [assign, find, h, hne]
  | cons p items ih =>
    by_cases hkey : p.1 = key
    · by_cases h : k = key
      · simp [assign, find, hkey, h]
      · have hne : ¬ key = k := fun heq => h heq.symm
        simp [assign, find, hkey, h, hne]
    · by_cases hk : p.1 = k
      · have hne : ¬ k = key := fun heq => hkey (hk.trans heq)
        simp [assign, find, hk, hne]
      · simp [assign, find, hkey, hk, ih]

@[simp] theorem get?_set (d : Dict κ α) (key k : κ) (value : α) :
    (d.set key value).get? k = if k = key then some value else d.get? k :=
  find_assign key k value d.items

@[simp] theorem get?_empty (key : κ) : (empty : Dict κ α).get? key = none := rfl

theorem mem_keys_set {d : Dict κ α} {key k : κ} {value : α} :
    k ∈ (d.set key value).keys ↔ k = key ∨ k ∈ d.keys :=
  mem_keys_assign

def setAll (d : Dict κ α) (items : List (κ × α)) : Dict κ α :=
  items.foldl (fun d p => d.set p.1 p.2) d

theorem setAll_append (d : Dict κ α) (xs ys : List (κ × α)) :
    d.setAll (xs ++ ys) = (d.setAll xs).setAll ys :=
  List.foldl_append

theorem get?_setAll_of_notMem {d : Dict κ α} {key : κ} (h : key ∉ items.map Prod.fst) :
    (d.setAll items).get? key = d.get? key := by
  induction items generalizing d with
  | nil => rfl
  | cons p items ih =>
    rw [List.map_cons, List.mem_cons, not_or] at h
    have hrest := ih (d := d.set p.1 p.2) h.2
    have hhead : (d.set p.1 p.2).get? key = d.get? key := by simp [h.1]
    exact hrest.trans hhead

theorem get?_setAll_of_mem {d : Dict κ α} {key : κ} {value : α} (hnodup : (items.map Prod.fst).Nodup)
    (h : (key, value) ∈ items) : (d.setAll items).get? key = some value := by
  induction items generalizing d with
  | nil => cases h
  | cons p items ih =>
    rw [List.map_cons, List.nodup_cons] at hnodup
    rcases List.mem_cons.1 h with hhead | htail
    · subst hhead
      -- nothing after the head assigns its key again
      have hrest := get?_setAll_of_notMem (d := d.set key value) hnodup.1
      exact hrest.trans (by simp)
    · exact ih hnodup.2 htail

end Assignment

/-! ## Copies -/

def filterKeys (p : κ → Bool) (d : Dict κ α) : Dict κ α :=
  ⟨d.items.filter fun item => p item.1, d.nodup.sublist (List.filter_sublist.map Prod.fst)⟩

def mapValues (f : α → β) (d : Dict κ α) : Dict κ β :=
  ⟨d.items.map fun item => (item.1, f item.2), by
    have hkeys : (d.items.map fun item => (item.1, f item.2)).map Prod.fst =
        d.items.map Prod.fst := by
      rw [List.map_map]
      rfl
    rw [hkeys]
    exact d.nodup⟩

/-- `sorted(d.items())`; no two items have one key, so the values are never compared. -/
def sorted [LinearOrder κ] (d : Dict κ α) : Dict κ α :=
  ⟨d.items.insertionSort fun a b => a.1 ≤ b.1,
    ((List.perm_insertionSort _ d.items).map Prod.fst).nodup_iff.2 d.nodup⟩

theorem mem_items_filterKeys {p : κ → Bool} {d : Dict κ α} {item : κ × α} :
    item ∈ (d.filterKeys p).items ↔ item ∈ d.items ∧ p item.1 = true :=
  List.mem_filter

theorem get?_filterKeys [DecidableEq κ] {p : κ → Bool} {d : Dict κ α} {key : κ} {value : α} :
    (d.filterKeys p).get? key = some value ↔ d.get? key = some value ∧ p key = true := by
  rw [get?_eq_some_iff, get?_eq_some_iff]
  exact mem_items_filterKeys

theorem mem_items_mapValues {f : α → β} {d : Dict κ α} {item : κ × β} :
    item ∈ (d.mapValues f).items ↔ ∃ value, (item.1, value) ∈ d.items ∧ f value = item.2 := by
  constructor
  · intro h
    rcases List.mem_map.1 h with ⟨p, hp, rfl⟩
    exact ⟨p.2, hp, rfl⟩
  · rintro ⟨value, hmem, hvalue⟩
    exact List.mem_map.2 ⟨(item.1, value), hmem, Prod.ext rfl hvalue⟩

theorem mem_items_sorted [LinearOrder κ] {d : Dict κ α} {item : κ × α} :
    item ∈ d.sorted.items ↔ item ∈ d.items :=
  (List.perm_insertionSort _ d.items).mem_iff

end Dict

end Python
end Tempest
