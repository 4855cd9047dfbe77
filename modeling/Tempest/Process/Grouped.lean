import Mathlib.Data.List.Nodup
import Mathlib.Data.List.Perm.Basic

/-!
# Grouped — a list split by a key, group after group as the keys turn up

`group` files every item under its key, new keys last.  A group is the items of its key in their
order, no two groups share a key, and together they are the list.
-/

namespace Tempest
namespace Grouped

variable {α κ : Type} [DecidableEq κ]

section

variable (key : α → κ)

/-- An item is filed under its key; a new key gets a group of its own. -/
@[grind =]
def add (x : α) : List (κ × List α) → List (κ × List α)
  | [] => [(key x, [x])]
  | (k, xs) :: rest => if k = key x then (k, xs ++ [x]) :: rest else (k, xs) :: add x rest

def addAll (groups : List (κ × List α)) (xs : List α) : List (κ × List α) :=
  xs.foldl (fun groups x => add key x groups) groups

def group (xs : List α) : List (κ × List α) := addAll key [] xs

structure Groups (xs : List α) (groups : List (κ × List α)) : Prop where
  nodup : (groups.map Prod.fst).Nodup
  items : ∀ g ∈ groups, g.2 = xs.filter (fun x => key x = g.1) ∧ g.2 ≠ []
  complete : ∀ x ∈ xs, key x ∈ groups.map Prod.fst
  together : (groups.flatMap Prod.snd).Perm xs

end

variable {key : α → κ} {x : α} {xs ys : List α} {groups : List (κ × List α)}

theorem keys_add : (add key x groups).map Prod.fst =
    if key x ∈ groups.map Prod.fst then groups.map Prod.fst
    else groups.map Prod.fst ++ [key x] := by
  induction groups with
  | nil => simp [add]
  | cons g rest ih =>
    by_cases hk : g.1 = key x
    · simp [add, hk]
    · have hne : key x ≠ g.1 := fun h => hk h.symm
      by_cases hrest : key x ∈ rest.map Prod.fst
      · have hmem : key x ∈ (g :: rest).map Prod.fst := List.mem_cons_of_mem _ hrest
        rw [if_pos hmem]
        simp [add, hk, ih, if_pos hrest]
      · have hmem : key x ∉ (g :: rest).map Prod.fst := by
          simpa [hne] using hrest
        rw [if_neg hmem]
        simp [add, hk, ih, if_neg hrest]

theorem flatMap_add : ((add key x groups).flatMap Prod.snd).Perm
    (groups.flatMap Prod.snd ++ [x]) := by
  induction groups with
  | nil => simp [add]
  | cons g rest ih =>
    by_cases hk : g.1 = key x
    · have hswap : ([x] ++ rest.flatMap Prod.snd).Perm (rest.flatMap Prod.snd ++ [x]) :=
        List.perm_append_comm
      simpa [add, hk] using hswap.append_left g.2
    · simpa [add, hk] using ih.append_left g.2

/-- A group after an item is filed: an old one of another key, or the one of its key, which is the
old one with the item at its end or a new one. -/
theorem mem_add {g : κ × List α} (hnodup : (groups.map Prod.fst).Nodup)
    (hg : g ∈ add key x groups) :
    g ∈ groups ∧ g.1 ≠ key x ∨
      g.1 = key x ∧ ((∃ old, (key x, old) ∈ groups ∧ g.2 = old ++ [x]) ∨
        key x ∉ groups.map Prod.fst ∧ g.2 = [x]) := by
  induction groups with
  | nil =>
    obtain rfl : g = (key x, [x]) := by simpa [add] using hg
    exact .inr ⟨rfl, .inr ⟨by simp, rfl⟩⟩
  | cons head rest ih =>
    rcases head with ⟨k, old⟩
    rw [List.map_cons, List.nodup_cons] at hnodup
    by_cases hk : k = key x
    · rw [add, if_pos hk, List.mem_cons] at hg
      rcases hg with rfl | hrest
      · exact .inr ⟨hk, .inl ⟨old, by simp [hk], rfl⟩⟩
      · refine .inl ⟨List.mem_cons_of_mem _ hrest, ?_⟩
        -- The key of the first group is not met again.
        intro hg
        apply hnodup.1
        exact List.mem_map.2 ⟨g, hrest, hg.trans hk.symm⟩
    · rw [add, if_neg hk, List.mem_cons] at hg
      rcases hg with rfl | hrest
      · exact .inl ⟨List.mem_cons_self, hk⟩
      · rcases ih hnodup.2 hrest with ⟨hmem, hne⟩ | ⟨hkey, ⟨old', hmem, hg⟩ | ⟨hnew, hg⟩⟩
        · exact .inl ⟨List.mem_cons_of_mem _ hmem, hne⟩
        · exact .inr ⟨hkey, .inl ⟨old', List.mem_cons_of_mem _ hmem, hg⟩⟩
        · have hne : key x ≠ k := fun h => hk h.symm
          exact .inr ⟨hkey, .inr ⟨by simp [hne, List.mem_map.not.1 hnew], hg⟩⟩

/-- Filing one more item. -/
theorem Groups.add (h : Groups key xs groups) : Groups key (xs ++ [x]) (add key x groups) where
  nodup := by
    rw [keys_add]
    split_ifs with hmem
    · exact h.nodup
    · exact h.nodup.append (List.nodup_singleton _) (by simpa using hmem)
  items := by
    intro g hg
    rcases mem_add h.nodup hg with ⟨hmem, hne⟩ | ⟨hkey, ⟨old, hmem, hg⟩ | ⟨hnew, hg⟩⟩
    · have hitems := h.items g hmem
      simp [List.filter_append, Ne.symm hne, hitems.2, ← hitems.1]
    · have hitems : old = xs.filter (fun y => key y = key x) := (h.items _ hmem).1
      simp [List.filter_append, hkey, hg, ← hitems]
    · have hnone : xs.filter (fun y => key y = key x) = [] := by
        refine List.filter_eq_nil_iff.2 ?_
        intro y hy hkey'
        have hcomplete := h.complete y hy
        rw [of_decide_eq_true hkey'] at hcomplete
        exact hnew hcomplete
      simp [List.filter_append, hkey, hg, hnone]
  complete := by
    intro y hy
    rw [keys_add]
    rcases List.mem_append.1 hy with hold | hnew
    · split_ifs
      · exact h.complete y hold
      · exact List.mem_append_left _ (h.complete y hold)
    · obtain rfl : y = x := by simpa using hnew
      split_ifs with hmem
      · exact hmem
      · simp
  together := flatMap_add.trans (h.together.append_right [x])

theorem groups_addAll (h : Groups key xs groups) :
    Groups key (xs ++ ys) (addAll key groups ys) := by
  induction ys generalizing xs groups with
  | nil => simpa [addAll] using h
  | cons y ys ih => simpa [addAll] using ih (h.add (x := y))

theorem groups_group : Groups key xs (group key xs) := by
  have hempty : Groups key ([] : List α) [] := ⟨by simp, by simp, by simp, by simp⟩
  have hall : Groups key ([] ++ xs) (addAll key [] xs) := groups_addAll hempty
  simpa [group] using hall

end Grouped
end Tempest
