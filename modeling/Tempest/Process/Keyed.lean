import Mathlib.Data.List.Nodup
import Mathlib.Data.List.Perm.Basic

/-!
# Keyed — tables whose rows have a unique key and an owner

`upsert` puts a row in the place of the one with its key, `drop` takes the rows of an owner out and
`refresh` does both for all the rows of an owner.  Where the rows that are put in have different keys,
the order of the owners does not matter: `mem_refreshAll` says which rows are left.
-/

namespace Tempest
namespace Keyed

variable {ρ κ ω : Type} [DecidableEq κ] [DecidableEq ω] (key : ρ → κ) (owner : ρ → ω)

def upsert (table : List ρ) (row : ρ) : List ρ :=
  (table.filter fun r => key r ≠ key row) ++ [row]

def upsertAll (table rows : List ρ) : List ρ := rows.foldl (upsert key) table

def drop (table : List ρ) (o : ω) : List ρ := table.filter fun r => owner r ≠ o

def refresh (table : List ρ) (update : ω × List ρ) : List ρ :=
  upsertAll key (drop owner table update.1) update.2

variable {key owner} {table rows : List ρ} {row r : ρ} {updates : List (ω × List ρ)}

/-! ## Unique keys -/

theorem nodup_upsert (h : (table.map key).Nodup) : ((upsert key table row).map key).Nodup := by
  rw [upsert, List.map_append, List.nodup_append]
  refine ⟨h.sublist (List.filter_sublist.map key), by simp, ?_⟩
  intro k hk k' hk' heq
  obtain ⟨r, hr, rfl⟩ := List.mem_map.1 hk
  have hne := (List.mem_filter.1 hr).2
  rw [List.map_singleton, List.mem_singleton] at hk'
  simp [heq, hk'] at hne

theorem nodup_upsertAll (h : (table.map key).Nodup) : ((upsertAll key table rows).map key).Nodup := by
  induction rows generalizing table with
  | nil => exact h
  | cons row rows ih => exact ih (nodup_upsert h)

omit [DecidableEq κ] in
theorem nodup_drop {o : ω} (h : (table.map key).Nodup) : ((drop owner table o).map key).Nodup :=
  h.sublist (List.filter_sublist.map key)

/-! ## What is left -/

theorem mem_upsert : r ∈ upsert key table row ↔ r ∈ table ∧ key r ≠ key row ∨ r = row := by
  simp [upsert]

theorem mem_drop {o : ω} : r ∈ drop owner table o ↔ r ∈ table ∧ owner r ≠ o := by simp [drop]

/-- Rows with different keys replace the rows with their keys, and not one another. -/
theorem mem_upsertAll (h : (rows.map key).Nodup) :
    r ∈ upsertAll key table rows ↔ (r ∈ table ∧ ∀ row ∈ rows, key r ≠ key row) ∨ r ∈ rows := by
  induction rows generalizing table with
  | nil => simp [upsertAll]
  | cons row rows ih =>
    rw [List.map_cons, List.nodup_cons] at h
    have hrest : r ∈ upsertAll key (upsert key table row) rows ↔ _ := ih h.2
    rw [upsertAll, List.foldl_cons, ← upsertAll, hrest, mem_upsert]
    constructor
    · rintro (⟨⟨htable, hrow⟩ | rfl, hrows⟩ | hmem)
      · exact .inl ⟨htable, List.forall_mem_cons.2 ⟨hrow, hrows⟩⟩
      · exact .inr List.mem_cons_self
      · exact .inr (List.mem_cons_of_mem row hmem)
    · rintro (⟨htable, hall⟩ | hmem)
      · obtain ⟨hrow, hrows⟩ := List.forall_mem_cons.1 hall
        exact .inl ⟨.inl ⟨htable, hrow⟩, hrows⟩
      · rcases List.mem_cons.1 hmem with rfl | hmem
        · refine .inl ⟨.inr rfl, fun row' hrow' heq => ?_⟩
          exact h.1 (heq ▸ List.mem_map_of_mem hrow')
        · exact .inr hmem

theorem mem_refresh {update : ω × List ρ} (h : (update.2.map key).Nodup) :
    r ∈ refresh key owner table update ↔
      (r ∈ table ∧ owner r ≠ update.1 ∧ ∀ row ∈ update.2, key r ≠ key row) ∨ r ∈ update.2 := by
  rw [refresh, mem_upsertAll h, mem_drop, and_assoc]

/-- Owners whose rows all have different keys: the new rows are there, and the old ones whose owner
and key no update has. -/
theorem mem_refreshAll (hkeys : ((updates.flatMap Prod.snd).map key).Nodup)
    (howners : (updates.map Prod.fst).Nodup)
    (howned : ∀ update ∈ updates, ∀ row ∈ update.2, owner row = update.1) :
    r ∈ updates.foldl (refresh key owner) table ↔
      (r ∈ table ∧ ∀ update ∈ updates, owner r ≠ update.1 ∧ ∀ row ∈ update.2, key r ≠ key row) ∨
        ∃ update ∈ updates, r ∈ update.2 := by
  induction updates generalizing table with
  | nil => simp
  | cons update updates ih =>
    rw [List.flatMap_cons, List.map_append, List.nodup_append] at hkeys
    rw [List.map_cons, List.nodup_cons] at howners
    obtain ⟨hown, hrest⟩ := List.forall_mem_cons.1 howned
    rw [List.foldl_cons, ih hkeys.2.1 howners.2 hrest, mem_refresh hkeys.1]
    constructor
    · rintro (⟨⟨htable, howner, hkey⟩ | hnew, hlater⟩ | ⟨update', hmem, hnew⟩)
      · exact .inl ⟨htable, List.forall_mem_cons.2 ⟨⟨howner, hkey⟩, hlater⟩⟩
      · exact .inr ⟨update, List.mem_cons_self, hnew⟩
      · exact .inr ⟨update', List.mem_cons_of_mem update hmem, hnew⟩
    · rintro (⟨htable, hall⟩ | ⟨update', hmem, hnew⟩)
      · obtain ⟨hhere, hlater⟩ := List.forall_mem_cons.1 hall
        exact .inl ⟨.inl ⟨htable, hhere.1, hhere.2⟩, hlater⟩
      · rcases List.mem_cons.1 hmem with rfl | hmem
        · -- neither the owner nor a key of a new row comes again
          refine .inl ⟨.inr hnew, fun later hlater => ⟨fun heq => ?_, fun row hrow heq => ?_⟩⟩
          · exact howners.1 (by rw [← hown r hnew, heq]; exact List.mem_map_of_mem hlater)
          · exact hkeys.2.2 _ (List.mem_map_of_mem hnew) _
              (List.mem_map_of_mem (List.mem_flatMap.2 ⟨later, hlater, hrow⟩)) heq
        · exact .inr ⟨update', hmem, hnew⟩

theorem mem_dropAll {owners : List ω} :
    r ∈ owners.foldl (drop owner) table ↔ r ∈ table ∧ owner r ∉ owners := by
  induction owners generalizing table with
  | nil => simp
  | cons o owners ih => rw [List.foldl_cons, ih, mem_drop, List.mem_cons, not_or, and_assoc]

end Keyed
end Tempest
