import Mathlib.Data.Finset.Basic

/-!
# Custody — one live process at most, and always in someone's hands

`held` says which process a holder answers for, and `alive` which processes there are.  A process that
ends leaves the custody as it is, one that is passed on must have a holder again, and one may be started
when nobody holds a live one.
-/

namespace Tempest

variable {η π : Type} {held held' : η → Option π} {alive alive' : Finset π}

structure Custody (held : η → Option π) (alive : Finset π) : Prop where
  owned : ∀ p ∈ alive, ∃ x, held x = some p
  single : ∀ p ∈ alive, ∀ q ∈ alive, p = q

namespace Custody

theorem of_empty : Custody held (∅ : Finset π) where
  owned := fun p hp => absurd hp (Finset.notMem_empty p)
  single := fun p hp => absurd hp (Finset.notMem_empty p)

/-- Nothing is alive where every process that is held has ended. -/
theorem empty (h : Custody held alive) (hdead : ∀ x p, held x = some p → p ∉ alive) : alive = ∅ := by
  rw [Finset.eq_empty_iff_forall_notMem]
  intro p hp
  obtain ⟨x, hx⟩ := h.owned p hp
  exact hdead x p hx hp

/-- Processes end and are passed on. -/
theorem pass (h : Custody held alive) (hsub : alive' ⊆ alive)
    (hpass : ∀ x p, p ∈ alive' → held x = some p → ∃ y, held' y = some p) : Custody held' alive' where
  owned := by
    intro p hp
    obtain ⟨x, hx⟩ := h.owned p (hsub hp)
    exact hpass x p hp hx
  single := fun p hp q hq => h.single p (hsub hp) q (hsub hq)

theorem spawn [DecidableEq π] {x : η} {p : π} (hempty : alive = ∅) (hx : held' x = some p) :
    Custody held' (insert p alive) where
  owned := by
    intro q hq
    rw [hempty, Finset.mem_insert] at hq
    obtain rfl := hq.resolve_right (Finset.notMem_empty q)
    exact ⟨x, hx⟩
  single := by
    intro q hq r hr
    rw [hempty, Finset.mem_insert] at hq hr
    rw [hq.resolve_right (Finset.notMem_empty q), hr.resolve_right (Finset.notMem_empty r)]

/-- The holder ends its process, and the others hold what they held. -/
theorem kill [DecidableEq π] (h : Custody held alive) {x : η} {p : π} (hx : held x = some p)
    (hothers : ∀ y, y ≠ x → held' y = held y) : Custody held' (alive.erase p) := by
  refine h.pass (Finset.erase_subset p alive) fun y q hq hy => ⟨y, ?_⟩
  by_cases hyx : y = x
  · subst hyx
    obtain rfl := Option.some.inj (hx.symm.trans hy)
    exact absurd hq (Finset.notMem_erase p alive)
  · exact (hothers y hyx).trans hy

theorem handOver (h : Custody held alive) {x y : η} (hy : ∀ p, held x = some p → held' y = some p)
    (hfree : ∀ p, held y = some p → p ∉ alive ∨ held' y = some p)
    (hothers : ∀ z, z ≠ x → z ≠ y → held' z = held z) : Custody held' alive := by
  refine h.pass (Finset.Subset.refl alive) fun z p hp hz => ?_
  by_cases hzx : z = x
  · exact ⟨y, hy p (hzx ▸ hz)⟩
  · by_cases hzy : z = y
    · subst hzy
      exact ⟨z, (hfree p hz).resolve_left (not_not_intro hp)⟩
    · exact ⟨z, (hothers z hzx hzy).trans hz⟩

end Custody

end Tempest
