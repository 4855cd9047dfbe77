import Mathlib.Order.Basic

/-!
# Turns — loops that go on, return or raise

A loop is a function of its state: a turn leads to the next state, to what the loop returns, or raises.
-/

namespace Tempest

variable {σ α ε : Type} {turn : σ → Except ε (σ ⊕ α)}

/-- The loop returns after finitely many turns. -/
inductive Returns (turn : σ → Except ε (σ ⊕ α)) : σ → α → Prop where
  | done {s : σ} {a : α} : turn s = .ok (.inr a) → Returns turn s a
  | next {s s' : σ} {a : α} : turn s = .ok (.inl s') → Returns turn s' a → Returns turn s a

inductive Visits (turn : σ → Except ε (σ ⊕ α)) (start : σ) : σ → Prop where
  | here : Visits turn start start
  | next {s s' : σ} : Visits turn start s → turn s = .ok (.inl s') → Visits turn start s'

theorem Visits.cases_first {start s : σ} (h : Visits turn start s) :
    s = start ∨ ∃ s', turn start = .ok (.inl s') ∧ Visits turn s' s := by
  induction h with
  | here => exact Or.inl rfl
  | next _ hnext ih =>
    rcases ih with rfl | ⟨s', hfirst, hvisit⟩
    · exact Or.inr ⟨_, hnext, .here⟩
    · exact Or.inr ⟨s', hfirst, hvisit.next hnext⟩

theorem Returns.unique {s : σ} {a b : α} (ha : Returns turn s a) (hb : Returns turn s b) : a = b := by
  induction ha with
  | done hdone =>
    cases hb with
    | done hdone' => exact Sum.inr.inj (Except.ok.inj (hdone.symm.trans hdone'))
    | next hnext _ => cases hdone.symm.trans hnext
  | next hnext _ ih =>
    cases hb with
    | done hdone => cases hnext.symm.trans hdone
    | next hnext' hrest =>
      obtain rfl := Sum.inl.inj (Except.ok.inj (hnext.symm.trans hnext'))
      exact ih hrest

/-- A loop whose turns keep an invariant and get smaller returns, with what its last turn leaves. -/
theorem returns_of_decreasing {inv : σ → Prop} {post : α → Prop} (size : σ → Nat) {start : σ}
    (hturn : ∀ s, Visits turn start s → inv s →
      (∃ a, turn s = .ok (.inr a) ∧ post a) ∨
        ∃ s', turn s = .ok (.inl s') ∧ inv s' ∧ size s' < size s)
    (hstart : inv start) : ∃ a, Returns turn start a ∧ post a := by
  have hall : ∀ m s, size s < m → Visits turn start s → inv s → ∃ a, Returns turn s a ∧ post a := by
    intro m
    induction m with
    | zero => exact fun s hs => absurd hs (Nat.not_lt_zero _)
    | succ m ih =>
      intro s hs hvisit hinv
      rcases hturn s hvisit hinv with ⟨a, hdone, hpost⟩ | ⟨s', hnext, hinv', hsmaller⟩
      · exact ⟨a, .done hdone, hpost⟩
      · rcases ih s' (by omega) (hvisit.next hnext) hinv' with ⟨a, hreturns, hpost⟩
        exact ⟨a, .next hnext hreturns, hpost⟩
  exact hall (size start + 1) start (Nat.lt_succ_self _) .here hstart

end Tempest
