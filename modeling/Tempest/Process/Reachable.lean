/-!
# Reachable — the states a run can get to

A system is a function from a state and an action to the next state, where there is one.  `Reachable`
states are those that its steps lead to when each of them meets a condition on the state it starts in.
-/

namespace Tempest

variable {σ α : Type} {step : σ → α → Option σ} {ok : σ → α → Prop} {start : σ → Prop}

inductive Reachable (step : σ → α → Option σ) (ok : σ → α → Prop) (start : σ → Prop) : σ → Prop where
  | start {s : σ} : start s → Reachable step ok start s
  | step {s s' : σ} {a : α} :
      Reachable step ok start s → ok s a → step s a = some s' → Reachable step ok start s'

namespace Reachable

/-- What holds at the start and is kept by every step that meets the condition holds in every state
reached. -/
theorem invariant {inv : σ → Prop} (hstart : ∀ s, start s → inv s)
    (hstep : ∀ s a s', inv s → ok s a → step s a = some s' → inv s') {s : σ}
    (h : Reachable step ok start s) : inv s := by
  induction h with
  | start hs => exact hstart _ hs
  | step _ hok hs ih => exact hstep _ _ _ ih hok hs

/-- The state that a list of actions leads to, where each meets the condition. -/
theorem of_foldlM [∀ s a, Decidable (ok s a)] {actions : List α} {s s' : σ}
    (h : Reachable step ok start s)
    (hrun : actions.foldlM (fun s a => if ok s a then step s a else none) s = some s') :
    Reachable step ok start s' := by
  induction actions generalizing s with
  | nil => exact Option.some.inj hrun ▸ h
  | cons a actions ih =>
    rw [List.foldlM_cons, Option.bind_eq_bind, Option.bind_eq_some_iff] at hrun
    obtain ⟨t, ht, hrest⟩ := hrun
    by_cases hok : ok s a
    · rw [if_pos hok] at ht
      exact ih (h.step hok ht) hrest
    · rw [if_neg hok] at ht
      cases ht

/-- A state that passes a test is reached when a list of actions leads to one. -/
theorem exists_of_foldlM [∀ s a, Decidable (ok s a)] (actions : List α) (test : σ → Bool) {s : σ}
    (h : Reachable step ok start s)
    (hrun : (actions.foldlM (fun s a => if ok s a then step s a else none) s).any test) :
    ∃ s', Reachable step ok start s' ∧ test s' := by
  rw [Option.any_eq_true] at hrun
  obtain ⟨s', hs', htest⟩ := hrun
  exact ⟨s', of_foldlM h hs', htest⟩

/-- The state that a list of actions leads to which meet the condition in every state. -/
theorem of_always {s s' : σ} (h : Reachable step ok start s) (actions : List α)
    (hok : ∀ a ∈ actions, ∀ s, ok s a) (hrun : actions.foldlM step s = some s') :
    Reachable step ok start s' := by
  induction actions generalizing s with
  | nil => exact Option.some.inj hrun ▸ h
  | cons a actions ih =>
    rw [List.foldlM_cons, Option.bind_eq_bind, Option.bind_eq_some_iff] at hrun
    obtain ⟨t, ht, hrest⟩ := hrun
    have hfirst : ok s a := hok a List.mem_cons_self s
    exact ih (h.step hfirst ht) (fun b hb => hok b (List.mem_cons_of_mem a hb)) hrest

end Reachable

end Tempest
