import Mathlib.Data.List.Forall2

/-!
# Fallible — steps and loops that raise

When a step behind another step, or a loop of steps, gets to its end, and what it then returns.
-/

namespace Tempest

theorem bind_ok_iff {ε α β : Type} {x : Except ε α} {f : α → Except ε β} {b : β} :
    (x >>= f) = .ok b ↔ ∃ a, x = .ok a ∧ f a = .ok b := by
  cases x with
  | error _ | ok _ => simp [bind, Except.bind]

theorem mapM_ok_iff {ε α β : Type} {f : α → Except ε β} {xs : List α} {ys : List β} :
    xs.mapM f = .ok ys ↔ List.Forall₂ (fun x y => f x = .ok y) xs ys := by
  induction xs generalizing ys with
  | nil =>
    cases ys with
    | nil => simp [pure, Except.pure]
    | cons y ys => simp [pure, Except.pure]
  | cons x xs ih =>
    rw [List.mapM_cons, bind_ok_iff, List.forall₂_cons_left_iff]
    constructor
    · rintro ⟨y, hy, hrest⟩
      rcases bind_ok_iff.1 hrest with ⟨ys', hys', hcons⟩
      exact ⟨y, ys', hy, ih.1 hys', (Except.ok.inj hcons).symm⟩
    · rintro ⟨y, ys', hy, hys', rfl⟩
      exact ⟨y, hy, bind_ok_iff.2 ⟨ys', ih.2 hys', rfl⟩⟩

/-- A loop gets to its end exactly when no turn raises. -/
theorem exists_mapM_ok_iff {ε α β : Type} {f : α → Except ε β} {xs : List α} :
    (∃ ys, xs.mapM f = .ok ys) ↔ ∀ x ∈ xs, ∃ y, f x = .ok y := by
  simp only [mapM_ok_iff]
  induction xs with
  | nil => simp
  | cons x xs ih =>
    rw [List.forall_mem_cons, ← ih]
    constructor
    · rintro ⟨_, h⟩
      cases h with
      | cons hy hys => exact ⟨⟨_, hy⟩, _, hys⟩
    · rintro ⟨⟨y, hy⟩, ys, hys⟩
      exact ⟨y :: ys, .cons hy hys⟩

/-- What a loop collects, one turn at a time. -/
theorem mem_mapM_ok {ε α β : Type} {f : α → Except ε β} {xs : List α} {ys : List β}
    (h : xs.mapM f = .ok ys) {y : β} : y ∈ ys ↔ ∃ x ∈ xs, f x = .ok y := by
  have hall := mapM_ok_iff.1 h
  clear h
  induction hall with
  | nil => simp
  | cons hxy _ ih => simp [ih, hxy, eq_comm]

theorem forM_ok_iff {ε α : Type} {f : α → Except ε Unit} {xs : List α} :
    xs.forM f = .ok () ↔ ∀ x ∈ xs, f x = .ok () := by
  induction xs with
  | nil => simp [pure, Except.pure]
  | cons x xs ih =>
    rw [List.forM_eq_forM, List.forM_cons, bind_ok_iff, List.forall_mem_cons]
    constructor
    · rintro ⟨⟨⟩, hx, hxs⟩
      exact ⟨hx, ih.1 hxs⟩
    · rintro ⟨hx, hxs⟩
      exact ⟨(), hx, ih.2 hxs⟩

/-- A loop over a state gets to its end exactly when no turn raises, in whatever state it is taken. -/
theorem exists_foldlM_ok_iff {ε α σ : Type} {f : σ → α → Except ε σ} {P : α → Prop}
    (hstep : ∀ s x, (∃ s', f s x = .ok s') ↔ P x) {xs : List α} {s : σ} :
    (∃ s', xs.foldlM f s = .ok s') ↔ ∀ x ∈ xs, P x := by
  induction xs generalizing s with
  | nil => simp [pure, Except.pure]
  | cons x xs ih =>
    rw [List.forall_mem_cons, ← hstep s x]
    simp only [List.foldlM_cons, bind_ok_iff]
    constructor
    · rintro ⟨s', s₁, hfirst, hrest⟩
      exact ⟨⟨s₁, hfirst⟩, ih.1 ⟨s', hrest⟩⟩
    · rintro ⟨⟨s₁, hfirst⟩, hrest⟩
      rcases (@ih s₁).2 hrest with ⟨s', hs'⟩
      exact ⟨s', s₁, hfirst, hs'⟩

/-! ## What is raised first -/

def fault {ε α : Type} : Except ε α → Option ε
  | .ok _ => none
  | .error e => some e

theorem fault_eq_none_iff {ε α : Type} {x : Except ε α} : fault x = none ↔ ∃ a, x = .ok a := by
  cases x with
  | error _ | ok _ => simp [fault]

theorem fault_eq_some_iff {ε α : Type} {x : Except ε α} {e : ε} : fault x = some e ↔ x = .error e := by
  cases x with
  | error _ | ok _ => simp [fault]

/-- A step behind another raises when the other does not. -/
theorem fault_bind {ε α β : Type} {x : Except ε α} {f : α → Except ε β} {r : Option ε}
    (h : ∀ a, x = .ok a → fault (f a) = r) : fault (x >>= f) = (fault x).or r := by
  cases x with
  | error e => rfl
  | ok a => exact h a rfl

theorem fault_bind_pure {ε α β : Type} {x : Except ε α} {f : α → β} :
    fault (x >>= fun a => pure (f a)) = fault x := by
  cases x with
  | error _ | ok _ => rfl

/-- A loop raises what its first bad turn does. -/
theorem fault_mapM {ε α β : Type} (f : α → Except ε β) (xs : List α) :
    fault (xs.mapM f) = xs.findSome? fun x => fault (f x) := by
  induction xs with
  | nil => rfl
  | cons x xs ih =>
    have hrest : ∀ y, f x = .ok y →
        fault (xs.mapM f >>= fun ys => pure (y :: ys)) = xs.findSome? fun x => fault (f x) :=
      fun y _ => fault_bind_pure.trans ih
    rw [List.mapM_cons, fault_bind hrest, List.findSome?_cons]
    cases fault (f x) with
    | none => rfl
    | some e => rfl

end Tempest
