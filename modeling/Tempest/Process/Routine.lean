import Mathlib.Init

/-!
# Routine — programs that can be stopped, and what holds of the world they leave

A routine runs on a world `σ` to a value, or it stops early (a raised error, a kill); the world it
leaves is there in both cases.  `Meets` says what a routine may rely on, what it has established when
it returns, and what holds of the world wherever it stops.
-/

namespace Tempest

/-- A routine over a world: a value or the reason it stopped, and the world as it then is. -/
def Routine (ε σ α : Type) : Type := σ → Except ε α × σ

namespace Routine

variable {ε σ α β : Type}

protected def pure (a : α) : Routine ε σ α := fun w => (.ok a, w)

protected def bind (p : Routine ε σ α) (f : α → Routine ε σ β) : Routine ε σ β := fun w =>
  match p w with
  | (.ok a, w') => f a w'
  | (.error e, w') => (.error e, w')

instance : Monad (Routine ε σ) where
  pure := Routine.pure
  bind := Routine.bind

def stop (e : ε) : Routine ε σ α := fun w => (.error e, w)

def get : Routine ε σ σ := fun w => (.ok w, w)

def modify (f : σ → σ) : Routine ε σ Unit := fun w => (.ok (), f w)

def ofExcept (r : Except ε α) : Routine ε σ α := fun w => (r, w)

/-- A `finally`: the world is changed behind the routine, however it ends. -/
def ensure (p : Routine ε σ α) (f : σ → σ) : Routine ε σ α := fun w => ((p w).1, f (p w).2)

/-- The world the routine leaves, however it ends. -/
def final (p : Routine ε σ α) (w : σ) : σ := (p w).2

theorem pure_run (a : α) (w : σ) : (pure a : Routine ε σ α) w = (.ok a, w) := rfl

theorem bind_run (p : Routine ε σ α) (f : α → Routine ε σ β) (w : σ) :
    (p >>= f) w = match p w with
      | (.ok a, w') => f a w'
      | (.error e, w') => (.error e, w') := rfl

/-! ## Preconditions, postconditions, and what a stop leaves -/

/-- A value with `Q`, or a stop in a world with `C`. -/
def Ends (Q : α → σ → Prop) (C : σ → Prop) : Except ε α × σ → Prop
  | (.ok a, w) => Q a w
  | (.error _, w) => C w

/-- From a world with `P`, the routine returns with `Q`, or stops in a world with `C`. -/
def Meets (P : σ → Prop) (p : Routine ε σ α) (Q : α → σ → Prop) (C : σ → Prop) : Prop :=
  ∀ w, P w → Ends Q C (p w)

variable {P P' : σ → Prop} {p : Routine ε σ α} {Q Q' : α → σ → Prop} {C C' : σ → Prop}

theorem Meets.weaken (h : Meets P p Q C) (hP : ∀ w, P' w → P w) (hQ : ∀ a w, Q a w → Q' a w)
    (hC : ∀ w, C w → C' w) : Meets P' p Q' C' := by
  intro w hw
  have hrun := h w (hP w hw)
  cases hp : p w with
  | mk result w' =>
    rw [hp] at hrun
    cases result with
    | ok a => exact hQ a w' hrun
    | error e => exact hC w' hrun

theorem Meets.pure {a : α} (h : ∀ w, P w → Q a w) : Meets P (Pure.pure a : Routine ε σ α) Q C := h

theorem Meets.stop {e : ε} (h : ∀ w, P w → C w) : Meets P (Routine.stop e : Routine ε σ α) Q C := h

theorem Meets.ofExcept {r : Except ε α} (hok : ∀ a w, r = .ok a → P w → Q a w)
    (herror : ∀ w, P w → C w) : Meets P (Routine.ofExcept r) Q C := by
  intro w hw
  cases r with
  | ok a => exact hok a w rfl hw
  | error e => exact herror w hw

theorem Meets.get {Q : σ → σ → Prop} (h : ∀ w, P w → Q w w) :
    Meets P (Routine.get : Routine ε σ σ) Q C := h

theorem Meets.modify {f : σ → σ} {Q : Unit → σ → Prop} (h : ∀ w, P w → Q () (f w)) :
    Meets P (Routine.modify f : Routine ε σ Unit) Q C := h

/-- One routine after another: the first hands over `R`, and both stop in `C`. -/
theorem Meets.bind {f : α → Routine ε σ β} {R : α → σ → Prop} {Q : β → σ → Prop}
    (hp : Meets P p R C) (hf : ∀ a, Meets (R a) (f a) Q C) : Meets P (p >>= f) Q C := by
  intro w hw
  have hrun := hp w hw
  rw [bind_run]
  cases h : p w with
  | mk result w' =>
    rw [h] at hrun
    cases result with
    | ok a => exact hf a w' hrun
    | error e => exact hrun

theorem Meets.ite {c : Prop} [Decidable c] {q : Routine ε σ α} (hp : c → Meets P p Q C)
    (hq : ¬ c → Meets P q Q C) : Meets P (if c then p else q) Q C := by
  split
  · exact hp ‹_›
  · exact hq ‹_›

theorem Meets.or (h : Meets P p Q C) (h' : Meets P' p Q C) : Meets (fun w => P w ∨ P' w) p Q C := by
  intro w hw
  rcases hw with hw | hw
  · exact h w hw
  · exact h' w hw

/-- A fact that does not depend on the world moves out of the precondition. -/
theorem Meets.fact {φ : Prop} (h : φ → Meets P p Q C) : Meets (fun w => P w ∧ φ) p Q C :=
  fun w hw => h hw.2 w hw.1

/-- What a routine that meets its specification leaves behind. -/
theorem Meets.final (h : Meets P p Q C) (hQ : ∀ a w, Q a w → C w) {w : σ} (hw : P w) :
    C (p.final w) := by
  have hrun := h w hw
  unfold Routine.final
  cases hp : p w with
  | mk result w' =>
    rw [hp] at hrun
    cases result with
    | ok a => exact hQ a w' hrun
    | error e => exact hrun

end Routine

end Tempest
