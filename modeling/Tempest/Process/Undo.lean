import Mathlib.Init

/-!
# Undo — unwinding a stack of marks

A mark knows how to take a state back.  Unwinding takes a state back over all the marks of a stack,
the newest first; a stack is sound for a start when it unwinds to it.
-/

namespace Tempest

section Undo

variable {σ ε : Type} (back : ε → σ → σ)

/-- The state behind all the marks, the newest mark first. -/
def unwind : List ε → σ → σ
  | [], s => s
  | mark :: marks, s => unwind marks (back mark s)

def Unwinds (start : σ) (marks : List ε) (s : σ) : Prop := unwind back marks s = start

/-- Only what the marks of the stack take back matters. -/
theorem unwind_congr {back back' : ε → σ → σ} :
    ∀ {marks : List ε}, (∀ mark ∈ marks, back mark = back' mark) → unwind back marks = unwind back' marks
  | [], _ => rfl
  | mark :: marks, h => by
    funext s
    rw [unwind, unwind, h mark List.mem_cons_self,
      unwind_congr fun mark hmark => h mark (List.mem_cons_of_mem _ hmark)]

variable {back} {start s s' : σ} {mark : ε} {marks : List ε}

theorem Unwinds.nil : Unwinds back s [] s := rfl

/-- A step that its own mark takes back is pushed. -/
theorem Unwinds.push (h : Unwinds back start marks s) (hmark : back mark s' = s) :
    Unwinds back start (mark :: marks) s' := by
  unfold Unwinds at h ⊢
  rw [unwind, hmark, h]

theorem Unwinds.pop (h : Unwinds back start (mark :: marks) s) :
    Unwinds back start marks (back mark s) := h

/-- A stack without marks is at its start. -/
theorem Unwinds.eq_start (h : Unwinds back start [] s) : s = start := h

end Undo

end Tempest
