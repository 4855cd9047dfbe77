import Mathlib.Algebra.Order.BigOperators.Group.List
import Mathlib.Algebra.Order.Ring.Nat

/-!
# Walk — breadth-first traversal of a tree

`walk` takes a node from the front of the queue and puts its children at the end, as `ast.walk`
does.  A node weighs more than its children together, so the weight of the queue is fuel enough;
`mem_walk` says that exactly the descendants of the start are met, whatever the order.
-/

namespace Tempest
namespace Python

section Walk

variable {α : Type} (children : α → List α)

def walk : Nat → List α → List α
  | 0, _ => []
  | _ + 1, [] => []
  | fuel + 1, node :: queue => node :: walk fuel (queue ++ children node)

/-- `b` is `a` or below it. -/
def Within (a b : α) : Prop := Relation.ReflTransGen (fun parent child => child ∈ children parent) a b

def weigh (size : α → Nat) (queue : List α) : Nat := (queue.map size).sum

variable {children}

theorem weigh_append (size : α → Nat) (xs ys : List α) :
    weigh size (xs ++ ys) = weigh size xs + weigh size ys := by
  simp [weigh]

variable {queue : List α}

theorem within_of_mem_walk {fuel : Nat} {b : α} (h : b ∈ walk children fuel queue) :
    ∃ a ∈ queue, Within children a b := by
  induction fuel generalizing queue with
  | zero => cases h
  | succ fuel ih =>
    cases queue with
    | nil => cases h
    | cons node queue =>
      rcases List.mem_cons.1 h with hhere | hlater
      · exact ⟨node, List.mem_cons_self, hhere ▸ Relation.ReflTransGen.refl⟩
      · rcases ih hlater with ⟨a, ha, hwithin⟩
        rcases List.mem_append.1 ha with hqueued | hchild
        · exact ⟨a, List.mem_cons_of_mem node hqueued, hwithin⟩
        · exact ⟨node, List.mem_cons_self, hwithin.head hchild⟩

/-- Each turn takes a node out and lowers the weight of the queue. -/
theorem mem_walk_of_within {size : α → Nat} (hsize : ∀ a, weigh size (children a) < size a)
    {fuel : Nat} (hfuel : weigh size queue ≤ fuel) {a b : α} (ha : a ∈ queue)
    (hwithin : Within children a b) : b ∈ walk children fuel queue := by
  induction fuel generalizing queue a with
  | zero =>
    -- an element of the queue has positive weight
    have hpos := hsize a
    have hle : size a ≤ weigh size queue := List.le_sum_of_mem (List.mem_map_of_mem ha)
    omega
  | succ fuel ih =>
    cases queue with
    | nil => cases ha
    | cons node queue =>
      have hhead : weigh size (node :: queue) = size node + weigh size queue := by
        simp [weigh]
      have hless := hsize node
      have hrest : weigh size (queue ++ children node) ≤ fuel := by
        rw [weigh_append]
        omega
      rcases List.mem_cons.1 ha with rfl | hqueued
      · rcases hwithin.cases_head with rfl | ⟨child, hchild, hbelow⟩
        · exact List.mem_cons_self
        · exact List.mem_cons_of_mem a (ih hrest (List.mem_append_right _ hchild) hbelow)
      · exact List.mem_cons_of_mem node (ih hrest (List.mem_append_left _ hqueued) hwithin)

/-- The walk meets exactly the nodes at or below the queue. -/
theorem mem_walk {size : α → Nat} (hsize : ∀ a, weigh size (children a) < size a) {fuel : Nat}
    (hfuel : weigh size queue ≤ fuel) {b : α} :
    b ∈ walk children fuel queue ↔ ∃ a ∈ queue, Within children a b := by
  refine ⟨within_of_mem_walk, ?_⟩
  rintro ⟨a, ha, hwithin⟩
  exact mem_walk_of_within hsize hfuel ha hwithin

end Walk

/-! ## Reaching a goal in a bounded number of steps -/

inductive ReachesIn {α : Type} (step : α → α → Prop) (goal : α → Prop) : Nat → α → Prop where
  | here (k : Nat) (a : α) (h : goal a) : ReachesIn step goal k a
  | there (k : Nat) (a b : α) (hstep : step a b) (h : ReachesIn step goal k b) :
      ReachesIn step goal (k + 1) a

theorem reachesIn_zero {α : Type} {step : α → α → Prop} {goal : α → Prop} {a : α} :
    ReachesIn step goal 0 a ↔ goal a := by
  constructor
  · intro h
    cases h with
    | here _ _ hgoal => exact hgoal
  · exact ReachesIn.here 0 a

theorem reachesIn_succ {α : Type} {step : α → α → Prop} {goal : α → Prop} {k : Nat} {a : α} :
    ReachesIn step goal (k + 1) a ↔ goal a ∨ ∃ b, step a b ∧ ReachesIn step goal k b := by
  constructor
  · intro h
    cases h with
    | here _ _ hgoal => exact Or.inl hgoal
    | there _ _ b hstep hrest => exact Or.inr ⟨b, hstep, hrest⟩
  · rintro (hgoal | ⟨b, hstep, hrest⟩)
    · exact ReachesIn.here (k + 1) a hgoal
    · exact ReachesIn.there k a b hstep hrest

end Python
end Tempest
