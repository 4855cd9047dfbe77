import Mathlib.Data.List.Basic
import Mathlib.Logic.Relation

/-!
# Greedy — greedy search with a budget of attempts

From a point, the first acceptable candidate is taken, until there is none or the attempts are used
up.  `Trail` is the sequence of points such a search goes through, without the budget:
`descend_trail` says that the search never leaves it, and `exists_budget` that every point of it is
where some budget ends.
-/

namespace Tempest
namespace Greedy

variable {α : Type*} (next : α → List α) (skip : α → α → Bool) (accept : α → Bool)

/-- One look at the candidates; every candidate that is not skipped costs an attempt. -/
def scan (skip accept : α → Bool) (budget : Nat) : List α → Nat → Option α × Nat
  | [], spent => (none, spent)
  | a :: candidates, spent =>
    if budget ≤ spent then (none, spent)
    else if skip a then scan skip accept budget candidates spent
    else if accept a then (some a, spent + 1)
    else scan skip accept budget candidates (spent + 1)

/-- The search, for at most as many rounds as the first argument says. -/
@[grind =]
def descend (budget : Nat) : Nat → α → Nat → α × Nat
  | 0, a, spent => (a, spent)
  | rounds + 1, a, spent =>
    if budget ≤ spent then (a, spent)
    else
      match scan (skip a) accept budget (next a) spent with
      | (none, spent) => (a, spent)
      | (some b, spent) => descend budget rounds b spent

/-- The candidate that is taken when the budget does not matter. -/
def firstAccepted (a : α) : Option α := (next a).find? fun b => !skip a b && accept b

/-- The points a search from `start` goes through. -/
def Trail (start : α) : α → Prop :=
  Relation.ReflTransGen (fun a b => firstAccepted next skip accept a = some b) start

variable {next skip accept}

/-! ## One round -/

theorem scan_some {skip accept : α → Bool} {budget : Nat} {candidates : List α} {spent spent' : Nat}
    {b : α} (h : scan skip accept budget candidates spent = (some b, spent')) :
    candidates.find? (fun a => !skip a && accept a) = some b ∧ spent < spent' := by
  induction candidates generalizing spent with
  | nil => cases h
  | cons a candidates ih =>
    unfold scan at h
    by_cases hbudget : budget ≤ spent
    · simp [hbudget] at h
    cases hskip : skip a with
    | true =>
      simp only [hbudget, hskip, if_true, if_false] at h
      simpa [List.find?_cons, hskip] using ih h
    | false =>
      cases haccept : accept a with
      | true =>
        simp only [hbudget, hskip, haccept, if_true, if_false, Bool.false_eq_true,
          Prod.mk.injEq, Option.some.injEq] at h
        rcases h with ⟨rfl, rfl⟩
        simp [hskip, haccept]
      | false =>
        simp only [hbudget, hskip, haccept, if_false, Bool.false_eq_true] at h
        have hrest := ih h
        refine ⟨?_, Nat.lt_trans (Nat.lt_succ_self spent) hrest.2⟩
        simpa [List.find?_cons, hskip, haccept] using hrest.1

/-- The attempts that the first acceptable candidate costs do not depend on the budget. -/
theorem scan_of_find {skip accept : α → Bool} {candidates : List α} {b : α}
    (h : candidates.find? (fun a => !skip a && accept a) = some b) :
    ∃ cost, 0 < cost ∧ ∀ budget spent, spent + cost ≤ budget →
      scan skip accept budget candidates spent = (some b, spent + cost) := by
  induction candidates with
  | nil => cases h
  | cons a candidates ih =>
    cases hskip : skip a with
    | true =>
      rcases ih (by simpa [List.find?_cons, hskip] using h) with ⟨cost, hpos, hscan⟩
      refine ⟨cost, hpos, ?_⟩
      intro budget spent hroom
      have hopen : ¬ budget ≤ spent := by omega
      simp [scan, hopen, hskip, hscan budget spent hroom]
    | false =>
      cases haccept : accept a with
      | true =>
        obtain rfl : a = b := by simpa [List.find?_cons, hskip, haccept] using h
        refine ⟨1, Nat.one_pos, ?_⟩
        intro budget spent hroom
        have hopen : ¬ budget ≤ spent := by omega
        simp [scan, hopen, hskip, haccept]
      | false =>
        rcases ih (by simpa [List.find?_cons, hskip, haccept] using h) with
          ⟨cost, hpos, hscan⟩
        refine ⟨cost + 1, Nat.succ_pos cost, ?_⟩
        intro budget spent hroom
        have hopen : ¬ budget ≤ spent := by omega
        have hrest := hscan budget (spent + 1) (by omega)
        simp [scan, hopen, hskip, haccept, hrest, Nat.add_assoc, Nat.add_comm 1 cost]

/-! ## The search -/

theorem descend_trail {budget rounds : Nat} {start a : α} {spent : Nat}
    (h : Trail next skip accept start a) :
    Trail next skip accept start (descend next skip accept budget rounds a spent).1 := by
  induction rounds generalizing a spent with
  | zero => exact h
  | succ rounds ih =>
    unfold descend
    by_cases hbudget : budget ≤ spent
    · simpa [hbudget] using h
    · simp only [hbudget, if_false]
      cases hscan : scan (skip a) accept budget (next a) spent with
      | mk found spent' =>
        cases found with
        | none => exact h
        | some b => exact ih (h.tail (scan_some hscan).1)

theorem descend_of_spent {budget rounds : Nat} {a : α} :
    descend next skip accept budget rounds a budget = (a, budget) := by
  cases rounds with
  | zero => rfl
  | succ rounds => simp [descend]

/-- A point of the trail costs a fixed number of attempts, and at most as many rounds. -/
theorem exists_cost {start b : α} (h : Trail next skip accept start b) :
    ∃ cost rounds, rounds ≤ cost ∧ ∀ spent more,
      descend next skip accept (spent + cost) (rounds + more) start spent = (b, spent + cost) := by
  induction h using Relation.ReflTransGen.head_induction_on with
  | refl => exact ⟨0, 0, Nat.le_refl 0, fun spent more => descend_of_spent⟩
  | head hfirst _ ih =>
    rcases ih with ⟨cost, rounds, hrounds, hrest⟩
    rcases scan_of_find hfirst with ⟨price, hpos, hscan⟩
    refine ⟨price + cost, rounds + 1, by omega, ?_⟩
    intro spent more
    have hopen : ¬ spent + (price + cost) ≤ spent := by omega
    have hround := hscan (spent + (price + cost)) spent (by omega)
    have hlater := hrest (spent + price) more
    rw [Nat.add_right_comm rounds 1 more]
    simp only [descend, hopen, if_false, hround]
    rwa [← Nat.add_assoc spent price cost]

/-- Every point of the trail is where the search ends under some budget. -/
theorem exists_budget {start b : α} (h : Trail next skip accept start b) (spent : Nat) :
    ∃ budget, (descend next skip accept budget budget start spent).1 = b := by
  rcases exists_cost h with ⟨cost, rounds, hrounds, hsearch⟩
  refine ⟨spent + cost, ?_⟩
  have hmore : spent + cost = rounds + (spent + cost - rounds) := by omega
  have hend := hsearch spent (spent + cost - rounds)
  rw [← hmore] at hend
  rw [hend]

/-! ## What a search asks -/

def asked (skip accept : α → Bool) (budget : Nat) : List α → Nat → List α
  | [], _ => []
  | a :: candidates, spent =>
    if budget ≤ spent then []
    else if skip a then asked skip accept budget candidates spent
    else if accept a then [a]
    else a :: asked skip accept budget candidates (spent + 1)

variable (next skip accept) in
/-- The points a whole search asks about, in its order. -/
def descendAsked (budget : Nat) : Nat → α → Nat → List α
  | 0, _, _ => []
  | rounds + 1, a, spent =>
    if budget ≤ spent then []
    else
      asked (skip a) accept budget (next a) spent ++
        match scan (skip a) accept budget (next a) spent with
        | (none, _) => []
        | (some b, spent) => descendAsked budget rounds b spent

section Look

variable {skip accept : α → Bool} {budget : Nat} {candidates : List α} {spent spent' : Nat}

/-- Every question costs one attempt. -/
theorem scan_spent :
    (scan skip accept budget candidates spent).2 =
      spent + (asked skip accept budget candidates spent).length := by
  induction candidates generalizing spent with
  | nil => rfl
  | cons a candidates ih =>
    unfold scan asked
    split_ifs with hbudget hskip haccept
    · rfl
    · exact ih
    · rfl
    · rw [ih, List.length_cons]
      omega

theorem asked_length_le : (asked skip accept budget candidates spent).length ≤ candidates.length := by
  induction candidates generalizing spent with
  | nil => exact Nat.le_refl 0
  | cons a candidates ih =>
    unfold asked
    split_ifs with hbudget hskip haccept
    · exact Nat.zero_le _
    · exact Nat.le_succ_of_le ih
    · exact Nat.succ_le_succ (Nat.zero_le _)
    · exact Nat.succ_le_succ ih

theorem scan_le (h : spent ≤ budget) : (scan skip accept budget candidates spent).2 ≤ budget := by
  induction candidates generalizing spent with
  | nil => exact h
  | cons a candidates ih =>
    unfold scan
    split_ifs with hbudget hskip haccept
    · exact h
    · exact ih h
    · exact Nat.lt_of_not_le hbudget
    · exact ih (Nat.lt_of_not_le hbudget)

/-- A look that gives up with attempts left has seen every candidate. -/
theorem scan_exhausted (h : scan skip accept budget candidates spent = (none, spent'))
    (hleft : spent' < budget) : candidates.find? (fun a => !skip a && accept a) = none := by
  induction candidates generalizing spent with
  | nil => rfl
  | cons a candidates ih =>
    unfold scan at h
    split_ifs at h with hbudget hskip haccept
    · obtain rfl := (Prod.mk.inj h).2
      exact absurd hbudget (Nat.not_le.2 hleft)
    · simpa [List.find?_cons, hskip] using ih h
    · exact absurd (Prod.mk.inj h).1 (Option.some_ne_none a)
    · simpa [List.find?_cons, hskip, haccept] using ih h

end Look

section Search

variable {budget rounds : Nat} {a b : α} {spent spent' : Nat}

theorem descend_spent :
    (descend next skip accept budget rounds a spent).2 =
      spent + (descendAsked next skip accept budget rounds a spent).length := by
  induction rounds generalizing a spent with
  | zero => rfl
  | succ rounds ih =>
    unfold descend descendAsked
    have hlook := @scan_spent α (skip a) accept budget (next a) spent
    split_ifs with hbudget
    · rfl
    · cases hscan : scan (skip a) accept budget (next a) spent with
      | mk found spent' =>
        rw [hscan] at hlook
        cases found with
        | none => simpa using hlook
        | some b =>
          simp only [ih, List.length_append]
          simp only at hlook
          omega

theorem descend_le (h : spent ≤ budget) :
    (descend next skip accept budget rounds a spent).2 ≤ budget := by
  induction rounds generalizing a spent with
  | zero => exact h
  | succ rounds ih =>
    unfold descend
    have hlook := @scan_le α (skip a) accept budget (next a) spent h
    split_ifs with hbudget
    · exact h
    · cases hscan : scan (skip a) accept budget (next a) spent with
      | mk found spent' =>
        rw [hscan] at hlook
        cases found with
        | none => exact hlook
        | some b => exact ih hlook

/-- A search that stops with attempts left stops where no candidate is acceptable. -/
theorem descend_stopped (h : descend next skip accept budget rounds a spent = (b, spent'))
    (hrounds : budget ≤ spent + rounds) (hleft : spent' < budget) :
    firstAccepted next skip accept b = none := by
  induction rounds generalizing a spent with
  | zero =>
    obtain rfl := (Prod.mk.inj h).2
    exact absurd hrounds (Nat.not_le.2 hleft)
  | succ rounds ih =>
    unfold descend at h
    split_ifs at h with hbudget
    · obtain rfl := (Prod.mk.inj h).2
      exact absurd hbudget (Nat.not_le.2 hleft)
    · cases hscan : scan (skip a) accept budget (next a) spent with
      | mk found later =>
        rw [hscan] at h
        cases found with
        | none =>
          obtain ⟨rfl, rfl⟩ := Prod.mk.inj h
          exact scan_exhausted hscan hleft
        | some c =>
          have hspent := (scan_some hscan).2
          exact ih h (by omega)

/-- Where every accepted step loses weight, no budget is ever used beyond some bound. -/
theorem exists_bound {weight : α → Nat}
    (h : ∀ a b, firstAccepted next skip accept a = some b → weight b < weight a) (a : α) :
    ∃ bound, ∀ budget rounds spent,
      (descend next skip accept budget rounds a spent).2 ≤ spent + bound := by
  induction hw : weight a using Nat.strongRecOn generalizing a with
  | _ w ih =>
    subst hw
    have hlook : ∀ budget spent, (scan (skip a) accept budget (next a) spent).2 ≤
        spent + (next a).length := by
      intro budget spent
      rw [scan_spent]
      exact Nat.add_le_add_left asked_length_le spent
    have hrest : ∃ bound, ∀ b, firstAccepted next skip accept a = some b →
        ∀ budget rounds spent, (descend next skip accept budget rounds b spent).2 ≤ spent + bound := by
      cases hfirst : firstAccepted next skip accept a with
      | none => exact ⟨0, fun b hb => by cases hb⟩
      | some b =>
        obtain ⟨bound, hbound⟩ := ih (weight b) (h a b hfirst) b rfl
        exact ⟨bound, fun c hc => Option.some.inj hc ▸ hbound⟩
    obtain ⟨bound, hbound⟩ := hrest
    refine ⟨(next a).length + bound, ?_⟩
    intro budget rounds spent
    cases rounds with
    | zero => exact Nat.le_add_right _ _
    | succ rounds =>
      unfold descend
      have hle := hlook budget spent
      split_ifs with hbudget
      · exact Nat.le_add_right _ _
      · cases hscan : scan (skip a) accept budget (next a) spent with
        | mk found later =>
          rw [hscan] at hle
          cases found with
          | none =>
            simp only at hle ⊢
            omega
          | some c =>
            have hlater := hbound c (scan_some hscan).1 budget rounds later
            simp only at hle ⊢
            omega

end Search

end Greedy
end Tempest
