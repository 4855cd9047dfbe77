import Mathlib

/-!
# Sort — `list.sort(key=…)` with a key function that may raise

`sortBy key items` computes every key first, raises what the first failing key raises, and then
sorts stably by key.  When no two items share a key the result depends on the multiset of the
items only (`sortBy_unique`): this is what makes an unordered container canonical.
-/

namespace Tempest
namespace Python

variable {ε α κ : Type} [LinearOrder κ]

def keyed (key : α → Except ε κ) : List α → Except ε (List (κ × α))
  | [] => .ok []
  | item :: items => do
    let k ← key item
    let rest ← keyed key items
    return (k, item) :: rest

def sortBy (key : α → Except ε κ) (items : List α) : Except ε (List α) := do
  let pairs ← keyed key items
  return (pairs.insertionSort fun a b => a.1 ≤ b.1).map Prod.snd

def KeyLE (key : α → Except ε κ) (a b : α) : Prop :=
  ∃ j k, key a = .ok j ∧ key b = .ok k ∧ j ≤ k

/-- A loop that turns its items over one after the other. -/
theorem loop_ok_iff {α β : Type} (loop : List α → Except ε (List β)) {R : α → β → Prop}
    (hnil : loop [] = .ok [])
    (hcons : ∀ a as bs, loop (a :: as) = .ok bs ↔ ∃ b rest, R a b ∧ loop as = .ok rest ∧ b :: rest = bs)
    {as : List α} {bs : List β} : loop as = .ok bs ↔ List.Forall₂ R as bs := by
  induction as generalizing bs with
  | nil => simp [hnil, eq_comm]
  | cons a as ih => simp only [hcons, ih, List.forall₂_cons_left_iff, eq_comm]

/-- A computation of two steps succeeds when both do. -/
theorem bind_eq_ok {β γ : Type} {x : Except ε β} {f : β → Except ε γ} {c : γ} :
    (x >>= f) = .ok c ↔ ∃ b, x = .ok b ∧ f b = .ok c := by
  cases x with
  | error _ | ok _ => simp [bind, Except.bind]

theorem pure_eq_ok {β : Type} {b c : β} : (pure b : Except ε β) = .ok c ↔ b = c := by
  simp [pure, Except.pure]

omit [LinearOrder κ] in
theorem keyed_ok {key : α → Except ε κ} :
    ∀ {items : List α} {pairs : List (κ × α)}, keyed key items = .ok pairs →
      pairs.map Prod.snd = items ∧ ∀ p ∈ pairs, key p.2 = .ok p.1
  | [], pairs, h => by
    have hnil : [] = pairs := Except.ok.inj h
    simp [← hnil]
  | item :: items, pairs, h => by
    simp only [keyed, bind_eq_ok, pure_eq_ok] at h
    rcases h with ⟨k, hk, rest, hrest, rfl⟩
    have ih := keyed_ok hrest
    refine ⟨by simp [ih.1], ?_⟩
    intro p hp
    rcases List.mem_cons.1 hp with rfl | htail
    · exact hk
    · exact ih.2 p htail

omit [LinearOrder κ] in
theorem keyed_of_keys {key : α → Except ε κ} :
    ∀ {items : List α}, (∀ a ∈ items, ∃ k, key a = .ok k) → ∃ pairs, keyed key items = .ok pairs
  | [], _ => ⟨[], rfl⟩
  | item :: items, h => by
    rcases h item (by simp) with ⟨k, hk⟩
    rcases keyed_of_keys fun a ha => h a (List.mem_cons_of_mem _ ha) with ⟨pairs, hpairs⟩
    exact ⟨(k, item) :: pairs, by simp [keyed, hk, hpairs, bind, Except.bind, pure, Except.pure]⟩

theorem sortBy_of_keys {key : α → Except ε κ} {items : List α}
    (h : ∀ a ∈ items, ∃ k, key a = .ok k) : ∃ out, sortBy key items = .ok out := by
  rcases keyed_of_keys h with ⟨pairs, hpairs⟩
  refine ⟨(pairs.insertionSort fun a b => a.1 ≤ b.1).map Prod.snd, ?_⟩
  simp [sortBy, hpairs, bind, Except.bind, pure, Except.pure]

theorem sortBy_perm {key : α → Except ε κ} {items out : List α}
    (h : sortBy key items = .ok out) : out.Perm items := by
  simp only [sortBy, bind_eq_ok, pure_eq_ok] at h
  rcases h with ⟨pairs, hpairs, rfl⟩
  have hmap := (keyed_ok hpairs).1
  simpa [hmap] using (List.perm_insertionSort (fun a b : κ × α => a.1 ≤ b.1) pairs).map Prod.snd

theorem sortBy_pairwise {key : α → Except ε κ} {items out : List α}
    (h : sortBy key items = .ok out) : out.Pairwise (KeyLE key) := by
  simp only [sortBy, bind_eq_ok, pure_eq_ok] at h
  rcases h with ⟨pairs, hpairs, rfl⟩
  have hk := (keyed_ok hpairs).2
  have : Std.Total fun a b : κ × α => a.1 ≤ b.1 := ⟨fun a b => le_total a.1 b.1⟩
  have : IsTrans (κ × α) fun a b => a.1 ≤ b.1 := ⟨fun _ _ _ hab hbc => le_trans hab hbc⟩
  have hsorted := List.pairwise_insertionSort (fun a b : κ × α => a.1 ≤ b.1) pairs
  have hmem : ∀ p ∈ pairs.insertionSort (fun a b => a.1 ≤ b.1), key p.2 = .ok p.1 := by
    intro p hp
    exact hk p (by simpa using hp)
  rw [List.pairwise_map]
  exact hsorted.imp_of_mem fun ha hb hle => ⟨_, _, hmem _ ha, hmem _ hb, hle⟩

/-- Where a key names one item of the list, the sorted list depends on the multiset only. -/
theorem sortBy_unique {key : α → Except ε κ} {xs ys as bs : List α}
    (hxs : sortBy key xs = .ok as) (hys : sortBy key ys = .ok bs) (hperm : xs.Perm ys)
    (hinj : ∀ a ∈ xs, ∀ b ∈ xs, ∀ k, key a = .ok k → key b = .ok k → a = b) : as = bs := by
  have hpa := sortBy_perm hxs
  have hpb := sortBy_perm hys
  have hperms : as.Perm bs := hpa.trans (hperm.trans hpb.symm)
  refine hperms.eq_of_pairwise ?_ (sortBy_pairwise hxs) (sortBy_pairwise hys)
  rintro a b ha hb ⟨j, k, hj, hk, hjk⟩ ⟨k', j', hk', hj', hkj⟩
  have hjj : j = j' := Except.ok.inj (hj.symm.trans hj')
  have hkk : k = k' := Except.ok.inj (hk.symm.trans hk')
  have hjk' : j = k := le_antisymm hjk (by simpa [hjj, hkk] using hkj)
  have haxs : a ∈ xs := hpa.mem_iff.1 ha
  have hbxs : b ∈ xs := hperm.mem_iff.2 (hpb.mem_iff.1 hb)
  exact hinj a haxs b hbxs j hj (by rw [hjk']; exact hk)

/-! ## Related lists -/

omit [LinearOrder κ] in
/-- Two lists related to one list item by item are related to each other. -/
theorem forall₂_of_common {β γ : Type} {R : α → γ → Prop} {S : β → γ → Prop} {T : α → β → Prop}
    {as : List α} {bs : List β} {cs : List γ} (hR : List.Forall₂ R as cs)
    (hS : List.Forall₂ S bs cs)
    (hT : ∀ a ∈ as, ∀ b ∈ bs, ∀ c, R a c → S b c → T a b) : List.Forall₂ T as bs := by
  induction hR generalizing bs with
  | nil =>
    cases hS
    exact .nil
  | cons ha _ ih =>
    cases hS with
    | cons hb hbs =>
      refine .cons (hT _ (by simp) _ (by simp) _ ha hb) (ih hbs ?_)
      intro a ha b hb
      exact hT a (List.mem_cons_of_mem _ ha) b (List.mem_cons_of_mem _ hb)

omit [LinearOrder κ] in
/-- Images of related lists are equal when related items have equal images. -/
theorem forall₂_image_eq {β γ : Type} {R : α → γ → Prop} {S : β → γ → Prop} {T : α → β → Prop}
    {as : List α} {bs : List β} {cs ds : List γ} (hR : List.Forall₂ R as cs)
    (hS : List.Forall₂ S bs ds) (hT : List.Forall₂ T as bs)
    (heq : ∀ a ∈ as, ∀ b ∈ bs, ∀ c d, R a c → S b d → T a b → c = d) : cs = ds := by
  induction hR generalizing bs ds with
  | nil =>
    cases hT
    cases hS
    rfl
  | cons ha _ ih =>
    cases hT with
    | cons hab hT =>
      cases hS with
      | cons hb hbs =>
        have hhead := heq _ (by simp) _ (by simp) _ _ ha hb hab
        have htail := ih hbs hT fun a ha b hb =>
          heq a (List.mem_cons_of_mem _ ha) b (List.mem_cons_of_mem _ hb)
        simp [hhead, htail]

omit [LinearOrder κ] in
omit [LinearOrder κ] in
/-- A permutation of one list is followed by its images. -/
theorem forall₂_perm {γ : Type} {R : α → γ → Prop} {as bs : List α} {cs : List γ}
    (h : List.Forall₂ R as cs) (hperm : as.Perm bs) :
    ∃ ds, cs.Perm ds ∧ List.Forall₂ R bs ds := by
  rcases List.perm_comp_forall₂ hperm.symm h with ⟨ds, hds, hperm'⟩
  exact ⟨ds, hperm'.symm, hds⟩

omit [LinearOrder κ] in
/-- A permutation of the images comes from one of the list. -/
theorem forall₂_perm_right {γ : Type} {R : α → γ → Prop} {as : List α} {cs ds : List γ}
    (h : List.Forall₂ R as cs) (hperm : cs.Perm ds) :
    ∃ bs, as.Perm bs ∧ List.Forall₂ R bs ds := by
  rcases forall₂_perm (R := flip R) h.flip hperm with ⟨bs, hbs, hR⟩
  exact ⟨bs, hbs, hR.flip⟩

omit [LinearOrder κ] in
/-- Pairs are related when their first and their second components are. -/
theorem forall₂_pairs {β γ δ : Type} {R : α → γ → Prop} {S : β → δ → Prop} {xs : List (α × β)}
    {ys : List (γ × δ)} :
    List.Forall₂ (fun p q => R p.1 q.1 ∧ S p.2 q.2) xs ys ↔
      List.Forall₂ R (xs.map Prod.fst) (ys.map Prod.fst) ∧
        List.Forall₂ S (xs.map Prod.snd) (ys.map Prod.snd) := by
  induction xs generalizing ys with
  | nil => cases ys <;> simp
  | cons x xs ih =>
    cases ys with
    | nil => simp
    | cons y ys =>
      simp only [List.map_cons, List.forall₂_cons, ih]
      constructor
      · rintro ⟨⟨hR, hS⟩, hRs, hSs⟩
        exact ⟨⟨hR, hRs⟩, hS, hSs⟩
      · rintro ⟨⟨hR, hRs⟩, hS, hSs⟩
        exact ⟨⟨hR, hS⟩, hRs, hSs⟩

omit [LinearOrder κ] in
theorem forall₂_mem_right {γ : Type} {R : α → γ → Prop} {as : List α} {cs : List γ}
    (hR : List.Forall₂ R as cs) {c : γ} (hc : c ∈ cs) : ∃ a ∈ as, R a c := by
  induction hR with
  | nil => cases hc
  | cons ha _ ih =>
    rcases List.mem_cons.1 hc with rfl | htail
    · exact ⟨_, by simp, ha⟩
    · rcases ih htail with ⟨b, hb, hbc⟩
      exact ⟨b, List.mem_cons_of_mem _ hb, hbc⟩

omit [LinearOrder κ] in
/-- A relation between two items of a list is a relation between their images. -/
theorem pairwise_of_forall₂ {γ : Type} {R : α → γ → Prop} {P : α → α → Prop} {Q : γ → γ → Prop}
    {as : List α} {cs : List γ} (hR : List.Forall₂ R as cs) (hP : as.Pairwise P)
    (h : ∀ a b c d, R a c → R b d → P a b → Q c d) : cs.Pairwise Q := by
  induction hR with
  | nil => exact .nil
  | cons ha htail ih =>
    rcases List.pairwise_cons.1 hP with ⟨hhead, hP⟩
    refine List.pairwise_cons.2 ⟨?_, ih hP⟩
    intro d hd
    rcases forall₂_mem_right htail hd with ⟨b, hb, hbd⟩
    exact h _ _ _ _ ha hbd (hhead b hb)

/-! ## Equal images -/

omit [LinearOrder κ] in
/-- Lists have equal images when their items are the same, item by item. -/
theorem images_eq_iff {β γ : Type} {R : α → γ → Prop} {R' : β → γ → Prop} {S : α → β → Prop}
    {xs : List α} {ys : List β} {cs ds : List γ}
    (hagree : ∀ x ∈ xs, ∀ y c c', R x c → R' y c' → (c = c' ↔ S x y))
    (hxs : List.Forall₂ R xs cs) (hys : List.Forall₂ R' ys ds) :
    cs = ds ↔ List.Forall₂ S xs ys := by
  constructor
  · rintro rfl
    exact forall₂_of_common hxs hys fun x hx y _ c hc hc' => (hagree x hx y c c hc hc').1 rfl
  · intro hsame
    exact forall₂_image_eq hxs hys hsame fun x hx y _ c c' hc hc' h =>
      (hagree x hx y c c' hc hc').2 h

/-- Lists have equal sorted images when their items are the same in some order: sorting forgets
the order and, as long as a key names one item, nothing else. -/
theorem sorted_images_eq_iff {β γ : Type} {R : α → γ → Prop} {R' : β → γ → Prop}
    {S : α → β → Prop} {key : γ → Except ε κ} {xs : List α} {ys : List β} {cs cs' ds ds' : List γ}
    (hagree : ∀ x ∈ xs, ∀ y c c', R x c → R' y c' → (c = c' ↔ S x y))
    (hxs : List.Forall₂ R xs cs) (hys : List.Forall₂ R' ys ds)
    (hcs : sortBy key cs = .ok cs') (hds : sortBy key ds = .ok ds')
    (hinj : ∀ a ∈ cs, ∀ b ∈ cs, ∀ k, key a = .ok k → key b = .ok k → a = b) :
    cs' = ds' ↔ ∃ xs', xs.Perm xs' ∧ List.Forall₂ S xs' ys := by
  constructor
  · rintro rfl
    have hperm : cs.Perm ds := (sortBy_perm hcs).symm.trans (sortBy_perm hds)
    rcases forall₂_perm_right hxs hperm with ⟨xs', hxs', himages⟩
    refine ⟨xs', hxs', (images_eq_iff ?_ himages hys).1 rfl⟩
    exact fun x hx => hagree x (hxs'.mem_iff.2 hx)
  · rintro ⟨xs', hxs', hsame⟩
    rcases forall₂_perm hxs hxs' with ⟨es, hes, himages⟩
    have heq : es = ds :=
      (images_eq_iff (fun x hx => hagree x (hxs'.mem_iff.2 hx)) himages hys).2 hsame
    exact sortBy_unique hcs hds (heq ▸ hes) hinj

end Python
end Tempest
