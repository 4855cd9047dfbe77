import Tempest.Compare.Unordered

/-!
# Projection — equality of the observable projection (`compare/compare.py`)

`compare_equal_iff` says what the cascade computes on observations it accepts as evidence: equality
of one projection.  Without a tolerance what stands at one place is equal.
-/

namespace Tempest

open Python

/-! ## Exact comparison of values -/

theorem floatsEqual_exact {x y : HexFloat} : (floatsEqual exact x y).1 = true ↔ x = y := by
  unfold floatsEqual
  split_ifs with heq hnan hone hzero htol
  · simp [heq]
  · -- there is one NaN, so two NaNs were equal before
    have hboth : x.isNan = true ∧ y.isNan = true := by simpa using hnan
    have hx : x = .nan := by cases x <;> first | rfl | simp [HexFloat.isNan] at hboth
    have hy : y = .nan := by cases y <;> first | rfl | simp [HexFloat.isNan] at hboth
    exact absurd (hx.trans hy.symm) heq
  · simp [heq]
  · simp [exact] at htol
  · simp [heq]
  · simp [exact, heq]

theorem forall₂_eq_iff {α : Type} {R : α → α → Prop} {xs ys : List α}
    (h : ∀ x ∈ xs, ∀ y, R x y ↔ x = y) : List.Forall₂ R xs ys ↔ xs = ys := by
  rw [← List.forall₂_eq_eq_eq]
  exact ⟨fun hxs => forall₂_imp_of_mem hxs fun x hx y => (h x hx y).1,
    fun hxs => forall₂_imp_of_mem hxs fun x hx y => (h x hx y).2⟩

theorem inOrder_eq_iff (a : Canon) : ∀ b, InOrder Eq Eq a b ↔ a = b := by
  induction a using Canon.induct with
  | step a ih =>
    intro b
    cases a with
    | none | bool _ | int _ | str _ | bytes _ | float _ => cases b <;> simp [InOrder]
    | seq tag xs =>
      cases b with
      | seq tag' ys =>
        rw [inOrder_seq, Canon.seq.injEq]
        exact and_congr_right fun _ => forall₂_eq_iff ih
      | _ => simp [InOrder]
    | dict xs =>
      cases b with
      | dict ys =>
        rw [inOrder_dict, forall₂_eq_iff, Canon.dict.injEq]
        intro p hp q
        rw [Entries, ih _ (key_mem_children hp), ih _ (value_mem_children hp), Prod.ext_iff]
      | _ => simp [InOrder]
    | obj typeName xs =>
      cases b with
      | obj typeName' ys =>
        rw [inOrder_obj, forall₂_eq_iff, Canon.obj.injEq]
        intro p hp q
        rw [Attrs, ih _ (attr_mem_children hp), Prod.ext_iff]
      | _ => simp [InOrder]

/-- Without a tolerance the tree comparison is equality. -/
theorem valuesEqual_exact (a b : Canon) : (valuesEqual exact a b).1 = true ↔ a = b := by
  have hclose : Close exact = Eq := by
    ext x y
    exact floatsEqual_exact
  rw [(valuesEqual_reads exact a b).1, hclose, inOrder_eq_iff]

variable {b h : Observation}

/-- The value check of the cascade, given that the exceptions agree. -/
theorem values_differ_iff (hb : b.returnPresent = true ↔ b.raised = none)
    (hh : h.returnPresent = true ↔ h.raised = none) (hexc : compareExceptions b h = none) :
    (b.returnPresent && h.returnPresent && !(valuesEqual exact b.returnCanon h.returnCanon).1) = true
      ↔ ¬ SameResult b h := by
  have hvalues := valuesEqual_exact b.returnCanon h.returnCanon
  rcases compareExceptions_none.1 hexc with ⟨hbn, hhn⟩ | ⟨hbs, _, hsame⟩
  · -- both returned: the guard is open on both sides
    have hresult : SameResult b h ↔ b.returnCanon = h.returnCanon := by
      simp [SameResult, hbn, hhn]
    simp [hb.2 hbn, hh.2 hhn, hresult, ← hvalues]
  · have hclosed : b.returnPresent = false := by
      simpa using fun hpresent => hbs (hb.1 hpresent)
    simp [hclosed, hsame]

theorem compareCompleted_equal (hb : b.returnPresent = true ↔ b.raised = none)
    (hh : h.returnPresent = true ↔ h.raised = none) :
    compareCompleted b h exact = .equal ↔
      SameResult b h ∧ b.effects.map EffectEntry.projection = h.effects.map EffectEntry.projection ∧
        normalizeMessage b.stdout = normalizeMessage h.stdout ∧
        normalizeMessage b.stderr = normalizeMessage h.stderr := by
  unfold compareCompleted
  cases hexc : compareExceptions b h with
  | some d =>
    have hdiffer : ¬ SameResult b h := by
      intro hsame
      have hnone : compareExceptions b h = none := by
        apply compareExceptions_none.2
        unfold SameResult at hsame
        cases hbr : b.raised <;> cases hhr : h.raised <;> simp_all [SameResult]
      simp [hnone] at hexc
    simp [hdiffer]
  | none =>
    have hvalues := values_differ_iff hb hh hexc
    have heffects := compareEffectsFrom_none 0 b.effects h.effects
    by_cases hsame : SameResult b h
    · have hskip : ¬ (b.returnPresent && h.returnPresent &&
          !(valuesEqual exact b.returnCanon h.returnCanon).1) = true := fun hd => hvalues.1 hd hsame
      simp only [hskip, hsame, true_and, compareEffects, ← heffects]
      cases compareEffectsFrom 0 b.effects h.effects with
      | some d => simp
      | none =>
        by_cases hout : normalizeMessage b.stdout = normalizeMessage h.stdout
        · by_cases herr : normalizeMessage b.stderr = normalizeMessage h.stderr
          · simp [hout, herr]
          · simp [hout, herr]
        · simp [hout]
    · simp [hvalues.2 hsame, hsame]

theorem compare_equal_iff (hb : Comparable b) (hh : Comparable h) :
    compare b h exact = .equal ↔ SameObservable b h := by
  rw [compare_of_comparable exact hb hh]
  unfold compareOutcomes SameObservable
  by_cases hout : b.outcome = h.outcome
  · cases ho : b.outcome with
    | hung => simp [← hout, ho]
    | crashed =>
      by_cases hexit : b.exitStatus = h.exitStatus
      · simp [← hout, ho, hexit]
      · simp [← hout, ho, hexit]
    | completed =>
      have hho : h.outcome = .completed := by rw [← hout, ho]
      simpa [← hout, ho] using compareCompleted_equal (hb.returns ho) (hh.returns hho)
  · simp [hout]

/-! ## Equality of the projection -/

theorem sameResult_symm (hs : SameResult b h) : SameResult h b := by
  unfold SameResult at hs ⊢
  cases hb : b.raised <;> cases hh : h.raised <;> simp_all

theorem sameResult_refl (b : Observation) : SameResult b b := by
  unfold SameResult
  cases b.raised <;> simp

theorem sameResult_trans {a b c : Observation} (hab : SameResult a b) (hbc : SameResult b c) :
    SameResult a c := by
  unfold SameResult at *
  cases ha : a.raised <;> cases hb : b.raised <;> cases hc : c.raised <;> simp_all

theorem sameObservable_equivalence : Equivalence SameObservable where
  refl b := ⟨rfl, fun _ => rfl, fun _ => ⟨sameResult_refl b, rfl, rfl, rfl⟩⟩
  symm := by
    rintro a b ⟨hout, hexit, hdone⟩
    refine ⟨hout.symm, fun hb => (hexit (hout.trans hb)).symm, ?_⟩
    intro hb
    rcases hdone (hout.trans hb) with ⟨hresult, heffects, hstdout, hstderr⟩
    exact ⟨sameResult_symm hresult, heffects.symm, hstdout.symm, hstderr.symm⟩
  trans := by
    rintro a b c ⟨hout, hexit, hdone⟩ ⟨hout', hexit', hdone'⟩
    refine ⟨hout.trans hout', fun ha => (hexit ha).trans (hexit' (hout ▸ ha)), ?_⟩
    intro ha
    rcases hdone ha with ⟨hresult, heffects, hstdout, hstderr⟩
    rcases hdone' (hout ▸ ha) with ⟨hresult', heffects', hstdout', hstderr'⟩
    exact ⟨sameResult_trans hresult hresult', heffects.trans heffects', hstdout.trans hstdout',
      hstderr.trans hstderr'⟩

/-! ## What is never looked at -/

def Observation.stripped (o : Observation) : Observation :=
  { o with
    timing := ⟨0, 0⟩
    executedLines := ∅
    executedArcs := ∅
    effects := o.effects.map fun e => { e with ordinal := 0 } }

theorem compareEffectsFrom_stripped : ∀ (i : Nat) (bs hs : List EffectEntry),
    compareEffectsFrom i (bs.map fun e => { e with ordinal := 0 })
      (hs.map fun e => { e with ordinal := 0 }) = compareEffectsFrom i bs hs
  | _, [], [] => rfl
  | _, [], _ :: _ => rfl
  | _, _ :: _, [] => rfl
  | i, b :: bs, h :: hs => by
    have ih := compareEffectsFrom_stripped (i + 1) bs hs
    simp [compareEffectsFrom, ih]

theorem compare_stripped (b h : Observation) (cfg : CompareConfig) :
    compare b.stripped h.stripped cfg = compare b h cfg := by
  have heffects : compareEffects b.stripped h.stripped = compareEffects b h :=
    compareEffectsFrom_stripped 0 b.effects h.effects
  have hcompleted : compareCompleted b.stripped h.stripped cfg = compareCompleted b h cfg := by
    unfold compareCompleted
    rw [heffects]
    rfl
  have houtcomes : compareOutcomes b.stripped h.stripped cfg = compareOutcomes b h cfg := by
    unfold compareOutcomes
    rw [hcompleted]
    rfl
  unfold compare
  rw [houtcomes]
  rfl

/-- Two runs that raise the same error about an object at two addresses. -/
def raisedAt (address : PyStr) (wallNs : Int) : Observation where
  outcome := .completed
  returnPresent := false
  returnCanon := .none
  raised := some ⟨lit "KeyError", lit "builtins", lit "<Foo at " ++ address ++ lit ">"⟩
  timing := ⟨wallNs, wallNs⟩

theorem raisedAt_comparable (address : PyStr) (wallNs : Int) :
    Comparable (raisedAt address wallNs) :=
  ⟨rfl, rfl, rfl, rfl, fun _ => by simp [raisedAt]⟩

theorem raisedAt_same {address address' : PyStr} (wallNs wallNs' : Int)
    (h : normalizeMessage (lit "<Foo at " ++ address ++ lit ">") =
      normalizeMessage (lit "<Foo at " ++ address' ++ lit ">")) :
    SameObservable (raisedAt address wallNs) (raisedAt address' wallNs') := by
  refine ⟨rfl, fun _ => rfl, fun _ => ⟨?_, rfl, rfl, rfl⟩⟩
  exact ⟨rfl, rfl, h⟩

end Tempest
