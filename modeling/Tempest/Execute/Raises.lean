import Tempest.Execute.Reproduced

/-!
# Raises — when the proof of a target raises

`observation_summary` has no text for a value without canonical bytes, and nothing catches what it
raises.  The proofs of this file say which rows that happens on, for workers that answer every
input of a batch.
-/

namespace Tempest

open Python

/-! ## Rows without a summary -/

def Row.Summarized (row : Row) : Prop :=
  (∃ base, observationSummary row.base = .ok base) ∧
    ∃ head, observationSummary row.head = .ok head

/-- A submitted input is confirmed and has no summary, and no input submitted before it showed
that the base disagrees with itself. -/
def Unsummarized (cfg : CompareConfig) (dedupe : Bool) (rows : List Row) : Prop :=
  ∃ i row, Reached cfg dedupe rows i row ∧ confirmDivergence row.rerun = .confirmed ∧
    ¬ row.Summarized ∧
      ∀ j < i, ∀ r, Reached cfg dedupe rows j r →
        confirmDivergence r.rerun ≠ .nondeterministicBase

variable {cfg : CompareConfig} {dedupe : Bool}

/-- One turn raises exactly on a submitted, confirmed row without a summary. -/
theorem proveRow_raises_iff {row : Row} {s : LoopState} :
    (∃ e, proveRow cfg dedupe row s = .error e) ↔
      (submission cfg dedupe row s).isSome = true ∧ confirmDivergence row.rerun = .confirmed ∧
        ¬ row.Summarized := by
  unfold proveRow
  cases hcmp : compare row.base row.head cfg with
  | equal | unprovable _ => simp [submission, hcmp]
  | diverged d =>
    cases hsub : submission cfg dedupe row s with
    | none => simp
    | some d' =>
      cases hconfirm : confirmDivergence row.rerun with
      | nondeterministicBase => simp
      | flaky => simp
      | confirmed =>
        cases hbase : observationSummary row.base with
        | error e => simp [bind, Except.bind, Row.Summarized, hbase]
        | ok base =>
          cases hhead : observationSummary row.head with
          | error e => simp [bind, Except.bind, Row.Summarized, hhead]
          | ok head =>
            simp [bind, Except.bind, pure, Except.pure, Row.Summarized, hbase, hhead]

variable {rows : List Row}

/-- Where the loop is at row `i`, it raises there exactly on a reached row without a summary. -/
theorem proveRow_raises_at {i : Nat} {row : Row} {s : LoopState} (hinv : LoopInv cfg dedupe rows i s)
    (hrow : rows[i]? = some row) :
    (∃ e, proveRow cfg dedupe row s = .error e) ↔
      Reached cfg dedupe rows i row ∧ confirmDivergence row.rerun = .confirmed ∧
        ¬ row.Summarized := by
  rw [proveRow_raises_iff]
  have hsubmitted : (submission cfg dedupe row s).isSome = true ↔ Reached cfg dedupe rows i row := by
    constructor
    · intro hsome
      rcases Option.isSome_iff_exists.1 hsome with ⟨d, hd⟩
      exact ((submission_iff hinv hrow).1 hd).2
    · intro hreached
      have hfirst := hreached.2.1
      simp only [firstOfKey, Bool.and_eq_true] at hfirst
      rcases Option.isSome_iff_exists.1 hfirst.1 with ⟨d, hd⟩
      exact Option.isSome_iff_exists.2 ⟨d, (submission_iff hinv hrow).2 ⟨hd, hreached⟩⟩
  rw [hsubmitted]

theorem unsummarized_of_raises {i : Nat} (hi : i ≤ rows.length) {e : ProveError}
    (h : proveLoop cfg dedupe (rows.take i) {} = .error e) : Unsummarized cfg dedupe rows := by
  induction i with
  | zero => cases h
  | succ i ih =>
    rcases get_of_lt (Nat.lt_of_succ_le hi) with ⟨row, hrow⟩
    rw [proveLoop_take_succ hrow] at h
    cases hrun : proveLoop cfg dedupe (rows.take i) {} with
    | error e' => exact ih (Nat.le_of_succ_le hi) (by simpa [hrun] using h)
    | ok out =>
      rcases out with ⟨s, stopped⟩
      cases stopped with
      | some args => simp [hrun] at h
      | none =>
        have hinv := (loopInv_of_run i (Nat.le_of_succ_le hi) s none hrun).1 rfl
        simp only [hrun, proveLoop] at h
        cases hturn : proveRow cfg dedupe row s with
        | ok out =>
          rcases out with ⟨s', flag⟩
          cases flag <;> simp [hturn] at h
        | error e' =>
          have hat := (proveRow_raises_at hinv hrow).1 ⟨e', hturn⟩
          exact ⟨i, row, hat.1, hat.2.1, hat.2.2, fun j hj r hr => hinv.calm j r hj hr⟩

/-- The loop only ends early on an input that shows an unstable base. -/
theorem unstable_of_stopped {i : Nat} (hi : i ≤ rows.length) {s : LoopState} {args : PyStr}
    (h : proveLoop cfg dedupe (rows.take i) {} = .ok (s, some args)) :
    ∃ j < i, ∃ r, Reached cfg dedupe rows j r ∧
      confirmDivergence r.rerun = .nondeterministicBase := by
  induction i with
  | zero => simp [proveLoop] at h
  | succ i ih =>
    rcases get_of_lt (Nat.lt_of_succ_le hi) with ⟨row, hrow⟩
    rw [proveLoop_take_succ hrow] at h
    cases hrun : proveLoop cfg dedupe (rows.take i) {} with
    | error e => simp [hrun] at h
    | ok out =>
      rcases out with ⟨s₀, stopped⟩
      cases stopped with
      | some args₀ =>
        obtain ⟨rfl, rfl⟩ : s₀ = s ∧ args₀ = args := by simpa [hrun] using h
        rcases ih (Nat.le_of_succ_le hi) hrun with ⟨j, hj, r, hr⟩
        exact ⟨j, hj.trans (Nat.lt_succ_self i), r, hr⟩
      | none =>
        have hinv := (loopInv_of_run i (Nat.le_of_succ_le hi) s₀ none hrun).1 rfl
        simp only [hrun, proveLoop] at h
        cases hturn : proveRow cfg dedupe row s₀ with
        | error e => simp [hturn] at h
        | ok out =>
          rcases out with ⟨s₁, flag⟩
          cases flag with
          | false => simp [hturn] at h
          | true => exact ⟨i, Nat.lt_succ_self i, row, (proveRow_spec hinv hrow hturn).2 rfl⟩

/-- The loop raises exactly when it gets to a confirmed row without a summary. -/
theorem proveLoop_raises_iff :
    (∃ e, proveLoop cfg dedupe rows {} = .error e) ↔ Unsummarized cfg dedupe rows := by
  constructor
  · rintro ⟨e, h⟩
    apply unsummarized_of_raises le_rfl (e := e)
    rwa [List.take_length]
  · rintro ⟨i, row, hreached, hconfirmed, hsummary, hcalm⟩
    have hrow := hreached.1
    have hi : i < rows.length := (List.getElem?_eq_some_iff.1 hrow).1
    -- what the first `i + 1` rows do is what the whole loop does
    have hwhole : ∀ e, proveLoop cfg dedupe (rows.take (i + 1)) {} = .error e →
        proveLoop cfg dedupe rows {} = .error e := by
      intro e he
      have hsplit := @proveLoop_append cfg dedupe (rows.take (i + 1))
        (rows.drop (i + 1)) {}
      rwa [List.take_append_drop, he] at hsplit
    rw [proveLoop_take_succ hrow] at hwhole
    cases hrun : proveLoop cfg dedupe (rows.take i) {} with
    | error e => exact ⟨e, hwhole e (by simp [hrun])⟩
    | ok out =>
      rcases out with ⟨s, stopped⟩
      cases stopped with
      | none =>
        have hinv := (loopInv_of_run i hi.le s none hrun).1 rfl
        rcases (proveRow_raises_at hinv hrow).2 ⟨hreached, hconfirmed, hsummary⟩ with ⟨e, he⟩
        exact ⟨e, hwhole e (by simp [hrun, proveLoop, he])⟩
      | some args =>
        rcases unstable_of_stopped hi.le hrun with ⟨j, hj, r, hr, hunstable⟩
        exact absurd hunstable (hcalm j hj r hr)

variable {module qualname : PyStr} {changedLines : Finset Nat}

theorem conclude_raises_iff {unstable : PyStr → PyStr} :
    (∃ e, conclude module qualname changedLines cfg dedupe unstable rows = .error e) ↔
      Unsummarized cfg dedupe rows := by
  rw [← proveLoop_raises_iff]
  unfold conclude
  cases hrun : proveLoop cfg dedupe rows {} with
  | error e => simp
  | ok out =>
    rcases out with ⟨s, stopped⟩
    cases stopped <;> simp

/-! ## Workers that answer every input -/

/-- Both batches hold one observation an input. -/
structure PureLab.Answers (lab : PureLab) : Prop where
  base : ∀ k literals, (lab.runBase k literals).length = literals.length
  head : ∀ k literals, (lab.runHead k literals).length = literals.length

/-- All three passes hold one observation an input. -/
structure ImpureLab.Answers (lab : ImpureLab) : Prop where
  record : ∀ literals, (lab.record literals).length = literals.length
  replay : ∀ literals recorded, (lab.replay literals recorded).length = literals.length
  replayHead : ∀ literals recorded, (lab.replayHead literals recorded).length = literals.length

theorem pureRows_ok {lab : PureLab} (h : lab.Answers) (changedLines : Finset Nat)
    (budget : Budget) (literals : List Literals) :
    ∃ rows, pureRows lab changedLines budget cfg literals = .ok rows := by
  unfold pureRows pureRuns
  dsimp only
  split_ifs with hmore
  · exact zipRows_ok _ _ 0 _ _ (h.base 0 literals) (h.head 0 literals)
  · apply zipRows_ok
    · simp [h.base]
    · simp [h.head]
  · exact zipRows_ok _ _ 0 _ _ (h.base 0 literals) (h.head 0 literals)
  · apply zipRows_ok
    · simp [h.base]
    · simp [h.head]

theorem impureRows_ok {lab : ImpureLab} (h : lab.Answers) (module qualname : PyStr)
    (literals : List Literals) : ∃ result, impureRows module qualname lab cfg literals = .ok result := by
  have hlength : (lab.record literals).length =
      (lab.replay literals (lab.record literals)).length :=
    (h.record literals).trans (h.replay literals _).symm
  rcases zipRows_ok
    (fun i => impureRerun cfg (lab.freshRecord i) (lab.freshReplay i) (lab.freshHead i)) literals 0
    _ _ (h.record literals) (h.replayHead literals (lab.record literals)) with ⟨rows, hrows⟩
  unfold impureRows
  dsimp only
  cases firstUninterceptable (lab.record literals) with
  | some surface => exact ⟨_, rfl⟩
  | none =>
    dsimp only
    split
    · exact ⟨_, rfl⟩
    · rw [if_neg (not_not_intro hlength)]
      cases firstUninterceptable (lab.replayHead literals (lab.record literals)) with
      | some surface => exact ⟨_, rfl⟩
      | none =>
        simp only [hrows]
        exact ⟨_, rfl⟩

theorem unsummarized_nil : ¬ Unsummarized cfg dedupe [] := by
  rintro ⟨i, row, ⟨hrow, _⟩, _⟩
  simp at hrow

theorem proveTarget_raises_iff {lab : PureLab} (h : lab.Answers) {budget : Budget}
    {inputs : Except SynthesisFailure (List Literals)} :
    (∃ e, proveTarget module qualname lab changedLines budget cfg inputs = .error e) ↔
      Unsummarized cfg true (lab.rows changedLines budget cfg inputs) := by
  cases inputs with
  | error failure => simp [proveTarget, PureLab.rows, unsummarized_nil]
  | ok literals =>
    rcases @pureRows_ok cfg lab h changedLines budget literals with ⟨rows, hrows⟩
    simp only [proveTarget, PureLab.rows, hrows, conclude_raises_iff]

theorem proveImpureTarget_raises_iff {lab : ImpureLab} (h : lab.Answers)
    {inputs : Except SynthesisFailure (List Literals)} :
    (∃ e, proveImpureTarget module qualname lab changedLines cfg inputs = .error e) ↔
      Unsummarized cfg false (lab.rows module qualname cfg inputs) := by
  cases inputs with
  | error failure => simp [proveImpureTarget, ImpureLab.rows, unsummarized_nil]
  | ok literals =>
    rcases @impureRows_ok cfg lab h module qualname literals with ⟨result, hresult⟩
    cases result with
    | inl outcome => simp [proveImpureTarget, ImpureLab.rows, hresult, unsummarized_nil]
    | inr rows => simp only [proveImpureTarget, ImpureLab.rows, hresult, conclude_raises_iff]

end Tempest
