import Tempest.Prove.Contained
import Tempest.Prove.TsRecords

/-!
# WellFormed — what the figures of a record mean

A record of a run is set against the evidence of its target: the changed lines of the head and those
of them that its batches executed there.  `recordsWellFormed_iff` says when every record of a bundle
agrees with it: the TypeScript prover counts the lines of both sides, in percent, and a proof that is
given up after the head was run says that nothing was covered.
-/

namespace Tempest

open Python

/-! ## Evidence -/

/-- The changed head lines of a target, and the lines that its batches executed on the head. -/
structure Evidence where
  changed : Finset Nat
  executed : Finset Nat

def Evidence.hit (e : Evidence) : Finset Nat := e.executed ∩ e.changed

def executedLines (observations : List Observation) : Finset Nat :=
  observations.foldl (fun lines o => lines ∪ o.executedLines) ∅

def Work.divergentInputs : Work → Nat
  | .finished _ outcome _ => outcome.divergences.length
  | .tsProven _ outcome => outcome.divergences.length
  | .stated _ => 0

structure TargetRecord.WellFormed (t : TargetRecord) (e : Evidence) (divergentInputs : Nat) : Prop where
  fraction : 0 ≤ t.changedLineCoverage ∧ t.changedLineCoverage ≤ 1
  covered : t.changedLineCoverage * e.changed.card = e.hit.card
  counted : t.equivalentInputs + t.unprovableInputs + divergentInputs ≤ t.inputsRun
  divergent : t.verdict = .divergent ↔ t.divergences ≠ []
  unproven : t.verdict = .unproven ↔ t.reasonCode.isSome
  equivalent : t.verdict = .equivalentUnderBudget → 0 < t.equivalentInputs

/-- What `prove_target` has of the head. -/
def PureLab.headRuns (lab : PureLab) (changedLines : Finset Nat) (budget : Budget)
    (inputs : Except SynthesisFailure (List Literals)) : List Observation :=
  match inputs with
  | .error _ => []
  | .ok literals => (pureRuns lab changedLines budget literals).2.2

/-- What `prove_impure_target` has of the head, which is run once the base replays its recordings. -/
def ImpureLab.headRuns (lab : ImpureLab) (cfg : CompareConfig)
    (inputs : Except SynthesisFailure (List Literals)) : List Observation :=
  match inputs with
  | .error _ => []
  | .ok literals =>
    let record := lab.record literals
    let replay := lab.replay literals record
    if firstUninterceptable record = none ∧
        ((literals.zip (record.zip replay)).all fun p => replayVerified cfg p.2.1 p.2.2) ∧
        record.length = replay.length then
      lab.replayHead literals record
    else []

def TargetLab.headRuns (lab : TargetLab) (impure : Bool) (changedLines : Finset Nat)
    (budget : Budget) (cfg : CompareConfig) (inputs : Except SynthesisFailure (List Literals)) :
    List Observation :=
  if impure then lab.impureLab.headRuns cfg inputs
  else lab.pureLab.headRuns changedLines budget inputs

def ProveRun.symbolEvidence (r : ProveRun) (mined : List Constant) (d : FileDiff) (head : Node)
    (sym : SymbolSpan) : Evidence :=
  let changed := changedInSpan d sym
  match r.plan mined d head sym with
  | .ok (.proof impure _ lab) =>
    match lab.inputs with
    | .ok inputs =>
      ⟨changed, executedLines (lab.headRuns impure changed r.budget r.compareCfg inputs)⟩
    | .error _ => ⟨changed, ∅⟩
  | _ => ⟨changed, ∅⟩

section

variable {ω : Type}

def TsReader.linesOf (reader : TsReader ω) (n : Nat) (answers : Nat → ω) : Finset Nat :=
  (List.range n).foldl (fun lines i => lines ∪ reader.executedLines (answers i)) ∅

def TsLab.headLines (reader : TsReader ω) (lab : TsLab ω) : Finset Nat :=
  match tsBatches reader lab with
  | .ok (.inr (_, head)) => reader.linesOf lab.inputs.length head
  | _ => ∅

def TsStage.evidence (stage : TsStage ω) (d : FileDiff) (t : TsSelected) : Evidence :=
  match stage.refusal t, stage.lab d t.symbol with
  | none, .ok lab => ⟨t.changedIn d, lab.headLines stage.reader⟩
  | _, _ => ⟨t.changedIn d, ∅⟩

inductive ProveRun.Emits (r : ProveRun) (stage : TsStage ω) : Work → Evidence → Prop where
  | python {diffs : List FileDiff} {mined : List Constant} {d : FileDiff} {trees : Trees}
      {sym : SymbolSpan} {work : Work} :
      r.diffs = .ok diffs → r.mined = .ok mined → d ∈ diffs.filter r.isPython →
        r.trees d = .ok trees → sym ∈ visited trees.base trees.head d →
          r.symbolWork mined d trees.head sym = .ok work →
            Emits r stage work (r.symbolEvidence mined d trees.head sym)
  | unexercised {diffs : List FileDiff} {d : FileDiff} :
      r.diffs = .ok diffs → d ∈ diffs.filter r.isTypeScript → isRunnable d.path = false →
        Emits r stage (.stated (stage.unexercised d)) ⟨d.changedHeadLines, ∅⟩
  | noSidecar {diffs : List FileDiff} {d : FileDiff} {error : PyStr} :
      r.diffs = .ok diffs → d ∈ diffs.filter r.isTypeScript → isRunnable d.path = true →
        stage.select ((diffs.filter r.isTypeScript).filter fun d => isRunnable d.path) =
            .error error →
          Emits r stage (.stated (stage.fileRecord d .harnessSynthesisFailed (sidecarUnavailable error)))
            ⟨d.changedHeadLines, ∅⟩
  | typeScript {diffs ds : List FileDiff} {d : FileDiff} {targets : List TsSelected} {t : TsSelected}
      {works : List Work} {work : Work} :
      r.diffs = .ok diffs →
        ds = (diffs.filter r.isTypeScript).filter (fun d => isRunnable d.path) → ds ≠ [] →
          stage.select ds = .ok targets → t ∈ targets → fileOfPath ds t.filePath = some d →
            stage.targetWork ds t = .ok works → work ∈ works →
              Emits r stage work (stage.evidence d t)

end

/-! ## When the figures are right -/

/-- The proof is given up although the head was run: the base is unstable, or the head does what
cannot be intercepted. -/
def TargetLab.GivenUp (lab : TargetLab) (impure : Bool) (t : PyTarget) (changedLines : Finset Nat)
    (budget : Budget) (cfg : CompareConfig) (inputs : Except SynthesisFailure (List Literals)) : Prop :=
  if impure then
    (firstUninterceptable (lab.impureLab.headRuns cfg inputs)).isSome ∨
      BaseUnstable cfg false
        (lab.impureLab.rows (t.execModule.getD t.module) (t.execQualname.getD t.symbol) cfg inputs)
  else BaseUnstable cfg true (lab.pureLab.rows changedLines budget cfg inputs)

def ProveRun.SymbolHonest (r : ProveRun) (mined : List Constant) (d : FileDiff) (head : Node)
    (sym : SymbolSpan) : Prop :=
  match r.plan mined d head sym with
  | .ok (.proof impure t lab) =>
    ∀ inputs, lab.inputs = .ok inputs →
      lab.GivenUp impure t (changedInSpan d sym) r.budget r.compareCfg inputs →
        (r.symbolEvidence mined d head sym).hit = ∅
  | _ => True

section

variable {ω : Type}

def TsLab.Confirms (reader : TsReader ω) (lab : TsLab ω) (base head : Nat → ω) : Prop :=
  ∀ p ∈ lab.inputs.zipIdx, ∀ d, reader.compare (base p.2) (head p.2) = .diverged d →
    ∃ confirmed, tsConfirm reader lab p.2 d.divergenceClass = .ok confirmed

/-- A TypeScript target executes no changed line, on the head and, where its proof comes to an end,
on the base. -/
def TsStage.Honest (stage : TsStage ω) (d : FileDiff) (t : TsSelected) : Prop :=
  ∀ lab base head, stage.refusal t = none → stage.lab d t.symbol = .ok lab →
    tsBatches stage.reader lab = .ok (.inr (base, head)) →
      stage.reader.linesOf lab.inputs.length head ∩ t.changedIn d = ∅ ∧
        (lab.Confirms stage.reader base head →
          stage.reader.linesOf lab.inputs.length base ∩ t.changedIn d = ∅)

structure ProveRun.Honest (r : ProveRun) (stage : TsStage ω) : Prop where
  python : ∀ diffs mined d trees sym, r.diffs = .ok diffs → r.mined = .ok mined →
    d ∈ diffs.filter r.isPython → r.trees d = .ok trees → sym ∈ visited trees.base trees.head d →
      r.SymbolHonest mined d trees.head sym
  typeScript : ∀ diffs ds d targets t, r.diffs = .ok diffs →
    ds = (diffs.filter r.isTypeScript).filter (fun d => isRunnable d.path) → ds ≠ [] →
      stage.select ds = .ok targets → t ∈ targets → fileOfPath ds t.filePath = some d →
        stage.Honest d t

end

/-! ## Counting -/

theorem total_add (t : UnprovableTally) (u : Unprovable) : (t.add u).total = t.total + 1 := by
  cases hkind : u.kind <;>
    simp only [UnprovableTally.total, UnprovableTally.add, UnprovableKind.sorted, hkind, List.map_cons,
      List.map_nil, List.sum_cons, List.sum_nil, reduceCtorEq, if_true, if_false] <;>
    omega

def LoopState.counted (s : LoopState) : Nat := s.equivalent + s.tally.total + s.confirmed.length

variable {cfg : CompareConfig}

theorem proveRow_counts {dedupe : Bool} {row : Row} {s s' : LoopState} {stopped : Bool}
    (h : proveRow cfg dedupe row s = .ok (s', stopped)) : s'.counted ≤ s.counted + 1 := by
  unfold proveRow at h
  split at h
  · obtain ⟨rfl, -⟩ := Prod.mk.inj (Except.ok.inj h)
    simp only [LoopState.counted]
    omega
  · obtain ⟨rfl, -⟩ := Prod.mk.inj (Except.ok.inj h)
    simp only [LoopState.counted, total_add]
    omega
  · split at h
    · obtain ⟨rfl, -⟩ := Prod.mk.inj (Except.ok.inj h)
      exact Nat.le_succ _
    · dsimp only at h
      split at h
      · obtain ⟨rfl, -⟩ := Prod.mk.inj (Except.ok.inj h)
        exact Nat.le_succ _
      · obtain ⟨rfl, -⟩ := Prod.mk.inj (Except.ok.inj h)
        simp only [LoopState.counted, UnprovableTally.total]
        omega
      · obtain ⟨base, -, h⟩ := bind_ok_iff.1 h
        obtain ⟨head, -, h⟩ := bind_ok_iff.1 h
        obtain ⟨rfl, -⟩ := Prod.mk.inj (Except.ok.inj h)
        simp only [LoopState.counted, List.length_append, List.length_singleton]
        omega

theorem proveLoop_counts {dedupe : Bool} {rows : List Row} {s s' : LoopState} {stopped : Option PyStr}
    (h : proveLoop cfg dedupe rows s = .ok (s', stopped)) : s'.counted ≤ s.counted + rows.length := by
  induction rows generalizing s with
  | nil =>
    obtain ⟨rfl, -⟩ := Prod.mk.inj (Except.ok.inj h)
    exact Nat.le_refl _
  | cons row rows ih =>
    unfold proveLoop at h
    split at h
    · cases h
    · next hrow =>
        obtain ⟨rfl, -⟩ := Prod.mk.inj (Except.ok.inj h)
        exact (proveRow_counts hrow).trans (by simp)
    · next hrow =>
        have hrest := ih h
        have hfirst := proveRow_counts hrow
        rw [List.length_cons]
        omega

/-! ## Coverage -/

theorem hit_card_le (e : Evidence) : e.hit.card ≤ e.changed.card :=
  Finset.card_le_card Finset.inter_subset_right

theorem fraction_of_covered {e : Evidence} {c : ℚ} (h : c * e.changed.card = e.hit.card)
    (hempty : e.changed = ∅ → 0 ≤ c ∧ c ≤ 1) : 0 ≤ c ∧ c ≤ 1 := by
  rcases e.changed.eq_empty_or_nonempty with hnone | hsome
  · exact hempty hnone
  have hpos : (0 : ℚ) < e.changed.card := Nat.cast_pos.2 (Finset.card_pos.2 hsome)
  have hle : (e.hit.card : ℚ) ≤ e.changed.card := Nat.cast_le.2 (hit_card_le e)
  constructor
  · by_contra hneg
    have hproduct := mul_neg_of_neg_of_pos (not_le.1 hneg) hpos
    rw [h] at hproduct
    exact absurd hproduct (not_lt.2 (Nat.cast_nonneg _))
  · rw [← h] at hle
    exact le_of_mul_le_mul_right (hle.trans_eq (one_mul _).symm) hpos

theorem coverage_covered (changedLines : Finset Nat) (head : List Observation) :
    coverage changedLines head * changedLines.card =
      (Evidence.hit ⟨changedLines, executedLines head⟩).card := by
  simp only [coverage, Evidence.hit]
  split_ifs with hnone
  · simp [hnone]
  · have hne : (changedLines.card : ℚ) ≠ 0 :=
      Nat.cast_ne_zero.2 (Finset.card_ne_zero.2 (Finset.nonempty_iff_ne_empty.2 hnone))
    exact div_mul_cancel₀ _ hne

/-! ## Records of nothing -/

structure TargetRecord.Blank (t : TargetRecord) : Prop where
  verdict : t.verdict = .unproven
  reasonCode : t.reasonCode.isSome
  coverage : t.changedLineCoverage = 0
  equivalent : t.equivalentInputs = 0
  unprovable : t.unprovableInputs = 0
  divergences : t.divergences = []

theorem TargetRecord.Blank.wellFormed_iff {t : TargetRecord} (h : t.Blank) (e : Evidence) :
    t.WellFormed e 0 ↔ e.hit = ∅ := by
  have hcovered : t.changedLineCoverage * e.changed.card = e.hit.card ↔ e.hit = ∅ := by
    rw [h.coverage, zero_mul, eq_comm, Nat.cast_eq_zero, Finset.card_eq_zero]
  constructor
  · exact fun hwell => hcovered.1 hwell.covered
  · intro hnone
    refine ⟨?_, hcovered.2 hnone, ?_, ?_, ?_, ?_⟩
    · simp [h.coverage]
    · simp [h.equivalent, h.unprovable]
    · simp [h.verdict, h.divergences]
    · simp [h.verdict, h.reasonCode]
    · simp [h.verdict]

theorem blank_unprovenRecord (filePath module : PyStr) (sym : SymbolSpan)
    (classification : TargetClassification) (code : ReasonCode) (detail : PyStr) :
    (unprovenRecord filePath module sym classification code detail).Blank :=
  ⟨rfl, rfl, rfl, rfl, rfl, rfl⟩

theorem blank_tsSymbolRecord (filePath module symbol : PyStr)
    (classification : TargetClassification) (code : ReasonCode) (detail : PyStr) :
    (tsSymbolRecord filePath module symbol classification code detail).Blank :=
  ⟨rfl, rfl, rfl, rfl, rfl, rfl⟩

theorem blank_unproven (ctx : RunContext) (t : PyTarget) (module qualname : PyStr)
    (code : ReasonCode) (detail : PyStr) (minimize : Nat → FoundDivergence → Minimized) :
    (finishedRecord ctx t (unproven module qualname code detail) minimize .empty).1.Blank :=
  ⟨rfl, rfl, rfl, rfl, rfl, rfl⟩

theorem blank_tsUnproven (ctx : RunContext) (t : TsTarget) (code : ReasonCode) (detail : PyStr)
    (n : Nat) : (tsProvenRecord ctx t (tsUnproven code detail n) .empty).1.Blank :=
  ⟨rfl, rfl, rfl, rfl, rfl, rfl⟩

/-! ## Python outcomes -/

variable {t : PyTarget} {ctx : RunContext} {minimize : Nat → FoundDivergence → Minimized}

theorem exhibits_eq_nil_iff {ds : List FoundDivergence} :
    t.exhibits ctx minimize 0 ds [] = [] ↔ ds = [] := by
  cases ds <;> simp [PyTarget.exhibits]

variable {module qualname : PyStr}

/-- The verdict of a loop that came to its end. -/
theorem derive_wellFormed {s : LoopState} {n : Nat} {c : ℚ} {e : Evidence} (hcount : s.counted ≤ n)
    (hfraction : 0 ≤ c ∧ c ≤ 1) (hcovered : c * e.changed.card = e.hit.card) :
    (finishedRecord ctx t (deriveOutcome module qualname s n c) minimize .empty).1.WellFormed e
      (deriveOutcome module qualname s n c).divergences.length := by
  unfold LoopState.counted at hcount
  by_cases hconfirmed : s.confirmed = []
  · by_cases hequal : 0 < s.equivalent
    · refine ⟨?_, ?_, ?_, ?_, ?_, ?_⟩ <;>
        simp [finishedRecord, deriveOutcome, hconfirmed, hequal, PyTarget.exhibits, hfraction,
          hcovered]
      · simpa [hconfirmed] using hcount
    · refine ⟨?_, ?_, ?_, ?_, ?_, ?_⟩ <;>
        simp [finishedRecord, deriveOutcome, hconfirmed, hequal, PyTarget.exhibits, hfraction,
          hcovered]
      · simpa [hconfirmed] using hcount
  · refine ⟨?_, ?_, ?_, ?_, ?_, ?_⟩ <;>
      simp [finishedRecord, deriveOutcome, hconfirmed, exhibits_eq_nil_iff, hfraction, hcovered,
        hcount]

variable {changedLines : Finset Nat} {outcome : TargetOutcome}

/-- A loop over the inputs is recorded as it went, unless it stopped at an unstable base. -/
theorem conclude_wellFormed_iff {dedupe : Bool} {unstable : PyStr → PyStr} {rows : List Row}
    (h : conclude module qualname changedLines cfg dedupe unstable rows = .ok outcome) :
    (finishedRecord ctx t outcome minimize .empty).1.WellFormed
        ⟨changedLines, executedLines (rows.map Row.head)⟩ outcome.divergences.length ↔
      (BaseUnstable cfg dedupe rows →
        Evidence.hit ⟨changedLines, executedLines (rows.map Row.head)⟩ = ∅) := by
  rcases conclude_cases h with ⟨hbad, args, rfl⟩ | ⟨hstable, s, hrun, _, rfl⟩
  · rw [forall_prop_of_true hbad]
    exact (blank_unproven ctx t _ _ _ _ minimize).wellFormed_iff _
  · refine iff_of_true (derive_wellFormed ?_ ?_ ?_) (fun hbad => absurd hbad hstable)
    · simpa [LoopState.counted, UnprovableTally.total, UnprovableKind.sorted] using
        proveLoop_counts hrun
    · apply @fraction_of_covered ⟨changedLines, executedLines (rows.map Row.head)⟩ _
        (coverage_covered _ _)
      intro hnone
      rw [coverage, if_pos hnone]
      exact ⟨zero_le_one, le_rfl⟩
    · exact coverage_covered _ _

theorem zipRows_heads {rerun : Nat → Nat → Rerun} {inputs : List Literals} :
    ∀ {base head : List Observation} {i : Nat} {rows : List Row},
      zipRows rerun i inputs base head = .ok rows → rows.map Row.head = head := by
  induction inputs with
  | nil =>
    intro base head i rows h
    cases base <;> cases head <;> simp [zipRows] at h
    simp [h]
  | cons input inputs ih =>
    intro base head i rows h
    cases base with
    | nil => simp [zipRows] at h
    | cons b base =>
      cases head with
      | nil => simp [zipRows] at h
      | cons o head =>
        unfold zipRows at h
        split at h
        · cases h
        · next hrest =>
            cases h
            simp [ih hrest]

variable {inputs : Except SynthesisFailure (List Literals)}

theorem pureProve_wellFormed_iff {lab : PureLab} {budget : Budget}
    (h : proveTarget module qualname lab changedLines budget cfg inputs = .ok outcome) :
    (finishedRecord ctx t outcome minimize .empty).1.WellFormed
        ⟨changedLines, executedLines (lab.headRuns changedLines budget inputs)⟩
        outcome.divergences.length ↔
      (BaseUnstable cfg true (lab.rows changedLines budget cfg inputs) →
        Evidence.hit ⟨changedLines, executedLines (lab.headRuns changedLines budget inputs)⟩ = ∅) := by
  cases inputs with
  | error failure =>
    cases h
    have hnone : Evidence.hit
        ⟨changedLines, executedLines (lab.headRuns changedLines budget (.error failure))⟩ = ∅ := by
      simp [Evidence.hit, PureLab.headRuns, executedLines]
    exact iff_of_true (((blank_unproven ctx t _ _ _ _ minimize).wellFormed_iff _).2 hnone)
      (fun _ => hnone)
  | ok literals =>
    unfold proveTarget at h
    dsimp only at h
    cases hrows : pureRows lab changedLines budget cfg literals with
    | error e => simp [hrows] at h
    | ok rows =>
      simp only [hrows] at h
      have hheads : lab.headRuns changedLines budget (.ok literals) = rows.map Row.head :=
        (zipRows_heads hrows).symm
      have hsame : lab.rows changedLines budget cfg (.ok literals) = rows := by
        simp [PureLab.rows, hrows]
      rw [hheads, hsame]
      exact conclude_wellFormed_iff h

/-- The head of an impure target is run or nothing is known of it. -/
theorem impure_headRuns_cases (lab : ImpureLab) (cfg : CompareConfig) (literals : List Literals) :
    lab.headRuns cfg (.ok literals) = [] ∨
      firstUninterceptable (lab.record literals) = none ∧
        (∀ p ∈ literals.zip ((lab.record literals).zip (lab.replay literals (lab.record literals))),
          replayVerified cfg p.2.1 p.2.2 = true) ∧
        (lab.record literals).length = (lab.replay literals (lab.record literals)).length ∧
        lab.headRuns cfg (.ok literals) = lab.replayHead literals (lab.record literals) := by
  unfold ImpureLab.headRuns
  dsimp only
  split_ifs with hreached
  · exact Or.inr ⟨hreached.1, List.all_eq_true.1 hreached.2.1, hreached.2.2, rfl⟩
  · exact Or.inl rfl

theorem impureProve_wellFormed_iff {lab : ImpureLab} (hanswers : lab.Answers)
    (h : proveImpureTarget module qualname lab changedLines cfg inputs = .ok outcome) :
    (finishedRecord ctx t outcome minimize .empty).1.WellFormed
        ⟨changedLines, executedLines (lab.headRuns cfg inputs)⟩ outcome.divergences.length ↔
      ((firstUninterceptable (lab.headRuns cfg inputs)).isSome ∨
          BaseUnstable cfg false (lab.rows module qualname cfg inputs) →
        Evidence.hit ⟨changedLines, executedLines (lab.headRuns cfg inputs)⟩ = ∅) := by
  cases inputs with
  | error failure =>
    cases h
    have hnone : Evidence.hit
        ⟨changedLines, executedLines (lab.headRuns cfg (.error failure))⟩ = ∅ := by
      simp [Evidence.hit, ImpureLab.headRuns, executedLines]
    exact iff_of_true (((blank_unproven ctx t _ _ _ _ minimize).wellFormed_iff _).2 hnone)
      (fun _ => hnone)
  | ok literals =>
    unfold proveImpureTarget at h
    dsimp only at h
    cases hrows : impureRows module qualname lab cfg literals with
    | error e => simp [hrows] at h
    | ok out =>
      cases out with
      | inl ended =>
        simp only [hrows, Except.ok.injEq] at h
        obtain ⟨code, detail, rfl⟩ := impureRows_inl hrows
        obtain rfl := h
        refine ((blank_unproven ctx t _ _ _ _ minimize).wellFormed_iff _).trans
          ⟨fun hnone _ => hnone, fun hgiven => ?_⟩
        rcases impure_headRuns_cases lab cfg literals with
          hnone | ⟨hbase, hreplay, hlen, hheads⟩
        · simp [Evidence.hit, hnone, executedLines]
        · -- without an uninterceptable effect on the head there would be rows
          cases hhead : firstUninterceptable (lab.headRuns cfg (.ok literals)) with
          | some surface => exact hgiven (Or.inl (by simp [hhead]))
          | none =>
            exfalso
            rw [hheads] at hhead
            rcases zipRows_ok (fun i => impureRerun cfg (lab.freshRecord i)
                (lab.freshReplay i) (lab.freshHead i)) literals 0 _ _
                (hanswers.record literals)
                (hanswers.replayHead literals (lab.record literals)) with ⟨rows, hzip⟩
            cases hrows.symm.trans
              (impureRows_inr_iff.2 ⟨hbase, hreplay, hlen, hhead, hzip⟩)
      | inr rows =>
        simp only [hrows] at h
        rcases impureRows_inr_iff.1 hrows with ⟨hbase, hreplay, hlen, hhead, hzip⟩
        have hheads : lab.headRuns cfg (.ok literals) = rows.map Row.head := by
          rw [zipRows_heads hzip]
          unfold ImpureLab.headRuns
          exact if_pos ⟨hbase, List.all_eq_true.2 hreplay, hlen⟩
        have hsame : lab.rows module qualname cfg (.ok literals) = rows := by
          simp [ImpureLab.rows, hrows]
        have hnone : (firstUninterceptable (rows.map Row.head)).isSome = false := by
          rw [zipRows_heads hzip, hhead]
          rfl
        rw [hheads, hsame, hnone]
        simpa using conclude_wellFormed_iff h

theorem prove_wellFormed_iff {lab : TargetLab} {impure : Bool} {budget : Budget}
    (h : lab.prove impure t changedLines budget cfg inputs = .ok outcome) :
    (finishedRecord ctx t outcome minimize .empty).1.WellFormed
        ⟨changedLines, executedLines (lab.headRuns impure changedLines budget cfg inputs)⟩
        outcome.divergences.length ↔
      (lab.GivenUp impure t changedLines budget cfg inputs →
        Evidence.hit ⟨changedLines,
          executedLines (lab.headRuns impure changedLines budget cfg inputs)⟩ = ∅) := by
  cases impure with
  | true => exact impureProve_wellFormed_iff lab.impureAnswers h
  | false => exact pureProve_wellFormed_iff h

theorem plan_stated {r : ProveRun} {mined : List Constant} {d : FileDiff} {head : Node}
    {sym : SymbolSpan} {record : TargetRecord} (h : r.plan mined d head sym = .ok (.stated record)) :
    record.Blank := by
  unfold ProveRun.plan at h
  dsimp only at h
  split at h
  · obtain rfl := Plan.stated.inj (Except.ok.inj h)
    exact blank_unprovenRecord _ _ _ _ _ _
  · split_ifs at h with hunreachable hmethod
    · split at h
      · cases h
      · cases h
      · obtain rfl := Plan.stated.inj (Except.ok.inj h)
        exact blank_unprovenRecord _ _ _ _ _ _
      · obtain rfl := Plan.stated.inj (Except.ok.inj h)
        exact blank_unprovenRecord _ _ _ _ _ _
    · obtain rfl := Plan.stated.inj (Except.ok.inj h)
      exact blank_unprovenRecord _ _ _ _ _ _
    · cases h

theorem stated_wellFormed_iff {record : TargetRecord} (h : record.Blank) (ctx : RunContext)
    (e : Evidence) :
    ((Work.stated record).record ctx .empty).1.WellFormed e 0 ↔ e.hit = ∅ := by
  have hblank : ((Work.stated record).record ctx .empty).1.Blank :=
    ⟨h.verdict, h.reasonCode, h.coverage, h.equivalent, h.unprovable, rfl⟩
  exact hblank.wellFormed_iff e

/-- The record of a visited def is right exactly when its target is honest. -/
theorem symbol_wellFormed_iff {r : ProveRun} {mined : List Constant} {d : FileDiff} {head : Node}
    {sym : SymbolSpan} {work : Work} (h : r.symbolWork mined d head sym = .ok work) :
    (work.record r.context .empty).1.WellFormed (r.symbolEvidence mined d head sym)
        work.divergentInputs ↔ r.SymbolHonest mined d head sym := by
  unfold ProveRun.symbolWork at h
  cases hplan : r.plan mined d head sym with
  | error e => simp [hplan] at h
  | ok plan =>
    simp only [hplan] at h
    cases plan with
    | stated record =>
      cases h
      have hnone : (r.symbolEvidence mined d head sym).hit = ∅ := by
        simp [ProveRun.symbolEvidence, hplan, Evidence.hit]
      have hhonest : r.SymbolHonest mined d head sym := by simp [ProveRun.SymbolHonest, hplan]
      exact iff_of_true ((stated_wellFormed_iff (plan_stated hplan) _ _).2 hnone) hhonest
    | proof impure t lab =>
      cases hinputs : lab.inputs with
      | error e => simp [Plan.run, hinputs] at h
      | ok inputs =>
        cases hprove : lab.prove impure t (changedInSpan d sym) r.budget r.compareCfg inputs with
        | error e => simp [Plan.run, hinputs, hprove] at h
        | ok outcome =>
          simp only [Plan.run, hinputs, hprove, Except.ok.injEq] at h
          obtain rfl := h
          have hevidence : r.symbolEvidence mined d head sym =
              ⟨changedInSpan d sym, executedLines
                (lab.headRuns impure (changedInSpan d sym) r.budget r.compareCfg inputs)⟩ := by
            simp [ProveRun.symbolEvidence, hplan, hinputs]
          have hhonest : r.SymbolHonest mined d head sym ↔
              (lab.GivenUp impure t (changedInSpan d sym) r.budget r.compareCfg inputs →
                (r.symbolEvidence mined d head sym).hit = ∅) := by
            simp [ProveRun.SymbolHonest, hplan, hinputs]
          rw [hhonest, hevidence]
          exact prove_wellFormed_iff hprove

/-! ## TypeScript outcomes -/

theorem mem_foldl_union {α β : Type} [DecidableEq α] {g : β → Finset α} {xs : List β}
    {s : Finset α} {x : α} :
    x ∈ xs.foldl (fun lines y => lines ∪ g y) s ↔ x ∈ s ∨ ∃ y ∈ xs, x ∈ g y := by
  induction xs generalizing s with
  | nil => simp
  | cons y ys ih => simp [ih, or_assoc]

section

variable {ω : Type} {reader : TsReader ω} {lab : TsLab ω} {base head : Nat → ω}

def TsState.counted (s : TsState) : Nat := s.equivalent + s.unprovable + s.divergences.length

theorem tsRow_counts {s s' : TsState} {p : PyStr × Nat}
    (h : tsRow reader lab base head s p = .ok s') : s'.counted ≤ s.counted + 1 := by
  unfold tsRow at h
  split at h
  · cases h
    simp only [TsState.counted]
    omega
  · cases h
    simp only [TsState.counted]
    omega
  · obtain ⟨confirmed, -, h⟩ := bind_ok_iff.1 h
    cases h
    cases confirmed with
    | true => simp [TsState.counted]; omega
    | false => exact Nat.le_succ _

theorem tsRows_counts {inputs : List (PyStr × Nat)} {s s' : TsState}
    (h : inputs.foldlM (tsRow reader lab base head) s = .ok s') :
    s'.counted ≤ s.counted + inputs.length := by
  induction inputs generalizing s with
  | nil =>
    cases h
    exact le_rfl
  | cons p inputs ih =>
    obtain ⟨s₁, hfirst, hrest⟩ := bind_ok_iff.1 h
    have hone := tsRow_counts hfirst
    have hmore := ih hrest
    rw [List.length_cons]
    omega

theorem tsRow_ok_iff (s : TsState) (p : PyStr × Nat) :
    (∃ s', tsRow reader lab base head s p = .ok s') ↔
      ∀ d, reader.compare (base p.2) (head p.2) = .diverged d →
        ∃ confirmed, tsConfirm reader lab p.2 d.divergenceClass = .ok confirmed := by
  unfold tsRow
  cases reader.compare (base p.2) (head p.2) with
  | equal | unprovable _ => simp
  | diverged d =>
    simp only [bind_ok_iff, CompareResult.diverged.injEq, forall_eq']
    constructor
    · rintro ⟨s', confirmed, hconfirmed, _⟩
      exact ⟨confirmed, hconfirmed⟩
    · rintro ⟨confirmed, hconfirmed⟩
      exact ⟨_, confirmed, hconfirmed, rfl⟩

theorem tsRows_ok_iff :
    (∃ s, lab.inputs.zipIdx.foldlM (tsRow reader lab base head) {} = .ok s) ↔
      lab.Confirms reader base head :=
  exists_foldlM_ok_iff tsRow_ok_iff

theorem tsExecuted_eq (n : Nat) :
    tsExecuted reader n base head = reader.linesOf n base ∪ reader.linesOf n head := by
  ext line
  simp only [tsExecuted, TsReader.linesOf, mem_foldl_union, Finset.mem_union]
  constructor
  · rintro (hnone | ⟨i, hi, hbase | hhead⟩)
    · cases hnone
    · exact Or.inl (Or.inr ⟨i, hi, hbase⟩)
    · exact Or.inr (Or.inr ⟨i, hi, hhead⟩)
  · rintro ((hnone | ⟨i, hi, hbase⟩) | (hnone | ⟨i, hi, hhead⟩))
    · cases hnone
    · exact Or.inr ⟨i, hi, Or.inl hbase⟩
    · cases hnone
    · exact Or.inr ⟨i, hi, Or.inr hhead⟩

/-- A share in percent is the fraction of the head only where both are zero. -/
theorem tsCoverage_covered_iff (changedLines : Finset Nat) (n : Nat) :
    tsCoverage changedLines (tsExecuted reader n base head) * changedLines.card =
        (Evidence.hit ⟨changedLines, reader.linesOf n head⟩).card ↔
      reader.linesOf n head ∩ changedLines = ∅ ∧ reader.linesOf n base ∩ changedLines = ∅ := by
  have hsub : reader.linesOf n head ∩ changedLines ⊆
      tsExecuted reader n base head ∩ changedLines := by
    rw [tsExecuted_eq]
    exact Finset.inter_subset_inter_right Finset.subset_union_right
  have hnone : tsExecuted reader n base head ∩ changedLines = ∅ ↔
      reader.linesOf n head ∩ changedLines = ∅ ∧ reader.linesOf n base ∩ changedLines = ∅ := by
    rw [tsExecuted_eq, Finset.union_inter_distrib_right, Finset.union_eq_empty, and_comm]
  rw [← hnone]
  simp only [tsCoverage, Evidence.hit]
  split_ifs with hempty
  · simp [hempty]
  · have hne : (changedLines.card : ℚ) ≠ 0 :=
      Nat.cast_ne_zero.2 (Finset.card_ne_zero.2 (Finset.nonempty_iff_ne_empty.2 hempty))
    rw [div_mul_cancel₀ _ hne]
    have hle := Finset.card_le_card hsub
    constructor
    · intro h
      have hcount : 100 * (tsExecuted reader n base head ∩ changedLines).card =
          (reader.linesOf n head ∩ changedLines).card := by exact_mod_cast h
      exact Finset.card_eq_zero.1 (by omega)
    · intro h
      rw [h, Finset.card_empty] at hle
      rw [h, Nat.le_zero.1 hle]
      simp

theorem tsExhibits_eq_nil_iff {t : TsTarget} {ctx : RunContext} {ds : List TsDivergenceFound} :
    t.exhibits ctx 0 ds = [] ↔ ds = [] := by
  cases ds <;> simp [TsTarget.exhibits]

/-- The end of a proof agrees with itself; the coverage is left to the evidence. -/
theorem tsOutcome_wellFormed_iff {ctx : RunContext} {t : TsTarget} {n : Nat} {s : TsState} {c : ℚ}
    {e : Evidence} (hcount : s.counted ≤ n) (hfraction : e.changed = ∅ → 0 ≤ c ∧ c ≤ 1) :
    (tsProvenRecord ctx t (tsOutcome n s c) .empty).1.WellFormed e
        (tsOutcome n s c).divergences.length ↔
      c * e.changed.card = e.hit.card := by
  have hcoverage : (tsProvenRecord ctx t (tsOutcome n s c) .empty).1.changedLineCoverage = c := by
    unfold tsOutcome
    split_ifs <;> rfl
  constructor
  · intro h
    rw [← hcoverage]
    exact h.covered
  · intro hcovered
    unfold TsState.counted at hcount
    refine ⟨?_, ?_, ?_, ?_, ?_, ?_⟩
    · rw [hcoverage]
      exact fraction_of_covered hcovered hfraction
    · rw [hcoverage]
      exact hcovered
    all_goals
      by_cases hdiverged : s.divergences = []
      · by_cases hequal : s.equivalent = 0 <;>
          simp_all [tsProvenRecord, tsOutcome, tsUnproven, TsTarget.exhibits] <;> omega
      · simp_all [tsProvenRecord, tsOutcome, tsExhibits_eq_nil_iff]

end

/-! ## TypeScript records -/

section

variable {ω : Type} {stage : TsStage ω}

variable {d : FileDiff} {t : TsSelected}

theorem evidence_of_batches {lab : TsLab ω} {base head : Nat → ω} (hrefusal : stage.refusal t = none)
    (hlab : stage.lab d t.symbol = .ok lab)
    (hbatches : tsBatches stage.reader lab = .ok (.inr (base, head))) :
    stage.evidence d t = ⟨t.changedIn d, stage.reader.linesOf lab.inputs.length head⟩ := by
  simp [TsStage.evidence, hrefusal, hlab, TsLab.headLines, hbatches]

/-- Nothing is known of the head of a target whose batches did not come to an end. -/
theorem hit_of_no_batches
    (h : ∀ lab base head, stage.refusal t = none → stage.lab d t.symbol = .ok lab →
      tsBatches stage.reader lab ≠ .ok (.inr (base, head))) :
    (stage.evidence d t).hit = ∅ ∧ stage.Honest d t := by
  refine ⟨?_,
    fun lab base head hrefusal hlab hbatches => absurd hbatches (h lab base head hrefusal hlab)⟩
  unfold TsStage.evidence
  split
  · next lab hrefusal hlab =>
      cases hbatches : tsBatches stage.reader lab with
      | error e => simp [TsLab.headLines, hbatches, Evidence.hit]
      | ok out =>
        rcases out with input | ⟨base, head⟩
        · simp [TsLab.headLines, hbatches, Evidence.hit]
        · exact absurd hbatches (h lab base head hrefusal hlab)
  · simp [Evidence.hit]

variable {work : Work}

/-- The loop over the inputs is recorded in percent of the lines of both sides, or not at all. -/
theorem batches_wellFormed_iff {ctx : RunContext} {lab : TsLab ω} {base head : Nat → ω}
    (hrefusal : stage.refusal t = none) (hlab : stage.lab d t.symbol = .ok lab)
    (hbatches : tsBatches stage.reader lab = .ok (.inr (base, head))) (h : stage.proven d t = .ok work) :
    (work.record ctx .empty).1.WellFormed (stage.evidence d t) work.divergentInputs ↔
      stage.reader.linesOf lab.inputs.length head ∩ t.changedIn d = ∅ ∧
        (lab.Confirms stage.reader base head →
          stage.reader.linesOf lab.inputs.length base ∩ t.changedIn d = ∅) := by
  rw [evidence_of_batches hrefusal hlab hbatches]
  simp only [TsStage.proven, hlab, proveTsTarget, hbatches] at h
  cases hloop : lab.inputs.zipIdx.foldlM (tsRow stage.reader lab base head) {} with
  | error e =>
    have hnot : ¬ lab.Confirms stage.reader base head := by
      intro hconfirms
      rcases tsRows_ok_iff.2 hconfirms with ⟨s, hs⟩
      cases hloop.symm.trans hs
    simp only [hloop, bind, Except.bind] at h
    cases e with
    | importFailed error => cases h
    | unavailable error =>
      cases h
      refine (stated_wellFormed_iff (blank_tsSymbolRecord _ _ _ _ _ _) ctx _).trans ?_
      simp [Evidence.hit, hnot]
  | ok s =>
    have hconfirms : lab.Confirms stage.reader base head := tsRows_ok_iff.1 ⟨s, hloop⟩
    simp only [hloop, bind, Except.bind, pure, Except.pure] at h
    cases h
    have hcount : s.counted ≤ lab.inputs.length := by
      simpa [TsState.counted] using tsRows_counts hloop
    refine (tsOutcome_wellFormed_iff hcount ?_).trans ?_
    · intro hnone
      rw [tsCoverage, if_pos hnone]
      exact ⟨le_rfl, zero_le_one⟩
    · rw [tsCoverage_covered_iff, forall_prop_of_true hconfirms]

theorem proven_wellFormed_iff {ctx : RunContext} (hrefusal : stage.refusal t = none)
    (h : stage.proven d t = .ok work) :
    (work.record ctx .empty).1.WellFormed (stage.evidence d t) work.divergentInputs ↔
      stage.Honest d t := by
  by_cases hrun : ∃ lab base head, stage.lab d t.symbol = .ok lab ∧
      tsBatches stage.reader lab = .ok (.inr (base, head))
  · rcases hrun with ⟨lab, base, head, hlab, hbatches⟩
    rw [batches_wellFormed_iff hrefusal hlab hbatches h]
    constructor
    · intro hhonest lab' base' head' _ hlab' hbatches'
      obtain rfl := Except.ok.inj (hlab.symm.trans hlab')
      obtain ⟨rfl, rfl⟩ := Prod.mk.inj (Sum.inr.inj (Except.ok.inj (hbatches.symm.trans hbatches')))
      exact hhonest
    · exact fun hhonest => hhonest lab base head hrefusal hlab hbatches
  · have hnone : ∀ lab base head, stage.refusal t = none → stage.lab d t.symbol = .ok lab →
        tsBatches stage.reader lab ≠ .ok (.inr (base, head)) :=
      fun lab base head _ hlab hbatches => hrun ⟨lab, base, head, hlab, hbatches⟩
    rcases hit_of_no_batches hnone with ⟨hhit, hhonest⟩
    refine iff_of_true ?_ hhonest
    unfold TsStage.proven at h
    dsimp only at h
    cases hlab : stage.lab d t.symbol with
    | error e =>
      simp only [hlab] at h
      cases h
      exact (stated_wellFormed_iff (blank_tsSymbolRecord _ _ _ _ _ _) ctx _).2 hhit
    | ok lab =>
      simp only [hlab] at h
      unfold proveTsTarget at h
      dsimp only at h
      cases hbatches : tsBatches stage.reader lab with
      | error e =>
        cases e with
        | importFailed error =>
          simp only [hbatches] at h
          cases h
          exact ((blank_tsUnproven ctx _ _ _ _).wellFormed_iff _).2 hhit
        | unavailable error =>
          simp only [hbatches] at h
          cases h
          exact (stated_wellFormed_iff (blank_tsSymbolRecord _ _ _ _ _ _) ctx _).2 hhit
      | ok out =>
        rcases out with input | ⟨base, head⟩
        · simp only [hbatches] at h
          cases h
          exact ((blank_tsUnproven ctx _ _ _ _).wellFormed_iff _).2 hhit
        · exact absurd hbatches (hnone lab base head hrefusal hlab)

variable {works : List Work}

theorem targetWork_wellFormed_iff {ctx : RunContext} {ds : List FileDiff}
    (hd : fileOfPath ds t.filePath = some d) (h : stage.targetWork ds t = .ok works)
    (hwork : work ∈ works) :
    (work.record ctx .empty).1.WellFormed (stage.evidence d t) work.divergentInputs ↔
      stage.Honest d t := by
  unfold TsStage.targetWork at h
  simp only [hd] at h
  cases hrefusal : stage.refusal t with
  | some reason =>
    simp only [hrefusal] at h
    cases h
    obtain rfl := List.mem_singleton.1 hwork
    have hnone : ∀ lab base head, stage.refusal t = none → stage.lab d t.symbol = .ok lab →
        tsBatches stage.reader lab ≠ .ok (.inr (base, head)) := by
      intro lab base head hno
      cases hrefusal.symm.trans hno
    rcases hit_of_no_batches hnone with ⟨hhit, hhonest⟩
    exact iff_of_true
      ((stated_wellFormed_iff (blank_tsSymbolRecord _ _ _ _ _ _) ctx _).2 hhit) hhonest
  | none =>
    simp only [hrefusal] at h
    cases hproven : stage.proven d t with
    | error e => simp [hproven, Except.map] at h
    | ok proven =>
      simp only [hproven, Except.map] at h
      cases h
      obtain rfl := List.mem_singleton.1 hwork
      exact proven_wellFormed_iff hrefusal hproven

/-- A target of a file that was asked about gets one record. -/
theorem targetWork_single {ds : List FileDiff} (hd : fileOfPath ds t.filePath = some d)
    (h : stage.targetWork ds t = .ok works) : ∃ work, works = [work] := by
  unfold TsStage.targetWork at h
  simp only [hd] at h
  cases hrefusal : stage.refusal t with
  | some reason =>
    simp only [hrefusal] at h
    exact ⟨_, (Except.ok.inj h).symm⟩
  | none =>
    simp only [hrefusal] at h
    cases hproven : stage.proven d t with
    | error e => simp [hproven, Except.map] at h
    | ok proven =>
      simp only [hproven, Except.map] at h
      exact ⟨_, (Except.ok.inj h).symm⟩

/-! ## The records of a run -/

theorem mem_records_iff {tsDiffs ds : List FileDiff}
    (hds : ds = tsDiffs.filter fun d => isRunnable d.path) (h : stage.records tsDiffs = .ok works) :
    work ∈ works ↔
      (∃ d ∈ tsDiffs, isRunnable d.path = false ∧ work = .stated (stage.unexercised d)) ∨
      (∃ error, stage.select ds = .error error ∧ ∃ d ∈ ds, work =
        .stated (stage.fileRecord d .harnessSynthesisFailed (sidecarUnavailable error))) ∨
      (ds ≠ [] ∧ ∃ targets, stage.select ds = .ok targets ∧ ∃ t ∈ targets, ∃ works',
        stage.targetWork ds t = .ok works' ∧ work ∈ works') := by
  unfold TsStage.records at h
  dsimp only at h
  have hunexercised : ∀ w, w ∈ (tsDiffs.filter fun d => !isRunnable d.path).map (fun d =>
      Work.stated (stage.unexercised d)) ↔
        ∃ d ∈ tsDiffs, isRunnable d.path = false ∧ w = .stated (stage.unexercised d) := by
    intro w
    simp only [List.mem_map, List.mem_filter, Bool.not_eq_true']
    constructor
    · rintro ⟨d, ⟨hd, hnot⟩, rfl⟩
      exact ⟨d, hd, hnot, rfl⟩
    · rintro ⟨d, hd, hnot, rfl⟩
      exact ⟨d, ⟨hd, hnot⟩, rfl⟩
  rw [← hds] at h
  cases ds with
  | nil =>
    cases h
    simp [hunexercised]
  | cons d ds =>
    dsimp only at h
    cases hselect : stage.select (d :: ds) with
    | error error =>
      simp only [hselect] at h
      cases h
      rw [List.mem_append, hunexercised, List.mem_map]
      constructor
      · rintro (hnot | ⟨file, hfile, rfl⟩)
        · exact Or.inl hnot
        · exact Or.inr (Or.inl ⟨error, rfl, file, hfile, rfl⟩)
      · rintro (hnot | ⟨error', herror, file, hfile, rfl⟩ | ⟨_, targets, htargets, _⟩)
        · exact Or.inl hnot
        · cases herror
          exact Or.inr ⟨file, hfile, rfl⟩
        · cases htargets
    | ok targets =>
      simp only [hselect] at h
      obtain ⟨collected, hcollected, hworks⟩ := bind_ok_iff.1 h
      cases hworks
      rw [List.mem_append, hunexercised, List.mem_flatten]
      constructor
      · rintro (hnot | ⟨works', hworks', hmem⟩)
        · exact Or.inl hnot
        · rcases (mem_mapM_ok hcollected).1 hworks' with ⟨t, ht, hone⟩
          exact Or.inr (Or.inr ⟨List.cons_ne_nil _ _, targets, rfl, t, ht, works', hone, hmem⟩)
      · rintro (hnot | ⟨error, herror, _⟩ | ⟨_, targets', htargets, t, ht, works', hone, hmem⟩)
        · exact Or.inl hnot
        · cases herror
        · cases htargets
          exact Or.inr ⟨works', (mem_mapM_ok hcollected).2 ⟨t, ht, hone⟩, hmem⟩

theorem targetWork_of_records {tsDiffs ds : List FileDiff} {targets : List TsSelected}
    (hds : ds = tsDiffs.filter fun d => isRunnable d.path) (hsome : ds ≠ [])
    (hselect : stage.select ds = .ok targets) (h : stage.records tsDiffs = .ok works) :
    ∀ t ∈ targets, ∃ works', stage.targetWork ds t = .ok works' := by
  unfold TsStage.records at h
  dsimp only at h
  rw [← hds] at h
  cases ds with
  | nil => exact absurd rfl hsome
  | cons d ds =>
    simp only [hselect] at h
    obtain ⟨collected, hcollected, _⟩ := bind_ok_iff.1 h
    exact exists_mapM_ok_iff.1 ⟨collected, hcollected⟩

theorem tsWorks_records (r : ProveRun) (hts : r.ts = stage.records) (diffs : List FileDiff) :
    r.tsWorks diffs = stage.records (diffs.filter r.isTypeScript) := by
  unfold ProveRun.tsWorks
  cases diffs.filter r.isTypeScript with
  | nil => rfl
  | cons d ds => exact congrFun hts _

theorem mem_fileWorks_iff {r : ProveRun} {mined : List Constant} (h : r.fileWorks mined d = .ok works) :
    work ∈ works ↔ ∃ trees, r.trees d = .ok trees ∧ ∃ sym ∈ visited trees.base trees.head d,
      r.symbolWork mined d trees.head sym = .ok work := by
  obtain ⟨trees, htrees, hworks⟩ := bind_ok_iff.1 h
  rw [mem_mapM_ok hworks]
  constructor
  · exact fun hsym => ⟨trees, htrees, hsym⟩
  · rintro ⟨trees', htrees', hsym⟩
    obtain rfl := Except.ok.inj (htrees.symm.trans htrees')
    exact hsym

theorem mem_works_iff {r : ProveRun} (hts : r.ts = stage.records) (h : r.works = .ok works)
    (work : Work) : work ∈ works ↔ ∃ e, r.Emits stage work e := by
  rcases works_ok_iff.1 h with ⟨diffs, mined, python, ts, hdiffs, hmined, hpython, htsWorks, rfl⟩
  rw [tsWorks_records r hts] at htsWorks
  rw [List.mem_append, List.mem_flatten, mem_records_iff rfl htsWorks]
  constructor
  · rintro (⟨works, hworks, hmem⟩ | ⟨d, hd, hnot, rfl⟩ | ⟨error, hselect, d, hd, rfl⟩ |
      ⟨hsome, targets, hselect, t, ht, works, hone, hmem⟩)
    · rcases (mem_mapM_ok hpython).1 hworks with ⟨d, hd, hfile⟩
      rcases (mem_fileWorks_iff hfile).1 hmem with ⟨trees, htrees, sym, hsym, hwork⟩
      exact ⟨_, .python hdiffs hmined hd htrees hsym hwork⟩
    · exact ⟨_, .unexercised hdiffs hd hnot⟩
    · rcases List.mem_filter.1 hd with ⟨hd, hrun⟩
      exact ⟨_, .noSidecar hdiffs hd hrun hselect⟩
    · cases hd : fileOfPath ((diffs.filter r.isTypeScript).filter fun d => isRunnable d.path)
          t.filePath with
      | none =>
        simp only [TsStage.targetWork, hd, Except.ok.injEq] at hone
        rw [← hone] at hmem
        cases hmem
      | some d => exact ⟨_, .typeScript hdiffs rfl hsome hselect ht hd hone hmem⟩
  · rintro ⟨e, hemits⟩
    cases hemits with
    | @python diffs' mined' d trees sym _ hdiffs' hmined' hd htrees hsym hwork =>
      obtain rfl := Except.ok.inj (hdiffs.symm.trans hdiffs')
      obtain rfl := Except.ok.inj (hmined.symm.trans hmined')
      rcases exists_mapM_ok_iff.1 ⟨python, hpython⟩ d hd with ⟨works, hfile⟩
      exact Or.inl ⟨works, (mem_mapM_ok hpython).2 ⟨d, hd, hfile⟩,
        (mem_fileWorks_iff hfile).2 ⟨trees, htrees, sym, hsym, hwork⟩⟩
    | @unexercised diffs' d hdiffs' hd hnot =>
      obtain rfl := Except.ok.inj (hdiffs.symm.trans hdiffs')
      exact Or.inr (Or.inl ⟨d, hd, hnot, rfl⟩)
    | @noSidecar diffs' d error hdiffs' hd hrun hselect =>
      obtain rfl := Except.ok.inj (hdiffs.symm.trans hdiffs')
      exact Or.inr (Or.inr (Or.inl
        ⟨error, hselect, d, List.mem_filter.2 ⟨hd, hrun⟩, rfl⟩))
    | @typeScript diffs' ds d targets t works _ hdiffs' hds hsome hselect ht hd hone hmem =>
      obtain rfl := Except.ok.inj (hdiffs.symm.trans hdiffs')
      obtain rfl := hds
      exact Or.inr (Or.inr (Or.inr ⟨hsome, targets, hselect, t, ht, works, hone, hmem⟩))

/-- What a run emits agrees with the evidence exactly when the run is honest. -/
theorem emits_wellFormed_iff {r : ProveRun} (hts : r.ts = stage.records) (h : r.works = .ok works) :
    (∀ work e, r.Emits stage work e →
      (work.record r.context .empty).1.WellFormed e work.divergentInputs) ↔ r.Honest stage := by
  rcases works_ok_iff.1 h with ⟨diffs, mined, python, ts, hdiffs, hmined, hpython, htsWorks, _⟩
  rw [tsWorks_records r hts] at htsWorks
  constructor
  · intro hwell
    refine ⟨?_, ?_⟩
    · intro diffs' mined' d trees sym hdiffs' hmined' hd htrees hsym
      obtain rfl := Except.ok.inj (hdiffs.symm.trans hdiffs')
      obtain rfl := Except.ok.inj (hmined.symm.trans hmined')
      rcases exists_mapM_ok_iff.1 ⟨python, hpython⟩ d hd with ⟨works, hfile⟩
      rcases fileWorks_ok_iff.1 ⟨works, hfile⟩ with ⟨trees', htrees', hproves⟩
      obtain rfl := Except.ok.inj (htrees.symm.trans htrees')
      rcases symbolWork_ok_iff.2 (hproves sym hsym) with ⟨work, hwork⟩
      exact (symbol_wellFormed_iff hwork).1
        (hwell work _ (.python hdiffs hmined hd htrees hsym hwork))
    · intro diffs' ds d targets t hdiffs' hds hsome hselect ht hd
      obtain rfl := Except.ok.inj (hdiffs.symm.trans hdiffs')
      rcases targetWork_of_records hds hsome hselect htsWorks t ht with ⟨works, hone⟩
      rcases targetWork_single hd hone with ⟨work, rfl⟩
      have hmem : work ∈ [work] := List.mem_singleton_self work
      exact (targetWork_wellFormed_iff hd hone hmem).1
        (hwell work _ (.typeScript hdiffs hds hsome hselect ht hd hone hmem))
  · intro hhonest work e hemits
    cases hemits with
    | python hdiffs hmined hd htrees hsym hwork =>
      exact (symbol_wellFormed_iff hwork).2
        (hhonest.python _ _ _ _ _ hdiffs hmined hd htrees hsym)
    | unexercised _ _ _ | noSidecar _ _ _ _ =>
      refine (stated_wellFormed_iff (blank_tsSymbolRecord _ _ _ _ _ _) r.context _).2 ?_
      simp [Evidence.hit]
    | typeScript hdiffs hds hsome hselect ht hd hone hmem =>
      exact (targetWork_wellFormed_iff hd hone hmem).2
        (hhonest.typeScript _ _ _ _ _ hdiffs hds hsome hselect ht hd)

/-- Every target of a run has its record, and the records agree with the evidence exactly when the
run is honest. -/
theorem recordsWellFormed_iff {r : ProveRun} {out : RunBundle × BundleDir}
    (hts : r.ts = stage.records) (h : runProve r = .ok out) :
    (∀ t, t ∈ out.1.targets ↔
      ∃ work e, r.Emits stage work e ∧ t = (work.record r.context .empty).1) ∧
    ((∀ work e, r.Emits stage work e →
      (work.record r.context .empty).1.WellFormed e work.divergentInputs) ↔ r.Honest stage) := by
  rcases runProve_ok_iff.1 h with ⟨works, hworks, _, rfl⟩
  refine ⟨fun t => ?_, emits_wellFormed_iff hts hworks⟩
  simp only [ProveRun.bundle, runRecords_fst, List.mem_map, mem_works_iff hts hworks]
  constructor
  · rintro ⟨work, ⟨e, hemits⟩, rfl⟩
    exact ⟨work, e, hemits, rfl⟩
  · rintro ⟨work, e, hemits, rfl⟩
    exact ⟨work, ⟨e, hemits⟩, rfl⟩

end

/-! ## A function of one line -/

def oneTs : FileDiff := ⟨lit "a.ts", .modified, {1}, {1}⟩

def oneTsTarget : TsSelected :=
  ⟨lit "a.ts", lit "f", lit "function", lit "PURE_CANDIDATE", none, some (1, 1)⟩

def steadyTs : TsLab Unit where
  inputs := [lit "[]"]
  baseOne := .ok fun _ => ()
  baseTwo := .ok fun _ => ()
  head := .ok fun _ => ()
  freshBase := fun _ _ => .ok ()
  freshHead := fun _ _ => .ok ()

/-- The only line of the function is changed, and executed. -/
def coveringStage : TsStage Unit where
  sourceRoots := []
  sandbox := .process
  select := fun _ => .ok [oneTsTarget]
  reader := ⟨fun _ _ => .equal, fun _ => {1}, fun _ => [], fun _ => true⟩
  lab := fun _ _ => .ok steadyTs

def coveringRun : ProveRun := { brokenRun (fileHunk "a.ts") with ts := coveringStage.records }

def coveringWork : Work :=
  .tsProven ⟨lit "a.ts", moduleNameFor (lit "a.ts") [], lit "f"⟩
    ⟨.equivalentUnderBudget, none, none, 1, 1, 0, 100, []⟩

theorem oneTs_changed : oneTsTarget.changedIn oneTs = {1} := by decide

theorem steadyTs_coverage :
    tsCoverage {1} (tsExecuted coveringStage.reader 1 (fun _ => ()) fun _ => ()) = 100 := by
  simp [tsCoverage, tsExecuted, coveringStage]

theorem coveringStage_proves :
    proveTsTarget coveringStage.reader steadyTs (lit "a.ts") (lit "f") {1} =
      .ok ⟨.equivalentUnderBudget, none, none, 1, 1, 0, 100, []⟩ := by
  have hrun : proveTsTarget coveringStage.reader steadyTs (lit "a.ts") (lit "f") {1} =
      .ok (tsOutcome 1 ⟨1, 0, []⟩
        (tsCoverage {1} (tsExecuted coveringStage.reader 1 (fun _ => ()) fun _ => ()))) := rfl
  rw [hrun, steadyTs_coverage]
  rfl

theorem coveringStage_work : coveringStage.targetWork [oneTs] oneTsTarget = .ok [coveringWork] := by
  have hfile : fileOfPath [oneTs] oneTsTarget.filePath = some oneTs := rfl
  have hrefusal : coveringStage.refusal oneTsTarget = none := rfl
  have hproven : coveringStage.proven oneTs oneTsTarget = .ok coveringWork := by
    unfold TsStage.proven
    rw [oneTs_changed]
    have hlab : coveringStage.lab oneTs oneTsTarget.symbol = .ok steadyTs := rfl
    have hproves : proveTsTarget coveringStage.reader steadyTs oneTs.path oneTsTarget.symbol {1} =
        _ := coveringStage_proves
    simp only [hlab, hproves]
    rfl
  simp only [TsStage.targetWork, hfile, hrefusal, hproven]
  rfl

theorem coveringRun_diffs : coveringRun.diffs = .ok [oneTs] := by rfl

theorem coveringRun_works : coveringRun.works = .ok [coveringWork] := by
  have hts : coveringRun.tsWorks [oneTs] = .ok [coveringWork] := by
    rw [tsWorks_records coveringRun rfl]
    have hone : [oneTs].filter coveringRun.isTypeScript = [oneTs] := rfl
    have hselect : coveringStage.select [oneTs] = .ok [oneTsTarget] := rfl
    have hworks : [oneTsTarget].mapM (coveringStage.targetWork [oneTs]) = .ok [[coveringWork]] :=
      mapM_ok_iff.2 (.cons coveringStage_work .nil)
    rw [hone]
    exact bind_ok_iff.2 ⟨_, hworks, rfl⟩
  exact works_ok_iff.2 ⟨_, [], [], [coveringWork], coveringRun_diffs, rfl, rfl, hts, rfl⟩

theorem coveringRun_writable : coveringRun.Writable [coveringWork] := by
  refine ⟨?_, ?_⟩
  · decide
  · intro script hscript
    cases hscript

theorem coveringRun_emits : coveringRun.Emits coveringStage coveringWork ⟨{1}, {1}⟩ := by
  have hevidence : coveringStage.evidence oneTs oneTsTarget = ⟨{1}, {1}⟩ := by
    have hbatches : tsBatches coveringStage.reader steadyTs =
        .ok (.inr (fun _ => (), fun _ => ())) := rfl
    rw [evidence_of_batches rfl rfl hbatches, oneTs_changed]
    rfl
  have hds : [oneTs] = ([oneTs].filter coveringRun.isTypeScript).filter fun d => isRunnable d.path :=
    rfl
  have hselect : coveringStage.select [oneTs] = .ok [oneTsTarget] := rfl
  have hfile : fileOfPath [oneTs] oneTsTarget.filePath = some oneTs := rfl
  rw [← hevidence]
  exact .typeScript coveringRun_diffs hds (List.cons_ne_nil _ _) hselect (List.mem_singleton_self _)
    hfile coveringStage_work (List.mem_singleton_self _)

theorem recordsWellFormed_iff_covering :
    ∃ out, runProve coveringRun = .ok out ∧
      (∀ t, t ∈ out.1.targets ↔ ∃ work e, coveringRun.Emits coveringStage work e ∧
        t = (work.record coveringRun.context .empty).1) ∧
      ((∀ work e, coveringRun.Emits coveringStage work e →
        (work.record coveringRun.context .empty).1.WellFormed e work.divergentInputs) ↔
          coveringRun.Honest coveringStage) := by
  have hrun := runProve_ok_iff.2 ⟨_, coveringRun_works, coveringRun_writable, rfl⟩
  exact ⟨_, hrun, recordsWellFormed_iff rfl hrun⟩

/-- A function whose only line is changed and executed is recorded with a coverage of 100. -/
theorem coverage_of_hundred :
    ∃ out, runProve coveringRun = .ok out ∧ ∃ t ∈ out.1.targets, ∃ work e,
      coveringRun.Emits coveringStage work e ∧ t = (work.record coveringRun.context .empty).1 ∧
        e = ⟨{1}, {1}⟩ ∧ t.changedLineCoverage = 100 ∧ ¬ t.WellFormed e work.divergentInputs := by
  have hrun := runProve_ok_iff.2 ⟨_, coveringRun_works, coveringRun_writable, rfl⟩
  refine ⟨_, hrun, _, ?_, coveringWork, _, coveringRun_emits, rfl, rfl, rfl, ?_⟩
  · rw [ProveRun.bundle, runRecords_fst]
    exact List.mem_singleton_self _
  · intro hwell
    have hcoverage : (coveringWork.record coveringRun.context .empty).1.changedLineCoverage = 100 :=
      rfl
    have hle := hwell.fraction.2
    rw [hcoverage] at hle
    norm_num at hle

end Tempest
