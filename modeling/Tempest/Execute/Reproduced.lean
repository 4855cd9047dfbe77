import Tempest.Execute.Dual

/-!
# Reproduced — what stands behind a reported divergence

`Reached` says, without running the loop, which rows are submitted to `confirm_divergence`: the
first of its arguments and class, as long as the cap is not used up.  `loopInv_of_run` connects it
to the state of the loop, and `conclude_reproduced_iff` reads off when a report is reproduced as
reported.
-/

namespace Tempest

open Python

variable (cfg : CompareConfig) (dedupe : Bool)

/-! ## Which rows are submitted -/

def Row.detected (row : Row) : Option Diverged :=
  match compare row.base row.head cfg with
  | .diverged d => some d
  | _ => none

def Row.key (row : Row) : Option (PyStr × DivergenceClass) :=
  (row.detected cfg).map fun d => (row.input.1, d.divergenceClass)

def firstOfKey (before : List Row) (row : Row) : Bool :=
  (row.detected cfg).isSome && (!dedupe || before.all fun r => r.key cfg ≠ row.key cfg)

def confirmsAt (rows : List Row) (i : Nat) : Bool :=
  match rows[i]? with
  | none => false
  | some row => firstOfKey cfg dedupe (rows.take i) row && confirmDivergence row.rerun = .confirmed

def confirmedBefore (rows : List Row) (i : Nat) : Nat :=
  (List.range i).countP (confirmsAt cfg dedupe rows)

/-- Row `i` is submitted, unless an earlier one ends the loop. -/
def Reached (rows : List Row) (i : Nat) (row : Row) : Prop :=
  rows[i]? = some row ∧ firstOfKey cfg dedupe (rows.take i) row = true ∧
    confirmedBefore cfg dedupe rows i < maxConfirmations

/-- The loop gets to row `i` and submits it. -/
def Submitted (rows : List Row) (i : Nat) (row : Row) : Prop :=
  ∃ s, rows[i]? = some row ∧ proveLoop cfg dedupe (rows.take i) {} = .ok (s, none) ∧
    (submission cfg dedupe row s).isSome = true

/-! ## The claim about an outcome -/

def FreshClass (row : Row) (c : DivergenceClass) : Prop :=
  ∀ attempt < confirmAttempts, ∃ d, (row.rerun attempt).diverged = some d ∧ d.divergenceClass = c

/-- Every reported divergence has the class of the confirmations of its input, and nothing that
diverged is blessed without having been submitted and found flaky. -/
def Reproduced (rows : List Row) (outcome : TargetOutcome) : Prop :=
  (∀ f ∈ outcome.divergences, ∃ i row, Submitted cfg dedupe rows i row ∧
      row.input = (f.argsLiteral, f.kwargsLiteral) ∧
      confirmDivergence row.rerun = .confirmed ∧ FreshClass row f.divergenceClass) ∧
    (outcome.verdict = .equivalentUnderBudget → ∀ row ∈ rows, (row.detected cfg).isSome = true →
      ∃ i r, Submitted cfg dedupe rows i r ∧ r.input = row.input ∧
        confirmDivergence r.rerun = .flaky)

/-- Some submitted input shows that the base disagrees with itself. -/
def BaseUnstable (rows : List Row) : Prop :=
  ∃ i row, Reached cfg dedupe rows i row ∧ confirmDivergence row.rerun = .nondeterministicBase

def NoDrift (rows : List Row) : Prop :=
  ∀ i row d, Reached cfg dedupe rows i row → confirmDivergence row.rerun = .confirmed →
    row.detected cfg = some d → ∃ j r, Reached cfg dedupe rows j r ∧ r.input = row.input ∧
      confirmDivergence r.rerun = .confirmed ∧ FreshClass r d.divergenceClass

/-- If something is equal and nothing is confirmed, every input that diverged is the first of its
arguments and class, or equal to such an input in its keyword arguments too. -/
def NothingSkipped (rows : List Row) : Prop :=
  (∃ row ∈ rows, compare row.base row.head cfg = .equal) →
    (∀ i row, Reached cfg dedupe rows i row → confirmDivergence row.rerun ≠ .confirmed) →
      ∀ row ∈ rows, (row.detected cfg).isSome = true →
        ∃ j r, Reached cfg dedupe rows j r ∧ r.input = row.input

variable {cfg dedupe}

/-! ## Confirmations -/

/-! ## The state of the loop -/

theorem proveLoop_append (xs ys : List Row) (s : LoopState) :
    proveLoop cfg dedupe (xs ++ ys) s =
      match proveLoop cfg dedupe xs s with
      | .error e => .error e
      | .ok (s, some args) => .ok (s, some args)
      | .ok (s, none) => proveLoop cfg dedupe ys s := by
  induction xs generalizing s with
  | nil => rfl
  | cons row xs ih =>
    simp only [List.cons_append, proveLoop]
    cases hrow : proveRow cfg dedupe row s with
    | error e => rfl
    | ok out =>
      rcases out with ⟨s', stopped⟩
      cases stopped with
      | true => rfl
      | false => exact ih s'

/-- What the loop knows when it gets to row `i`. -/
structure LoopInv (cfg : CompareConfig) (dedupe : Bool) (rows : List Row) (i : Nat)
    (s : LoopState) : Prop where
  calm : ∀ j row, j < i → Reached cfg dedupe rows j row →
    confirmDivergence row.rerun ≠ .nondeterministicBase
  seen : ∀ key, key ∈ s.seenClasses ↔
    ∃ j row, j < i ∧ Reached cfg dedupe rows j row ∧ row.key cfg = some key
  count : s.confirmed.length = min maxConfirmations (confirmedBefore cfg dedupe rows i)
  sound : ∀ f ∈ s.confirmed, ∃ j row d, j < i ∧ Reached cfg dedupe rows j row ∧
    row.detected cfg = some d ∧ confirmDivergence row.rerun = .confirmed ∧
    row.input = (f.argsLiteral, f.kwargsLiteral) ∧ f.divergenceClass = d.divergenceClass
  complete : ∀ j row d, j < i → Reached cfg dedupe rows j row → row.detected cfg = some d →
    confirmDivergence row.rerun = .confirmed → ∃ f ∈ s.confirmed,
      row.input = (f.argsLiteral, f.kwargsLiteral) ∧ f.divergenceClass = d.divergenceClass
  equal : 0 < s.equivalent ↔ ∃ row ∈ rows.take i, compare row.base row.head cfg = .equal

theorem loopInv_start (rows : List Row) : LoopInv cfg dedupe rows 0 {} where
  calm := fun j _ hj => absurd hj (Nat.not_lt_zero j)
  seen := fun key => by simp
  count := by simp [confirmedBefore]
  sound := fun f hf => by cases hf
  complete := fun j _ _ hj => absurd hj (Nat.not_lt_zero j)
  equal := by simp

theorem confirmedBefore_succ (rows : List Row) (i : Nat) :
    confirmedBefore cfg dedupe rows (i + 1) =
      confirmedBefore cfg dedupe rows i + if confirmsAt cfg dedupe rows i then 1 else 0 := by
  simp [confirmedBefore, List.range_succ, List.countP_append, List.countP_cons]

theorem confirmedBefore_mono {rows : List Row} {i j : Nat} (h : i ≤ j) :
    confirmedBefore cfg dedupe rows i ≤ confirmedBefore cfg dedupe rows j := by
  induction h with
  | refl => exact le_rfl
  | step _ ih =>
    rw [confirmedBefore_succ]
    exact ih.trans (Nat.le_add_right _ _)

/-- A row that diverged has the first row of its key at or before its place. -/
theorem exists_firstOfKey {rows : List Row} {i : Nat} {row : Row} (hrow : rows[i]? = some row)
    (hdet : (row.detected cfg).isSome = true) :
    ∃ j r, j ≤ i ∧ rows[j]? = some r ∧ r.key cfg = row.key cfg ∧
      firstOfKey cfg dedupe (rows.take j) r = true := by
  classical
  have hex : ∃ j, ∃ r : Row, rows[j]? = some r ∧ r.key cfg = row.key cfg := ⟨i, row, hrow, rfl⟩
  rcases Nat.find_spec hex with ⟨r, hr, hkey⟩
  refine ⟨Nat.find hex, r, Nat.find_min' hex ⟨row, hrow, rfl⟩, hr, hkey, ?_⟩
  have hsome : (r.detected cfg).isSome = true := by
    have hisSome := congrArg Option.isSome hkey
    simpa [Row.key, hdet] using hisSome
  have hfirst : ∀ q ∈ rows.take (Nat.find hex), q.key cfg ≠ r.key cfg := by
    intro q hq heq
    rcases List.getElem_of_mem hq with ⟨k, hk, hget⟩
    have hlt : k < Nat.find hex := (List.length_take_le _ _).trans_lt' hk
    have hat : rows[k]? = some q := by
      rw [← hget, List.getElem_take]
      exact List.getElem?_eq_getElem _
    exact Nat.find_min hex hlt ⟨q, hat, heq.trans hkey⟩
  simp only [firstOfKey, hsome, Bool.true_and, Bool.or_eq_true, List.all_eq_true]
  exact Or.inr fun q hq => by simpa using hfirst q hq

variable {i : Nat} {s s' : LoopState} {row : Row}

/-- The guards of the loop decide what `Reached` says. -/
theorem submission_iff {rows : List Row} {d : Diverged} (hinv : LoopInv cfg dedupe rows i s)
    (hrow : rows[i]? = some row) :
    submission cfg dedupe row s = some d ↔
      row.detected cfg = some d ∧ Reached cfg dedupe rows i row := by
  unfold submission
  cases hcmp : compare row.base row.head cfg with
  | equal | unprovable _ => simp [Row.detected, hcmp]
  | diverged d' =>
    have hdet : row.detected cfg = some d' := by simp [Row.detected, hcmp]
    have hkey : row.key cfg = some (row.input.1, d'.divergenceClass) := by simp [Row.key, hdet]
    have hcount := hinv.count
    by_cases hcap : maxConfirmations ≤ s.confirmed.length
    · have hfull : ¬ confirmedBefore cfg dedupe rows i < maxConfirmations := by omega
      simp [hcap, Reached, hfull]
    · have hroom : confirmedBefore cfg dedupe rows i < maxConfirmations := by omega
      cases dedupe with
      | false =>
        simp [hcap, hdet, Reached, hrow, firstOfKey, hroom]
      | true =>
        have hseen := hinv.seen (row.input.1, d'.divergenceClass)
        -- the key was seen exactly when some row before has it
        have hbefore : (row.input.1, d'.divergenceClass) ∈ s.seenClasses ↔
            ∃ r ∈ rows.take i, r.key cfg = row.key cfg := by
          rw [hseen]
          constructor
          · rintro ⟨j, r, hj, hreached, hrkey⟩
            refine ⟨r, ?_, hrkey.trans hkey.symm⟩
            exact List.mem_of_getElem? ((List.getElem?_take_of_lt hj).trans hreached.1)
          · rintro ⟨r, hr, hrkey⟩
            rcases List.getElem_of_mem hr with ⟨k, hk, hget⟩
            have hklt : k < i := (List.length_take_le _ _).trans_lt' hk
            have hat : rows[k]? = some r := by
              rw [← hget, List.getElem_take]
              exact List.getElem?_eq_getElem _
            have hrdet : (r.detected cfg).isSome = true := by
              have hisSome := congrArg Option.isSome hrkey
              simpa [Row.key, hdet] using hisSome
            rcases @exists_firstOfKey cfg true rows k r hat hrdet with
              ⟨j, q, hjk, hq, hqkey, hfirst⟩
            have hji : j < i := hjk.trans_lt hklt
            have hjroom := (@confirmedBefore_mono cfg true rows j i hji.le).trans_lt hroom
            exact ⟨j, q, hji, ⟨hq, hfirst, hjroom⟩, (hqkey.trans hrkey).trans hkey⟩
        have hfirst : firstOfKey cfg true (rows.take i) row = true ↔
            ¬ ∃ r ∈ rows.take i, r.key cfg = row.key cfg := by
          simp [firstOfKey, hdet]
        by_cases hmem : (row.input.1, d'.divergenceClass) ∈ s.seenClasses
        · have hnot : ¬ firstOfKey cfg true (rows.take i) row = true := fun h =>
            hfirst.1 h (hbefore.1 hmem)
          simp [hcap, hmem, Reached, hnot]
        · have hyes : firstOfKey cfg true (rows.take i) row = true :=
            hfirst.2 fun h => hmem (hbefore.2 h)
          simp [hcap, hmem, hdet, Reached, hrow, hyes, hroom]

/-! ## One turn of the loop -/

theorem reached_lt_succ {rows : List Row} {i j : Nat} {row r : Row} (hrow : rows[i]? = some row)
    (hj : j < i + 1) (hreached : Reached cfg dedupe rows j r) : j < i ∨ (j = i ∧ r = row) := by
  rcases Nat.lt_succ_iff_lt_or_eq.1 hj with hlt | rfl
  · exact Or.inl hlt
  · exact Or.inr ⟨rfl, Option.some.inj (hreached.1.symm.trans hrow)⟩

theorem take_succ_of_get {rows : List Row} (hrow : rows[i]? = some row) :
    rows.take (i + 1) = rows.take i ++ [row] := by
  simp [List.take_add_one, hrow]

theorem equal_succ {rows : List Row} (hrow : rows[i]? = some row) :
    (∃ r ∈ rows.take (i + 1), compare r.base r.head cfg = .equal) ↔
      (∃ r ∈ rows.take i, compare r.base r.head cfg = .equal) ∨
        compare row.base row.head cfg = .equal := by
  rw [take_succ_of_get hrow]
  constructor
  · rintro ⟨r, hr, heq⟩
    rcases List.mem_append.1 hr with hold | hnew
    · exact Or.inl ⟨r, hold, heq⟩
    · have hsame : r = row := by simpa using hnew
      exact Or.inr (hsame ▸ heq)
  · rintro (⟨r, hr, heq⟩ | heq)
    · exact ⟨r, List.mem_append_left _ hr, heq⟩
    · exact ⟨row, by simp, heq⟩

/-- A row that is not submitted only counts. -/
theorem LoopInv.unreached {rows : List Row} (hinv : LoopInv cfg dedupe rows i s)
    (hrow : rows[i]? = some row) (hnot : ¬ Reached cfg dedupe rows i row)
    (hseen : s'.seenClasses = s.seenClasses) (hconfirmed : s'.confirmed = s.confirmed)
    (hequal : 0 < s'.equivalent ↔ 0 < s.equivalent ∨ compare row.base row.head cfg = .equal) :
    LoopInv cfg dedupe rows (i + 1) s' := by
  have hback : ∀ {j r}, j < i + 1 → Reached cfg dedupe rows j r → j < i := by
    intro j r hj hr
    rcases reached_lt_succ hrow hj hr with hlt | ⟨rfl, rfl⟩
    · exact hlt
    · exact absurd hr hnot
  refine ⟨?_, ?_, ?_, ?_, ?_, ?_⟩
  · exact fun j r hj hr => hinv.calm j r (hback hj hr) hr
  · intro key
    rw [hseen, hinv.seen key]
    constructor
    · rintro ⟨j, r, hj, hr⟩
      exact ⟨j, r, hj.trans (Nat.lt_succ_self i), hr⟩
    · rintro ⟨j, r, hj, hr, hkey⟩
      exact ⟨j, r, hback hj hr, hr, hkey⟩
  · rw [hconfirmed, hinv.count, confirmedBefore_succ]
    cases hat : confirmsAt cfg dedupe rows i with
    | false => simp
    | true =>
      -- only the cap keeps the first row of a key from being submitted
      have hfirst : firstOfKey cfg dedupe (rows.take i) row = true := by
        simp only [confirmsAt, hrow, Bool.and_eq_true] at hat
        exact hat.1
      have hfull : ¬ confirmedBefore cfg dedupe rows i < maxConfirmations :=
        fun hroom => hnot ⟨hrow, hfirst, hroom⟩
      simp
      omega
  · intro f hf
    rw [hconfirmed] at hf
    rcases hinv.sound f hf with ⟨j, r, d, hj, hrest⟩
    exact ⟨j, r, d, hj.trans (Nat.lt_succ_self i), hrest⟩
  · intro j r d hj hr hd hc
    rw [hconfirmed]
    exact hinv.complete j r d (hback hj hr) hr hd hc
  · rw [hequal, hinv.equal, equal_succ hrow]

/-- A submitted row adds its key and, when confirmed, its report. -/
theorem LoopInv.reached {rows : List Row} {d : Diverged} {reports : List FoundDivergence}
    (hinv : LoopInv cfg dedupe rows i s) (hreached : Reached cfg dedupe rows i row)
    (hdet : row.detected cfg = some d) (hcalm : confirmDivergence row.rerun ≠ .nondeterministicBase)
    (hseen : s'.seenClasses = (row.input.1, d.divergenceClass) :: s.seenClasses)
    (hconfirmed : s'.confirmed = s.confirmed ++ reports)
    (hlength : reports.length = if confirmDivergence row.rerun = .confirmed then 1 else 0)
    (hreports : ∀ f ∈ reports, row.input = (f.argsLiteral, f.kwargsLiteral) ∧
      f.divergenceClass = d.divergenceClass)
    (hequal : s'.equivalent = s.equivalent) : LoopInv cfg dedupe rows (i + 1) s' := by
  have hrow := hreached.1
  have hkey : row.key cfg = some (row.input.1, d.divergenceClass) := by simp [Row.key, hdet]
  have hdiffers : compare row.base row.head cfg ≠ .equal := by
    intro heq
    simp [Row.detected, heq] at hdet
  refine ⟨?_, ?_, ?_, ?_, ?_, ?_⟩
  · intro j r hj hr
    rcases reached_lt_succ hrow hj hr with hlt | ⟨rfl, rfl⟩
    · exact hinv.calm j r hlt hr
    · exact hcalm
  · intro key
    rw [hseen, List.mem_cons, hinv.seen key]
    constructor
    · rintro (rfl | ⟨j, r, hj, hr⟩)
      · exact ⟨i, row, Nat.lt_succ_self i, hreached, hkey⟩
      · exact ⟨j, r, hj.trans (Nat.lt_succ_self i), hr⟩
    · rintro ⟨j, r, hj, hr, hrkey⟩
      rcases reached_lt_succ hrow hj hr with hlt | ⟨rfl, rfl⟩
      · exact Or.inr ⟨j, r, hlt, hr, hrkey⟩
      · exact Or.inl (Option.some.inj (hrkey.symm.trans hkey))
  · have hat : confirmsAt cfg dedupe rows i = decide (confirmDivergence row.rerun = .confirmed) := by
      simp [confirmsAt, hrow, hreached.2.1]
    have hroom := hreached.2.2
    rw [hconfirmed, List.length_append, hinv.count, hlength, confirmedBefore_succ, hat]
    by_cases hc : confirmDivergence row.rerun = .confirmed
    · simp [hc]
      omega
    · simp [hc]
  · intro f hf
    rw [hconfirmed] at hf
    rcases List.mem_append.1 hf with hold | hnew
    · rcases hinv.sound f hold with ⟨j, r, d', hj, hrest⟩
      exact ⟨j, r, d', hj.trans (Nat.lt_succ_self i), hrest⟩
    · have hc : confirmDivergence row.rerun = .confirmed := by
        by_contra hc
        rw [if_neg hc] at hlength
        rw [List.length_eq_zero_iff.1 hlength] at hnew
        cases hnew
      have hf := hreports f hnew
      exact ⟨i, row, d, Nat.lt_succ_self i, hreached, hdet, hc, hf.1, hf.2⟩
  · intro j r d' hj hr hd' hc
    rw [hconfirmed]
    rcases reached_lt_succ hrow hj hr with hlt | ⟨rfl, rfl⟩
    · rcases hinv.complete j r d' hlt hr hd' hc with ⟨f, hf, hrest⟩
      exact ⟨f, List.mem_append_left _ hf, hrest⟩
    · obtain rfl : d = d' := Option.some.inj (hdet.symm.trans hd')
      rw [if_pos hc] at hlength
      rcases List.length_eq_one_iff.1 hlength with ⟨f, rfl⟩
      exact ⟨f, by simp, hreports f (by simp)⟩
  · rw [hequal, hinv.equal, equal_succ hrow]
    simp [hdiffers]

theorem proveRow_spec {rows : List Row} {stopped : Bool} (hinv : LoopInv cfg dedupe rows i s)
    (hrow : rows[i]? = some row) (h : proveRow cfg dedupe row s = .ok (s', stopped)) :
    (stopped = false → LoopInv cfg dedupe rows (i + 1) s') ∧
      (stopped = true → Reached cfg dedupe rows i row ∧
        confirmDivergence row.rerun = .nondeterministicBase) := by
  unfold proveRow at h
  cases hcmp : compare row.base row.head cfg with
  | equal | unprovable _ =>
    have hnot : ¬ Reached cfg dedupe rows i row := by
      rintro ⟨_, hfirst, _⟩
      simp [firstOfKey, Row.detected, hcmp] at hfirst
    simp only [hcmp, Except.ok.injEq, Prod.mk.injEq] at h
    rcases h with ⟨rfl, rfl⟩
    exact ⟨fun _ => hinv.unreached hrow hnot rfl rfl (by simp [hcmp]), by simp⟩
  | diverged d' =>
    simp only [hcmp] at h
    cases hsub : submission cfg dedupe row s with
    | none =>
      have hdet : row.detected cfg = some d' := by simp [Row.detected, hcmp]
      have hnot : ¬ Reached cfg dedupe rows i row := by
        intro hreached
        have hsome := (submission_iff hinv hrow).2 ⟨hdet, hreached⟩
        simp [hsub] at hsome
      simp only [hsub, Except.ok.injEq, Prod.mk.injEq] at h
      rcases h with ⟨rfl, rfl⟩
      exact ⟨fun _ => hinv.unreached hrow hnot rfl rfl (by simp [hcmp]), by simp⟩
    | some d =>
      rcases (submission_iff hinv hrow).1 hsub with ⟨hdet, hreached⟩
      simp only [hsub] at h
      cases hconfirm : confirmDivergence row.rerun with
      | nondeterministicBase =>
        simp only [hconfirm, Except.ok.injEq, Prod.mk.injEq] at h
        rcases h with ⟨_, rfl⟩
        exact ⟨by simp, fun _ => ⟨hreached, rfl⟩⟩
      | flaky =>
        simp only [hconfirm, Except.ok.injEq, Prod.mk.injEq] at h
        rcases h with ⟨rfl, rfl⟩
        refine ⟨fun _ => ?_, by simp⟩
        exact hinv.reached hreached hdet (by simp [hconfirm]) rfl (List.append_nil _).symm
          (by simp [hconfirm]) (by simp) rfl
      | confirmed =>
        simp only [hconfirm, bind_eq_ok, pure_eq_ok, Prod.mk.injEq] at h
        rcases h with ⟨base, _, head, _, rfl, rfl⟩
        refine ⟨fun _ => ?_, by simp⟩
        exact hinv.reached hreached hdet (by simp [hconfirm]) rfl rfl (by simp [hconfirm])
          (by simp [found]) rfl

/-! ## A whole run -/

/-- The run over one row more. -/
theorem proveLoop_take_succ {rows : List Row} (hrow : rows[i]? = some row) :
    proveLoop cfg dedupe (rows.take (i + 1)) {} =
      match proveLoop cfg dedupe (rows.take i) {} with
      | .error e => .error e
      | .ok (s, some args) => .ok (s, some args)
      | .ok (s, none) => proveLoop cfg dedupe [row] s := by
  rw [take_succ_of_get hrow]
  exact proveLoop_append (rows.take i) [row] {}

theorem get_of_lt {rows : List Row} (hi : i < rows.length) :
    ∃ row, rows[i]? = some row :=
  ⟨rows[i], List.getElem?_eq_getElem hi⟩

/-- The invariant holds wherever the loop has not ended, and it only ends on an unstable base. -/
theorem loopInv_of_run {rows : List Row} : ∀ i ≤ rows.length, ∀ s stopped,
    proveLoop cfg dedupe (rows.take i) {} = .ok (s, stopped) →
      (stopped = none → LoopInv cfg dedupe rows i s) ∧
        (stopped ≠ none → BaseUnstable cfg dedupe rows)
  | 0, _, s, stopped, h => by
    simp only [List.take_zero, proveLoop, Except.ok.injEq, Prod.mk.injEq] at h
    rcases h with ⟨rfl, rfl⟩
    exact ⟨fun _ => loopInv_start rows, fun hne => absurd rfl hne⟩
  | i + 1, hi, s, stopped, h => by
    rcases get_of_lt (Nat.lt_of_succ_le hi) with ⟨row, hrow⟩
    rw [proveLoop_take_succ hrow] at h
    cases hrun : proveLoop cfg dedupe (rows.take i) {} with
    | error e => simp [hrun] at h
    | ok out =>
      rcases out with ⟨s₀, stopped₀⟩
      have ih := loopInv_of_run i (Nat.le_of_succ_le hi) s₀ stopped₀ hrun
      simp only [hrun] at h
      cases stopped₀ with
      | some args =>
        simp only [Except.ok.injEq, Prod.mk.injEq] at h
        rcases h with ⟨_, rfl⟩
        exact ⟨by simp, fun _ => ih.2 (by simp)⟩
      | none =>
        have hinv := ih.1 rfl
        simp only [proveLoop] at h
        cases hturn : proveRow cfg dedupe row s₀ with
        | error e => simp [hturn] at h
        | ok out =>
          rcases out with ⟨s₁, flag⟩
          have hspec := proveRow_spec hinv hrow hturn
          cases flag with
          | true =>
            simp only [hturn, Except.ok.injEq, Prod.mk.injEq] at h
            rcases h with ⟨_, rfl⟩
            exact ⟨by simp, fun _ => ⟨i, row, hspec.2 rfl⟩⟩
          | false =>
            simp only [hturn, Except.ok.injEq, Prod.mk.injEq] at h
            rcases h with ⟨rfl, rfl⟩
            exact ⟨fun _ => hspec.1 rfl, fun hne => absurd rfl hne⟩

/-- In a run that goes to its end, what is submitted is what is reached. -/
theorem submitted_iff_reached {rows : List Row} (hrun : proveLoop cfg dedupe rows {} = .ok (s, none)) :
    Submitted cfg dedupe rows i row ↔ Reached cfg dedupe rows i row := by
  constructor
  · rintro ⟨s', hrow, hearlier, hsub⟩
    have hi : i < rows.length := (List.getElem?_eq_some_iff.1 hrow).1
    have hinv := (loopInv_of_run i hi.le s' none hearlier).1 rfl
    rcases Option.isSome_iff_exists.1 hsub with ⟨d, hd⟩
    exact ((submission_iff hinv hrow).1 hd).2
  · intro hreached
    have hi : i < rows.length := (List.getElem?_eq_some_iff.1 hreached.1).1
    have hsplit : proveLoop cfg dedupe (rows.take i ++ rows.drop i) {} = .ok (s, none) := by
      rwa [List.take_append_drop]
    rw [proveLoop_append] at hsplit
    cases hearlier : proveLoop cfg dedupe (rows.take i) {} with
    | error e => simp [hearlier] at hsplit
    | ok out =>
      rcases out with ⟨s', stopped⟩
      cases stopped with
      | some args => simp [hearlier] at hsplit
      | none =>
        have hinv := (loopInv_of_run i hi.le s' none hearlier).1 rfl
        have hdet : (row.detected cfg).isSome = true := by
          have hfirst := hreached.2.1
          simp only [firstOfKey, Bool.and_eq_true] at hfirst
          exact hfirst.1
        rcases Option.isSome_iff_exists.1 hdet with ⟨d, hd⟩
        refine ⟨s', hreached.1, hearlier, ?_⟩
        rw [(submission_iff hinv hreached.1).2 ⟨hd, hreached⟩]
        rfl

/-! ## Reproduced as reported -/

theorem deriveOutcome_divergences (module qualname : PyStr) (s : LoopState) (n : Nat) (c : ℚ) :
    (deriveOutcome module qualname s n c).divergences = s.confirmed := by
  unfold deriveOutcome
  split_ifs <;> rfl

theorem deriveOutcome_equivalent (module qualname : PyStr) (s : LoopState) (n : Nat) (c : ℚ) :
    (deriveOutcome module qualname s n c).verdict = .equivalentUnderBudget ↔
      s.confirmed = [] ∧ 0 < s.equivalent := by
  unfold deriveOutcome
  by_cases hconfirmed : s.confirmed = []
  · by_cases hequal : 0 < s.equivalent
    · simp [hconfirmed, hequal]
    · simp [hconfirmed, hequal]
  · simp [hconfirmed]

theorem confirmed_nil_iff {rows : List Row} (hinv : LoopInv cfg dedupe rows rows.length s) :
    s.confirmed = [] ↔
      ∀ i row, Reached cfg dedupe rows i row → confirmDivergence row.rerun ≠ .confirmed := by
  constructor
  · intro hnil i row hreached hc
    have hi : i < rows.length := (List.getElem?_eq_some_iff.1 hreached.1).1
    have hfirst := hreached.2.1
    simp only [firstOfKey, Bool.and_eq_true] at hfirst
    rcases Option.isSome_iff_exists.1 hfirst.1 with ⟨d, hd⟩
    rcases hinv.complete i row d hi hreached hd hc with ⟨f, hf, _⟩
    simp [hnil] at hf
  · intro hnone
    by_contra hne
    rcases List.exists_mem_of_ne_nil _ hne with ⟨f, hf⟩
    rcases hinv.sound f hf with ⟨j, r, _, _, hreached, _, hc, _⟩
    exact hnone j r hreached hc

theorem unproven_reproduced (rows : List Row) (module qualname : PyStr) (code : ReasonCode)
    (detail : PyStr) : Reproduced cfg dedupe rows (unproven module qualname code detail) :=
  ⟨fun _ hf => (nomatch hf), fun hverdict => (nomatch hverdict)⟩

theorem noDrift_iff {rows : List Row} (hrun : proveLoop cfg dedupe rows {} = .ok (s, none))
    (hinv : LoopInv cfg dedupe rows rows.length s) :
    (∀ f ∈ s.confirmed, ∃ i row, Submitted cfg dedupe rows i row ∧
      row.input = (f.argsLiteral, f.kwargsLiteral) ∧
      confirmDivergence row.rerun = .confirmed ∧ FreshClass row f.divergenceClass) ↔
      NoDrift cfg dedupe rows := by
  constructor
  · intro hall i row d hreached hc hd
    have hi : i < rows.length := (List.getElem?_eq_some_iff.1 hreached.1).1
    rcases hinv.complete i row d hi hreached hd hc with ⟨f, hf, hinput, hclass⟩
    rcases hall f hf with ⟨j, r, hsub, hrinput, hrc, hfresh⟩
    exact ⟨j, r, (submitted_iff_reached hrun).1 hsub, hrinput.trans hinput.symm, hrc,
      hclass ▸ hfresh⟩
  · intro hdrift f hf
    rcases hinv.sound f hf with ⟨i, row, d, _, hreached, hd, hc, hinput, hclass⟩
    rcases hdrift i row d hreached hc hd with ⟨j, r, hr, hrinput, hrc, hfresh⟩
    exact ⟨j, r, (submitted_iff_reached hrun).2 hr, hrinput.trans hinput, hrc, hclass ▸ hfresh⟩

variable {module qualname : PyStr} {changedLines : Finset Nat} {unstable : PyStr → PyStr} {outcome : TargetOutcome}

/-- The two ways a target with rows ends. -/
theorem conclude_cases {rows : List Row}
    (h : conclude module qualname changedLines cfg dedupe unstable rows = .ok outcome) :
    (BaseUnstable cfg dedupe rows ∧ ∃ args,
        outcome = unproven module qualname .nondeterministicBase (unstable args)) ∨
      (¬ BaseUnstable cfg dedupe rows ∧ ∃ s, proveLoop cfg dedupe rows {} = .ok (s, none) ∧
        LoopInv cfg dedupe rows rows.length s ∧
        outcome = deriveOutcome module qualname s rows.length
          (coverage changedLines (rows.map Row.head))) := by
  unfold conclude at h
  cases hrun : proveLoop cfg dedupe rows {} with
  | error e => simp [hrun] at h
  | ok out =>
    rcases out with ⟨s, stopped⟩
    have hfull : proveLoop cfg dedupe (rows.take rows.length) {} = .ok (s, stopped) := by
      rw [List.take_length]
      exact hrun
    have hspec := loopInv_of_run rows.length le_rfl s stopped hfull
    cases stopped with
    | some args =>
      simp only [hrun, Except.ok.injEq] at h
      exact Or.inl ⟨hspec.2 (by simp), args, h.symm⟩
    | none =>
      simp only [hrun, Except.ok.injEq] at h
      have hinv := hspec.1 rfl
      refine Or.inr ⟨?_, s, rfl, hinv, h.symm⟩
      rintro ⟨i, row, hreached, hunstable⟩
      have hi : i < rows.length := (List.getElem?_eq_some_iff.1 hreached.1).1
      exact hinv.calm i row hi hreached hunstable

/-- A target is blessed when the base is stable, nothing is confirmed and something is equal. -/
theorem conclude_equivalent_iff {rows : List Row}
    (h : conclude module qualname changedLines cfg dedupe unstable rows = .ok outcome) :
    outcome.verdict = .equivalentUnderBudget ↔
      ¬ BaseUnstable cfg dedupe rows ∧
        (∀ i row, Reached cfg dedupe rows i row → confirmDivergence row.rerun ≠ .confirmed) ∧
          ∃ row ∈ rows, compare row.base row.head cfg = .equal := by
  rcases conclude_cases h with ⟨hbad, args, rfl⟩ | ⟨hstable, s, _, hinv, rfl⟩
  · simp [unproven, hbad]
  · have hequal := hinv.equal
    simp only [List.take_length] at hequal
    simp only [deriveOutcome_equivalent, confirmed_nil_iff hinv, hequal, hstable, not_false_eq_true,
      true_and]

theorem conclude_reproduced_iff {rows : List Row}
    (h : conclude module qualname changedLines cfg dedupe unstable rows = .ok outcome) :
    Reproduced cfg dedupe rows outcome ↔
      BaseUnstable cfg dedupe rows ∨
        (NoDrift cfg dedupe rows ∧ NothingSkipped cfg dedupe rows) := by
  have hverdict := conclude_equivalent_iff h
  rcases conclude_cases h with ⟨hbad, args, rfl⟩ | ⟨hstable, s, hrun, hinv, rfl⟩
  · exact iff_of_true (unproven_reproduced _ _ _ _ _) (Or.inl hbad)
  · -- a submitted row that is neither confirmed nor unstable is flaky
    have hflaky : ∀ i row, Reached cfg dedupe rows i row →
        confirmDivergence row.rerun ≠ .confirmed →
        confirmDivergence row.rerun = .flaky := by
      intro i row hreached hc
      cases hconfirm : confirmDivergence row.rerun with
      | confirmed => exact absurd hconfirm hc
      | flaky => rfl
      | nondeterministicBase => exact absurd ⟨i, row, hreached, hconfirm⟩ hstable
    unfold Reproduced
    rw [deriveOutcome_divergences, hverdict, noDrift_iff hrun hinv]
    constructor
    · rintro ⟨hdrift, hblessed⟩
      refine Or.inr ⟨hdrift, fun heq hnone row hrow hdet => ?_⟩
      rcases hblessed ⟨hstable, hnone, heq⟩ row hrow hdet with ⟨i, r, hsub, hinput, _⟩
      exact ⟨i, r, (submitted_iff_reached hrun).1 hsub, hinput⟩
    · intro h
      rcases h.resolve_left hstable with ⟨hdrift, hskipped⟩
      refine ⟨hdrift, fun hblessed row hrow hdet => ?_⟩
      rcases hblessed with ⟨_, hnone, heq⟩
      rcases hskipped heq hnone row hrow hdet with ⟨i, r, hr, hinput⟩
      exact ⟨i, r, (submitted_iff_reached hrun).2 hr, hinput, hflaky i r hr (hnone i r hr)⟩

theorem confirmedBefore_zero {rows : List Row}
    (hnone : ∀ i row, Reached cfg dedupe rows i row → confirmDivergence row.rerun ≠ .confirmed)
    (i : Nat) : confirmedBefore cfg dedupe rows i = 0 := by
  induction i with
  | zero => rfl
  | succ i ih =>
    rw [confirmedBefore_succ, ih]
    cases hat : confirmsAt cfg dedupe rows i with
    | false => rfl
    | true =>
      unfold confirmsAt at hat
      cases hget : rows[i]? with
      | none => simp [hget] at hat
      | some r =>
        simp only [hget, Bool.and_eq_true, decide_eq_true_eq] at hat
        have hroom : confirmedBefore cfg dedupe rows i < maxConfirmations := by
          rw [ih]
          decide
        exact absurd hat.2 (hnone i r ⟨hget, hat.1, hroom⟩)

/-- Where inputs are not de-duplicated and nothing is confirmed, every divergence is submitted. -/
theorem reached_of_detected {rows : List Row}
    (hnone : ∀ i row, Reached cfg false rows i row → confirmDivergence row.rerun ≠ .confirmed)
    (hrow : rows[i]? = some row) (hdet : (row.detected cfg).isSome = true) :
    Reached cfg false rows i row := by
  refine ⟨hrow, ?_, ?_⟩
  · simp [firstOfKey, hdet]
  · rw [confirmedBefore_zero hnone i]
    decide

/-- Without de-duplication nothing that diverged is passed over. -/
theorem nothingSkipped_of_all (rows : List Row) : NothingSkipped cfg false rows := by
  intro _ hnone row hrow hdet
  rcases List.getElem_of_mem hrow with ⟨i, hi, hget⟩
  have hat : rows[i]? = some row := by
    rw [List.getElem?_eq_getElem hi, hget]
  exact ⟨i, row, reached_of_detected hnone hat hdet, rfl⟩

theorem zipRows_ok (rerun : Nat → Nat → Rerun) (inputs : List Literals) :
    ∀ (i : Nat) (base head : List Observation), base.length = inputs.length →
      head.length = inputs.length → ∃ rows, zipRows rerun i inputs base head = .ok rows := by
  induction inputs with
  | nil =>
    intro i base head hbase hhead
    obtain rfl := List.length_eq_zero_iff.1 hbase
    obtain rfl := List.length_eq_zero_iff.1 hhead
    exact ⟨[], rfl⟩
  | cons input inputs ih =>
    intro i base head hbase hhead
    rcases List.exists_cons_of_length_eq_add_one hbase with ⟨b, base, rfl⟩
    rcases List.exists_cons_of_length_eq_add_one hhead with ⟨h, head, rfl⟩
    rcases ih (i + 1) base head (by simpa using hbase) (by simpa using hhead) with ⟨rows, hrows⟩
    exact ⟨⟨input, b, h, rerun i⟩ :: rows, by simp [zipRows, hrows]⟩

/-- The rows `prove_target` goes over; none where it ends before the loop. -/
def PureLab.rows (lab : PureLab) (changedLines : Finset Nat) (budget : Budget)
    (cfg : CompareConfig) (inputs : Except SynthesisFailure (List Literals)) : List Row :=
  match inputs with
  | .error _ => []
  | .ok literals =>
    match pureRows lab changedLines budget cfg literals with
    | .error _ => []
    | .ok rows => rows

/-- The rows `prove_impure_target` goes over; none where it ends before the loop. -/
def ImpureLab.rows (lab : ImpureLab) (module qualname : PyStr) (cfg : CompareConfig)
    (inputs : Except SynthesisFailure (List Literals)) : List Row :=
  match inputs with
  | .error _ => []
  | .ok literals =>
    match impureRows module qualname lab cfg literals with
    | .ok (.inr rows) => rows
    | _ => []

theorem no_rows_reproduced (h : Reproduced cfg dedupe [] outcome) :
    Reproduced cfg dedupe [] outcome ↔
      BaseUnstable cfg dedupe [] ∨ (NoDrift cfg dedupe [] ∧ NothingSkipped cfg dedupe []) := by
  refine iff_of_true h (Or.inr ⟨?_, ?_⟩)
  · rintro i row d ⟨hrow, _⟩
    simp at hrow
  · intro _ _ row hrow
    cases hrow

/-- When the impure flow gets to the loop, and what it goes over there. -/
theorem impureRows_inr_iff {lab : ImpureLab} {literals : List Literals} {rows : List Row} :
    impureRows module qualname lab cfg literals = .ok (.inr rows) ↔
      firstUninterceptable (lab.record literals) = none ∧
        (∀ p ∈ literals.zip ((lab.record literals).zip
          (lab.replay literals (lab.record literals))), replayVerified cfg p.2.1 p.2.2 = true) ∧
        (lab.record literals).length = (lab.replay literals (lab.record literals)).length ∧
        firstUninterceptable (lab.replayHead literals (lab.record literals)) = none ∧
        zipRows (fun i => impureRerun cfg (lab.freshRecord i) (lab.freshReplay i)
          (lab.freshHead i)) 0 literals (lab.record literals)
          (lab.replayHead literals (lab.record literals)) = .ok rows := by
  unfold impureRows
  dsimp only
  cases hbase : firstUninterceptable (lab.record literals) with
  | some surface => simp
  | none =>
    cases hfind : (literals.zip ((lab.record literals).zip
        (lab.replay literals (lab.record literals)))).find? fun p =>
          !replayVerified cfg p.2.1 p.2.2 with
    | some p =>
      have hp : replayVerified cfg p.2.1 p.2.2 = false := by
        simpa using List.find?_some hfind
      have hmem := List.mem_of_find?_eq_some hfind
      refine iff_of_false (fun h => nomatch h) ?_
      rintro ⟨_, hall, _⟩
      simp [hall p hmem] at hp
    | none =>
      have hall : ∀ p ∈ literals.zip ((lab.record literals).zip
          (lab.replay literals (lab.record literals))),
          replayVerified cfg p.2.1 p.2.2 = true := by
        intro p hp
        simpa using List.find?_eq_none.1 hfind p hp
      by_cases hlength : (lab.record literals).length =
          (lab.replay literals (lab.record literals)).length
      · cases hhead : firstUninterceptable
            (lab.replayHead literals (lab.record literals)) with
        | some surface => simp [hlength]
        | none =>
          cases hzip : zipRows (fun i => impureRerun cfg (lab.freshRecord i)
              (lab.freshReplay i) (lab.freshHead i)) 0 literals (lab.record literals)
              (lab.replayHead literals (lab.record literals)) with
          | error e => simp [hlength]
          | ok rows' =>
            simp only [ne_eq, hlength, not_true_eq_false, if_false, Except.ok.injEq,
              Sum.inr.injEq, true_and]
            exact ⟨fun h => ⟨hall, h⟩, fun h => h.2⟩
      · simp [hlength]

/-- What `impureRows` ends with is an UNPROVEN without divergences. -/
theorem impureRows_inl {lab : ImpureLab} {literals : List Literals}
    (h : impureRows module qualname lab cfg literals = .ok (.inl outcome)) :
    ∃ code detail, outcome = unproven module qualname code detail := by
  unfold impureRows at h
  dsimp only at h
  split at h
  · exact ⟨_, _, (Sum.inl.inj (Except.ok.inj h)).symm⟩
  · split at h
    · exact ⟨_, _, (Sum.inl.inj (Except.ok.inj h)).symm⟩
    · split at h
      · cases h
      · split at h
        · exact ⟨_, _, (Sum.inl.inj (Except.ok.inj h)).symm⟩
        · split at h
          · cases h
          · cases h

/-- A completed call that returned `n`. -/
def returned (n : Int) : Observation where
  outcome := .completed
  returnPresent := true
  returnCanon := .int n
  raised := none

/-- Workers that return `base` and `head` on every batch, and `freshHead` on every fresh run. -/
def steadyLab (base head freshHead : Observation) : PureLab where
  runBase := fun _ inputs => inputs.map fun _ => base
  runHead := fun _ inputs => inputs.map fun _ => head
  freshBase := fun _ _ => base
  freshHead := fun _ _ => freshHead
  mutate := fun input _ => input

def oneInput : Except SynthesisFailure (List Literals) := .ok [(lit "(1,)", lit "{}")]

def steadyRow (base head freshHead : Observation) : Row where
  input := (lit "(1,)", lit "{}")
  base := base
  head := head
  rerun := pureRerun exact (fun _ => base) (fun _ => freshHead)

theorem steadyLab_rows (base head freshHead : Observation) :
    (steadyLab base head freshHead).rows ∅ {} exact oneInput = [steadyRow base head freshHead] := by
  simp [PureLab.rows, oneInput, pureRows, pureRuns, steadyLab, zipRows, steadyRow]

theorem compare_returned (m n : Int) :
    compare (returned m) (returned n) exact =
      if m = n then .equal else .diverged (returnsDiffer false) := by
  by_cases h : m = n
  · simp [compare, compareOutcomes, compareCompleted, compareExceptions, compareEffects,
      compareEffectsFrom, valuesEqual, returned, h]
  · simp [compare, compareOutcomes, compareCompleted, compareExceptions, valuesEqual, returned, h]

theorem confirm_steady {base freshHead : Observation} {d : Diverged}
    (hbase : compare base base exact = .equal) (hhead : compare freshHead freshHead exact = .equal)
    (hd : compare base freshHead exact = .diverged d) :
    confirmDivergence (pureRerun exact (fun _ => base) (fun _ => freshHead)) = .confirmed := by
  simp [confirmDivergence, confirmAttempts, List.range_succ, confirmFrom, pureRerun, hbase, hhead,
    hd]

theorem summary_returned {n : Int} (hshort : intTooLong n = false) :
    ∃ text, observationSummary (returned n) = .ok text := by
  have hlong : (Canon.int n).toJson.hasLongInt = false := by
    simpa [Canon.toJson, Json.hasLongInt] using hshort
  have hencodable : encodable (dumps (Canon.int n).toJson) = true := by
    simp [encodable_dumps, Canon.toJson, Json.encodable]
  refine ⟨lit "returned " ++ (dumps (Canon.int n).toJson).take 200, ?_⟩
  simp [observationSummary, returned, canonicalBytes, hlong, hencodable]

theorem conclude_confirmed {module qualname : PyStr} {changedLines : Finset Nat}
    {unstable : PyStr → PyStr} {row : Row} {d : Diverged} {base head : PyStr}
    (hd : compare row.base row.head cfg = .diverged d)
    (hconfirm : confirmDivergence row.rerun = .confirmed)
    (hbase : observationSummary row.base = .ok base)
    (hhead : observationSummary row.head = .ok head) :
    ∃ outcome, conclude module qualname changedLines cfg dedupe unstable [row] = .ok outcome ∧
      outcome.divergences = [found row d base head] := by
  have hsubmission : submission cfg dedupe row {} = some d := by
    simp [submission, hd, maxConfirmations]
  have hturn : proveRow cfg dedupe row {} =
      .ok ({ seenClasses := [(row.input.1, d.divergenceClass)]
             confirmed := [found row d base head] }, false) := by
    simp only [proveRow, hd, hsubmission, hconfirm, hbase, hhead]
    rfl
  have hrun : proveLoop cfg dedupe [row] {} =
      .ok ({ seenClasses := [(row.input.1, d.divergenceClass)]
             confirmed := [found row d base head] }, none) := by
    simp only [proveLoop, hturn]
  unfold conclude
  simp only [hrun]
  exact ⟨_, rfl, deriveOutcome_divergences _ _ _ _ _⟩

/-- A target that returned 1 on base and 2 on head in the batch is reported with that difference
as soon as the fresh runs confirm any. -/
theorem proveTarget_steady {freshHead : Observation}
    (hconfirm : confirmDivergence (steadyRow (returned 1) (returned 2) freshHead).rerun =
      .confirmed) :
    ∃ outcome f, proveTarget (lit "m") (lit "f") (steadyLab (returned 1) (returned 2) freshHead) ∅
        {} exact oneInput = .ok outcome ∧ f ∈ outcome.divergences ∧
      f.divergenceClass = .returnValue := by
  have hrows : pureRows (steadyLab (returned 1) (returned 2) freshHead) ∅ {} exact
      [(lit "(1,)", lit "{}")] = .ok [steadyRow (returned 1) (returned 2) freshHead] := by
    simp [pureRows, pureRuns, steadyLab, zipRows, steadyRow]
  have hdiverged : compare (returned 1) (returned 2) exact = .diverged (returnsDiffer false) :=
    compare_returned 1 2
  rcases summary_returned (n := 1) (by simp [intTooLong, maxStrDigits]) with ⟨base, hbase⟩
  rcases summary_returned (n := 2) (by simp [intTooLong, maxStrDigits]) with ⟨head, hhead⟩
  rcases @conclude_confirmed exact true (lit "m") (lit "f") ∅ unstablePure
    (steadyRow (returned 1) (returned 2) freshHead) _ base head hdiverged hconfirm hbase hhead with
    ⟨outcome, hconclude, hreports⟩
  refine ⟨outcome, found (steadyRow (returned 1) (returned 2) freshHead) (returnsDiffer false) base
    head, ?_, ?_, rfl⟩
  · simp only [proveTarget, oneInput, hrows]
    exact hconclude
  · simp [hreports]

end Tempest
