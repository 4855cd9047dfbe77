import Tempest.Execute.Reproduced
import Tempest.Minimize.Ddmin
import Tempest.Prove.Scripts

/-!
# Minimized — whether the minimized input of a record is evidence for it

A `Regime` is a way to run a target on both revisions: plainly, or recorded on base and replayed on
head.  The shrinker always reruns plainly and keeps the class of its own first rerun.  For pure
targets that is the regime of the detection; for impure ones `minimized_is_evidence` says what the
two regimes have to agree on.
-/

namespace Tempest

open Python

/-! ## Deterministic targets -/

/-- What base and head show for given arguments and keyword arguments. -/
structure Regime where
  base : List PyVal → List (PyVal × PyVal) → Observation
  head : List PyVal → List (PyVal × PyVal) → Observation

def observeLiterals (b : Builtins) (side : List PyVal → List (PyVal × PyVal) → Observation)
    (l : Literals) : Observation :=
  match b.unpack l with
  | none => crashedObservation 1
  | some input => side input.1 input.2

def Regime.rerun (regime : Regime) (b : Builtins) (cfg : CompareConfig) (l : Literals) :
    Option Diverged :=
  match compare (observeLiterals b regime.base l) (observeLiterals b regime.head l) cfg with
  | .diverged d => some d
  | _ => none

def Regime.Diverges (regime : Regime) (b : Builtins) (cfg : CompareConfig) (l : Literals)
    (c : DivergenceClass) : Prop :=
  (regime.rerun b cfg l).map Diverged.divergenceClass = some c

structure PureLab.Shows (lab : PureLab) (b : Builtins) (regime : Regime) : Prop where
  base : ∀ k ls, lab.runBase k ls = ls.map (observeLiterals b regime.base)
  head : ∀ k ls, lab.runHead k ls = ls.map (observeLiterals b regime.head)

structure ImpureLab.Shows (lab : ImpureLab) (b : Builtins) (regime : Regime) : Prop where
  record : ∀ ls, lab.record ls = ls.map (observeLiterals b regime.base)
  replayHead : ∀ ls, lab.replayHead ls (lab.record ls) = ls.map (observeLiterals b regime.head)

/-- The `repr` of unpacked values is not empty and reads back as these values. -/
structure Builtins.Lawful (b : Builtins) : Prop where
  reads : ∀ l input, b.unpack l = some input →
    b.unpack (b.repr (.tuple input.1), b.repr (.dict input.2)) = some input
  nonempty : ∀ value, b.repr value ≠ []

/-! ## What was detected -/

section Detection

variable {b : Builtins} {cfg : CompareConfig} {regime : Regime}

theorem mem_zipRows_map {rerun : Nat → Nat → Rerun} {f g : Literals → Observation}
    {ls : List Literals} {i : Nat} {rows : List Row}
    (h : zipRows rerun i ls (ls.map f) (ls.map g) = .ok rows) {row : Row} (hrow : row ∈ rows) :
    row.base = f row.input ∧ row.head = g row.input := by
  induction ls generalizing i rows with
  | nil =>
    cases h
    cases hrow
  | cons l ls ih =>
    simp only [List.map_cons, zipRows] at h
    cases hrest : zipRows rerun (i + 1) ls (ls.map f) (ls.map g) with
    | error e => simp [hrest] at h
    | ok rest =>
      simp only [hrest, Except.ok.injEq] at h
      subst h
      rcases List.mem_cons.1 hrow with rfl | hlater
      · exact ⟨rfl, rfl⟩
      · exact ih hrest hlater

variable {module qualname : PyStr} {changedLines : Finset Nat} {outcome : TargetOutcome}

/-- A reported divergence shows under the regime of its rows. -/
theorem diverges_of_conclude {dedupe : Bool} {unstable : PyStr → PyStr} {rows : List Row}
    (hrows : ∀ row ∈ rows, row.base = observeLiterals b regime.base row.input ∧
      row.head = observeLiterals b regime.head row.input)
    (h : conclude module qualname changedLines cfg dedupe unstable rows = .ok outcome)
    {f : FoundDivergence} (hf : f ∈ outcome.divergences) :
    regime.Diverges b cfg (f.argsLiteral, f.kwargsLiteral) f.divergenceClass := by
  rcases conclude_cases h with ⟨_, args, rfl⟩ | ⟨_, s, _, hinv, rfl⟩
  · cases hf
  · rw [deriveOutcome_divergences] at hf
    rcases hinv.sound f hf with ⟨i, row, d, _, hreached, hdet, _, hinput, hclass⟩
    have hrow := hrows row (List.mem_of_getElem? hreached.1)
    have hrerun : regime.rerun b cfg row.input = some d := by
      rw [← hdet, Row.detected, hrow.1, hrow.2]
      rfl
    rw [Regime.Diverges, ← hinput, hrerun, hclass]
    rfl

theorem diverges_of_proveTarget {lab : PureLab} {budget : Budget}
    {inputs : Except SynthesisFailure (List Literals)} (hlab : lab.Shows b regime)
    (h : proveTarget module qualname lab changedLines budget cfg inputs = .ok outcome)
    {f : FoundDivergence} (hf : f ∈ outcome.divergences) :
    regime.Diverges b cfg (f.argsLiteral, f.kwargsLiteral) f.divergenceClass := by
  unfold proveTarget at h
  cases inputs with
  | error failure =>
    rw [← Except.ok.inj h] at hf
    cases hf
  | ok ls =>
    cases hrows : pureRows lab changedLines budget cfg ls with
    | error e => simp [hrows] at h
    | ok rows =>
      simp only [hrows] at h
      refine diverges_of_conclude ?_ h hf
      intro row hrow
      -- the top-up round extends both batches alike
      unfold pureRows pureRuns at hrows
      simp only [hlab.base, hlab.head, ← List.map_append] at hrows
      split_ifs at hrows <;> exact mem_zipRows_map hrows hrow

theorem diverges_of_proveImpureTarget {lab : ImpureLab}
    {inputs : Except SynthesisFailure (List Literals)} (hlab : lab.Shows b regime)
    (h : proveImpureTarget module qualname lab changedLines cfg inputs = .ok outcome)
    {f : FoundDivergence} (hf : f ∈ outcome.divergences) :
    regime.Diverges b cfg (f.argsLiteral, f.kwargsLiteral) f.divergenceClass := by
  unfold proveImpureTarget at h
  cases inputs with
  | error failure =>
    rw [← Except.ok.inj h] at hf
    cases hf
  | ok ls =>
    cases hresult : impureRows module qualname lab cfg ls with
    | error e => simp [hresult] at h
    | ok result =>
      cases result with
      | inl early =>
        simp only [hresult, Except.ok.injEq] at h
        subst h
        rcases impureRows_inl hresult with ⟨code, detail, rfl⟩
        cases hf
      | inr rows =>
        simp only [hresult] at h
        refine diverges_of_conclude ?_ h hf
        intro row hrow
        have hzip := (impureRows_inr_iff.1 hresult).2.2.2.2
        rw [hlab.replayHead, hlab.record] at hzip
        exact mem_zipRows_map hzip hrow

theorem unpack_of_rerun {l : Literals} {d : Diverged} (h : regime.rerun b cfg l = some d) :
    ∃ input, b.unpack l = some input := by
  cases hunpack : b.unpack l with
  | some input => exact ⟨input, rfl⟩
  | none =>
    have hcrash : compare (crashedObservation 1) (crashedObservation 1) cfg = .equal := by
      simp [compare, compareOutcomes, crashedObservation]
    simp [Regime.rerun, observeLiterals, hunpack, hcrash] at h

theorem rerun_congr {l l' : Literals} (h : b.unpack l = b.unpack l') :
    regime.rerun b cfg l = regime.rerun b cfg l' := by
  simp [Regime.rerun, observeLiterals, h]

end Detection

/-! ## The records of a target -/

def Exhibit.key (e : Exhibit) : DivergenceClass × PyStr × PyStr :=
  (e.record.divergenceClass, e.record.minimizedArgs.getD [], e.record.minimizedKwargs.getD [])

/-- The exhibits are about the same evidence as the divergences before de-duplication. -/
theorem forall_exhibits_iff {t : PyTarget} {ctx : RunContext} {shrink : FoundDivergence → Minimized}
    {P : DivergenceClass × PyStr × PyStr → Prop} {ds : List FoundDivergence} {k : Nat}
    {seen : List (DivergenceClass × PyStr × PyStr)} (hseen : ∀ key ∈ seen, P key) :
    (∀ e ∈ t.exhibits ctx (fun _ => shrink) k ds seen, P e.key) ↔
      ∀ d ∈ ds, P (dedupeKey d (shrink d)) := by
  induction ds generalizing k seen with
  | nil => simp [PyTarget.exhibits]
  | cons d ds ih =>
    rw [List.forall_mem_cons]
    by_cases hmem : dedupeKey d (shrink d) ∈ seen
    · simp only [PyTarget.exhibits, hmem, if_true]
      rw [ih hseen, and_iff_right (hseen _ hmem)]
    · simp only [PyTarget.exhibits, hmem, if_false]
      rw [List.forall_mem_cons]
      have hkey : (t.exhibit ctx k d (shrink d)).key = dedupeKey d (shrink d) := rfl
      rw [hkey]
      apply and_congr_right
      intro hP
      apply ih
      intro key hin
      rcases List.mem_cons.1 hin with rfl | hold
      · exact hP
      · exact hseen key hold

def Regime.Evidence (regime : Regime) (b : Builtins) (cfg : CompareConfig) (d : DivergenceRecord) :
    Prop :=
  ∃ args kwargs, d.minimizedArgs = some args ∧ d.minimizedKwargs = some kwargs ∧
    regime.Diverges b cfg (args, kwargs) d.divergenceClass

def shrunk (b : Builtins) (cfg : CompareConfig) (plain : Regime) (maxAttempts : Nat)
    (f : FoundDivergence) : Literals :=
  let m := b.minimize (plain.rerun b cfg) maxAttempts f
  (orText m.minimizedArgs f.argsLiteral, orText m.minimizedKwargs f.kwargsLiteral)

def minimizedRecords (b : Builtins) (cfg : CompareConfig) (plain : Regime) (maxAttempts : Nat)
    (ctx : RunContext) (t : PyTarget) (outcome : TargetOutcome) (scripts : Dict PyStr PyStr) :
    List DivergenceRecord :=
  (finishedRecord ctx t outcome (fun _ => b.minimize (plain.rerun b cfg) maxAttempts)
    scripts).1.divergences

theorem evidence_iff {b : Builtins} {cfg : CompareConfig} {plain regime : Regime}
    {maxAttempts : Nat} {ctx : RunContext} {t : PyTarget} {outcome : TargetOutcome}
    {scripts : Dict PyStr PyStr} :
    (∀ d ∈ minimizedRecords b cfg plain maxAttempts ctx t outcome scripts,
        regime.Evidence b cfg d) ↔
      ∀ f ∈ outcome.divergences,
        regime.Diverges b cfg (shrunk b cfg plain maxAttempts f) f.divergenceClass := by
  have hkeys : (∀ e ∈ t.exhibits ctx (fun _ => b.minimize (plain.rerun b cfg) maxAttempts) 0
      outcome.divergences [], regime.Diverges b cfg e.key.2 e.key.1) ↔
        ∀ f ∈ outcome.divergences,
          regime.Diverges b cfg (shrunk b cfg plain maxAttempts f) f.divergenceClass :=
    @forall_exhibits_iff t ctx (b.minimize (plain.rerun b cfg) maxAttempts)
      (fun key => regime.Diverges b cfg key.2 key.1) outcome.divergences 0 [] (by simp)
  rw [← hkeys]
  have hrecords : minimizedRecords b cfg plain maxAttempts ctx t outcome scripts =
      (t.exhibits ctx (fun _ => b.minimize (plain.rerun b cfg) maxAttempts) 0
        outcome.divergences []).map Exhibit.record := rfl
  rw [hrecords, List.forall_mem_map]
  apply forall₂_congr
  intro e he
  rcases mem_pyExhibits he with ⟨i, d, m, _, rfl⟩
  constructor
  · rintro ⟨args, kwargs, hargs, hkwargs, hdiverges⟩
    cases hargs
    cases hkwargs
    exact hdiverges
  · exact fun hdiverges => ⟨_, _, rfl, rfl, hdiverges⟩

/-! ## Where the shrinker ends -/

section Shrunk

variable {b : Builtins} {cfg : CompareConfig} {plain : Regime}

def ShrinkTrail (b : Builtins) (cfg : CompareConfig) (plain : Regime) (first : Diverged)
    (input : List PyVal × List (PyVal × PyVal)) : Builtins.Point → Prop :=
  Greedy.Trail b.candidates b.sameLiterals (b.diverges (plain.rerun b cfg) first.divergenceClass)
    ⟨input.1, input.2, []⟩

theorem orText_of_ne_nil {a b : PyStr} (h : a ≠ []) : orText a b = a := if_neg h

theorem orText_self (a : PyStr) : orText a a = a := by
  unfold orText
  split_ifs <;> rfl

variable {f : FoundDivergence}

theorem shrunk_of_none {maxAttempts : Nat}
    (h : plain.rerun b cfg (f.argsLiteral, f.kwargsLiteral) = none) :
    shrunk b cfg plain maxAttempts f = (f.argsLiteral, f.kwargsLiteral) := by
  have hmin : b.minimize (plain.rerun b cfg) maxAttempts f = ⟨f.argsLiteral, f.kwargsLiteral, []⟩ := by
    simp [Builtins.minimize, Builtins.minimizeInput, h]
  simp only [shrunk, hmin, orText_self]

/-- Where the search of `f` ends under a budget. -/
def lastPoint (b : Builtins) (cfg : CompareConfig) (plain : Regime) (maxAttempts : Nat)
    (first : Diverged) (input : List PyVal × List (PyVal × PyVal)) : Builtins.Point :=
  (Greedy.descend b.candidates b.sameLiterals
    (b.diverges (plain.rerun b cfg) first.divergenceClass) maxAttempts maxAttempts
    ⟨input.1, input.2, []⟩ 1).1

theorem shrunk_of_some (hb : b.Lawful) {maxAttempts : Nat} {first : Diverged}
    {input : List PyVal × List (PyVal × PyVal)}
    (hfirst : plain.rerun b cfg (f.argsLiteral, f.kwargsLiteral) = some first)
    (hinput : b.unpack (f.argsLiteral, f.kwargsLiteral) = some input) :
    shrunk b cfg plain maxAttempts f =
      b.literals (lastPoint b cfg plain maxAttempts first input) := by
  have hmin : b.minimize (plain.rerun b cfg) maxAttempts f =
      ⟨(b.literals (lastPoint b cfg plain maxAttempts first input)).1,
        (b.literals (lastPoint b cfg plain maxAttempts first input)).2,
        (lastPoint b cfg plain maxAttempts first input).path⟩ := by
    simp [Builtins.minimize, Builtins.minimizeInput, hfirst, hinput, lastPoint]
  have hargs : (b.literals (lastPoint b cfg plain maxAttempts first input)).1 ≠ [] :=
    hb.nonempty _
  have hkwargs : (b.literals (lastPoint b cfg plain maxAttempts first input)).2 ≠ [] :=
    hb.nonempty _
  simp only [shrunk, hmin, orText_of_ne_nil hargs, orText_of_ne_nil hkwargs]

/-- Every accepted point was rerun in the class of the first rerun; the first one stands for the
found input. -/
theorem diverges_of_trail (hb : b.Lawful) {l : Literals} {first : Diverged}
    {input : List PyVal × List (PyVal × PyVal)} (hfirst : plain.rerun b cfg l = some first)
    (hinput : b.unpack l = some input) {p : Builtins.Point}
    (hp : ShrinkTrail b cfg plain first input p) :
    plain.Diverges b cfg (b.literals p) first.divergenceClass := by
  cases hp with
  | refl =>
    have hsame : plain.rerun b cfg (b.literals ⟨input.1, input.2, []⟩) = some first := by
      rw [← hfirst]
      exact rerun_congr ((hb.reads l input hinput).trans hinput.symm)
    rw [Regime.Diverges, hsame]
    rfl
  | tail _ haccepted =>
    have hkept := List.find?_some haccepted
    simp only [Bool.and_eq_true, Builtins.diverges, decide_eq_true_eq] at hkept
    exact hkept.2

/-- Rerun in the regime of its detection, every shrunk input keeps the class of its divergence. -/
theorem shrunk_diverges (hb : b.Lawful) {maxAttempts : Nat}
    (hf : plain.Diverges b cfg (f.argsLiteral, f.kwargsLiteral) f.divergenceClass) :
    plain.Diverges b cfg (shrunk b cfg plain maxAttempts f) f.divergenceClass := by
  cases hfirst : plain.rerun b cfg (f.argsLiteral, f.kwargsLiteral) with
  | none => rwa [shrunk_of_none hfirst]
  | some first =>
    rcases unpack_of_rerun hfirst with ⟨input, hinput⟩
    have hclass : first.divergenceClass = f.divergenceClass := by
      rw [Regime.Diverges, hfirst] at hf
      exact Option.some.inj hf
    rw [shrunk_of_some hb hfirst hinput, ← hclass]
    apply diverges_of_trail hb hfirst hinput
    exact Greedy.descend_trail Relation.ReflTransGen.refl

/-- Whatever the shrinker accepts for the found input diverges in the record's class when it is
recorded on base and replayed on head. -/
def KeepsClass (b : Builtins) (cfg : CompareConfig) (plain recorded : Regime)
    (f : FoundDivergence) : Prop :=
  ∀ first input, plain.rerun b cfg (f.argsLiteral, f.kwargsLiteral) = some first →
    b.unpack (f.argsLiteral, f.kwargsLiteral) = some input →
      ∀ p, ShrinkTrail b cfg plain first input p →
        recorded.Diverges b cfg (b.literals p) f.divergenceClass

theorem shrunk_keeps_iff (hb : b.Lawful) {recorded : Regime}
    (hf : recorded.Diverges b cfg (f.argsLiteral, f.kwargsLiteral) f.divergenceClass) :
    (∀ maxAttempts, recorded.Diverges b cfg (shrunk b cfg plain maxAttempts f)
        f.divergenceClass) ↔ KeepsClass b cfg plain recorded f := by
  constructor
  · intro hall first input hfirst hinput p hp
    -- some budget ends the search at this very point
    rcases Greedy.exists_budget hp 1 with ⟨maxAttempts, hlast⟩
    have hshrunk := hall maxAttempts
    rw [shrunk_of_some hb hfirst hinput] at hshrunk
    have hpoint : lastPoint b cfg plain maxAttempts first input = p := hlast
    rwa [hpoint] at hshrunk
  · intro hkeeps maxAttempts
    cases hfirst : plain.rerun b cfg (f.argsLiteral, f.kwargsLiteral) with
    | none => rwa [shrunk_of_none hfirst]
    | some first =>
      rcases unpack_of_rerun hfirst with ⟨input, hinput⟩
      rw [shrunk_of_some hb hfirst hinput]
      apply hkeeps first input hfirst hinput
      exact Greedy.descend_trail Relation.ReflTransGen.refl

end Shrunk

/-! ## Records and their evidence -/

/-- The minimized input of a record of a pure target always diverges in the record's class.  For an
impure target it does, whatever the number of attempts, exactly when everything the shrinker accepts
does. -/
theorem minimized_is_evidence {b : Builtins} (hb : b.Lawful) (cfg : CompareConfig)
    (plain recorded : Regime) (ctx : RunContext) (t : PyTarget) (scripts : Dict PyStr PyStr) :
    (∀ module qualname lab changedLines budget inputs outcome, lab.Shows b plain →
      proveTarget module qualname lab changedLines budget cfg inputs = .ok outcome →
        ∀ maxAttempts, ∀ d ∈ minimizedRecords b cfg plain maxAttempts ctx t outcome scripts,
          plain.Evidence b cfg d) ∧
      ∀ module qualname lab changedLines inputs outcome, lab.Shows b recorded →
        proveImpureTarget module qualname lab changedLines cfg inputs = .ok outcome →
          ((∀ maxAttempts, ∀ d ∈ minimizedRecords b cfg plain maxAttempts ctx t outcome scripts,
              recorded.Evidence b cfg d) ↔
            ∀ f ∈ outcome.divergences, KeepsClass b cfg plain recorded f) := by
  constructor
  · intro module qualname lab changedLines budget inputs outcome hlab hprove maxAttempts
    apply evidence_iff.2
    intro f hf
    exact shrunk_diverges hb (diverges_of_proveTarget hlab hprove hf)
  · intro module qualname lab changedLines inputs outcome hlab hprove
    have hdetected : ∀ f ∈ outcome.divergences,
        recorded.Diverges b cfg (f.argsLiteral, f.kwargsLiteral) f.divergenceClass :=
      fun f hf => diverges_of_proveImpureTarget hlab hprove hf
    simp only [evidence_iff]
    constructor
    · intro hall f hf
      exact (shrunk_keeps_iff hb (hdetected f hf)).1 fun maxAttempts => hall maxAttempts f hf
    · intro hkeeps maxAttempts f hf
      exact (shrunk_keeps_iff hb (hdetected f hf)).2 (hkeeps f hf) maxAttempts

/-! ## A target that looks at its working directory -/

/-- `repr` and the parser on the inputs met here. -/
def fewBuiltins : Builtins where
  repr := fun
    | .tuple [.int n] => lit "(" ++ intText n ++ lit ",)"
    | .dict [] => lit "{}"
    | _ => lit "?"
  parse := fun text =>
    if text = lit "(0,)" then some (.tuple [.int 0])
    else if text = lit "(1,)" then some (.tuple [.int 1])
    else if text = lit "{}" then some (.dict [])
    else none
  eq := fun _ _ => false
  halve := id
  rounded := id

/-- `return len(os.getcwd())` on base, `return len(os.getcwd()) + n` on head: the worktrees have
paths of 10 and of 20 characters, and a replay answers with the recorded one. -/
def cwdPlain : Regime where
  base := fun _ _ => returned 10
  head := fun args _ =>
    match args with
    | [.int n] => returned (20 + n)
    | _ => returned 20

def cwdRecorded : Regime where
  base := fun _ _ => returned 10
  head := fun args _ =>
    match args with
    | [.int n] => returned (10 + n)
    | _ => returned 10

def cwdLab : ImpureLab where
  record := fun ls => ls.map (observeLiterals fewBuiltins cwdRecorded.base)
  replay := fun ls _ => ls.map (observeLiterals fewBuiltins cwdRecorded.base)
  replayHead := fun ls _ => ls.map (observeLiterals fewBuiltins cwdRecorded.head)
  freshRecord := fun _ _ => returned 10
  freshReplay := fun _ _ => returned 10
  freshHead := fun _ _ => returned 11

theorem rerun_returned {regime : Regime} {l : Literals} {input : List PyVal × List (PyVal × PyVal)}
    {m n : Int} (hinput : fewBuiltins.unpack l = some input)
    (hbase : regime.base input.1 input.2 = returned m)
    (hhead : regime.head input.1 input.2 = returned n) :
    regime.rerun fewBuiltins exact l = if m = n then none else some (returnsDiffer false) := by
  simp only [Regime.rerun, observeLiterals, hinput, hbase, hhead, compare_returned]
  split_ifs <;> rfl

def cwdFound : Builtins.Point := ⟨[.int 1], [], []⟩

def cwdZero : Builtins.Point := ⟨[.int 0], [], [lit "args[0]: 1→0"]⟩

theorem cwd_unpack_found : fewBuiltins.unpack (fewBuiltins.literals cwdFound) = some ([.int 1], []) := by
  rfl

theorem cwd_unpack_zero : fewBuiltins.unpack (fewBuiltins.literals cwdZero) = some ([.int 0], []) := by
  rfl

theorem cwdPlain_zero :
    cwdPlain.rerun fewBuiltins exact (fewBuiltins.literals cwdZero) = some (returnsDiffer false) :=
  rerun_returned (m := 10) (n := 20) cwd_unpack_zero rfl rfl

theorem cwdRecorded_zero :
    cwdRecorded.rerun fewBuiltins exact (fewBuiltins.literals cwdZero) = none :=
  rerun_returned (m := 10) (n := 10) cwd_unpack_zero rfl rfl

/-- One attempt takes the search to 0, where it ends. -/
theorem cwd_lastPoint (more : Nat) :
    lastPoint fewBuiltins exact cwdPlain (more + 2) (returnsDiffer false) ([.int 1], []) = cwdZero := by
  have hfirst : fewBuiltins.candidates cwdFound = [cwdZero, cwdZero] := rfl
  have hnext : fewBuiltins.candidates cwdZero = [] := rfl
  have hskip : fewBuiltins.sameLiterals cwdFound cwdZero = false := rfl
  have haccept : fewBuiltins.diverges (cwdPlain.rerun fewBuiltins exact)
      (returnsDiffer false).divergenceClass cwdZero = true := by
    simp [Builtins.diverges, cwdPlain_zero]
  have hstart : (⟨[.int 1], [], []⟩ : Builtins.Point) = cwdFound := rfl
  simp [lastPoint, hstart, Greedy.descend, Greedy.scan, hfirst, hnext, hskip, haccept]

theorem parse_few {text : PyStr} {value : PyVal} (h : fewBuiltins.parse text = some value) :
    value = .tuple [.int 0] ∨ value = .tuple [.int 1] ∨ value = .dict [] := by
  simp only [fewBuiltins] at h
  split_ifs at h
  · exact Or.inl (Option.some.inj h).symm
  · exact Or.inr (Or.inl (Option.some.inj h).symm)
  · exact Or.inr (Or.inr (Option.some.inj h).symm)

theorem fewBuiltins_lawful : fewBuiltins.Lawful where
  reads := by
    intro l input hinput
    have hfew : input = ([.int 0], []) ∨ input = ([.int 1], []) := by
      unfold Builtins.unpack at hinput
      cases hargs : fewBuiltins.parse l.1 with
      | none => simp [hargs] at hinput
      | some args =>
        cases hkwargs : fewBuiltins.parse l.2 with
        | none => rcases parse_few hargs with rfl | rfl | rfl <;> simp [hargs, hkwargs] at hinput
        | some kwargs =>
          rcases parse_few hargs with rfl | rfl | rfl <;>
            rcases parse_few hkwargs with rfl | rfl | rfl <;>
              simp [hargs, hkwargs, eq_comm] at hinput <;> simp [hinput]
    rcases hfew with rfl | rfl
    · rfl
    · rfl
  nonempty := by
    intro value
    simp only [fewBuiltins]
    split <;> simp [lit]

/-- The one row of the target, with the fresh runs given. -/
def cwdRow (rerun : Nat → Rerun) : Row :=
  ⟨(lit "(1,)", lit "{}"), returned 10, returned 11, rerun⟩

theorem cwd_concluded {dedupe : Bool} {unstable : PyStr → PyStr} {rerun : Nat → Rerun}
    (hconfirm : confirmDivergence rerun = .confirmed) :
    ∃ outcome base head, conclude (lit "m") (lit "f") ∅ exact dedupe unstable [cwdRow rerun] =
        .ok outcome ∧
      outcome.divergences = [found (cwdRow rerun) (returnsDiffer false) base head] := by
  rcases summary_returned (n := 10) (by simp [intTooLong, maxStrDigits]) with ⟨base, hbase⟩
  rcases summary_returned (n := 11) (by simp [intTooLong, maxStrDigits]) with ⟨head, hhead⟩
  rcases @conclude_confirmed exact dedupe (lit "m") (lit "f") ∅ unstable (cwdRow rerun) _ base head
    (compare_returned 10 11) hconfirm hbase hhead with ⟨outcome, hconclude, hreports⟩
  exact ⟨outcome, base, head, hconclude, hreports⟩

theorem cwd_outcome : ∃ outcome rerun base head,
    proveImpureTarget (lit "m") (lit "f") cwdLab ∅ exact oneInput = .ok outcome ∧
      outcome.divergences = [found (cwdRow rerun) (returnsDiffer false) base head] := by
  have hsame : compare (returned 10) (returned 10) exact = .equal := compare_returned 10 10
  have hdiffer : compare (returned 10) (returned 11) exact = .diverged (returnsDiffer false) :=
    compare_returned 10 11
  have hrows : impureRows (lit "m") (lit "f") cwdLab exact [(lit "(1,)", lit "{}")] =
      .ok (.inr [cwdRow (impureRerun exact (fun _ => returned 10) (fun _ => returned 10)
        (fun _ => returned 11))]) := by
    apply impureRows_inr_iff.2
    refine ⟨rfl, ?_, rfl, rfl, rfl⟩
    intro p hp
    obtain rfl := List.mem_singleton.1 hp
    change replayVerified exact (returned 10) (returned 10) = true
    simp [replayVerified, hsame]
  have hconfirm : confirmDivergence (impureRerun exact (fun _ => returned 10)
      (fun _ => returned 10) (fun _ => returned 11)) = .confirmed := by
    simp [confirmDivergence, confirmAttempts, List.range_succ, confirmFrom, impureRerun, hsame,
      hdiffer]
  rcases @cwd_concluded false unstableImpure _ hconfirm with ⟨outcome, base, head, hconclude, hreports⟩
  refine ⟨outcome, _, base, head, ?_, hreports⟩
  simp only [proveImpureTarget, oneInput, hrows]
  exact hconclude

def cwdTarget : PyTarget := { filePath := lit "m.py", module := lit "m", symbol := lit "f" }

def cwdPureLab : PureLab where
  runBase := fun _ ls => ls.map (observeLiterals fewBuiltins cwdRecorded.base)
  runHead := fun _ ls => ls.map (observeLiterals fewBuiltins cwdRecorded.head)
  freshBase := fun _ _ => returned 10
  freshHead := fun _ _ => returned 11
  mutate := fun l _ => l

theorem cwdPure_outcome : ∃ outcome,
    proveTarget (lit "m") (lit "f") cwdPureLab ∅ {} exact oneInput = .ok outcome := by
  have hrows : pureRows cwdPureLab ∅ {} exact [(lit "(1,)", lit "{}")] =
      .ok [cwdRow (pureRerun exact (fun _ => returned 10) (fun _ => returned 11))] := by
    rfl
  have hconfirm := confirm_steady (compare_returned 10 10) (compare_returned 11 11)
    (compare_returned 10 11)
  rcases @cwd_concluded true unstablePure _ hconfirm with ⟨outcome, _, _, hconclude, _⟩
  refine ⟨outcome, ?_⟩
  simp only [proveTarget, oneInput, hrows]
  exact hconclude

theorem minimized_is_evidence_at :
    (∃ outcome, proveTarget (lit "m") (lit "f") cwdPureLab ∅ {} exact oneInput = .ok outcome ∧
        ∀ maxAttempts, ∀ d ∈ minimizedRecords fewBuiltins exact cwdRecorded maxAttempts
          plainContext cwdTarget outcome .empty, cwdRecorded.Evidence fewBuiltins exact d) ∧
      ∃ outcome, proveImpureTarget (lit "m") (lit "f") cwdLab ∅ exact oneInput = .ok outcome ∧
        ((∀ maxAttempts, ∀ d ∈ minimizedRecords fewBuiltins exact cwdPlain maxAttempts
            plainContext cwdTarget outcome .empty, cwdRecorded.Evidence fewBuiltins exact d) ↔
          ∀ f ∈ outcome.divergences, KeepsClass fewBuiltins exact cwdPlain cwdRecorded f) := by
  constructor
  · rcases cwdPure_outcome with ⟨outcome, hprove⟩
    have hevidence := (minimized_is_evidence fewBuiltins_lawful exact cwdRecorded cwdRecorded
      plainContext cwdTarget .empty).1
    exact ⟨outcome, hprove, hevidence _ _ _ _ _ _ outcome ⟨fun _ _ => rfl, fun _ _ => rfl⟩ hprove⟩
  · rcases cwd_outcome with ⟨outcome, _, _, _, hprove, _⟩
    have hevidence := (minimized_is_evidence fewBuiltins_lawful exact cwdPlain cwdRecorded
      plainContext cwdTarget .empty).2
    exact ⟨outcome, hprove, hevidence _ _ _ _ _ outcome ⟨fun _ => rfl, fun _ => rfl⟩ hprove⟩

/-- The difference found on 1 is shrunk to 0, where the worktrees still differ but nothing diverges
under record and replay. -/
theorem minimized_to_no_evidence : ∃ outcome,
    proveImpureTarget (lit "m") (lit "f") cwdLab ∅ exact oneInput = .ok outcome ∧
      ∃ d ∈ minimizedRecords fewBuiltins exact cwdPlain 200 plainContext cwdTarget outcome .empty,
        ¬ cwdRecorded.Evidence fewBuiltins exact d := by
  rcases cwd_outcome with ⟨outcome, rerun, base, head, hprove, hreports⟩
  refine ⟨outcome, hprove, ?_⟩
  have hfirst : cwdPlain.rerun fewBuiltins exact (lit "(1,)", lit "{}") =
      some (returnsDiffer false) := rerun_returned (m := 10) (n := 21) cwd_unpack_found rfl rfl
  by_contra hall
  push Not at hall
  have hshrunk := evidence_iff.1 hall (found (cwdRow rerun) (returnsDiffer false) base head)
    (by simp [hreports])
  rw [shrunk_of_some fewBuiltins_lawful hfirst cwd_unpack_found] at hshrunk
  have hlast := cwd_lastPoint 198
  simp only [Nat.reduceAdd] at hlast
  rw [hlast, Regime.Diverges, cwdRecorded_zero] at hshrunk
  cases hshrunk

end Tempest
