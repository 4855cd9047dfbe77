import Tempest.Execute.Runner

/-!
# Dual — base against head, one target (`execute/dual.py`)

Every input is run on both revisions and compared.  A candidate divergence is re-run three times
in fresh process pairs before it is reported; what could not be compared is tallied, so that a
target with nothing comparable is UNPROVEN with a reason.

`proveTarget` (pure) and `proveImpureTarget` (record on base, replay on both) differ in where the
observations come from, in how a fresh run is made and in the de-duplication of inputs; the loop
over the inputs and the verdict are shared.
-/

namespace Tempest

open Python

/-! ## Inputs -/

/-- The literal of the positional arguments and the literal of the keyword arguments. -/
abbrev Literals := PyStr × PyStr

structure Budget where
  maxInputs : Nat := 300
  seed : Int := 0

structure SynthesisFailure where
  reasonCode : ReasonCode
  detail : PyStr

/-! ## Outcomes -/

structure FoundDivergence where
  argsLiteral : PyStr
  kwargsLiteral : PyStr
  divergenceClass : DivergenceClass
  severity : Severity
  detail : List Piece
  baseSummary : PyStr
  headSummary : PyStr

structure TargetOutcome where
  module : PyStr
  qualname : PyStr
  verdict : Verdict
  reasonCode : Option ReasonCode
  reasonDetail : Option PyStr
  inputsRun : Nat
  equivalentInputs : Nat
  unprovableInputs : Nat
  changedLineCoverage : ℚ
  divergences : List FoundDivergence

def unproven (module qualname : PyStr) (reasonCode : ReasonCode) (detail : PyStr) :
    TargetOutcome where
  module := module
  qualname := qualname
  verdict := .unproven
  reasonCode := some reasonCode
  reasonDetail := some detail
  inputsRun := 0
  equivalentInputs := 0
  unprovableInputs := 0
  changedLineCoverage := 0
  divergences := []

inductive ProveError where
  | summary (error : CanonError)
  /-- `zip(…, strict=True)` over lists of different lengths. -/
  | zip

def observationSummary (o : Observation) : Except ProveError PyStr :=
  match o.outcome with
  | .hung => .ok (lit "hung (per-input timeout)")
  | .crashed => .ok (lit "crashed (exit " ++ intText o.exitStatus ++ lit ")")
  | .completed =>
    match o.raised, o.unrepresentable with
    | some info, _ =>
      .ok ((lit "raised " ++ info.typeName ++ lit ": " ++ info.message).take 200)
    | none, some reason => .ok (lit "returned an unrepresentable value (" ++ reason ++ lit ")")
    | none, none =>
      match canonicalBytes o.returnCanon with
      | .ok _ => .ok (lit "returned " ++ (dumps o.returnCanon.toJson).take 200)
      | .error e => .error (.summary e)

/-! ## The tally -/

def UnprovableKind.lower : UnprovableKind → PyStr
  | .replayUnstable => lit "replay unstable"
  | .uninterceptable => lit "uninterceptable"
  | .unserializable => lit "unserializable"
  | .workerUnavailable => lit "worker unavailable"

def UnprovableKind.sorted : List UnprovableKind :=
  [.replayUnstable, .uninterceptable, .unserializable, .workerUnavailable]

structure UnprovableTally where
  counts : UnprovableKind → Nat := fun _ => 0
  samples : UnprovableKind → Option PyStr := fun _ => none
  flaky : Nat := 0

def UnprovableTally.total (t : UnprovableTally) : Nat :=
  (UnprovableKind.sorted.map t.counts).sum + t.flaky

def UnprovableTally.add (t : UnprovableTally) (u : Unprovable) : UnprovableTally :=
  { t with
    counts := fun kind => if kind = u.kind then t.counts kind + 1 else t.counts kind
    samples := fun kind =>
      if kind = u.kind then some ((t.samples kind).getD u.reason) else t.samples kind }

def UnprovableTally.breakdown (t : UnprovableTally) : PyStr :=
  let parts := (UnprovableKind.sorted.filter fun kind => t.counts kind ≠ 0).map fun kind =>
    natText (t.counts kind) ++ lit " " ++ kind.lower
  let flaky := if t.flaky = 0 then [] else [natText t.flaky ++ lit " unconfirmable-flaky"]
  join (lit ", ") (parts ++ flaky)

/-- The kinds that dominate a target with nothing comparable, and what they are reported as. -/
def dominantKinds : List (UnprovableKind × ReasonCode) :=
  [(.workerUnavailable, .harnessSynthesisFailed), (.unserializable, .valueUnserializable),
    (.uninterceptable, .uninterceptableEffect)]

def UnprovableTally.unexercisedReason (t : UnprovableTally) (inputsRun : Nat) :
    ReasonCode × PyStr :=
  let nothing := lit "0 of " ++ natText inputsRun ++
    lit " inputs produced a comparable observation (" ++ t.breakdown ++ lit ") — "
  if inputsRun = 0 then
    (.harnessSynthesisFailed, lit "input generation produced no inputs for this signature — nothing was exercised, so nothing is being blessed")
  else
    match dominantKinds.find? fun p => t.counts p.1 ≠ 0 with
    | some (kind, code) =>
      (code, nothing ++ lit "e.g. " ++ (t.samples kind).getD [] ++
        lit ". Nothing was exercised comparably, so nothing is being blessed")
    | none =>
      (.nondeterministicBase,
        nothing ++ lit "behavior did not stay stable under identical conditions (Law L3)")

/-! ## Confirmation -/

inductive ConfirmOutcome where
  | confirmed
  | flaky
  | nondeterministicBase
  deriving DecidableEq

/-- One fresh run: the pair's comparison if it diverged, and whether each side agrees with its own
earlier runs. -/
structure Rerun where
  diverged : Option Diverged
  baseOk : Bool
  headOk : Bool

def confirmFrom : List Rerun → Option DivergenceClass → ConfirmOutcome
  | [], _ => .confirmed
  | run :: runs, firstClass =>
    if !run.baseOk then .nondeterministicBase
    else
      match run.diverged with
      | none => .flaky
      | some d =>
        if !run.headOk then .flaky
        else
          match firstClass with
          | none => confirmFrom runs (some d.divergenceClass)
          | some c => if d.divergenceClass ≠ c then .flaky else confirmFrom runs firstClass

def confirmAttempts : Nat := 3

def confirmDivergence (rerun : Nat → Rerun) : ConfirmOutcome :=
  confirmFrom ((List.range confirmAttempts).map rerun) none

/-! ## The loop over the inputs -/

def maxConfirmations : Nat := 8

/-- An input with its two observations, and what its fresh runs would show. -/
structure Row where
  input : Literals
  base : Observation
  head : Observation
  rerun : Nat → Rerun

structure LoopState where
  equivalent : Nat := 0
  tally : UnprovableTally := {}
  confirmed : List FoundDivergence := []
  seenClasses : List (PyStr × DivergenceClass) := []

/-- The divergence that is submitted to `confirm_divergence`, unless the cap is reached or the
arguments were already seen to diverge in this class. -/
def submission (cfg : CompareConfig) (dedupe : Bool) (row : Row) (s : LoopState) :
    Option Diverged :=
  match compare row.base row.head cfg with
  | .diverged d =>
    if maxConfirmations ≤ s.confirmed.length then none
    else if dedupe && s.seenClasses.contains (row.input.1, d.divergenceClass) then none
    else some d
  | _ => none

def found (row : Row) (d : Diverged) (base head : PyStr) : FoundDivergence where
  argsLiteral := row.input.1
  kwargsLiteral := row.input.2
  divergenceClass := d.divergenceClass
  severity := d.severity
  detail := d.detail
  baseSummary := base
  headSummary := head

/-- One turn of the loop; the flag says that the base disagrees with itself. -/
def proveRow (cfg : CompareConfig) (dedupe : Bool) (row : Row) (s : LoopState) :
    Except ProveError (LoopState × Bool) :=
  match compare row.base row.head cfg with
  | .equal => .ok ({ s with equivalent := s.equivalent + 1 }, false)
  | .unprovable u => .ok ({ s with tally := s.tally.add u }, false)
  | .diverged _ =>
    match submission cfg dedupe row s with
    | none => .ok (s, false)
    | some d =>
      let s := { s with seenClasses := (row.input.1, d.divergenceClass) :: s.seenClasses }
      match confirmDivergence row.rerun with
      | .nondeterministicBase => .ok (s, true)
      | .flaky => .ok ({ s with tally := { s.tally with flaky := s.tally.flaky + 1 } }, false)
      | .confirmed => do
        let base ← observationSummary row.base
        let head ← observationSummary row.head
        return ({ s with confirmed := s.confirmed ++ [found row d base head] }, false)

/-- The loop; an input whose base is unstable ends it. -/
def proveLoop (cfg : CompareConfig) (dedupe : Bool) :
    List Row → LoopState → Except ProveError (LoopState × Option PyStr)
  | [], s => .ok (s, none)
  | row :: rows, s =>
    match proveRow cfg dedupe row s with
    | .error e => .error e
    | .ok (s, true) => .ok (s, some row.input.1)
    | .ok (s, false) => proveLoop cfg dedupe rows s

/-! ## The verdict -/

def coverage (changedLines : Finset Nat) (head : List Observation) : ℚ :=
  let covered := head.foldl (fun lines o => lines ∪ o.executedLines) ∅
  if changedLines = ∅ then 1 else ((covered ∩ changedLines).card : ℚ) / changedLines.card

def deriveOutcome (module qualname : PyStr) (s : LoopState) (inputsRun : Nat) (coverage : ℚ) :
    TargetOutcome :=
  let outcome := fun verdict reasonCode reasonDetail => (⟨module, qualname, verdict, reasonCode,
    reasonDetail, inputsRun, s.equivalent, s.tally.total, coverage, s.confirmed⟩ : TargetOutcome)
  if s.confirmed ≠ [] then outcome .divergent none none
  else if 0 < s.equivalent then outcome .equivalentUnderBudget none none
  else
    let reason := s.tally.unexercisedReason inputsRun
    outcome .unproven (some reason.1) (some reason.2)

/-- The loop and the verdict; `unstable` is the text about an input whose base is unstable. -/
def conclude (module qualname : PyStr) (changedLines : Finset Nat) (cfg : CompareConfig)
    (dedupe : Bool) (unstable : PyStr → PyStr) (rows : List Row) :
    Except ProveError TargetOutcome :=
  match proveLoop cfg dedupe rows {} with
  | .error e => .error e
  | .ok (_, some args) => .ok (unproven module qualname .nondeterministicBase (unstable args))
  | .ok (s, none) =>
    .ok (deriveOutcome module qualname s rows.length (coverage changedLines (rows.map Row.head)))

/-! ## Pure targets -/

/-- What the workers of a pure target answer: the batches in the order they are run, the fresh
single runs by input and attempt, and the mutants of an input by seed. -/
structure PureLab where
  runBase : Nat → List Literals → List Observation
  runHead : Nat → List Literals → List Observation
  freshBase : Nat → Nat → Observation
  freshHead : Nat → Nat → Observation
  mutate : Literals → Int → Literals

/-- The fresh pair of one attempt, each side compared with its own history. -/
def pureRerun (cfg : CompareConfig) (base head : Nat → Observation) (attempt : Nat) : Rerun where
  diverged :=
    match compare (base attempt) (head attempt) cfg with
    | .diverged d => some d
    | _ => none
  baseOk := (List.range attempt).all fun prev => compare (base attempt) (base prev) cfg = .equal
  headOk := (List.range attempt).all fun prev => compare (head attempt) (head prev) cfg = .equal

/-- The inputs of the coverage-guided top-up round. -/
def mutants (lab : PureLab) (changedLines : Finset Nat) (budget : Budget)
    (literals : List Literals) (head : List Observation) : List Literals :=
  let hitters := ((literals.zip head).filter fun p => p.2.executedLines ∩ changedLines ≠ ∅).take 10
  let made := hitters.zipIdx.flatMap fun p =>
    (List.range 3).map fun k => lab.mutate p.1.1 (budget.seed + p.2 * 31 + k)
  (made.filter fun m => !literals.contains m).take (budget.maxInputs - literals.length)

def pureRuns (lab : PureLab) (changedLines : Finset Nat) (budget : Budget)
    (literals : List Literals) : List Literals × List Observation × List Observation :=
  let base := lab.runBase 0 literals
  let head := lab.runHead 0 literals
  let more :=
    if changedLines ≠ ∅ ∧ literals.length < budget.maxInputs then
      mutants lab changedLines budget literals head
    else []
  if more = [] then (literals, base, head)
  else (literals ++ more, base ++ lab.runBase 1 more, head ++ lab.runHead 1 more)

/-- The rows of a strict zip, each with the fresh runs of its position. -/
def zipRows (rerun : Nat → Nat → Rerun) :
    Nat → List Literals → List Observation → List Observation → Except ProveError (List Row)
  | _, [], [], [] => .ok []
  | i, input :: inputs, b :: base, h :: head =>
    match zipRows rerun (i + 1) inputs base head with
    | .error e => .error e
    | .ok rows => .ok (⟨input, b, h, rerun i⟩ :: rows)
  | _, _, _, _ => .error .zip

def pureRows (lab : PureLab) (changedLines : Finset Nat) (budget : Budget) (cfg : CompareConfig)
    (literals : List Literals) : Except ProveError (List Row) :=
  let runs := pureRuns lab changedLines budget literals
  zipRows (fun i => pureRerun cfg (lab.freshBase i) (lab.freshHead i)) 0 runs.1 runs.2.1 runs.2.2

def unstablePure (args : PyStr) : PyStr :=
  lit "base revision disagrees with itself on input " ++ args ++ lit " — comparison under uncontrolled nondeterminism is meaningless (Law L3); nothing is reported as a head bug"

/-- `prove_target`, given the generated inputs of a validated adapter. -/
def proveTarget (module qualname : PyStr) (lab : PureLab) (changedLines : Finset Nat)
    (budget : Budget) (cfg : CompareConfig) (inputs : Except SynthesisFailure (List Literals)) :
    Except ProveError TargetOutcome :=
  match inputs with
  | .error failure => .ok (unproven module qualname failure.reasonCode failure.detail)
  | .ok literals =>
    match pureRows lab changedLines budget cfg literals with
    | .error e => .error e
    | .ok rows => conclude module qualname changedLines cfg true unstablePure rows

/-! ## Impure targets -/

/-- What the workers of an impure target answer: the base recording, the base replay of it, the
head replay of it, and the same three for the fresh runs. -/
structure ImpureLab where
  record : List Literals → List Observation
  replay : List Literals → List Observation → List Observation
  replayHead : List Literals → List Observation → List Observation
  freshRecord : Nat → Nat → Observation
  freshReplay : Nat → Nat → Observation
  freshHead : Nat → Nat → Observation

def impureRerun (cfg : CompareConfig) (record replay head : Nat → Observation) (attempt : Nat) :
    Rerun where
  diverged :=
    match compare (record attempt) (head attempt) cfg with
    | .diverged d => some d
    | _ => none
  baseOk := compare (record attempt) (replay attempt) cfg = .equal
  headOk := true

/-- `next((o.uninterceptable for o in observations if o.uninterceptable), None)`. -/
def firstUninterceptable (observations : List Observation) : Option PyStr :=
  observations.findSome? fun o => o.uninterceptable.filter fun surface => surface ≠ []

/-- The comparison of a recording with its replay passes, or the input is left to the tally. -/
def replayVerified (cfg : CompareConfig) (record replay : Observation) : Bool :=
  match compare record replay cfg with
  | .equal => true
  | .unprovable u => u.kind = .unserializable || u.kind = .workerUnavailable
  | .diverged _ => false

def unreachedBase (module qualname surface : PyStr) : PyStr :=
  lit "could not exercise `" ++ module ++ lit "." ++ qualname ++ lit "` — " ++ surface

def unreachedHead (module qualname surface : PyStr) : PyStr :=
  lit "could not exercise `" ++ module ++ lit "." ++ qualname ++ lit "` on head — " ++ surface

def unreproduced (args : PyStr) : PyStr :=
  lit "base replay does not reproduce its own recording on input " ++ args ++
    lit " — determinism could not be reached (Law L3)"

def unstableImpure (args : PyStr) : PyStr :=
  lit "base record/replay disagrees with itself on input " ++ args ++ lit " (Law L3)"

/-- The part of `prove_impure_target` before the loop: the rows, or the outcome it ends with. -/
def impureRows (module qualname : PyStr) (lab : ImpureLab) (cfg : CompareConfig)
    (literals : List Literals) : Except ProveError (TargetOutcome ⊕ List Row) :=
  let baseRec := lab.record literals
  match firstUninterceptable baseRec with
  | some surface =>
    .ok (.inl (unproven module qualname .uninterceptableEffect
      (unreachedBase module qualname surface)))
  | none =>
    let baseRep := lab.replay literals baseRec
    match (literals.zip (baseRec.zip baseRep)).find? fun p =>
        !replayVerified cfg p.2.1 p.2.2 with
    | some p =>
      .ok (.inl (unproven module qualname .nondeterministicBase (unreproduced p.1.1)))
    | none =>
      if baseRec.length ≠ baseRep.length then .error .zip
      else
        let headObs := lab.replayHead literals baseRec
        match firstUninterceptable headObs with
        | some surface =>
          .ok (.inl (unproven module qualname .uninterceptableEffect
            (unreachedHead module qualname surface)))
        | none =>
          match zipRows (fun i => impureRerun cfg (lab.freshRecord i) (lab.freshReplay i)
              (lab.freshHead i)) 0 literals baseRec headObs with
          | .error e => .error e
          | .ok rows => .ok (.inr rows)

/-- `prove_impure_target`, given the generated inputs of a validated adapter. -/
def proveImpureTarget (module qualname : PyStr) (lab : ImpureLab) (changedLines : Finset Nat)
    (cfg : CompareConfig) (inputs : Except SynthesisFailure (List Literals)) :
    Except ProveError TargetOutcome :=
  match inputs with
  | .error failure => .ok (unproven module qualname failure.reasonCode failure.detail)
  | .ok literals =>
    match impureRows module qualname lab cfg literals with
    | .error e => .error e
    | .ok (.inl outcome) => .ok outcome
    | .ok (.inr rows) => conclude module qualname changedLines cfg false unstableImpure rows

end Tempest
