import Tempest.Execute.Dual
import Tempest.Minimize.Repro

/-!
# Record — the records of a run and their repro scripts (`prove.py`)

`finishedRecord` and `tsProvenRecord` turn the outcome of a target into its record and put one
script per reported divergence into the dictionary the whole run shares.  A script is filed under
the flattened name of its target and the index of its divergence; `scripts_kept_iff` says when no
file name is given twice.
-/

namespace Tempest

open Python

/-! ## What a record is built with -/

structure Minimized where
  minimizedArgs : PyStr
  minimizedKwargs : PyStr
  shrinkPath : List PyStr

/-- The keyword arguments of `narrate_divergence`. -/
structure NarrativeFacts where
  symbol : PyStr
  divergenceClass : DivergenceClass
  argsLiteral : PyStr
  kwargsLiteral : PyStr
  baseSummary : PyStr
  headSummary : PyStr

/-- What all targets of a run share: the revisions, the import roots, the Unicode table and the
narrator. -/
structure RunContext where
  baseSha : PyStr
  headSha : PyStr
  sourceRoots : List PyStr
  printable : CodePoint → Bool
  narrate : NarrativeFacts → Option PyStr

def Piece.render (printable : CodePoint → Bool) : Piece → PyStr
  | .text s => s
  | .repr s => reprStr printable s

/-- `a or b`. -/
def orText (a b : PyStr) : PyStr := if a = [] then b else a

/-! ## Python targets -/

structure PyTarget where
  filePath : PyStr
  module : PyStr
  symbol : PyStr
  classification : TargetClassification := .pureCandidate
  execModule : Option PyStr := none
  execQualname : Option PyStr := none
  adapterSource : Option PyStr := none

def underscore : CodePoint := codePoint 0x5F

/-- `text.replace(old, "_")`. -/
def flatten (old : CodePoint) (text : PyStr) : PyStr :=
  text.map fun c => if c = old then underscore else c

def PyTarget.dotted (t : PyTarget) : PyStr := t.module ++ lit "." ++ t.symbol

def PyTarget.safe (t : PyTarget) : PyStr := flatten (codePoint 0x2E) t.dotted

def scriptName (safe : PyStr) (i : Nat) (ext : PyStr) : PyStr :=
  safe ++ underscore :: (natText i ++ ext)

structure Exhibit where
  name : PyStr
  script : PyStr
  record : DivergenceRecord

def PyTarget.exhibit (t : PyTarget) (ctx : RunContext) (i : Nat) (d : FoundDivergence)
    (m : Minimized) : Exhibit :=
  let args := orText m.minimizedArgs d.argsLiteral
  let kwargs := orText m.minimizedKwargs d.kwargsLiteral
  let name := scriptName t.safe i (lit ".py")
  { name := name
    script :=
      renderReproScript ctx.printable
        { symbol := t.dotted
          module := t.execModule.getD t.module
          qualname := t.execQualname.getD t.symbol
          argsLiteral := args
          kwargsLiteral := kwargs
          divergenceClass := d.divergenceClass
          baseSha := ctx.baseSha
          headSha := ctx.headSha
          baseSummary := d.baseSummary
          headSummary := d.headSummary
          adapterSource := t.adapterSource
          sourceRoots := ctx.sourceRoots }
    record :=
      { divergenceClass := d.divergenceClass
        severity := d.severity
        detail := d.detail.flatMap (Piece.render ctx.printable)
        argsLiteral := d.argsLiteral
        kwargsLiteral := d.kwargsLiteral
        minimizedArgs := some args
        minimizedKwargs := some kwargs
        shrinkPath := m.shrinkPath
        baseSummary := d.baseSummary
        headSummary := d.headSummary
        reproFilename := some name
        aiNarrative :=
          ctx.narrate
            { symbol := t.dotted
              divergenceClass := d.divergenceClass
              argsLiteral := args
              kwargsLiteral := kwargs
              baseSummary := d.baseSummary
              headSummary := d.headSummary } } }

def dedupeKey (d : FoundDivergence) (m : Minimized) : DivergenceClass × PyStr × PyStr :=
  (d.divergenceClass, orText m.minimizedArgs d.argsLiteral, orText m.minimizedKwargs d.kwargsLiteral)

/-- The loop of `_finished_record`; the index counts the raw divergences. -/
@[grind =]
def PyTarget.exhibits (t : PyTarget) (ctx : RunContext)
    (minimize : Nat → FoundDivergence → Minimized) :
    Nat → List FoundDivergence → List (DivergenceClass × PyStr × PyStr) → List Exhibit
  | _, [], _ => []
  | i, d :: ds, seen =>
    let m := minimize i d
    if dedupeKey d m ∈ seen then t.exhibits ctx minimize (i + 1) ds seen
    else t.exhibit ctx i d m :: t.exhibits ctx minimize (i + 1) ds (dedupeKey d m :: seen)

def addScripts (scripts : Dict PyStr PyStr) (exhibits : List Exhibit) : Dict PyStr PyStr :=
  scripts.setAll (exhibits.map fun e => (e.name, e.script))

/-- `_finished_record`, with the scripts it leaves. -/
def finishedRecord (ctx : RunContext) (t : PyTarget) (outcome : TargetOutcome)
    (minimize : Nat → FoundDivergence → Minimized) (scripts : Dict PyStr PyStr) :
    TargetRecord × Dict PyStr PyStr :=
  let exhibits := t.exhibits ctx minimize 0 outcome.divergences []
  ({ filePath := t.filePath
     module := t.module
     qualname := t.symbol
     lang := .python
     classification := t.classification
     verdict := outcome.verdict
     reasonCode := outcome.reasonCode
     reasonDetail := outcome.reasonDetail
     inputsRun := outcome.inputsRun
     equivalentInputs := outcome.equivalentInputs
     unprovableInputs := outcome.unprovableInputs
     changedLineCoverage := outcome.changedLineCoverage
     divergences := exhibits.map Exhibit.record },
    addScripts scripts exhibits)

/-! ## TypeScript targets -/

structure TsDivergenceFound where
  argsJson : PyStr
  divergenceClass : DivergenceClass
  severity : Severity
  detail : PyStr
  baseSummary : PyStr
  headSummary : PyStr

structure TsOutcome where
  verdict : Verdict
  reasonCode : Option ReasonCode
  reasonDetail : Option PyStr
  inputsRun : Nat
  equivalentInputs : Nat
  unprovableInputs : Nat
  changedLineCoverage : ℚ
  divergences : List TsDivergenceFound

structure TsTarget where
  filePath : PyStr
  module : PyStr
  symbol : PyStr

def TsTarget.dotted (t : TsTarget) : PyStr := t.module ++ lit "." ++ t.symbol

def TsTarget.safe (t : TsTarget) : PyStr :=
  flatten (codePoint 0x2F) (flatten (codePoint 0x2E) t.dotted)

def TsTarget.exhibit (t : TsTarget) (ctx : RunContext) (i : Nat) (d : TsDivergenceFound) :
    Exhibit :=
  let name := scriptName t.safe i (lit ".mjs")
  { name := name
    script :=
      renderTsReproScript
        { symbol := t.dotted
          relPath := t.filePath
          exportName := t.symbol
          argsJson := d.argsJson
          baseSha := ctx.baseSha
          headSha := ctx.headSha
          baseSummary := d.baseSummary
          headSummary := d.headSummary }
    record :=
      { divergenceClass := d.divergenceClass
        severity := d.severity
        detail := d.detail
        argsLiteral := d.argsJson
        kwargsLiteral := lit "\x7b\x7d"
        minimizedArgs := some d.argsJson
        minimizedKwargs := some (lit "\x7b\x7d")
        shrinkPath := []
        baseSummary := d.baseSummary
        headSummary := d.headSummary
        reproFilename := some name
        aiNarrative :=
          ctx.narrate
            { symbol := t.dotted
              divergenceClass := d.divergenceClass
              argsLiteral := d.argsJson
              kwargsLiteral := lit "\x7b\x7d"
              baseSummary := d.baseSummary
              headSummary := d.headSummary } } }

def TsTarget.exhibits (t : TsTarget) (ctx : RunContext) : Nat → List TsDivergenceFound → List Exhibit
  | _, [] => []
  | i, d :: ds => t.exhibit ctx i d :: t.exhibits ctx (i + 1) ds

/-- `_ts_proven_record` of an outcome, with the scripts it leaves. -/
def tsProvenRecord (ctx : RunContext) (t : TsTarget) (outcome : TsOutcome)
    (scripts : Dict PyStr PyStr) : TargetRecord × Dict PyStr PyStr :=
  let exhibits := t.exhibits ctx 0 outcome.divergences
  ({ filePath := t.filePath
     module := t.module
     qualname := t.symbol
     lang := .typescript
     classification := .pureCandidate
     verdict := outcome.verdict
     reasonCode := outcome.reasonCode
     reasonDetail := outcome.reasonDetail
     inputsRun := outcome.inputsRun
     equivalentInputs := outcome.equivalentInputs
     unprovableInputs := outcome.unprovableInputs
     changedLineCoverage := outcome.changedLineCoverage
     divergences := exhibits.map Exhibit.record },
    addScripts scripts exhibits)

/-! ## A run -/

inductive Work where
  | finished (t : PyTarget) (outcome : TargetOutcome) (minimize : Nat → FoundDivergence → Minimized)
  | tsProven (t : TsTarget) (outcome : TsOutcome)
  | stated (record : TargetRecord)

def Work.record (ctx : RunContext) (scripts : Dict PyStr PyStr) :
    Work → TargetRecord × Dict PyStr PyStr
  | .finished t outcome minimize => finishedRecord ctx t outcome minimize scripts
  | .tsProven t outcome => tsProvenRecord ctx t outcome scripts
  | .stated record => ({ record with divergences := [] }, scripts)

def runRecords (ctx : RunContext) : List Work → Dict PyStr PyStr → List TargetRecord × Dict PyStr PyStr
  | [], scripts => ([], scripts)
  | work :: works, scripts =>
    let first := work.record ctx scripts
    let rest := runRecords ctx works first.2
    (first.1 :: rest.1, rest.2)

end Tempest
