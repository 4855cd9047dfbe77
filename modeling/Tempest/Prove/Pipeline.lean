import Tempest.Execute.Raises
import Tempest.Generate.Mining
import Tempest.Prove.Record
import Tempest.Python.Utf8
import Tempest.Targets.Selection

/-!
# Pipeline — from two materialized revisions to a bundle (`prove.py`)

`runProve` is one pass over the changed files with nothing around a file or a target: the first
exception of any stage is the result of the whole run.  `ProveRun` holds what the pass reads; the
workers, the synthesis of adapters and the TypeScript batch answer through it.
-/

namespace Tempest

open Python

/-! ## Module names -/

def slash : CodePoint := codePoint 0x2F

/-- `Path(path).parts`. -/
def pathParts (path : PyStr) : List PyStr :=
  let names := (path.splitOn slash).filter fun name => name ≠ [] ∧ name ≠ lit "."
  if startsWith [slash] path then [slash] :: names else names

/-- `Path(name).with_suffix("")` of a last part. -/
def dropSuffix (name : PyStr) : PyStr :=
  let suffix := name.reverse.takeWhile fun c => c ≠ codePoint 0x2E
  let stem := (name.reverse.dropWhile fun c => c ≠ codePoint 0x2E).drop 1
  if suffix = [] ∨ stem = [] then name else stem.reverse

def stemParts (path : PyStr) : List PyStr :=
  match (pathParts path).getLast? with
  | none => []
  | some name => (pathParts path).dropLast ++ [dropSuffix name]

def moduleNameFor (relPath : PyStr) (sourceRoots : List PyStr) : PyStr :=
  let parts := stemParts relPath
  let longestFirst := sourceRoots.insertionSort fun a b => b.length ≤ a.length
  match longestFirst.find? fun root =>
      (pathParts root).isPrefixOf parts && (pathParts root).length < parts.length with
  | some root => join dot (parts.drop (pathParts root).length)
  | none => join dot (if parts.head? = some (lit "src") then parts.drop 1 else parts)

/-! ## What the run reads -/

/-- What generation and the workers answer for one callable. -/
structure TargetLab where
  inputs : Except Raised (Except SynthesisFailure (List Literals))
  pureLab : PureLab
  impureLab : ImpureLab
  minimize : Nat → FoundDivergence → Minimized
  pureAnswers : pureLab.Answers
  impureAnswers : impureLab.Answers

/-- How far the ladder of an instance method gets: a validated adapter with its own answers, a
declined one, or none was asked for. -/
inductive Ladder where
  | adapter (module source : PyStr) (classification : TargetClassification) (lab : TargetLab)
  | declined (detail : PyStr)
  | notAttempted

structure SymbolLab where
  own : TargetLab
  ladder : Except Raised Ladder

structure ProveRun where
  /-- The output of `git diff`. -/
  diffOutput : Bytes
  ignored : PyStr → Bool
  /-- The files of the two worktrees; `none` cannot be read. -/
  baseFile : PyStr → Option Bytes
  headFile : PyStr → Option Bytes
  headEntries : List TreeEntry
  reader : ConstantReader
  /-- `ast.parse`. -/
  parse : PyStr → Except ParseError Node
  sandbox : Except PyStr Unit
  lab : List Constant → FileDiff → SymbolSpan → SymbolLab
  /-- `_ts_records`. -/
  ts : List FileDiff → Except Raised (List Work)
  context : RunContext
  remediationHint : PyStr
  budget : Budget
  compareCfg : CompareConfig
  manifest : RunManifest
  dir : BundleDir

inductive PipelineError where
  /-- The output of `git diff` is not UTF-8. -/
  | diffOutput
  | diff (error : DiffError)
  | raised (error : Raised)
  | unreadable (path : PyStr)
  | undecodable (path : PyStr)
  | unparsable (path : PyStr) (error : ParseError)
  | target (error : ProveError)
  | bundle (error : BundleError)

/-! ## Files -/

/-- `changed_files`. -/
def ProveRun.diffs (r : ProveRun) : Except PipelineError (List FileDiff) :=
  match decodeUtf8 r.diffOutput with
  | none => .error .diffOutput
  | some text =>
    match parseUnified (universalNewlines text) with
    | .error e => .error (.diff e)
    | .ok diffs => .ok diffs

def isTs (path : PyStr) : Bool := (lit ".ts").isSuffixOf path || (lit ".tsx").isSuffixOf path

def ProveRun.inScope (r : ProveRun) (d : FileDiff) : Bool :=
  !r.ignored d.path && d.status = .modified

def ProveRun.isPython (r : ProveRun) (d : FileDiff) : Bool := r.inScope d && !isTs d.path

def ProveRun.isTypeScript (r : ProveRun) (d : FileDiff) : Bool := r.inScope d && isTs d.path

/-- `path.read_text(encoding="utf-8")`. -/
def readText (path : PyStr) : Option Bytes → Except PipelineError PyStr
  | none => .error (.unreadable path)
  | some bytes =>
    match decodeUtf8 bytes with
    | none => .error (.undecodable path)
    | some text => .ok (universalNewlines text)

def ProveRun.parseText (r : ProveRun) (path text : PyStr) : Except PipelineError Node :=
  match r.parse text with
  | .error e => .error (.unparsable path e)
  | .ok tree => .ok tree

structure Trees where
  base : Node
  head : Node

def ProveRun.trees (r : ProveRun) (d : FileDiff) : Except PipelineError Trees := do
  let headSrc ← readText d.path (r.headFile d.path)
  let baseSrc ← readText d.path (r.baseFile d.path)
  let base ← r.parseText d.path baseSrc
  let head ← r.parseText d.path headSrc
  return ⟨base, head⟩

/-! ## Targets -/

def SymbolSpan.isInstanceMethod (sym : SymbolSpan) : Bool :=
  sym.ownerClass.isSome && !sym.isStatic && !sym.isClassmethod

def unprovenRecord (filePath module : PyStr) (sym : SymbolSpan)
    (classification : TargetClassification) (reasonCode : ReasonCode) (reasonDetail : PyStr) :
    TargetRecord where
  filePath := filePath
  module := module
  qualname := sym.symbol
  lang := .python
  classification := classification
  verdict := .unproven
  reasonCode := some reasonCode
  reasonDetail := some reasonDetail
  inputsRun := 0
  equivalentInputs := 0
  unprovableInputs := 0
  changedLineCoverage := 0
  divergences := []

inductive Plan where
  | stated (record : TargetRecord)
  | proof (impure : Bool) (target : PyTarget) (lab : TargetLab)

/-- The branches of the loop body over a visited def, and `_unreachable_or_synthesized_record`. -/
def ProveRun.plan (r : ProveRun) (mined : List Constant) (d : FileDiff) (head : Node)
    (sym : SymbolSpan) : Except Raised Plan :=
  let classified := classifySymbol head sym
  let classification := classified.classification
  let module := moduleNameFor d.path r.context.sourceRoots
  let stated := fun code detail =>
    Plan.stated (unprovenRecord d.path module sym classification code detail)
  let target : PyTarget :=
    { filePath := d.path, module := module, symbol := sym.symbol, classification := classification }
  match r.sandbox with
  | .error reason => .ok (stated .sandboxUnavailable (orText reason (lit "sandbox unavailable")))
  | .ok () =>
    if classification = .unreachable then
      let code := classified.reasonCode.getD .targetUnreachable
      let detail := orText (classified.reasonDetail.getD []) (lit "target unreachable")
      if sym.isInstanceMethod then
        match (r.lab mined d sym).ladder with
        | .error e => .error e
        | .ok (.adapter adapter source classification lab) =>
          .ok (.proof false
            { target with
              classification := classification
              execModule := some adapter
              execQualname := some (lit "adapter")
              adapterSource := some source } lab)
        | .ok (.declined detail) => .ok (stated .synthesisDeclined detail)
        | .ok .notAttempted => .ok (stated code (detail ++ r.remediationHint))
      else .ok (stated code detail)
    else .ok (.proof (classification = .impureRecordable) target (r.lab mined d sym).own)

def changedInSpan (d : FileDiff) (sym : SymbolSpan) : Finset Nat :=
  d.changedHeadLines.filter fun line => sym.covers line

/-- The proof of a target, in the module it is executed through. -/
def TargetLab.prove (lab : TargetLab) (impure : Bool) (t : PyTarget) (changedLines : Finset Nat)
    (budget : Budget) (cfg : CompareConfig) (inputs : Except SynthesisFailure (List Literals)) :
    Except ProveError TargetOutcome :=
  let module := t.execModule.getD t.module
  let qualname := t.execQualname.getD t.symbol
  if impure then proveImpureTarget module qualname lab.impureLab changedLines cfg inputs
  else proveTarget module qualname lab.pureLab changedLines budget cfg inputs

def Plan.run (changedLines : Finset Nat) (budget : Budget) (cfg : CompareConfig) :
    Plan → Except PipelineError Work
  | .stated record => .ok (.stated record)
  | .proof impure t lab =>
    match lab.inputs with
    | .error e => .error (.raised e)
    | .ok inputs =>
      match lab.prove impure t changedLines budget cfg inputs with
      | .error e => .error (.target e)
      | .ok outcome => .ok (.finished t outcome lab.minimize)

def ProveRun.symbolWork (r : ProveRun) (mined : List Constant) (d : FileDiff) (head : Node)
    (sym : SymbolSpan) : Except PipelineError Work :=
  match r.plan mined d head sym with
  | .error e => .error (.raised e)
  | .ok plan => plan.run (changedInSpan d sym) r.budget r.compareCfg

/-! ## The run -/

/-- The body of the loop over the changed files. -/
def ProveRun.fileWorks (r : ProveRun) (mined : List Constant) (d : FileDiff) :
    Except PipelineError (List Work) := do
  let trees ← r.trees d
  (visited trees.base trees.head d).mapM (r.symbolWork mined d trees.head)

def ProveRun.mined (r : ProveRun) : Except Raised (List Constant) :=
  match r.sandbox with
  | .error _ => .ok []
  | .ok () => mineLiterals r.reader r.headEntries

def ProveRun.tsWorks (r : ProveRun) (diffs : List FileDiff) : Except Raised (List Work) :=
  match diffs.filter r.isTypeScript with
  | [] => .ok []
  | d :: ds => r.ts (d :: ds)

def liftRaised {α : Type} : Except Raised α → Except PipelineError α
  | .error e => .error (.raised e)
  | .ok a => .ok a

/-- The targets of the run, in the order of their records. -/
def ProveRun.works (r : ProveRun) : Except PipelineError (List Work) := do
  let diffs ← r.diffs
  let mined ← liftRaised r.mined
  let python ← (diffs.filter r.isPython).mapM (r.fileWorks mined)
  let ts ← liftRaised (r.tsWorks diffs)
  return python.flatten ++ ts

def ProveRun.bundle (r : ProveRun) (works : List Work) : RunBundle :=
  let run := runRecords r.context works .empty
  { manifest :=
      { r.manifest with
        schemaVersion := bundleSchemaVersion
        budgetMaxInputs := r.budget.maxInputs
        verdict := runVerdict run.1 }
    targets := run.1
    reproScripts := run.2 }

/-- `_run_prove`, once both revisions are materialized. -/
def runProve (r : ProveRun) : Except PipelineError (RunBundle × BundleDir) :=
  match r.works with
  | .error e => .error e
  | .ok works =>
    match writeBundle (r.bundle works) r.dir with
    | .error e => .error (.bundle e)
    | .ok dir => .ok (r.bundle works, dir)

/-! ## The proof at the end of a task -/

/-- `_prove_and_classify`: the verdict of the change. -/
def taskVerdict (r : ProveRun) : Except PipelineError Verdict :=
  match runProve r with
  | .error e => .error e
  | .ok out => .ok (runVerdict out.1.targets)

/-- A task whose turns are recorded proves the same two revisions in every lifetime; it is resumed
up to `n` times after a failure. -/
def resumedVerdict (r : ProveRun) : Nat → Except PipelineError Verdict
  | 0 => taskVerdict r
  | n + 1 =>
    match taskVerdict r with
    | .error _ => resumedVerdict r n
    | .ok verdict => .ok verdict

end Tempest
