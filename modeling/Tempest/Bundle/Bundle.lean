import Tempest.Compare.Compare
import Tempest.Python.Document

/-!
# Bundle — the run bundle, its writer and its reader (`bundle/bundle.py`)

A bundle is a manifest, the records of the targets and the repro scripts by file name.  The writer
puts them into `manifest.json`, `targets.json` and the directory `repros`; the reader takes the
manifest and the targets from the files and every `*.py` file of the directory for a script.

The first two files are modelled as the documents they hold (`Document.wire`), the scripts as the
text a file holds.
-/

namespace Tempest

open Python

/-! ## Texts of the enumerations -/

inductive Lang where
  | python
  | typescript
  deriving DecidableEq

instance : TextEnum Lang where
  all := [.python, .typescript]
  text
    | .python => lit "PYTHON"
    | .typescript => lit "TYPESCRIPT"
  mem_all a := by cases a <;> decide
  injective a b h := by cases a <;> cases b <;> first | rfl | exact absurd (lit_injective h) (by simp)
  plain a := by cases a <;> decide

instance : TextEnum Severity where
  all := [.low, .normal, .headline]
  text
    | .low => lit "LOW"
    | .normal => lit "NORMAL"
    | .headline => lit "HEADLINE"
  mem_all a := by cases a <;> decide
  injective a b h := by cases a <;> cases b <;> first | rfl | exact absurd (lit_injective h) (by simp)
  plain a := by cases a <;> decide

instance : TextEnum Verdict where
  all := [.divergent, .equivalentUnderBudget, .unproven, .error]
  text
    | .divergent => lit "DIVERGENT"
    | .equivalentUnderBudget => lit "EQUIVALENT_UNDER_BUDGET"
    | .unproven => lit "UNPROVEN"
    | .error => lit "ERROR"
  mem_all a := by cases a <;> decide
  injective a b h := by cases a <;> cases b <;> first | rfl | exact absurd (lit_injective h) (by simp)
  plain a := by cases a <;> decide

instance : TextEnum TargetClassification where
  all := [.pureCandidate, .impureRecordable, .unreachable, .synthesized, .typeSynthesized]
  text
    | .pureCandidate => lit "PURE_CANDIDATE"
    | .impureRecordable => lit "IMPURE_RECORDABLE"
    | .unreachable => lit "UNREACHABLE"
    | .synthesized => lit "SYNTHESIZED"
    | .typeSynthesized => lit "TYPE_SYNTHESIZED"
  mem_all a := by cases a <;> decide
  injective a b h := by cases a <;> cases b <;> first | rfl | exact absurd (lit_injective h) (by simp)
  plain a := by cases a <;> decide

instance : TextEnum DivergenceClass where
  all := [.returnValue, .exceptionType, .exceptionMessage, .effectSequence, .effectArguments,
    .cassetteMiss, .crash, .hang, .outputStream]
  text
    | .returnValue => lit "RETURN_VALUE"
    | .exceptionType => lit "EXCEPTION_TYPE"
    | .exceptionMessage => lit "EXCEPTION_MESSAGE"
    | .effectSequence => lit "EFFECT_SEQUENCE"
    | .effectArguments => lit "EFFECT_ARGUMENTS"
    | .cassetteMiss => lit "CASSETTE_MISS"
    | .crash => lit "CRASH"
    | .hang => lit "HANG"
    | .outputStream => lit "OUTPUT_STREAM"
  mem_all a := by cases a <;> decide
  injective a b h := by cases a <;> cases b <;> first | rfl | exact absurd (lit_injective h) (by simp)
  plain a := by cases a <;> decide

instance : TextEnum ReasonCode where
  all := [.targetUnreachable, .envReproductionFailed, .harnessSynthesisFailed, .synthesisDeclined,
    .uninterceptableEffect, .nondeterministicBase, .sandboxUnavailable, .valueUnserializable,
    .recordReplayUnavailable]
  text
    | .targetUnreachable => lit "TARGET_UNREACHABLE"
    | .envReproductionFailed => lit "ENV_REPRODUCTION_FAILED"
    | .harnessSynthesisFailed => lit "HARNESS_SYNTHESIS_FAILED"
    | .synthesisDeclined => lit "SYNTHESIS_DECLINED"
    | .uninterceptableEffect => lit "UNINTERCEPTABLE_EFFECT"
    | .nondeterministicBase => lit "NONDETERMINISTIC_BASE"
    | .sandboxUnavailable => lit "SANDBOX_UNAVAILABLE"
    | .valueUnserializable => lit "VALUE_UNSERIALIZABLE"
    | .recordReplayUnavailable => lit "RECORD_REPLAY_UNAVAILABLE"
  mem_all a := by cases a <;> decide
  injective a b h := by cases a <;> cases b <;> first | rfl | exact absurd (lit_injective h) (by simp)
  plain a := by cases a <;> decide

/-! ## Records -/

structure DivergenceRecord where
  divergenceClass : DivergenceClass
  severity : Severity
  detail : PyStr
  argsLiteral : PyStr
  kwargsLiteral : PyStr
  minimizedArgs : Option PyStr
  minimizedKwargs : Option PyStr
  shrinkPath : List PyStr
  baseSummary : PyStr
  headSummary : PyStr
  reproFilename : Option PyStr
  aiNarrative : Option PyStr

structure TargetRecord where
  filePath : PyStr
  module : PyStr
  qualname : PyStr
  lang : Lang
  classification : TargetClassification
  verdict : Verdict
  reasonCode : Option ReasonCode
  reasonDetail : Option PyStr
  inputsRun : Nat
  equivalentInputs : Nat
  unprovableInputs : Nat
  changedLineCoverage : ℚ
  divergences : List DivergenceRecord

structure RunManifest where
  schemaVersion : Int
  engineVersion : PyStr
  repo : PyStr
  baseSha : PyStr
  headSha : PyStr
  createdAt : PyStr
  verdict : Verdict
  baseDeps : PyStr
  headDeps : PyStr
  budgetMaxInputs : Int
  sandboxTier : PyStr
  sandboxAssurance : PyStr

structure RunBundle where
  manifest : RunManifest
  targets : List TargetRecord
  reproScripts : Dict PyStr PyStr

def bundleSchemaVersion : Int := 3

def runVerdict (targets : List TargetRecord) : Verdict :=
  if targets.any fun t => t.verdict = .error then .error
  else if targets.any fun t => t.verdict = .divergent then .divergent
  else if targets.any fun t => t.verdict = .equivalentUnderBudget then .equivalentUnderBudget
  else .unproven

/-! ## Integrity -/

inductive BundleError where
  /-- `BundleIntegrityError`, with its message. -/
  | integrity (message : List Piece)
  | longInt
  /-- A surrogate in a text that is to be written as UTF-8. -/
  | unencodable
  | fileName (name : PyStr)

def TargetRecord.whereText (t : TargetRecord) : PyStr := t.module ++ lit "." ++ t.qualname

/-- One divergence of `_check_integrity`; `scripts` says which names have a script. -/
def DivergenceRecord.check (scripts : Dict PyStr PyStr) (target : PyStr) (d : DivergenceRecord) :
    Except BundleError Unit :=
  if d.minimizedArgs.isNone || d.minimizedKwargs.isNone then
    .error (.integrity [.text (lit "divergence in " ++ target ++
      lit " has no minimized input — refusing to write (spec §7)")])
  else
    match d.reproFilename with
    | none =>
      .error (.integrity [.text (lit "divergence in " ++ target ++
        lit " has no repro script — refusing to write (spec §7)")])
    | some name =>
      if scripts.contains name then .ok ()
      else
        .error (.integrity [.text (lit "repro script "), .repr name,
          .text (lit " for " ++ target ++ lit " missing from bundle")])

def checkIntegrity (b : RunBundle) : Except BundleError Unit :=
  b.targets.forM fun t => t.divergences.forM fun d => d.check b.reproScripts t.whereText

/-! ## As documents -/

/-- The field names in the files, in camel case. -/
inductive Key where
  | divergenceClass | severity | detail | argsLiteral | kwargsLiteral | minimizedArgs
  | minimizedKwargs | shrinkPath | baseSummary | headSummary | reproFilename | aiNarrative
  | filePath | module | qualname | lang | classification | verdict | reasonCode | reasonDetail
  | inputsRun | equivalentInputs | unprovableInputs | changedLineCoverage | divergences
  | schemaVersion | engineVersion | repo | baseSha | headSha | createdAt | baseDeps | headDeps
  | budgetMaxInputs | sandboxTier | sandboxAssurance
  deriving DecidableEq

abbrev JsonFile := Document Key

def enumDoc {α : Type} [TextEnum α] (a : α) : JsonFile := .str (TextEnum.text a)

def DivergenceRecord.asdict (d : DivergenceRecord) : JsonFile :=
  .obj
    [(.divergenceClass, enumDoc d.divergenceClass), (.severity, enumDoc d.severity),
      (.detail, .str d.detail), (.argsLiteral, .str d.argsLiteral),
      (.kwargsLiteral, .str d.kwargsLiteral),
      (.minimizedArgs, .ofText? d.minimizedArgs),
      (.minimizedKwargs, .ofText? d.minimizedKwargs),
      (.shrinkPath, .arr (d.shrinkPath.map .str)), (.baseSummary, .str d.baseSummary),
      (.headSummary, .str d.headSummary), (.reproFilename, .ofText? d.reproFilename),
      (.aiNarrative, .ofText? d.aiNarrative)]

def TargetRecord.asdict (t : TargetRecord) : JsonFile :=
  .obj
    [(.filePath, .str t.filePath), (.module, .str t.module), (.qualname, .str t.qualname),
      (.lang, enumDoc t.lang), (.classification, enumDoc t.classification),
      (.verdict, enumDoc t.verdict),
      (.reasonCode, .ofText? (t.reasonCode.map TextEnum.text)),
      (.reasonDetail, .ofText? t.reasonDetail), (.inputsRun, .int t.inputsRun),
      (.equivalentInputs, .int t.equivalentInputs),
      (.unprovableInputs, .int t.unprovableInputs),
      (.changedLineCoverage, .float t.changedLineCoverage),
      (.divergences, .arr (t.divergences.map DivergenceRecord.asdict))]

def RunManifest.asdict (m : RunManifest) : JsonFile :=
  .obj
    [(.schemaVersion, .int m.schemaVersion), (.engineVersion, .str m.engineVersion),
      (.repo, .str m.repo), (.baseSha, .str m.baseSha), (.headSha, .str m.headSha),
      (.createdAt, .str m.createdAt), (.verdict, enumDoc m.verdict),
      (.baseDeps, .str m.baseDeps), (.headDeps, .str m.headDeps),
      (.budgetMaxInputs, .int m.budgetMaxInputs), (.sandboxTier, .str m.sandboxTier),
      (.sandboxAssurance, .str m.sandboxAssurance)]

/-! ## Writing -/

structure BundleDir where
  manifest : Option JsonFile
  targets : Option JsonFile
  /-- The files of `repros`, if the directory is there. -/
  repros : Option (Dict PyStr PyStr)

def nameMax : Nat := 255

/-- A name a file of the directory can have and the archive can store. -/
def fileNameOk (name : PyStr) : Bool :=
  encodable name && (utf8 name).length ≤ nameMax && name ≠ [] && name ≠ lit "." &&
    name ≠ lit ".." && name.all fun c => c ≠ codePoint 0x2F && c ≠ codePoint 0

/-- `json.dumps` of a document into a file, as `json.loads` will find it. -/
def dumpDocument (d : JsonFile) : Except BundleError JsonFile :=
  if d.hasLongInt then .error .longInt else .ok d.wire

def writeScripts : List (PyStr × PyStr) → Dict PyStr PyStr → Except BundleError (Dict PyStr PyStr)
  | [], dir => .ok dir
  | (name, content) :: scripts, dir =>
    if !fileNameOk name then .error (.fileName name)
    else if !encodable content then .error .unencodable
    else writeScripts scripts (dir.set name content)

def writeBundle (b : RunBundle) (dir : BundleDir) : Except BundleError BundleDir := do
  checkIntegrity b
  let manifest ← dumpDocument b.manifest.asdict
  let targets ← dumpDocument (.arr (b.targets.map TargetRecord.asdict))
  let repros ← writeScripts b.reproScripts.sorted.items (dir.repros.getD .empty)
  return { manifest := some manifest, targets := some targets, repros := some repros }

/-! ## Reading -/

open Document in
def manifestFrom (raw : JsonFile) : Except (ReadError Key) RunManifest := do
  let version ← (← raw.getItem .schemaVersion).asInt
  if bundleSchemaVersion < version then .error (.newer version)
  else
    return {
      schemaVersion := version
      engineVersion := ← (← raw.getItem .engineVersion).asText
      repo := ← (← raw.getItem .repo).asText
      baseSha := ← (← raw.getItem .baseSha).asText
      headSha := ← (← raw.getItem .headSha).asText
      createdAt := ← (← raw.getItem .createdAt).asText
      verdict := ← ofText Verdict (← (← raw.getItem .verdict).asText)
      baseDeps := ← (← raw.getItem .baseDeps).asText
      headDeps := ← (← raw.getItem .headDeps).asText
      budgetMaxInputs := ← (← raw.getItem .budgetMaxInputs).asInt
      sandboxTier := ← ((raw.get? .sandboxTier).getD (.str (lit "unknown"))).asText
      sandboxAssurance := ← ((raw.get? .sandboxAssurance).getD (.str (lit "unknown"))).asText }

open Document in
def divergenceFrom (raw : JsonFile) : Except (ReadError Key) DivergenceRecord := do
  return {
    divergenceClass := ← ofText DivergenceClass (← (← raw.getItem .divergenceClass).asText)
    severity := ← ofText Severity (← (← raw.getItem .severity).asText)
    detail := ← (← raw.getItem .detail).asText
    argsLiteral := ← (← raw.getItem .argsLiteral).asText
    kwargsLiteral := ← (← raw.getItem .kwargsLiteral).asText
    minimizedArgs := ← (← raw.getItem .minimizedArgs).asText?
    minimizedKwargs := ← (← raw.getItem .minimizedKwargs).asText?
    shrinkPath := ← (← (← raw.getItem .shrinkPath).asList).mapM asText
    baseSummary := ← (← raw.getItem .baseSummary).asText
    headSummary := ← (← raw.getItem .headSummary).asText
    reproFilename := ← (← raw.getItem .reproFilename).asText?
    aiNarrative := ← ((raw.get? .aiNarrative).getD .null).asText? }

open Document in
/-- `ReasonCode(raw) if raw else None`. -/
def reasonFrom (raw : JsonFile) : Except (ReadError Key) (Option ReasonCode) := do
  match ← raw.asText? with
  | none => return none
  | some [] => return none
  | some text => return some (← ofText ReasonCode text)

open Document in
def asNat (raw : JsonFile) : Except (ReadError Key) Nat := do
  match ← raw.asInt with
  | .ofNat n => return n
  | .negSucc _ => .error .kind

open Document in
def targetFrom (raw : JsonFile) : Except (ReadError Key) TargetRecord := do
  return {
    filePath := ← (← raw.getItem .filePath).asText
    module := ← (← raw.getItem .module).asText
    qualname := ← (← raw.getItem .qualname).asText
    lang := ← ofText Lang (← (← raw.getItem .lang).asText)
    classification := ← ofText TargetClassification (← (← raw.getItem .classification).asText)
    verdict := ← ofText Verdict (← (← raw.getItem .verdict).asText)
    reasonCode := ← reasonFrom (← raw.getItem .reasonCode)
    reasonDetail := ← (← raw.getItem .reasonDetail).asText?
    inputsRun := ← asNat (← raw.getItem .inputsRun)
    equivalentInputs := ← asNat (← raw.getItem .equivalentInputs)
    unprovableInputs := ← asNat (← raw.getItem .unprovableInputs)
    changedLineCoverage := ← (← raw.getItem .changedLineCoverage).asFloat
    divergences := ← (← (← raw.getItem .divergences).asList).mapM divergenceFrom }

/-- `repro_dir.glob("*.py")` matches the name. -/
def isPyFile (name : PyStr) : Bool := (lit ".py").isSuffixOf name

/-- The scripts of a directory: every `*.py` file, its lines ended by line feeds. -/
def readScripts (repros : Option (Dict PyStr PyStr)) : Dict PyStr PyStr :=
  match repros with
  | none => .empty
  | some dir => ((dir.filterKeys isPyFile).sorted).mapValues universalNewlines

def readBundle (dir : BundleDir) : Except (Document.ReadError Key) RunBundle := do
  match dir.manifest, dir.targets with
  | some manifest, some targets =>
    return {
      manifest := ← manifestFrom manifest
      targets := ← (← targets.asList).mapM targetFrom
      reproScripts := readScripts dir.repros }
  | _, _ => .error .noFile

end Tempest
