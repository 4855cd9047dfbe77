import Tempest.Execute.TsDual
import Tempest.Prove.Pipeline

/-!
# TsRecords — the TypeScript part of a run (`prove.py`)

`_ts_records` asks the sidecar for the targets of the changed files and gives every one of them a
record: an exported module-level function is proved, everything else is stated UNPROVEN.
-/

namespace Tempest

open Python

/-- A target of the sidecar.  Its classification and its kind are compared as texts. -/
structure TsSelected where
  filePath : PyStr
  symbol : PyStr
  kind : PyStr
  classification : PyStr
  reasonDetail : Option PyStr
  span : Option (Nat × Nat)

inductive TsSandbox where
  | missing
  | docker
  | process
  deriving DecidableEq

/-- What the TypeScript part of a run reads: the answers of the sidecar, or the text of its error,
and of the workers. -/
structure TsStage (ω : Type) where
  sourceRoots : List PyStr
  sandbox : TsSandbox
  select : List FileDiff → Except PyStr (List TsSelected)
  reader : TsReader ω
  lab : FileDiff → PyStr → Except PyStr (TsLab ω)

variable {ω : Type} (stage : TsStage ω)

def tsSymbolRecord (filePath module symbol : PyStr) (classification : TargetClassification)
    (reasonCode : ReasonCode) (reasonDetail : PyStr) : TargetRecord where
  filePath := filePath
  module := module
  qualname := symbol
  lang := .typescript
  classification := classification
  verdict := .unproven
  reasonCode := some reasonCode
  reasonDetail := some reasonDetail
  inputsRun := 0
  equivalentInputs := 0
  unprovableInputs := 0
  changedLineCoverage := 0
  divergences := []

def TsStage.fileRecord (d : FileDiff) (reasonCode : ReasonCode) (detail : PyStr) : TargetRecord :=
  tsSymbolRecord d.path (moduleNameFor d.path stage.sourceRoots) (lit "__file__") .unreachable
    reasonCode detail

def isRunnable (path : PyStr) : Bool := (lit ".ts").isSuffixOf path && !(lit ".d.ts").isSuffixOf path

/-- `_ts_unexercised_record`. -/
def TsStage.unexercised (d : FileDiff) : TargetRecord :=
  stage.fileRecord d .recordReplayUnavailable
    (lit "`" ++ d.path ++ lit "` uses non-erasable syntax (JSX / declaration files) that node's type stripping cannot run (wave 2) — this change was NOT exercised and is not being blessed")

def sidecarUnavailable (error : PyStr) : PyStr :=
  lit "the TypeScript analysis sidecar is unavailable: " ++ error

def tsRunnableKinds : List PyStr := ["function", "arrowConst", "functionExpressionConst"].map lit

/-- Why a target is not proved, in the order of the checks. -/
def TsStage.refusal (t : TsSelected) : Option (TargetClassification × ReasonCode × PyStr) :=
  if t.classification = lit "UNREACHABLE" then
    some (.unreachable, .targetUnreachable, orText (t.reasonDetail.getD []) (lit "unreachable"))
  else if t.classification = lit "IMPURE_RECORDABLE" then
    some (.impureRecordable, .recordReplayUnavailable,
      lit "`" ++ t.symbol ++ lit "` touches IO; JS record/replay (cassettes) is wave 2 — this change was NOT exercised and is not being blessed")
  else if t.kind ∉ tsRunnableKinds then
    some (.unreachable, .targetUnreachable,
      lit "`" ++ t.symbol ++ lit "` is a " ++ t.kind ++
        lit "; wave 1 invokes exported module-level functions only (methods need constructor synthesis)")
  else
    match stage.sandbox with
    | .missing =>
      some (.pureCandidate, .sandboxUnavailable,
        lit "no sandbox tier is available on this machine (L6: never unsandboxed)")
    | .docker =>
      some (.pureCandidate, .sandboxUnavailable,
        lit "the T1 container image does not carry node yet (wave 2) — this change was NOT exercised and is not being blessed")
    | .process => none

def tsUnavailable (symbol error : PyStr) : PyStr :=
  lit "TypeScript execution unavailable for `" ++ symbol ++ lit "`: " ++ error

/-- `(1, 10**9)` where the sidecar gives no span. -/
def TsSelected.lines (t : TsSelected) : Nat × Nat := t.span.getD (1, 10 ^ 9)

def TsSelected.changedIn (t : TsSelected) (d : FileDiff) : Finset Nat :=
  d.changedHeadLines.filter fun line => t.lines.1 ≤ line ∧ line ≤ t.lines.2

/-- `_ts_proven_record`, up to its record; an import that fails in `_confirm` is not caught. -/
def TsStage.proven (d : FileDiff) (t : TsSelected) : Except Raised Work :=
  let module := moduleNameFor t.filePath stage.sourceRoots
  let unavailable := fun error =>
    Work.stated (tsSymbolRecord d.path module t.symbol .pureCandidate .harnessSynthesisFailed
      (tsUnavailable t.symbol error))
  match stage.lab d t.symbol with
  | .error error => .ok (unavailable error)
  | .ok lab =>
    match proveTsTarget stage.reader lab d.path t.symbol (t.changedIn d) with
    | .error (.unavailable error) => .ok (unavailable error)
    | .error (.importFailed _) => .error ⟨lit "TsImportFailed"⟩
    | .ok outcome => .ok (.tsProven ⟨d.path, module, t.symbol⟩ outcome)

/-- `by_path.get(path)`: the last of the files of a path. -/
def fileOfPath (ds : List FileDiff) (path : PyStr) : Option FileDiff :=
  ds.reverse.find? fun d => d.path = path

/-- One target of the sidecar; a file that was not asked about is passed over. -/
def TsStage.targetWork (ds : List FileDiff) (t : TsSelected) : Except Raised (List Work) :=
  match fileOfPath ds t.filePath with
  | none => .ok []
  | some d =>
    match stage.refusal t with
    | some (classification, code, detail) =>
      let module := moduleNameFor t.filePath stage.sourceRoots
      .ok [.stated (tsSymbolRecord d.path module t.symbol classification code detail)]
    | none => (stage.proven d t).map fun work => [work]

/-- `_ts_records`. -/
def TsStage.records (tsDiffs : List FileDiff) : Except Raised (List Work) :=
  let runnable := tsDiffs.filter fun d => isRunnable d.path
  let unexercised := (tsDiffs.filter fun d => !isRunnable d.path).map fun d =>
    Work.stated (stage.unexercised d)
  match runnable with
  | [] => .ok unexercised
  | d :: ds =>
    match stage.select (d :: ds) with
    | .error error =>
      .ok (unexercised ++ (d :: ds).map fun d =>
        .stated (stage.fileRecord d .harnessSynthesisFailed (sidecarUnavailable error)))
    | .ok targets => do
      let works ← targets.mapM (stage.targetWork (d :: ds))
      return unexercised ++ works.flatten

end Tempest
