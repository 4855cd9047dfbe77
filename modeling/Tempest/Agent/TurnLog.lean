import Tempest.Model

/-!
# TurnLog — the durable log of a task and what a restart makes of it (`agent/turnlog.py`)

A row records that a stage of the task has happened; the log only grows.  `planResume` reads the
whole log and says what is left to do.  The numbers of the repair attempts are counted as a set: an
attempt writes one row before its conversation and one after it.
-/

namespace Tempest

open Python

/-! ## Conversations (`inference/client.py`) -/

structure ToolCall where
  id : PyStr
  name : PyStr
  arguments : List (PyStr × Payload)

inductive Role where
  | user
  | assistant
  deriving DecidableEq

structure Message where
  role : Role
  content : PyStr
  toolResultFor : Option PyStr := none
  toolCalls : List ToolCall := []

structure Usage where
  inputTokens : Nat
  outputTokens : Nat

structure Completion where
  provider : PyStr
  model : PyStr
  text : PyStr
  usage : Usage
  toolCalls : List ToolCall := []

structure ToolCallRecord where
  name : PyStr
  arguments : List (PyStr × Payload)
  ok : Bool
  detail : PyStr

structure Transcript where
  history : List Message
  narration : List PyStr := []
  calls : List ToolCallRecord := []

/-! ## Rows -/

/-- The name of a commit, as git prints it. -/
abbrev Sha := { s : PyStr // s ≠ [] }

/-- The targets the engine reached a conclusion about, by qualified name. -/
abbrev Proven := Finmap fun _ : PyStr => Verdict

inductive Stage where
  | started
  | turnsDone
  | proving
  | proved
  | repairAttempt
  | resumed
  | finished
  | pendingApproval
  deriving DecidableEq

def Stage.text : Stage → PyStr
  | .started => lit "started"
  | .turnsDone => lit "turns_done"
  | .proving => lit "proving"
  | .proved => lit "proved"
  | .repairAttempt => lit "repair_attempt"
  | .resumed => lit "resumed"
  | .finished => lit "finished"
  | .pendingApproval => lit "pending_approval"

/-- A checkpoint: one constructor for each payload that is written. -/
inductive LogRow where
  | started (prompt : PyStr) (baseline : Sha)
  | resumed (reason : PyStr) (redoTurns : Bool) (baseline : Sha)
  | turnsDone (turns : Nat) (stopped : PyStr) (transcript : Transcript)
  | pendingApproval (call : ToolCall) (kind : PyStr)
  | proving (base head : Sha)
  | proved (verdict : Verdict) (bundleId : PyStr)
  /-- `number=0, phase="baseline"`. -/
  | repairBaseline (proven : Proven) (contract : PyStr)
  | repairAttempt (number : Nat) (symbol : PyStr)
  /-- `phase="conversed"`. -/
  | repairConversed (number : Nat) (symbol : PyStr) (transcript : Transcript)
  | finished (verdict : Verdict) (bundleId : PyStr) (repaired : Bool)

def LogRow.stage : LogRow → Stage
  | .started _ _ => .started
  | .resumed _ _ _ => .resumed
  | .turnsDone _ _ _ => .turnsDone
  | .pendingApproval _ _ => .pendingApproval
  | .proving _ _ => .proving
  | .proved _ _ => .proved
  | .repairBaseline _ _ => .repairAttempt
  | .repairAttempt _ _ => .repairAttempt
  | .repairConversed _ _ _ => .repairAttempt
  | .finished _ _ _ => .finished

abbrev TurnLog := List LogRow

def LogRow.startedBaseline : LogRow → Option Sha
  | .started _ baseline => some baseline
  | _ => none

def LogRow.attempt : LogRow → Option Nat
  | .repairAttempt number _ => some number
  | .repairConversed number _ _ => some number
  | _ => none

def LogRow.judgedAgainst : LogRow → Option (Proven × PyStr)
  | .repairBaseline proven contract => some (proven, contract)
  | _ => none

def LogRow.recorded : LogRow → Option (Transcript × PyStr × Nat)
  | .turnsDone turns stopped transcript => some (transcript, stopped, turns)
  | .repairConversed _ _ transcript => some (transcript, [], 0)
  | _ => none

/-- `_recorded_baseline`: the baseline of the first `STARTED` row. -/
def recordedBaseline (log : TurnLog) : Option Sha := log.findSome? LogRow.startedBaseline

def repairBaseline (log : TurnLog) : Option (Proven × PyStr) := log.findSome? LogRow.judgedAgainst

def recordedAnswer (log : TurnLog) : Option Verdict × PyStr :=
  match log.getLast? with
  | some (.finished verdict bundleId _) => (some verdict, bundleId)
  | some (.proved verdict bundleId) => (some verdict, bundleId)
  | _ => (none, [])

/-- The newest row with a transcript, and how many rows stand before it. -/
def lastRecorded (log : TurnLog) : Option (Nat × Transcript × PyStr × Nat) :=
  (log.zipIdx.reverse.findSome? fun p => p.1.recorded.map fun r => (p.2, r))

/-! ## Resuming -/

structure ResumePlan where
  finished : Bool
  reprove : Bool
  reason : PyStr
  redoTurns : Bool := true
  baseline : Option Sha := none
  resuming : Bool := false
  repairAttemptsSpent : Nat := 0
  consultedTheLog : Bool := true

def attemptNumbers (log : TurnLog) : Finset Nat := (log.filterMap LogRow.attempt).toFinset

def turnsDone (log : TurnLog) : Bool := log.any fun row => row.stage = .turnsDone

def planResume (log : TurnLog) : ResumePlan :=
  match log.getLast? with
  | none =>
    { finished := false, reprove := false, reason := lit "no history: this is a fresh task" }
  | some last =>
    if last.stage = .finished then
      { finished := true
        reprove := false
        reason := lit "the task already finished; its verdict is recorded"
        redoTurns := false
        baseline := recordedBaseline log
        resuming := true }
    else if last.stage = .proving then
      { finished := false
        reprove := true
        reason := lit "interrupted inside the proof — the model work is recorded, the verdict is not, and a proof is a pure function of its inputs so re-running it is safe"
        redoTurns := !turnsDone log
        baseline := recordedBaseline log
        resuming := true
        repairAttemptsSpent := (attemptNumbers log).card }
    else
      { finished := false
        reprove := false
        reason := lit "interrupted after " ++ last.stage.text ++
          lit "; the remaining stages have not run" ++
          if turnsDone log then [] else lit " and the model turns never completed"
        redoTurns := !turnsDone log
        baseline := recordedBaseline log
        resuming := true
        repairAttemptsSpent := (attemptNumbers log).card }

def freshPlan : ResumePlan where
  finished := false
  reprove := false
  reason := lit "the caller asked for a fresh run"
  consultedTheLog := false

/-! ## What the plan says -/

section Plan

variable {log : TurnLog} {row : LogRow}

theorem planResume_resuming : (planResume log).resuming = true ↔ log ≠ [] := by
  cases hlast : log.getLast? with
  | none =>
    have hnil : log = [] := List.getLast?_eq_none_iff.1 hlast
    simp [planResume, hnil]
  | some last =>
    have hne : log ≠ [] := by
      intro hnil
      simp [hnil] at hlast
    unfold planResume
    rw [hlast]
    dsimp only
    split_ifs <;> simp [hne]

theorem planResume_consulted : (planResume log).consultedTheLog = true := by
  unfold planResume
  split
  · rfl
  · split_ifs <;> rfl

theorem planResume_baseline : (planResume log).baseline = recordedBaseline log := by
  cases hlast : log.getLast? with
  | none =>
    have hnil : log = [] := List.getLast?_eq_none_iff.1 hlast
    simp [planResume, recordedBaseline, hnil]
  | some last =>
    unfold planResume
    rw [hlast]
    dsimp only
    split_ifs <;> rfl

/-- The turns of a task that has begun are redone exactly when none are recorded, and its recorded
attempts are spent. -/
theorem planResume_begun (h : (planResume log).finished = false) :
    (planResume log).redoTurns = (!turnsDone log) ∧
      (planResume log).repairAttemptsSpent = (attemptNumbers log).card := by
  cases hlast : log.getLast? with
  | none =>
    have hnil : log = [] := List.getLast?_eq_none_iff.1 hlast
    simp [planResume, turnsDone, attemptNumbers, hnil]
  | some last =>
    unfold planResume at h ⊢
    rw [hlast] at h ⊢
    dsimp only at h ⊢
    split_ifs at h ⊢ <;> exact ⟨rfl, rfl⟩

end Plan

/-! ## Rows at the end -/

section Append

variable {log : TurnLog} {row : LogRow}

theorem attemptNumbers_append :
    attemptNumbers (log ++ [row]) = attemptNumbers log ∪ row.attempt.toFinset := by
  cases hrow : row.attempt with
  | none => simp [attemptNumbers, List.filterMap_append, hrow]
  | some number =>
    ext n
    simp [attemptNumbers, List.filterMap_append, hrow]

theorem repairBaseline_append :
    repairBaseline (log ++ [row]) = (repairBaseline log).or row.judgedAgainst := by
  simp [repairBaseline, List.findSome?_append]

theorem turnsDone_append :
    turnsDone (log ++ [row]) = (turnsDone log || decide (row.stage = .turnsDone)) := by
  simp [turnsDone]

theorem lastRecorded_append :
    lastRecorded (log ++ [row]) = (row.recorded.map fun r => (log.length, r)).or (lastRecorded log) := by
  cases hrow : row.recorded with
  | none | some _ => simp [lastRecorded, List.zipIdx_append, hrow]

end Append

end Tempest
