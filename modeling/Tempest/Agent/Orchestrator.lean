import Tempest.Agent.Repair
import Tempest.Agent.Shadow

/-!
# Orchestrator — one lifetime of a task (`agent/orchestrator.py`)

`runTask` is the task from the resume plan to the recorded verdict: the conversation or its replay,
the proof, the repair loop.  Models, tools, proofs, the user and git are an `Outside`, asked at the
clock.
-/

namespace Tempest

open Python

/-! ## The task and its outside -/

structure TaskSpec where
  taskId : PyStr
  prompt : PyStr
  maxTurns : Nat
  maxRepairAttempts : Nat
  meter : Option Meter := none
  costSession : PyStr := lit "default"
  costTaskKey : Option PyStr := none

/-- A `ModelError`. -/
inductive ModelFailure where
  | cancelled
  | failed (message : PyStr)

structure ToolResult where
  ok : Bool
  content : PyStr
  truncated : Bool := false

structure ApprovalDecision where
  approved : Bool
  responseText : Option PyStr := none
  reason : PyStr := []

structure Outside where
  repo : Repository
  writes : Nat → Except Stop Unit
  /-- `raise_if_cancelled`. -/
  cancelled : Nat → Except Stop Unit
  steer : Nat → Except Stop (List PyStr)
  complete : Nat → List Message → Except ModelFailure Completion
  today : Nat → PyStr
  costText : CostError → PyStr
  hasApprover : Bool
  approvalNeeded : Nat → PyStr → Bool
  decide : Nat → ToolCall → Except Stop ApprovalDecision
  dispatch : Nat → ToolCall → Except Stop ToolResult
  setUp : Nat → Except Stop Unit
  snapshot : Nat → Except Stop Sha
  prove : Nat → Sha → Sha → Except Stop RunBundle
  changedFiles : Nat → Except Stop (List PyStr)
  /-- `_effective_contract`. -/
  contract : Nat → Except Stop (Option IntentContract)
  contractBytes : Nat → Except Stop PyStr
  /-- `reverted_symbols`. -/
  reverted : Nat → Except Stop (Finset PyStr)
  /-- `_modules_that_stopped_loading`. -/
  broken : Nat → Except Stop (List BrokenModule)
  printable : CodePoint → Bool

variable (spec : TaskSpec) (out : Outside)

/-- `cost_task_key or task_id`. -/
def TaskSpec.costKey : PyStr :=
  match spec.costTaskKey with
  | some key => if key = [] then spec.taskId else key
  | none => spec.taskId

def TaskSpec.charge (answer : Completion) (day : PyStr) : Charge where
  provider := answer.provider
  model := answer.model
  inputTokens := answer.usage.inputTokens
  outputTokens := answer.usage.outputTokens
  key
    | .task => spec.costKey
    | .session => spec.costSession
    | .day => day

/-! ## The conversation -/

def userMessage (content : PyStr) : Message := ⟨.user, content, none, []⟩

def Transcript.say (t : Transcript) (m : Message) : Transcript := { t with history := t.history ++ [m] }

/-- What goes back to the model; a cut answer says so. -/
def summarise (r : ToolResult) : PyStr :=
  if r.truncated then r.content ++ lit "\n[truncated by the host's budget]" else r.content

/-- `complete()`: a cancelled call unwinds, any other failure is handed to the loop. -/
def callModel (history : List Message) : Task (Except PyStr Completion) := op fun w =>
  match out.complete w.clock history with
  | .error .cancelled =>
    (.error .cancelledCall, { w with trace := .called :: w.trace })
  | .error (.failed message) => (.ok (.error message), { w with trace := .called :: w.trace })
  | .ok answer =>
    (.ok (.ok answer),
      { w with trace := .returned answer :: .called :: w.trace })

/-- `Meter.spend` of an answer; a cost error is the reason to end the loop. -/
def spendTurn (answer : Completion) : Task (Option PyStr) :=
  match spec.meter with
  | none => pure none
  | some meter => op fun w =>
    let charge := spec.charge answer (out.today w.clock)
    let trace := .spent w.ledger charge :: w.trace
    match meter.spend w.ledger charge with
    | (.ok _, ledger) => (.ok none, { w with ledger := ledger, trace := trace })
    | (.error (.cost e), ledger) =>
      (.ok (some (out.costText e)), { w with ledger := ledger, trace := .refused e :: trace })
    | (.error .unprintable, ledger) =>
      (.error .unprintable, { w with ledger := ledger, trace := trace })

def askUser : PyStr := lit "ask_user"

/-- `s.rstrip(": ")`. -/
def rstripColon (s : PyStr) : PyStr :=
  (s.reverse.dropWhile fun c => c = codePoint 0x3A || c = codePoint 0x20).reverse

/-- `_dispatch_with_approval`: the question is in the log before it is asked. -/
def dispatchWithApproval (call : ToolCall) : Task ToolResult := do
  let needed ← ask fun t => .ok (out.hasApprover && out.approvalNeeded t call.name)
  if needed then do
    let question := decide (call.name = askUser)
    checkpoint out.writes (.pendingApproval call
      (if question then lit "ask_user_question" else lit "tool_approval"))
    let decision ← ask fun t => out.decide t call
    if question then
      if decision.approved then pure ⟨true, decision.responseText.getD [], false⟩
      else pure ⟨false, rstripColon (lit "the user declined to answer: " ++ decision.reason), false⟩
    else if decision.approved then ask fun t => out.dispatch t call
    else
      pure ⟨false, call.name ++ lit " was refused by the user" ++
        (if decision.reason = [] then [] else lit ": " ++ decision.reason), false⟩
  else ask fun t => out.dispatch t call

def dispatchAll : List ToolCall → Transcript → Task Transcript
  | [], t => pure t
  | call :: calls, t => do
    ask out.cancelled
    let result ← dispatchWithApproval out call
    let record : ToolCallRecord := ⟨call.name, call.arguments, result.ok, result.content.take 2000⟩
    dispatchAll calls
      { t with
        calls := t.calls ++ [record]
        history := t.history ++ [⟨.user, summarise result, some call.id, []⟩] }

/-- One pass of the loop over the turns, with the reason to stop if there is one. -/
def converseTurn (t : Transcript) : Task (Transcript × Option PyStr) := do
  ask out.cancelled
  let steers ← ask out.steer
  let t := { t with history := t.history ++ steers.map userMessage }
  let answer ← callModel out t.history
  match answer with
  | .error message => pure (t, some (lit "model unavailable: " ++ message))
  | .ok answer => do
    let refusal ← spendTurn spec out answer
    match refusal with
    | some why => pure (t, some (lit "cost cap reached: " ++ why))
    | none =>
      let narrated :=
        if answer.text = [] then t else { t with narration := t.narration ++ [answer.text] }
      if answer.toolCalls = [] then pure (narrated, some (lit "the model finished"))
      else do
        let asked := narrated.say ⟨.assistant, answer.text, none, answer.toolCalls⟩
        let answered ← dispatchAll out answer.toolCalls asked
        pure (answered, none)

def converseFrom : Nat → Nat → Transcript → Task (Transcript × PyStr × Nat)
  | 0, used, t =>
    pure (t, lit "turn budget spent (" ++ natText spec.maxTurns ++ lit ")", used)
  | left + 1, used, t => do
    let turn ← converseTurn spec out t
    match turn with
    | (t, some why) => pure (t, why, used + 1)
    | (t, none) => converseFrom left (used + 1) t

def converse (t : Transcript) : Task (Transcript × PyStr × Nat) :=
  converseFrom spec out spec.maxTurns 0 t

/-- `_replay_turns`: the newest transcript of the log in place of the fresh prompt. -/
def replayTurns (shadow : Shadow) (fresh : Transcript) : Task (Transcript × PyStr × Nat) := do
  let world ← look id
  match lastRecorded world.log with
  | none => pure (fresh, [], 0)
  | some (row, recorded, stopped, turns) => do
    note (.replayed row world.disk.worktree shadow.baseline)
    let history := if recorded.history = [] then fresh.history else recorded.history
    pure (⟨history, fresh.narration ++ recorded.narration, fresh.calls ++ recorded.calls⟩,
      stopped, turns)

/-! ## The proof -/

structure ProvenChange where
  verdict : Verdict
  bundleId : PyStr
  changedFiles : List PyStr
  divergenceCount : Nat
  baseline : Sha
  head : Sha

structure Proof where
  bundle : RunBundle
  change : ProvenChange
  divergences : List ClassifiedDivergence

def bundleId (b : RunBundle) : PyStr :=
  b.manifest.baseSha.take 12 ++ lit ".." ++ b.manifest.headSha.take 12

def proveAndClassify (shadow : Shadow) : Task Proof := do
  let head ← ask out.snapshot
  checkpoint out.writes (.proving shadow.baseline head)
  let bundle ← ask fun t => out.prove t shadow.baseline head
  let files ← ask out.changedFiles
  let verdict := runVerdict bundle.targets
  checkpoint out.writes (.proved verdict (bundleId bundle))
  let contract ← ask out.contract
  pure
    { bundle := bundle
      change :=
        { verdict := verdict
          bundleId := bundleId bundle
          changedFiles := files
          divergenceCount := (bundle.targets.map fun t => t.divergences.length).sum
          baseline := shadow.baseline
          head := head }
      divergences := classified contract bundle.targets }

/-! ## The repair loop -/

structure RepairAttempt where
  number : Nat
  packet : EvidencePacket
  unintendedAfter : Nat
  unclassifiedAfter : Nat
  cheat : PyStr := []

structure RepairOutcome where
  succeeded : Bool
  attempts : List RepairAttempt
  reason : PyStr
  abandoned : Bool := false

/-- What every attempt of a loop is judged against. -/
structure Yardstick where
  before : Proven
  contract : PyStr

/-- Where the loop stands between two attempts. -/
structure RepairState where
  transcript : Transcript
  attempts : List RepairAttempt := []
  targets : List TargetRecord
  divergences : List ClassifiedDivergence
  reason : PyStr

def judgeAttempt (shadow : Shadow) (yardstick : Yardstick) (number : Nat) (packet : EvidencePacket)
    (s : RepairState) : Task (RepairState × Option RepairOutcome) := do
  let proof ← proveAndClassify out shadow
  let files ← ask out.changedFiles
  let targets := proof.bundle.targets
  if files = [] then
    let attempts := s.attempts ++ [⟨number, packet, 0, 0, []⟩]
    pure (s, some ⟨false, attempts, lit "the agent reverted its own change — the divergence is gone because the work is, so there is nothing to present", true⟩)
  else do
    let contractAfter ← ask out.contractBytes
    let reverted ← ask out.reverted
    let broken ← ask out.broken
    note (.judged number yardstick.before yardstick.contract)
    let judgement := judge yardstick.before targets proof.divergences yardstick.contract
      contractAfter reverted broken
    let cheat := if judgement.cheat then judgement.reason else []
    let attempts := s.attempts ++ [⟨number, packet, count .unintended proof.divergences,
      count .unclassified proof.divergences, cheat⟩]
    let next := ⟨s.transcript, attempts, targets, proof.divergences, judgement.reason⟩
    if judgement.succeeded || judgement.cheat then
      pure (next, some ⟨judgement.succeeded, attempts, judgement.reason, false⟩)
    else pure (next, none)

def repairAttempt (shadow : Shadow) (yardstick : Yardstick) (number : Nat) (packet : EvidencePacket)
    (s : RepairState) : Task (RepairState × Option RepairOutcome) := do
  checkpoint out.writes (.repairAttempt number packet.qualname)
  note (.repairing number)
  let conversed ← converse spec out (s.transcript.say (userMessage packet.render))
  checkpoint out.writes (.repairConversed number packet.qualname conversed.1)
  judgeAttempt out shadow yardstick number packet { s with transcript := conversed.1 }

def repairAttempts (shadow : Shadow) (contract : IntentContract) (yardstick : Yardstick) :
    Nat → Nat → RepairState → Task (RepairOutcome × Transcript)
  | 0, _, s => pure (⟨false, s.attempts, s.reason, false⟩, s.transcript)
  | left + 1, number, s =>
    match firstOffender out.printable s.targets s.divergences contract with
    | none => pure (⟨false, s.attempts, s.reason, false⟩, s.transcript)
    | some packet => do
      let attempted ← repairAttempt spec out shadow yardstick number packet s
      match attempted with
      | (s, some outcome) => pure (outcome, s.transcript)
      | (s, none) => repairAttempts shadow contract yardstick left (number + 1) s

/-- The loop has nothing left to repair, but a process before this one ran attempts. -/
def outlived (spentAttempts : Nat) (recorded : Option (Proven × PyStr)) (targets : List TargetRecord) :
    RepairOutcome :=
  let lost := lostTargets ((recorded.map Prod.fst).getD ∅) (provenTargets targets)
  { succeeded := lost = ∅
    attempts := []
    reason := natText spentAttempts ++
      lit " repair attempt(s) ran in a process that did not survive to judge them" ++
      if lost = ∅ then lit "; nothing this process can still check is wrong"
      else lit "; targets that were provable before are not now: " ++
        join (lit ", ") (sortedNames lost) }

def budgetSpent : RepairOutcome where
  succeeded := false
  attempts := []
  reason := lit "the repair budget of " ++ natText spec.maxRepairAttempts ++
    lit " attempt(s) was already spent before this process started"

def takeYardstick (recorded : Option (Proven × PyStr)) (targets : List TargetRecord) :
    Task Yardstick :=
  match recorded with
  | some (before, contract) => pure ⟨before, contract⟩
  | none => do
    let contract ← ask out.contractBytes
    checkpoint out.writes (.repairBaseline (provenTargets targets) contract)
    pure ⟨provenTargets targets, contract⟩

def repairLoop (shadow : Shadow) (t : Transcript) (first : Proof) (spentAttempts : Nat) :
    Task (Option RepairOutcome × Transcript) := do
  let recorded ← look fun w => repairBaseline w.log
  let contract ← ask out.contract
  match contract with
  | none => pure (none, t)
  | some contract =>
    if spec.maxRepairAttempts = 0 then pure (none, t)
    else if !needsRepair first.divergences then
      if spentAttempts = 0 then pure (none, t)
      else pure (some (outlived spentAttempts recorded first.bundle.targets), t)
    else if spec.maxRepairAttempts ≤ spentAttempts then pure (some (budgetSpent spec), t)
    else do
      let yardstick ← takeYardstick out recorded first.bundle.targets
      let ended ← repairAttempts spec out shadow contract yardstick
        (spec.maxRepairAttempts - spentAttempts) (spentAttempts + 1)
        ⟨t, [], first.bundle.targets, first.divergences, lit "the budget was spent before the divergence set matched the contract"⟩
      pure (some ended.1, ended.2)

/-! ## The task -/

structure AgentRun where
  change : ProvenChange
  narration : List PyStr
  calls : List ToolCallRecord
  turnsUsed : Nat
  divergences : List ClassifiedDivergence
  repair : Option RepairOutcome
  stoppedBecause : PyStr

def replan (plan : ResumePlan) (staging : Staging) : ResumePlan :=
  if plan.resuming && !staging.continuesTheRecord then
    { plan with
      redoTurns := true
      reason := plan.reason ++ lit "; the shadow worktree was rebuilt, so the recorded turns describe edits that no longer exist and are being re-run rather than replayed" }
  else plan

def announcement (plan : ResumePlan) (shadow : Shadow) : LogRow :=
  if plan.resuming then .resumed plan.reason plan.redoTurns shadow.baseline
  else .started spec.prompt shadow.baseline

def takeTurns (plan : ResumePlan) (shadow : Shadow) : Task (Transcript × PyStr × Nat) :=
  let fresh : Transcript := ⟨[userMessage spec.prompt], [], []⟩
  if plan.redoTurns then do
    let conversed ← converse spec out fresh
    checkpoint out.writes (.turnsDone conversed.2.2 conversed.2.1 conversed.1)
    pure conversed
  else replayTurns shadow fresh

/-- Whether the loop proved the tree again. -/
def reproved : Option RepairOutcome → Bool
  | some outcome => !outcome.attempts.isEmpty
  | none => false

def repairSucceeded : Option RepairOutcome → Bool
  | some outcome => outcome.succeeded
  | none => false

/-- The proof the user sees: the one after the repairs, if there were any. -/
def lastProof (shadow : Shadow) (repair : Option RepairOutcome) (first : Proof) : Task Proof :=
  if reproved repair then proveAndClassify out shadow else pure first

def concludeTask (shadow : Shadow) (spentAttempts : Nat) (turns : Transcript × PyStr × Nat) :
    Task AgentRun := do
  let first ← proveAndClassify out shadow
  let repair ← repairLoop spec out shadow turns.1 first spentAttempts
  let last ← lastProof out shadow repair.1 first
  checkpoint out.writes
    (.finished last.change.verdict last.change.bundleId (repairSucceeded repair.1))
  pure
    { change := last.change
      narration := repair.2.narration
      calls := repair.2.calls
      turnsUsed := turns.2.2
      divergences := last.divergences
      repair := repair.1
      stoppedBecause := turns.2.1 }

def runPlan (plan : ResumePlan) : Task AgentRun := do
  let staging ← shadowFor out.repo plan
  let plan := replan plan staging
  ask out.setUp
  checkpoint out.writes (announcement spec plan staging.shadow)
  let turns ← takeTurns spec out plan staging.shadow
  concludeTask spec out staging.shadow plan.repairAttemptsSpent turns

def runTask (resume : Bool) : Task AgentRun := do
  note (.began resume)
  let log ← look World.log
  let plan := if resume then planResume log else freshPlan
  if plan.finished then Routine.stop (.alreadyFinished (recordedAnswer log).1 (recordedAnswer log).2)
  else runPlan spec out plan

end Tempest
