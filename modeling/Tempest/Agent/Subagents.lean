import Tempest.Agent.Orchestrator

/-!
# Subagents — delegated work, depth first and one at a time (`agent/subagents.py`)

`runFleet` walks a tree of specifications.  A node is run or refused with a reason; the names of a
list of siblings are validated when the walk reaches the list, after the parent of the siblings has
run.  Whether the scope is cancelled and what `run_task` does are asked of the `Fleet`.
-/

namespace Tempest

open Python

/-! ## The description of a fleet -/

structure GrantedTask extends TaskSpec where
  grants : Finset PyStr := ∅

structure SubagentSpec where
  name : PyStr
  prompt : PyStr
  children : List SubagentSpec := []
  /-- `None` inherits the grants of the parent. -/
  grants : Option (Finset PyStr) := none
  maxTurns : Option Nat := none
  maxRepairAttempts : Option Nat := none

inductive SubagentError where
  | bounds (maxDepth maxSubagents : Int)
  | unnamed (parent : PyStr)
  /-- A name that would forge a segment of a task id. -/
  | forged (name : PyStr)
  | duplicate (parent name : PyStr)

def SubagentError.message (printable : CodePoint → Bool) : SubagentError → PyStr
  | .bounds maxDepth maxSubagents => lit "a fleet bounded at depth " ++ intText maxDepth ++ lit " / " ++
      intText maxSubagents ++ lit " subagents cannot run anything"
  | .unnamed parent => lit "a subagent of " ++ parent ++ lit " has no name; its worktree would be unnamed"
  | .forged name => lit "subagent name " ++ reprStr printable name ++
      lit " would forge a task id path segment — names are joined to the parent's id with '/' and must not contain one"
  | .duplicate parent name => lit "two subagents of " ++ parent ++ lit " are both named " ++
      reprStr printable name ++
      lit "; they would share a shadow worktree, and neither verdict would be about a change it could name"

inductive Refusal where
  | depth
  | count
  | cancelled
  | grants
  deriving DecidableEq

def Refusal.text : Refusal → PyStr
  | .depth => lit "max depth reached"
  | .count => lit "max subagents reached"
  | .cancelled => lit "cancelled"
  | .grants => lit "grants wider than the parent's"

def segmentMark : CodePoint := codePoint 0x2F

def childId (taskId name : PyStr) : PyStr := taskId ++ segmentMark :: name

/-- The loop of `_validate` over the siblings, behind the names it has seen. -/
def validateFrom (parent : PyStr) : List PyStr → List SubagentSpec → Except SubagentError Unit
  | _, [] => .ok ()
  | names, spec :: specs =>
    if strip spec.name = [] then .error (.unnamed parent)
    else if segmentMark ∈ spec.name ∨ spec.name = lit "." ∨ spec.name = lit ".." then
      .error (.forged spec.name)
    else if spec.name ∈ names then .error (.duplicate parent spec.name)
    else validateFrom parent (spec.name :: names) specs

def validate (parent : PyStr) (specs : List SubagentSpec) : Except SubagentError Unit :=
  validateFrom parent [] specs

/-- The tools of a child: its own selection, or those of the parent. -/
def SubagentSpec.grantsUnder (spec : SubagentSpec) (grants : Finset PyStr) : Finset PyStr :=
  spec.grants.getD grants

/-- A child may narrow its grants and never widen them. -/
def SubagentSpec.permitted (spec : SubagentSpec) (grants : Finset PyStr) : Bool :=
  decide (spec.grantsUnder grants ⊆ grants)

/-- `_child_spec`: the parent's task, narrowed; the money is the root's. -/
def childTask (root parent : GrantedTask) (spec : SubagentSpec) : GrantedTask :=
  { parent with
    taskId := childId parent.taskId spec.name
    prompt := spec.prompt
    grants := spec.grantsUnder parent.grants
    maxTurns := spec.maxTurns.getD parent.maxTurns
    maxRepairAttempts := spec.maxRepairAttempts.getD parent.maxRepairAttempts
    costTaskKey := some root.costKey }

/-! ## The fleet -/

/-- What one delegated piece produced, or the reason why it produced nothing. -/
structure SubagentRun (ρ : Type) where
  name : PyStr
  taskId : PyStr
  depth : Nat
  result : Except Refusal ρ
  children : List (SubagentRun ρ) := []

structure FleetOutcome (ρ : Type) where
  runs : List (SubagentRun ρ)
  spawned : Nat
  stoppedBecause : Option Refusal

/-- The bounds of a fleet, and what it asks: whether the scope is cancelled, at each look, and what
`run_task` makes of a task; `none` is `ProveCancelled`. -/
structure Fleet (ρ : Type) where
  parent : GrantedTask
  maxDepth : Int
  maxSubagents : Int
  cancelled : Nat → Bool
  /-- The flag of a `CancelScope` is set and never cleared. -/
  stays : ∀ {n}, cancelled n = true → cancelled (n + 1) = true
  runTask : Nat → GrantedTask → Option ρ

/-- A task that is handed to `run_task`. -/
structure Started where
  parent : GrantedTask
  task : GrantedTask
  depth : Nat

structure FleetState where
  spawned : Nat := 0
  stopped : Option Refusal := none
  looks : Nat := 0
  started : List Started := []

abbrev FleetTask := Routine SubagentError FleetState

variable {ρ : Type}

mutual

/-- `_refuse`: the descendants are refused for the same reason. -/
def refuse (above : PyStr) (depth : Nat) (reason : Refusal) : SubagentSpec → SubagentRun ρ
  | ⟨name, _, children, _, _, _⟩ =>
    { name := name
      taskId := childId above name
      depth := depth
      result := .error reason
      children := refuseAll (childId above name) (depth + 1) reason children }

def refuseAll (above : PyStr) (depth : Nat) (reason : Refusal) :
    List SubagentSpec → List (SubagentRun ρ)
  | [] => []
  | spec :: specs => refuse above depth reason spec :: refuseAll above depth reason specs

end

/-- `fleet.stopped or reason`. -/
def stopFleet (reason : Refusal) : FleetTask Unit :=
  Routine.modify fun s => { s with stopped := s.stopped.or (some reason) }

def lookCancelled (fleet : Fleet ρ) : FleetTask Bool := fun s =>
  (.ok (fleet.cancelled s.looks), { s with looks := s.looks + 1 })

/-- The reason to refuse a node before it is started, if there is one. -/
def admission (fleet : Fleet ρ) (parent : GrantedTask) (depth : Nat) (spec : SubagentSpec) :
    FleetTask (Option Refusal) :=
  if fleet.maxDepth < depth then pure (some .depth)
  else do
    let cancelled ← lookCancelled fleet
    if cancelled then do
      stopFleet .cancelled
      pure (some .cancelled)
    else do
      let s ← Routine.get
      if fleet.maxSubagents ≤ s.spawned then do
        stopFleet .count
        pure (some .count)
      else if spec.permitted parent.grants then pure none
      else pure (some .grants)

def startTask (fleet : Fleet ρ) (parent task : GrantedTask) (depth : Nat) : FleetTask (Option ρ) :=
  fun s =>
    let s' : FleetState :=
      { s with spawned := s.spawned + 1, started := ⟨parent, task, depth⟩ :: s.started }
    match fleet.runTask s.spawned task with
    | some run => (.ok (some run), s')
    | none => (.ok none, { s' with stopped := s'.stopped.or (some .cancelled) })

mutual

def runOne (fleet : Fleet ρ) (parent : GrantedTask) (depth : Nat) :
    SubagentSpec → FleetTask (SubagentRun ρ)
  | ⟨name, prompt, children, grants, maxTurns, maxRepairAttempts⟩ =>
    let spec : SubagentSpec := ⟨name, prompt, children, grants, maxTurns, maxRepairAttempts⟩
    let task := childTask fleet.parent parent spec
    do
      let refusal ← admission fleet parent depth spec
      match refusal with
      | some reason => pure (refuse parent.taskId depth reason spec)
      | none => do
        let run ← startTask fleet parent task depth
        match run with
        | none => pure (refuse parent.taskId depth .cancelled spec)
        | some run => do
          Routine.ofExcept (validate task.taskId children)
          let runs ← runAll fleet task (depth + 1) children
          pure ⟨name, task.taskId, depth, .ok run, runs⟩

/-- The siblings of a level, one after another. -/
def runAll (fleet : Fleet ρ) (parent : GrantedTask) (depth : Nat) :
    List SubagentSpec → FleetTask (List (SubagentRun ρ))
  | [] => pure []
  | spec :: specs => do
    let run ← runOne fleet parent depth spec
    let runs ← runAll fleet parent depth specs
    pure (run :: runs)

end

def runLevel (fleet : Fleet ρ) (parent : GrantedTask) (depth : Nat) (specs : List SubagentSpec) :
    FleetTask (List (SubagentRun ρ)) := do
  Routine.ofExcept (validate parent.taskId specs)
  runAll fleet parent depth specs

def runFleet (fleet : Fleet ρ) (children : List SubagentSpec) : FleetTask (FleetOutcome ρ) :=
  if fleet.maxSubagents < 0 ∨ fleet.maxDepth < 1 then
    Routine.stop (.bounds fleet.maxDepth fleet.maxSubagents)
  else do
    let runs ← runLevel fleet fleet.parent 1 children
    let s ← Routine.get
    pure ⟨runs, s.spawned, s.stopped⟩

end Tempest
