import Tempest.Agent.Subagents

/-!
# Fleet — what the outcome of a fleet accounts for

The walk keeps `Lawful`: what was started is counted and bounded, narrows its parent and charges the
root.  The runs mirror the specifications.  The siblings of a level are validated when the walk
arrives, so a fleet is accounted for in every run exactly when no level that a run can reach is
badly named (`Describable`), and when there is a key to charge.
-/

namespace Tempest

open Python

variable {ρ : Type}

/-! ## What an outcome says -/

mutual

/-- A run stands for a specification: the same name, the same children. -/
def Mirrors (above : PyStr) (depth : Nat) : SubagentSpec → SubagentRun ρ → Prop
  | ⟨name, _, children, _, _, _⟩, run =>
    run.name = name ∧ run.taskId = childId above name ∧ run.depth = depth ∧
      MirrorsAll (childId above name) (depth + 1) children run.children

def MirrorsAll (above : PyStr) (depth : Nat) : List SubagentSpec → List (SubagentRun ρ) → Prop
  | [], [] => True
  | spec :: specs, run :: runs => Mirrors above depth spec run ∧ MirrorsAll above depth specs runs
  | _, _ => False

end

mutual

def AllRefused : SubagentRun ρ → Prop
  | ⟨_, _, _, result, children⟩ => (∃ reason, result = .error reason) ∧ EachAllRefused children

def EachAllRefused : List (SubagentRun ρ) → Prop
  | [] => True
  | run :: runs => AllRefused run ∧ EachAllRefused runs

end

mutual

def RefusedBelow : SubagentRun ρ → Prop
  | ⟨_, _, _, result, children⟩ =>
    (∀ reason, result = .error reason → EachAllRefused children) ∧ EachRefusedBelow children

def EachRefusedBelow : List (SubagentRun ρ) → Prop
  | [] => True
  | run :: runs => RefusedBelow run ∧ EachRefusedBelow runs

end

/-- What holds of a task that is handed to `run_task`. -/
structure Started.Lawful (fleet : Fleet ρ) (e : Started) : Prop where
  depth : (e.depth : Int) ≤ fleet.maxDepth
  narrowed : e.task.grants ⊆ e.parent.grants
  charged : e.task.costKey = fleet.parent.costKey

structure FleetState.Lawful (fleet : Fleet ρ) (s : FleetState) : Prop where
  counted : s.spawned = s.started.length
  bounded : (s.spawned : Int) ≤ fleet.maxSubagents
  started : ∀ e ∈ s.started, e.Lawful fleet

def Accounted (fleet : Fleet ρ) (children : List SubagentSpec) : Prop :=
  match runFleet fleet children {} with
  | (.error _, s) => s.started = []
  | (.ok outcome, s) =>
    MirrorsAll fleet.parent.taskId 1 children outcome.runs ∧ EachRefusedBelow outcome.runs ∧
      outcome.spawned = s.spawned ∧ s.Lawful fleet

/-! ## When a fleet can be accounted for -/

/-- How many subagents a node adds to those that are started, if it is not cancelled or too many. -/
def SubagentSpec.starts (spec : SubagentSpec) (grants : Finset PyStr) : Nat :=
  if spec.permitted grants then 1 else 0

mutual

/-- The children of a node are well named if a run can reach them: `spent` is the least number of
subagents that are started before the node. -/
def Describable (maxDepth maxSubagents : Int) (above : PyStr) (grants : Finset PyStr)
    (depth spent : Nat) : SubagentSpec → Prop
  | ⟨name, _, children, own, _, _⟩ =>
    (depth : Int) ≤ maxDepth → (spent : Int) < maxSubagents →
      validate (childId above name) children = .ok () ∧
        DescribableAll maxDepth maxSubagents (childId above name) (own.getD grants) (depth + 1)
          (spent + 1) children

def DescribableAll (maxDepth maxSubagents : Int) (above : PyStr) (grants : Finset PyStr)
    (depth spent : Nat) : List SubagentSpec → Prop
  | [] => True
  | spec :: specs =>
    (spec.permitted grants = true →
      Describable maxDepth maxSubagents above grants depth spent spec) ∧
    DescribableAll maxDepth maxSubagents above grants depth (spent + spec.starts grants) specs

end

def Startable (maxSubagents : Int) (grants : Finset PyStr) (specs : List SubagentSpec) : Prop :=
  0 < maxSubagents ∧ ∃ spec ∈ specs, spec.permitted grants = true

/-- The fleets that are accounted for whatever is cancelled and whatever the tasks do. -/
def Reportable (root : GrantedTask) (maxDepth maxSubagents : Int) (specs : List SubagentSpec) :
    Prop :=
  maxSubagents < 0 ∨ maxDepth < 1 ∨ validate root.taskId specs ≠ .ok () ∨
    DescribableAll maxDepth maxSubagents root.taskId root.grants 1 0 specs ∧
      (root.costKey = [] → ¬ Startable maxSubagents root.grants specs)

/-! ## What is refused -/

mutual

theorem mirrors_refuse (above : PyStr) (depth : Nat) (reason : Refusal) :
    ∀ spec : SubagentSpec, Mirrors above depth spec (refuse above depth reason spec : SubagentRun ρ)
  | ⟨name, _, children, _, _, _⟩ =>
    ⟨rfl, rfl, rfl, mirrorsAll_refuseAll (childId above name) (depth + 1) reason children⟩

theorem mirrorsAll_refuseAll (above : PyStr) (depth : Nat) (reason : Refusal) :
    ∀ specs : List SubagentSpec,
      MirrorsAll above depth specs (refuseAll above depth reason specs : List (SubagentRun ρ))
  | [] => trivial
  | spec :: specs =>
    ⟨mirrors_refuse above depth reason spec, mirrorsAll_refuseAll above depth reason specs⟩

end

mutual

theorem allRefused_refuse (above : PyStr) (depth : Nat) (reason : Refusal) :
    ∀ spec : SubagentSpec, AllRefused (refuse above depth reason spec : SubagentRun ρ)
  | ⟨name, _, children, _, _, _⟩ =>
    ⟨⟨reason, rfl⟩, eachAllRefused_refuseAll (childId above name) (depth + 1) reason children⟩

theorem eachAllRefused_refuseAll (above : PyStr) (depth : Nat) (reason : Refusal) :
    ∀ specs : List SubagentSpec,
      EachAllRefused (refuseAll above depth reason specs : List (SubagentRun ρ))
  | [] => trivial
  | spec :: specs =>
    ⟨allRefused_refuse above depth reason spec, eachAllRefused_refuseAll above depth reason specs⟩

end

mutual

theorem refusedBelow_of_allRefused : ∀ {run : SubagentRun ρ}, AllRefused run → RefusedBelow run
  | ⟨_, _, _, _, _⟩, ⟨_, hbelow⟩ => ⟨fun _ _ => hbelow, eachRefusedBelow_of_eachAllRefused hbelow⟩

theorem eachRefusedBelow_of_eachAllRefused :
    ∀ {runs : List (SubagentRun ρ)}, EachAllRefused runs → EachRefusedBelow runs
  | [], _ => trivial
  | _ :: _, ⟨hrun, hruns⟩ =>
    ⟨refusedBelow_of_allRefused hrun, eachRefusedBelow_of_eachAllRefused hruns⟩

end

/-! ## What the walk keeps -/

/-- At least `spent` subagents are started, or none can be started any more. -/
def Behind (fleet : Fleet ρ) (spent : Nat) (s : FleetState) : Prop :=
  spent ≤ s.spawned ∨ fleet.maxSubagents ≤ s.spawned ∨ fleet.cancelled s.looks = true

variable {fleet : Fleet ρ}

theorem Behind.mono {spent less : Nat} {s : FleetState} (h : Behind fleet spent s)
    (hless : less ≤ spent) : Behind fleet less s :=
  h.imp_left hless.trans

theorem childTask_costKey (root parent : GrantedTask) (spec : SubagentSpec)
    (hkey : root.costKey ≠ []) : (childTask root parent spec).costKey = root.costKey := by
  change (if root.costKey = [] then _ else root.costKey) = root.costKey
  rw [if_neg hkey]

theorem childTask_costKey_of_nil (root parent : GrantedTask) (spec : SubagentSpec)
    (hkey : root.costKey = []) :
    (childTask root parent spec).costKey = childId parent.taskId spec.name := by
  change (if root.costKey = [] then childId parent.taskId spec.name else root.costKey) = _
  rw [if_pos hkey]

variable {depth : Nat} {parent : GrantedTask} {spec : SubagentSpec}

/-- A task that starts is within the bounds of the fleet, and the bookkeeping stays lawful. -/
theorem FleetState.Lawful.start {s : FleetState} (h : s.Lawful fleet)
    (hdepth : (depth : Int) ≤ fleet.maxDepth) (hroom : (s.spawned : Int) < fleet.maxSubagents)
    (hpermitted : spec.permitted parent.grants = true) (hkey : fleet.parent.costKey ≠ [])
    (stopped : Option Refusal) :
    FleetState.Lawful fleet { s with
      spawned := s.spawned + 1
      stopped := stopped
      started := ⟨parent, childTask fleet.parent parent spec, depth⟩ :: s.started } where
  counted := by simp [h.counted]
  bounded := by
    have := hroom
    simp only [Nat.cast_add, Nat.cast_one]
    omega
  started := by
    intro e he
    rcases List.mem_cons.mp he with rfl | he
    · exact ⟨hdepth, of_decide_eq_true hpermitted, childTask_costKey _ _ _ hkey⟩
    · exact h.started e he

/-- Above the deepest level: the scope is looked at first, then the count, then the grants. -/
theorem admission_run (fleet : Fleet ρ) (parent : GrantedTask) (depth : Nat) (spec : SubagentSpec)
    (hdepth : (depth : Int) ≤ fleet.maxDepth) (s : FleetState) :
    admission fleet parent depth spec s =
      if fleet.cancelled s.looks then
        (.ok (some .cancelled),
          { s with looks := s.looks + 1, stopped := s.stopped.or (some .cancelled) })
      else if fleet.maxSubagents ≤ s.spawned then
        (.ok (some .count), { s with looks := s.looks + 1, stopped := s.stopped.or (some .count) })
      else (.ok (if spec.permitted parent.grants then none else some .grants),
        { s with looks := s.looks + 1 }) := by
  have hdeep : ¬ fleet.maxDepth < depth := not_lt.mpr hdepth
  simp only [admission, hdeep, if_false, Routine.bind_run, lookCancelled]
  split
  · rfl
  · simp only [Routine.bind_run, Routine.get]
    split
    · rfl
    · split <;> rfl

theorem admission_meets (fleet : Fleet ρ) (parent : GrantedTask) (depth spent : Nat)
    (spec : SubagentSpec) (hdepth : (depth : Int) ≤ fleet.maxDepth) :
    Routine.Meets (fun s => s.Lawful fleet ∧ Behind fleet spent s) (admission fleet parent depth spec)
      (fun refusal s => match refusal with
        | none => (s.Lawful fleet ∧ spent ≤ s.spawned ∧ (s.spawned : Int) < fleet.maxSubagents) ∧
            spec.permitted parent.grants = true ∧ (spent : Int) < fleet.maxSubagents
        | some _ => s.Lawful fleet ∧ Behind fleet (spent + spec.starts parent.grants) s)
      (fun _ => False) := by
  rintro s ⟨hlawful, hbehind⟩
  have hkept (looks : Nat) (stopped : Option Refusal) :
      FleetState.Lawful fleet { s with looks := looks, stopped := stopped } :=
    ⟨hlawful.counted, hlawful.bounded, hlawful.started⟩
  rw [admission_run fleet parent depth spec hdepth]
  split
  case isTrue hcancelled => exact ⟨hkept _ _, .inr (.inr (fleet.stays hcancelled))⟩
  case isFalse hcancelled =>
    split
    case isTrue hfull => exact ⟨hkept _ _, .inr (.inl hfull)⟩
    case isFalse hfull =>
      have hspent : spent ≤ s.spawned := hbehind.resolve_right (not_or.mpr ⟨hfull, hcancelled⟩)
      by_cases hpermitted : spec.permitted parent.grants = true
      · rw [if_pos hpermitted]
        exact ⟨⟨hkept _ _, hspent, not_le.mp hfull⟩, hpermitted, by omega⟩
      · rw [if_neg hpermitted]
        refine ⟨hkept _ _, .inl ?_⟩
        simpa [SubagentSpec.starts, hpermitted] using hspent

theorem startTask_meets (fleet : Fleet ρ) (parent : GrantedTask) (depth spent : Nat)
    (spec : SubagentSpec) (hdepth : (depth : Int) ≤ fleet.maxDepth)
    (hpermitted : spec.permitted parent.grants = true) (hkey : fleet.parent.costKey ≠ []) :
    Routine.Meets
      (fun s => s.Lawful fleet ∧ spent ≤ s.spawned ∧ (s.spawned : Int) < fleet.maxSubagents)
      (startTask fleet parent (childTask fleet.parent parent spec) depth)
      (fun _ s => s.Lawful fleet ∧ Behind fleet (spent + 1) s)
      (fun _ => False) := by
  rintro s ⟨hlawful, hspent, hroom⟩
  unfold startTask
  cases fleet.runTask s.spawned (childTask fleet.parent parent spec) with
  | some _ | none =>
    exact ⟨hlawful.start hdepth hroom hpermitted hkey _, .inl (Nat.succ_le_succ hspent)⟩

/-- Below the deepest level every node is refused. -/
theorem runAll_below (fleet : Fleet ρ) (parent : GrantedTask) (depth : Nat)
    (hdepth : fleet.maxDepth < depth) (s : FleetState) :
    ∀ specs : List SubagentSpec,
      runAll fleet parent depth specs s = (.ok (refuseAll parent.taskId depth .depth specs), s)
  | [] => rfl
  | ⟨name, prompt, children, grants, maxTurns, maxRepairAttempts⟩ :: specs => by
    have hrest := runAll_below fleet parent depth hdepth s specs
    simp only [runAll, runOne, admission, hdepth, if_true, Routine.bind_run, Routine.pure_run, hrest,
      refuseAll]

mutual

theorem runOne_meets (fleet : Fleet ρ) :
    ∀ (spec : SubagentSpec) (parent : GrantedTask) (depth spent : Nat),
      (depth : Int) ≤ fleet.maxDepth →
      (spec.permitted parent.grants = true → (spent : Int) < fleet.maxSubagents →
        fleet.parent.costKey ≠ []) →
      (spec.permitted parent.grants = true → Describable fleet.maxDepth fleet.maxSubagents
        parent.taskId parent.grants depth spent spec) →
      Routine.Meets (fun s => s.Lawful fleet ∧ Behind fleet spent s) (runOne fleet parent depth spec)
        (fun run s => (s.Lawful fleet ∧ Behind fleet (spent + spec.starts parent.grants) s) ∧
          Mirrors parent.taskId depth spec run ∧ RefusedBelow run)
        (fun _ => False)
  | ⟨name, prompt, children, grants, maxTurns, maxRepairAttempts⟩, parent, depth, spent, hdepth,
      hkeyed, hdescribable => by
      unfold runOne
      refine (admission_meets fleet parent depth spent _ hdepth).bind fun refusal => ?_
      cases refusal with
      | some reason =>
        exact .pure fun s hs =>
          ⟨hs, mirrors_refuse _ _ _ _, refusedBelow_of_allRefused (allRefused_refuse _ _ _ _)⟩
      | none =>
        refine .fact fun ⟨hpermitted, hroom⟩ => ?_
        have hkey := hkeyed hpermitted hroom
        have hstarts : SubagentSpec.starts
            ⟨name, prompt, children, grants, maxTurns, maxRepairAttempts⟩ parent.grants = 1 :=
          if_pos hpermitted
        rw [hstarts]
        refine (startTask_meets fleet parent depth spent _ hdepth hpermitted hkey).bind fun run => ?_
        cases run with
        | none =>
          exact .pure fun s hs =>
            ⟨hs, mirrors_refuse _ _ _ _, refusedBelow_of_allRefused (allRefused_refuse _ _ _ _)⟩
        | some run =>
          obtain ⟨hvalid, hchildren⟩ := hdescribable hpermitted hdepth hroom
          have hnamed : validate (childTask fleet.parent parent
              ⟨name, prompt, children, grants, maxTurns, maxRepairAttempts⟩).taskId children =
              .ok () := hvalid
          rw [hnamed]
          have hlevel := runAll_meets fleet children (childTask fleet.parent parent
            ⟨name, prompt, children, grants, maxTurns, maxRepairAttempts⟩) (depth + 1) (spent + 1)
            (fun _ _ _ _ => hkey) hchildren
          refine .bind (R := fun _ (s : FleetState) => s.Lawful fleet ∧ Behind fleet (spent + 1) s)
            (fun _ hs => hs) fun _ => ?_
          refine hlevel.bind fun runs => ?_
          exact .pure fun s hs => ⟨hs.1, ⟨rfl, rfl, rfl, hs.2.1⟩,
            fun reason h => (by cases h), hs.2.2⟩

theorem runAll_meets (fleet : Fleet ρ) :
    ∀ (specs : List SubagentSpec) (parent : GrantedTask) (depth spent : Nat),
      (∀ spec ∈ specs, spec.permitted parent.grants = true → (spent : Int) < fleet.maxSubagents →
        fleet.parent.costKey ≠ []) →
      DescribableAll fleet.maxDepth fleet.maxSubagents parent.taskId parent.grants depth spent specs →
      Routine.Meets (fun s => s.Lawful fleet ∧ Behind fleet spent s) (runAll fleet parent depth specs)
        (fun runs s => (s.Lawful fleet ∧ Behind fleet spent s) ∧
          MirrorsAll parent.taskId depth specs runs ∧ EachRefusedBelow runs)
        (fun _ => False)
  | [], _, _, _, _, _ => .pure fun _ hs => ⟨hs, trivial, trivial⟩
  | spec :: specs, parent, depth, spent, hkeyed, ⟨hspec, hspecs⟩ => by
    by_cases hdepth : (depth : Int) ≤ fleet.maxDepth
    · unfold runAll
      refine (runOne_meets fleet spec parent depth spent hdepth (hkeyed spec List.mem_cons_self)
        hspec).bind fun run => ?_
      refine .fact fun hrun => ?_
      have hlater : ∀ later ∈ specs, later.permitted parent.grants = true →
          ((spent + spec.starts parent.grants : Nat) : Int) < fleet.maxSubagents →
          fleet.parent.costKey ≠ [] := fun later hmem hpermitted hroom =>
        hkeyed later (List.mem_cons_of_mem _ hmem) hpermitted (by omega)
      refine (runAll_meets fleet specs parent depth _ hlater hspecs).bind fun runs => ?_
      exact .pure fun s hs => ⟨⟨hs.1.1, hs.1.2.mono (Nat.le_add_right _ _)⟩,
        ⟨hrun.1, hs.2.1⟩, hrun.2, hs.2.2⟩
    · intro s hs
      rw [runAll_below fleet parent depth (not_le.mp hdepth)]
      exact ⟨hs, mirrorsAll_refuseAll _ _ _ _,
        eachRefusedBelow_of_eachAllRefused (eachAllRefused_refuseAll _ _ _ _)⟩

end

/-! ## Runs that reach a badly named level -/

theorem describableAll_of_full {maxDepth maxSubagents : Int} :
    ∀ (specs : List SubagentSpec) {above : PyStr} {grants : Finset PyStr} {depth spent : Nat},
      maxSubagents ≤ spent → DescribableAll maxDepth maxSubagents above grants depth spent specs
  | [], _, _, _, _, _ => trivial
  | ⟨_, _, _, _, _, _⟩ :: specs, _, _, _, _, hfull =>
    ⟨fun _ _ hroom => absurd hroom (not_lt.mpr hfull),
      describableAll_of_full specs (by push_cast; omega)⟩

theorem describableAll_of_deep {maxDepth maxSubagents : Int} :
    ∀ (specs : List SubagentSpec) {above : PyStr} {grants : Finset PyStr} {depth spent : Nat},
      maxDepth < depth → DescribableAll maxDepth maxSubagents above grants depth spent specs
  | [], _, _, _, _, _ => trivial
  | ⟨_, _, _, _, _, _⟩ :: specs, _, _, _, _, hdeep =>
    ⟨fun _ hdepth => absurd hdepth (not_le.mpr hdeep), describableAll_of_deep specs hdeep⟩

/-- A fleet in which nothing is cancelled from outside, and the tasks end as `answers` says. -/
def answering (parent : GrantedTask) (maxDepth maxSubagents : Int) (answers : Nat → Option ρ) :
    Fleet ρ where
  parent := parent
  maxDepth := maxDepth
  maxSubagents := maxSubagents
  cancelled _ := false
  stays h := h
  runTask count _ := answers count

/-! ### One node, from what its admission and its task come to -/

section Node

variable {fleet : Fleet ρ} {parent : GrantedTask} {depth : Nat} {s s' s'' : FleetState}

theorem runOne_refused {reason : Refusal} :
    ∀ {spec : SubagentSpec}, admission fleet parent depth spec s = (.ok (some reason), s') →
      runOne fleet parent depth spec s = (.ok (refuse parent.taskId depth reason spec), s')
  | ⟨_, _, _, _, _, _⟩, h => by
    unfold runOne
    rw [Routine.bind_run, h]
    rfl

theorem runOne_cancelled :
    ∀ {spec : SubagentSpec}, admission fleet parent depth spec s = (.ok none, s') →
      startTask fleet parent (childTask fleet.parent parent spec) depth s' = (.ok none, s'') →
      runOne fleet parent depth spec s = (.ok (refuse parent.taskId depth .cancelled spec), s'')
  | ⟨_, _, _, _, _, _⟩, h, hstart => by
    unfold runOne
    rw [Routine.bind_run, h]
    simp only
    rw [Routine.bind_run, hstart]
    rfl

/-- A node whose task returns ends as the level below it does. -/
theorem runOne_started {run : ρ} :
    ∀ {spec : SubagentSpec}, admission fleet parent depth spec s = (.ok none, s') →
      startTask fleet parent (childTask fleet.parent parent spec) depth s' = (.ok (some run), s'') →
      runOne fleet parent depth spec s = match runLevel fleet (childTask fleet.parent parent spec)
          (depth + 1) spec.children s'' with
        | (.ok runs, s₂) =>
          (.ok ⟨spec.name, childId parent.taskId spec.name, depth, .ok run, runs⟩, s₂)
        | (.error e, s₂) => (.error e, s₂)
  | ⟨name, prompt, children, grants, maxTurns, maxRepairAttempts⟩, h, hstart => by
    unfold runOne runLevel
    rw [Routine.bind_run, h]
    simp only
    rw [Routine.bind_run, hstart]
    simp only [Routine.bind_run, Routine.ofExcept]
    cases validate (childTask fleet.parent parent ⟨name, prompt, children, grants, maxTurns,
        maxRepairAttempts⟩).taskId children with
    | error e => rfl
    | ok u =>
      simp only
      cases runAll fleet (childTask fleet.parent parent ⟨name, prompt, children, grants, maxTurns,
          maxRepairAttempts⟩) (depth + 1) children s'' with
      | mk result s₂ => cases result <;> rfl

theorem runOne_returns {spec : SubagentSpec} {run : ρ} {runs : List (SubagentRun ρ)} {s₂ : FleetState}
    (hadmission : admission fleet parent depth spec s = (.ok none, s'))
    (hstart : startTask fleet parent (childTask fleet.parent parent spec) depth s' =
      (.ok (some run), s''))
    (hlevel : runLevel fleet (childTask fleet.parent parent spec) (depth + 1) spec.children s'' =
      (.ok runs, s₂)) :
    runOne fleet parent depth spec s =
      (.ok ⟨spec.name, childId parent.taskId spec.name, depth, .ok run, runs⟩, s₂) := by
  rw [runOne_started hadmission hstart, hlevel]

end Node

variable (root : GrantedTask) {maxDepth maxSubagents : Int}

/-- A permitted node is admitted while there is room, since nothing is cancelled from outside. -/
theorem admission_answering (answers : Nat → Option ρ) (parent : GrantedTask) (spec : SubagentSpec)
    (hdepth : (depth : Int) ≤ maxDepth) (s : FleetState) (hroom : (s.spawned : Int) < maxSubagents) :
    admission (answering root maxDepth maxSubagents answers) parent depth spec s =
      (.ok (if spec.permitted parent.grants then none else some .grants),
        { s with looks := s.looks + 1 }) := by
  rw [admission_run (answering root maxDepth maxSubagents answers) parent depth spec hdepth]
  exact (if_neg Bool.false_ne_true).trans (if_neg (not_le.mpr hroom))

def FleetState.begun (s : FleetState) (e : Started) (stopped : Option Refusal) : FleetState where
  spawned := s.spawned + 1
  stopped := stopped
  looks := s.looks + 1
  started := e :: s.started

/-- While there is room, a node whose task ends cancelled is passed, and is counted if it is
started. -/
theorem runOne_passes (answers : Nat → Option ρ) (parent : GrantedTask)
    (hdepth : (depth : Int) ≤ maxDepth) (spec : SubagentSpec) (s : FleetState)
    (hroom : (s.spawned : Int) < maxSubagents)
    (hnone : spec.permitted parent.grants = true → answers s.spawned = none) :
    ∃ run s', runOne (answering root maxDepth maxSubagents answers) parent depth spec s = (.ok run, s') ∧
      s'.spawned = s.spawned + spec.starts parent.grants ∧ s.started ⊆ s'.started ∧
      (spec.permitted parent.grants = true →
        ⟨parent, childTask root parent spec, depth⟩ ∈ s'.started) := by
  have hadmission := admission_answering root answers parent spec hdepth s hroom
  by_cases hpermitted : spec.permitted parent.grants = true
  · rw [if_pos hpermitted] at hadmission
    have hstart : startTask (answering root maxDepth maxSubagents answers) parent
        (childTask root parent spec) depth { s with looks := s.looks + 1 } =
        (.ok none, s.begun ⟨parent, childTask root parent spec, depth⟩
          (s.stopped.or (some .cancelled))) := by
      simp only [startTask, answering, hnone hpermitted, FleetState.begun]
    refine ⟨_, _, runOne_cancelled hadmission hstart, ?_, List.subset_cons_self _ _,
      fun _ => List.mem_cons_self⟩
    simp [SubagentSpec.starts, hpermitted, FleetState.begun]
  · rw [if_neg hpermitted] at hadmission
    refine ⟨_, _, runOne_refused hadmission, ?_, List.Subset.refl _, fun h => absurd h hpermitted⟩
    simp [SubagentSpec.starts, hpermitted]

def Lost {α : Type} (result : Except SubagentError α × FleetState) : Prop :=
  (∃ e, result.1 = .error e) ∧ result.2.started ≠ []

theorem runOne_lost_of_level {run : ρ} {s s' s'' : FleetState}
    (hadmission : admission fleet parent depth spec s = (.ok none, s'))
    (hstart : startTask fleet parent (childTask fleet.parent parent spec) depth s' =
      (.ok (some run), s''))
    (h : Lost (runLevel fleet (childTask fleet.parent parent spec) (depth + 1) spec.children s'')) :
    Lost (runOne fleet parent depth spec s) := by
  obtain ⟨⟨e, herror⟩, hstarted⟩ := h
  rw [runOne_started hadmission hstart]
  cases hlevel : runLevel fleet (childTask fleet.parent parent spec) (depth + 1) spec.children s'' with
  | mk result s₂ =>
    rw [hlevel] at herror hstarted
    subst herror
    exact ⟨⟨e, rfl⟩, hstarted⟩

variable {specs : List SubagentSpec}

theorem runAll_lost_of_head {s : FleetState} (h : Lost (runOne fleet parent depth spec s)) :
    Lost (runAll fleet parent depth (spec :: specs) s) := by
  obtain ⟨⟨e, herror⟩, hstarted⟩ := h
  unfold runAll
  rw [Routine.bind_run]
  cases hrun : runOne fleet parent depth spec s with
  | mk result s' =>
    rw [hrun] at herror hstarted
    subst herror
    exact ⟨⟨e, rfl⟩, hstarted⟩

theorem runAll_lost_of_tail {run : SubagentRun ρ} {s s' : FleetState}
    (hrun : runOne fleet parent depth spec s = (.ok run, s'))
    (h : Lost (runAll fleet parent depth specs s')) :
    Lost (runAll fleet parent depth (spec :: specs) s) := by
  obtain ⟨⟨e, herror⟩, hstarted⟩ := h
  unfold runAll
  rw [Routine.bind_run, hrun]
  simp only
  rw [Routine.bind_run]
  cases hruns : runAll fleet parent depth specs s' with
  | mk result s'' =>
    rw [hruns] at herror hstarted
    subst herror
    exact ⟨⟨e, rfl⟩, hstarted⟩

mutual

theorem runOne_lost [Inhabited ρ] :
    ∀ (spec : SubagentSpec) (parent : GrantedTask) (depth spent : Nat),
      spec.permitted parent.grants = true →
      ¬ Describable maxDepth maxSubagents parent.taskId parent.grants depth spent spec →
      ∃ answers : Nat → Option ρ, ∀ answers' : Nat → Option ρ,
        (∀ n, spent ≤ n → answers' n = answers n) →
        ∀ s : FleetState, s.spawned = spent →
          Lost (runOne (answering root maxDepth maxSubagents answers') parent depth spec s)
  | ⟨name, prompt, children, grants, maxTurns, maxRepairAttempts⟩, parent, depth, spent, hpermitted,
      hbad => by
      let spec : SubagentSpec := ⟨name, prompt, children, grants, maxTurns, maxRepairAttempts⟩
      obtain ⟨hdepth, hroom, hbad⟩ : (depth : Int) ≤ maxDepth ∧ (spent : Int) < maxSubagents ∧
          ¬ (validate (childId parent.taskId name) children = .ok () ∧
            DescribableAll maxDepth maxSubagents (childId parent.taskId name) (grants.getD parent.grants)
              (depth + 1) (spent + 1) children) := by
        simpa only [Describable, Classical.not_imp] using hbad
      -- the task of the node returns, and the level below is lost
      have hlost : ∃ answers : Nat → Option ρ, ∀ answers' : Nat → Option ρ,
          (∀ n, spent + 1 ≤ n → answers' n = answers n) → ∀ s : FleetState, s.spawned = spent + 1 →
            s.started ≠ [] → Lost (runLevel (answering root maxDepth maxSubagents answers')
              (childTask root parent spec) (depth + 1) children s) := by
        cases hvalid : validate (childId parent.taskId name) children with
        | error e =>
          refine ⟨fun _ => none, fun answers' _ s _ hstarted => ?_⟩
          have hnamed : validate (childTask root parent spec).taskId children = .error e := hvalid
          unfold runLevel
          rw [hnamed]
          exact ⟨⟨e, rfl⟩, hstarted⟩
        | ok u =>
          obtain ⟨answers, hanswers⟩ := runAll_lost children (childTask root parent spec) (depth + 1)
            (spent + 1) (fun h => hbad ⟨hvalid, h⟩)
          refine ⟨answers, fun answers' hsame s hspawned _ => ?_⟩
          have hnamed : validate (childTask root parent spec).taskId children = .ok u := hvalid
          unfold runLevel
          rw [hnamed]
          exact hanswers answers' hsame s hspawned
      obtain ⟨answers, hanswers⟩ := hlost
      refine ⟨fun n => if n = spent then some default else answers n,
        fun answers' hsame s hspawned => ?_⟩
      have hadmission := admission_answering root answers' parent spec hdepth s
        (by rw [hspawned]; exact hroom)
      rw [if_pos hpermitted] at hadmission
      have hanswer : answers' s.spawned = some default := by
        rw [hspawned]
        exact (hsame spent le_rfl).trans (if_pos rfl)
      have hstart : startTask (answering root maxDepth maxSubagents answers') parent
          (childTask root parent spec) depth { s with looks := s.looks + 1 } =
          (.ok (some default), s.begun ⟨parent, childTask root parent spec, depth⟩ s.stopped) := by
        simp only [startTask, answering, hanswer, FleetState.begun]
      have hbelow := hanswers answers' (fun n hn => (hsame n (by omega)).trans (if_neg (by omega)))
        (s.begun ⟨parent, childTask root parent spec, depth⟩ s.stopped)
        (by rw [← hspawned]; rfl) (List.cons_ne_nil _ _)
      exact runOne_lost_of_level hadmission hstart (hbelow : Lost (runLevel _ _ _ spec.children _))

theorem runAll_lost [Inhabited ρ] :
    ∀ (specs : List SubagentSpec) (parent : GrantedTask) (depth spent : Nat),
      ¬ DescribableAll maxDepth maxSubagents parent.taskId parent.grants depth spent specs →
      ∃ answers : Nat → Option ρ, ∀ answers' : Nat → Option ρ,
        (∀ n, spent ≤ n → answers' n = answers n) →
        ∀ s : FleetState, s.spawned = spent →
          Lost (runAll (answering root maxDepth maxSubagents answers') parent depth specs s)
  | [], _, _, _, hbad => absurd trivial hbad
  | spec :: specs, parent, depth, spent, hbad => by
    by_cases htail : DescribableAll maxDepth maxSubagents parent.taskId parent.grants depth
        (spent + spec.starts parent.grants) specs
    · obtain ⟨hpermitted, hhead⟩ := Classical.not_imp.mp fun hhead => hbad ⟨hhead, htail⟩
      obtain ⟨answers, hanswers⟩ := runOne_lost spec parent depth spent hpermitted hhead
      exact ⟨answers, fun answers' hsame s hspawned =>
        runAll_lost_of_head (hanswers answers' hsame s hspawned)⟩
    · have hdepth : (depth : Int) ≤ maxDepth :=
        not_lt.mp fun hdeep => htail (describableAll_of_deep specs hdeep)
      have hroom : (spent : Int) < maxSubagents :=
        not_le.mp fun hfull => htail (describableAll_of_full specs (by push_cast; omega))
      obtain ⟨answers, hanswers⟩ := runAll_lost specs parent depth _ htail
      refine ⟨fun n => if n = spent ∧ spec.permitted parent.grants = true then none else answers n,
        fun answers' hsame s hspawned => ?_⟩
      obtain ⟨run, s', hrun, hcount, -, -⟩ := runOne_passes root answers' parent hdepth spec s
        (by rw [hspawned]; exact hroom)
        (fun hpermitted => by
          rw [hspawned]
          exact (hsame spent le_rfl).trans (if_pos ⟨rfl, hpermitted⟩))
      refine runAll_lost_of_tail hrun (hanswers answers' (fun n hn => ?_) s' (by rw [hcount, hspawned]))
      refine (hsame n (by omega)).trans (if_neg ?_)
      rintro ⟨rfl, hpermitted⟩
      have : spec.starts parent.grants = 1 := if_pos hpermitted
      omega

end

/-! ## The whole fleet -/

/-! ### What is started stays on record -/

/-- Whether a node is admitted changes nothing about what is started, and only a permitted one is. -/
theorem admission_keeps (fleet : Fleet ρ) (parent : GrantedTask) (depth : Nat) (spec : SubagentSpec)
    (P : List Started → Prop) :
    Routine.Meets (fun s => P s.started) (admission fleet parent depth spec)
      (fun refusal s => P s.started ∧ (refusal = none → spec.permitted parent.grants = true))
      (fun s => P s.started) := by
  unfold admission
  refine .ite (fun _ => .pure fun _ h => ⟨h, nofun⟩) fun _ => ?_
  refine .bind (R := fun _ (s : FleetState) => P s.started) (fun _ h => h) fun cancelled => ?_
  refine .ite (fun _ => ?_) fun _ => ?_
  · exact .bind (.modify fun _ h => h) fun _ => .pure fun _ h => ⟨h, nofun⟩
  refine .bind (R := fun _ s => P s.started) (.get fun _ h => h) fun s => ?_
  refine .ite (fun _ => ?_) fun _ => .ite (fun hpermitted => .pure fun _ h => ⟨h, fun _ => hpermitted⟩)
    fun _ => .pure fun _ h => ⟨h, nofun⟩
  exact .bind (.modify fun _ h => h) fun _ => .pure fun _ h => ⟨h, nofun⟩

theorem startTask_keeps (fleet : Fleet ρ) (parent task : GrantedTask) (depth : Nat) (e : Started) :
    Routine.Meets (fun s => e ∈ s.started) (startTask fleet parent task depth)
      (fun _ s => e ∈ s.started) (fun s => e ∈ s.started) := by
  intro s h
  unfold startTask
  cases fleet.runTask s.spawned task with
  | some _ | none => exact List.mem_cons_of_mem _ h

mutual

theorem runOne_keeps (fleet : Fleet ρ) (e : Started) :
    ∀ (spec : SubagentSpec) (parent : GrantedTask) (depth : Nat),
      Routine.Meets (fun s => e ∈ s.started) (runOne fleet parent depth spec)
        (fun _ s => e ∈ s.started) (fun s => e ∈ s.started)
  | ⟨name, prompt, children, grants, maxTurns, maxRepairAttempts⟩, parent, depth => by
    unfold runOne
    refine (admission_keeps fleet parent depth _ (e ∈ ·)).bind fun refusal => ?_
    cases refusal with
    | some reason => exact .pure fun _ h => h.1
    | none =>
      refine .fact fun _ => (startTask_keeps fleet parent _ depth e).bind fun run => ?_
      cases run with
      | none => exact .pure fun _ h => h
      | some run =>
        refine .bind (R := fun _ s => e ∈ s.started) (.ofExcept (fun _ _ _ h => h) fun _ h => h)
          fun _ => ?_
        exact (runAll_keeps fleet e children _ (depth + 1)).bind fun _ => .pure fun _ h => h

theorem runAll_keeps (fleet : Fleet ρ) (e : Started) :
    ∀ (specs : List SubagentSpec) (parent : GrantedTask) (depth : Nat),
      Routine.Meets (fun s => e ∈ s.started) (runAll fleet parent depth specs)
        (fun _ s => e ∈ s.started) (fun s => e ∈ s.started)
  | [], _, _ => .pure fun _ h => h
  | spec :: specs, parent, depth => by
    unfold runAll
    refine (runOne_keeps fleet e spec parent depth).bind fun _ => ?_
    exact (runAll_keeps fleet e specs parent depth).bind fun _ => .pure fun _ h => h

end

/-- When every task ends cancelled, the first node that is permitted is started. -/
theorem runAll_starts (parent : GrantedTask) (hdepth : (depth : Int) ≤ maxDepth) :
    ∀ (specs : List SubagentSpec) (s : FleetState), (s.spawned : Int) < maxSubagents →
      (∃ spec ∈ specs, spec.permitted parent.grants = true) →
      ∃ spec, ⟨parent, childTask root parent spec, depth⟩ ∈ (Routine.final
        (runAll (answering (ρ := ρ) root maxDepth maxSubagents fun _ => none) parent depth specs)
        s).started
  | [], _, _, hsome => by
    obtain ⟨spec, hmem, -⟩ := hsome
    exact absurd hmem List.not_mem_nil
  | spec :: specs, s, hroom, hsome => by
    obtain ⟨run, s', hrun, hcount, -, hstarted⟩ := runOne_passes (ρ := ρ) root (fun _ => none)
      parent hdepth spec s hroom fun _ => rfl
    have htail : Routine.final (runAll (answering (ρ := ρ) root maxDepth maxSubagents fun _ => none)
        parent depth (spec :: specs)) s = Routine.final (runAll
        (answering (ρ := ρ) root maxDepth maxSubagents fun _ => none) parent depth specs) s' := by
      unfold Routine.final
      conv_lhs => unfold runAll
      rw [Routine.bind_run, hrun]
      simp only
      rw [Routine.bind_run]
      cases hruns : runAll (answering (ρ := ρ) root maxDepth maxSubagents fun _ => none) parent depth
          specs s' with
      | mk result s'' => cases result <;> rfl
    rw [htail]
    by_cases hpermitted : spec.permitted parent.grants = true
    · exact ⟨spec, (runAll_keeps _ _ specs parent depth).final (fun _ _ h => h) (hstarted hpermitted)⟩
    · have hspawned : s'.spawned = s.spawned := by
        rw [hcount, SubagentSpec.starts, if_neg hpermitted, Nat.add_zero]
      refine runAll_starts parent hdepth specs s' (by rw [hspawned]; exact hroom) ?_
      obtain ⟨later, hmem, hlater⟩ := hsome
      rcases List.mem_cons.mp hmem with rfl | hmem
      · exact absurd hlater hpermitted
      · exact ⟨later, hmem, hlater⟩

/-- Within sensible bounds and with a well named first level, the fleet is the walk over that level. -/
theorem runFleet_run (fleet : Fleet ρ) (specs : List SubagentSpec)
    (hbounds : ¬ (fleet.maxSubagents < 0 ∨ fleet.maxDepth < 1))
    (hvalid : validate fleet.parent.taskId specs = .ok ()) (s : FleetState) :
    runFleet fleet specs s = match runAll fleet fleet.parent 1 specs s with
      | (.ok runs, s') => (.ok ⟨runs, s'.spawned, s'.stopped⟩, s')
      | (.error e, s') => (.error e, s') := by
  unfold runFleet
  rw [if_neg hbounds, runLevel, hvalid]
  simp only [Routine.bind_run, Routine.ofExcept, Routine.get]
  cases runAll fleet fleet.parent 1 specs s with
  | mk result s' => cases result <;> rfl

/-- A fleet whose levels are well named where a run can reach them is accounted for. -/
theorem accounted_of_reportable (fleet : Fleet ρ) (specs : List SubagentSpec)
    (h : Reportable fleet.parent fleet.maxDepth fleet.maxSubagents specs) : Accounted fleet specs := by
  unfold Accounted
  by_cases hbounds : fleet.maxSubagents < 0 ∨ fleet.maxDepth < 1
  · unfold runFleet
    rw [if_pos hbounds]
    rfl
  cases hvalid : validate fleet.parent.taskId specs with
  | error e =>
    unfold runFleet
    rw [if_neg hbounds, runLevel, hvalid]
    rfl
  | ok u =>
    obtain ⟨hcount, hdepth⟩ := not_or.mp hbounds
    obtain ⟨hdescribable, hkey⟩ :=
      ((h.resolve_left hcount).resolve_left hdepth).resolve_left (not_not.mpr hvalid)
    have hlevel := runAll_meets fleet specs fleet.parent 1 0
      (fun spec hmem hpermitted hroom hempty => hkey hempty ⟨hroom, spec, hmem, hpermitted⟩)
      hdescribable {}
      ⟨⟨rfl, not_lt.mp hcount, fun e he => absurd he List.not_mem_nil⟩, .inl (Nat.zero_le _)⟩
    rw [runFleet_run fleet specs hbounds hvalid]
    cases hrun : runAll fleet fleet.parent 1 specs {} with
    | mk result s =>
      rw [hrun] at hlevel
      cases result with
      | error e => exact hlevel.elim
      | ok runs => exact ⟨hlevel.2.1, hlevel.2.2, rfl, hlevel.1.1⟩

theorem Accounted.lawful_of_started (h : Accounted fleet specs)
    (hbounds : ¬ (fleet.maxSubagents < 0 ∨ fleet.maxDepth < 1))
    (hvalid : validate fleet.parent.taskId specs = .ok ()) {e : Started}
    (he : e ∈ ((runAll fleet fleet.parent 1 specs).final {}).started) : e.Lawful fleet := by
  unfold Accounted at h
  rw [runFleet_run fleet specs hbounds hvalid] at h
  unfold Routine.final at he
  cases hrun : runAll fleet fleet.parent 1 specs {} with
  | mk result s =>
    rw [hrun] at h he
    cases result with
    | error e' =>
      have hnone : s.started = [] := h
      simp only [hnone] at he
      exact absurd he List.not_mem_nil
    | ok runs => exact h.2.2.2.started e he

theorem Accounted.not_lost (h : Accounted fleet specs)
    (hbounds : ¬ (fleet.maxSubagents < 0 ∨ fleet.maxDepth < 1))
    (hvalid : validate fleet.parent.taskId specs = .ok ()) :
    ¬ Lost (runAll fleet fleet.parent 1 specs {}) := by
  rintro ⟨⟨e, herror⟩, hstarted⟩
  unfold Accounted at h
  rw [runFleet_run fleet specs hbounds hvalid] at h
  cases hrun : runAll fleet fleet.parent 1 specs {} with
  | mk result s =>
    rw [hrun] at h herror hstarted
    subst herror
    exact hstarted h

/-- A fleet is accounted for under every cancellation and whatever its tasks do, exactly when it is
reportable. -/
theorem accounted_iff_reportable [Inhabited ρ] (root : GrantedTask) (maxDepth maxSubagents : Int)
    (specs : List SubagentSpec) :
    (∀ fleet : Fleet ρ, fleet.parent = root → fleet.maxDepth = maxDepth →
      fleet.maxSubagents = maxSubagents → Accounted fleet specs) ↔
      Reportable root maxDepth maxSubagents specs := by
  constructor
  case mpr =>
    rintro h fleet rfl rfl rfl
    exact accounted_of_reportable fleet specs h
  intro h
  have hfleet (answers : Nat → Option ρ) := h (answering root maxDepth maxSubagents answers) rfl rfl rfl
  by_contra hbad
  obtain ⟨hcount, hbad⟩ := not_or.mp hbad
  obtain ⟨hdepth, hbad⟩ := not_or.mp hbad
  obtain ⟨hvalid, hbad⟩ := not_or.mp hbad
  have hvalid : validate root.taskId specs = .ok () := not_not.mp hvalid
  have hbounds : ¬ (maxSubagents < 0 ∨ maxDepth < 1) := not_or.mpr ⟨hcount, hdepth⟩
  by_cases hdescribable : DescribableAll maxDepth maxSubagents root.taskId root.grants 1 0 specs
  · -- the first subagent that starts charges its own id
    obtain ⟨hempty, hstartable⟩ := Classical.not_imp.mp fun hkey => hbad ⟨hdescribable, hkey⟩
    obtain ⟨hroom, hsome⟩ := not_not.mp hstartable
    have hlevel : ((1 : Nat) : Int) ≤ maxDepth := not_lt.mp hdepth
    obtain ⟨spec, hstarted⟩ := runAll_starts (ρ := ρ) root root hlevel specs {} hroom hsome
    have hlawful := (hfleet fun _ => none).lawful_of_started hbounds hvalid hstarted
    have hcharged : (childTask root root spec).costKey = root.costKey := hlawful.charged
    rw [childTask_costKey_of_nil root root spec hempty, hempty] at hcharged
    exact absurd hcharged (List.append_ne_nil_of_right_ne_nil _ (List.cons_ne_nil _ _))
  · -- the run that reaches the badly named level raises behind a start
    obtain ⟨answers, hanswers⟩ := runAll_lost (ρ := ρ) root specs root 1 0 hdescribable
    exact (hfleet answers).not_lost hbounds hvalid (hanswers answers (fun _ _ => rfl) {} rfl)

/-- A node whose two children have one name raises behind its own run. -/
theorem raises_behind_a_start : ¬ ∀ (fleet : Fleet Unit) (specs : List SubagentSpec),
    Accounted fleet specs := by
  intro h
  let twin : SubagentSpec := { name := lit "b", prompt := [] }
  have haccounted := h
    (answering { taskId := lit "t", prompt := [], maxTurns := 1, maxRepairAttempts := 0 } 4 8
      fun _ => some ())
    [{ name := lit "a", prompt := [], children := [twin, twin] }]
  refine haccounted.not_lost (by decide) rfl ⟨⟨.duplicate (lit "t/a") (lit "b"), ?_⟩, ?_⟩
  · rfl
  · exact List.cons_ne_nil _ _

end Tempest
