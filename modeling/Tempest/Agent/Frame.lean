import Tempest.Agent.Orchestrator

/-!
# Frame — what the parts of a lifetime leave alone

Each part is taken apart once, for any assertion its operations keep (`Admits`); the laws of the log,
the disk and the ledger each bring their own.
-/

namespace Tempest

open Python Routine

variable {spec : TaskSpec} {out : Outside}

/-! ## What one operation establishes -/

/-- All but the clock and the life are the same. -/
structure Still (w w' : World) : Prop where
  log : w'.log = w.log
  disk : w'.disk = w.disk
  ledger : w'.ledger = w.ledger
  trace : w'.trace = w.trace

theorem Still.grows {rowOk : LogRow → Prop} {eventOk : Event → Prop} {w w' : World} (h : Still w w') :
    Grows rowOk eventOk w w' :=
  Grows.of_eq h.log h.trace

section Meets

variable {P C : World → Prop}

theorem meets_op {α : Type} {f : World → Except Stop α × World} {Q : α → World → Prop}
    (hkilled : ∀ w, P w → C w)
    (hdone : ∀ w w', P w → Still w w' → Ends Q C (f w')) : Meets P (op f) Q C := by
  intro w hw
  unfold op
  cases w.life with
  | zero => exact hkilled w hw
  | succ life => exact hdone w { w with life := life, clock := w.clock + 1 } hw ⟨rfl, rfl, rfl, rfl⟩

theorem meets_look {α : Type} {read : World → α} {Q : α → World → Prop}
    (hkilled : ∀ w, P w → C w) (hdone : ∀ w w', P w → Still w w' → Q (read w') w') :
    Meets P (look read) Q C :=
  meets_op hkilled hdone

theorem meets_ask {α : Type} {answer : Nat → Except Stop α} {Q : α → World → Prop}
    (hdone : ∀ a w w', P w → Still w w' → Q a w') (hstopped : ∀ w w', P w → Still w w' → C w') :
    Meets P (ask answer) Q C := by
  refine meets_op (fun w hw => hstopped w w hw ⟨rfl, rfl, rfl, rfl⟩) fun w w' hw hstill => ?_
  cases answer w'.clock with
  | error e => exact hstopped w w' hw hstill
  | ok a => exact hdone a w w' hw hstill

theorem meets_note {e : Event} {Q : World → Prop}
    (h : ∀ w w', P w → Still { w with trace := e :: w.trace } w' → Q w') :
    Meets P (note e) (fun _ => Q) C :=
  fun w hw => h w { w with trace := e :: w.trace } hw ⟨rfl, rfl, rfl, rfl⟩

theorem meets_checkpoint {row : LogRow} {Q : World → Prop}
    (hdone : ∀ w w', P w → Still { w with log := w.log ++ [row] } w' → Q w')
    (hstopped : ∀ w w', P w → Still w w' → C w') :
    Meets P (checkpoint out.writes row) (fun _ => Q) C := by
  refine meets_op (fun w hw => hstopped w w hw ⟨rfl, rfl, rfl, rfl⟩) fun w w' hw hstill => ?_
  cases out.writes w'.clock with
  | error e => exact hstopped w w' hw hstill
  | ok _ =>
    exact hdone w _ hw ⟨by simp [hstill.log], hstill.disk, hstill.ledger, hstill.trace⟩

end Meets

/-! ## Parts of a lifetime -/

def LogRow.ofProof : LogRow → Prop
  | .proving _ _ | .proved _ _ => True
  | _ => False

def LogRow.ofRepair : LogRow → Prop
  | .proving _ _ | .proved _ _ | .repairBaseline _ _ | .repairAttempt _ _
  | .repairConversed _ _ _ => True
  | _ => False

theorem LogRow.ofProof.ofRepair {row : LogRow} (h : row.ofProof) : row.ofRepair := by
  cases row <;> first | exact trivial | exact h.elim

def Event.ofRepair : Event → Prop
  | .repairing _ | .judged _ _ _ => True
  | _ => False

/-- The operations and the turns of a conversation keep `P`, and stop in `C`, for such rows and
events. -/
structure Admits (spec : TaskSpec) (out : Outside) (P C : World → Prop) (rowOk : LogRow → Prop)
    (eventOk : Event → Prop) : Prop where
  ask : ∀ {α : Type} (answer : Nat → Except Stop α), Meets P (ask answer) (fun _ => P) C
  look : ∀ {α : Type} (read : World → α), Meets P (look read) (fun _ => P) C
  note : ∀ e, eventOk e → Meets P (note e) (fun _ => P) C
  row : ∀ row, rowOk row → Meets P (checkpoint out.writes row) (fun _ => P) C
  turn : ∀ t, Meets P (converseTurn spec out t) (fun _ => P) C

section Turn

variable {P C : World → Prop}
  (hask : ∀ {α : Type} (answer : Nat → Except Stop α), Meets P (ask answer) (fun _ => P) C)
  (hrow : ∀ call kind, Meets P (checkpoint out.writes (.pendingApproval call kind)) (fun _ => P) C)

include hask hrow

theorem meets_dispatchWithApproval (call : ToolCall) :
    Meets P (dispatchWithApproval out call) (fun _ => P) C := by
  refine Meets.bind (hask _) fun needed => Meets.ite (fun _ => ?_) fun _ => hask _
  refine Meets.bind (hrow _ _) fun _ => Meets.bind (hask _) fun decision => ?_
  -- a question is answered, anything else dispatched or refused
  refine Meets.ite (fun _ => Meets.ite (fun _ => Meets.pure fun _ h => h)
    fun _ => Meets.pure fun _ h => h) fun _ => ?_
  exact Meets.ite (fun _ => hask _) fun _ => Meets.pure fun _ h => h

theorem meets_dispatchAll (calls : List ToolCall) (t : Transcript) :
    Meets P (dispatchAll out calls t) (fun _ => P) C := by
  induction calls generalizing t with
  | nil => exact Meets.pure fun _ h => h
  | cons call calls ih =>
    refine Meets.bind (hask _) fun _ => ?_
    exact Meets.bind (meets_dispatchWithApproval hask hrow call) fun result => ih _

/-- A turn keeps `P` where the call of the model and its charge together do. -/
theorem meets_converseTurn {called : Except PyStr Completion → World → Prop}
    (hmodel : ∀ history, Meets P (callModel out history) called C)
    (hfailed : ∀ message w, called (.error message) w → P w)
    (hspend : ∀ answer, Meets (called (.ok answer)) (spendTurn spec out answer) (fun _ => P) C)
    (t : Transcript) : Meets P (converseTurn spec out t) (fun _ => P) C := by
  refine Meets.bind (hask _) fun _ => Meets.bind (hask _) fun steers => ?_
  refine Meets.bind (hmodel _) fun answer => ?_
  cases answer with
  | error message => exact Meets.pure fun w h => hfailed message w h
  | ok answer =>
    refine Meets.bind (hspend answer) fun refusal => ?_
    cases refusal with
    | some why => exact Meets.pure fun _ h => h
    | none =>
      refine Meets.ite (fun _ => Meets.pure fun _ h => h) fun _ => ?_
      exact Meets.bind (meets_dispatchAll hask hrow _ _) fun answered => Meets.pure fun _ h => h

end Turn

namespace Admits

variable {P C : World → Prop} {rowOk : LogRow → Prop} {eventOk : Event → Prop}

theorem converse (h : Admits spec out P C rowOk eventOk) (t : Transcript) :
    Meets P (converse spec out t) (fun _ => P) C := by
  unfold Tempest.converse
  generalize spec.maxTurns = left
  generalize 0 = used
  induction left generalizing used t with
  | zero => exact Meets.pure fun _ h => h
  | succ left ih =>
    refine Meets.bind (h.turn t) fun turn => ?_
    rcases turn with ⟨t', _ | why⟩
    · exact ih t' (used + 1)
    · exact Meets.pure fun _ h => h

theorem proveAndClassify (h : Admits spec out P C rowOk eventOk)
    (hrows : ∀ row, LogRow.ofProof row → rowOk row) (shadow : Shadow) :
    Meets P (proveAndClassify out shadow) (fun _ => P) C := by
  refine Meets.bind (h.ask _) fun head => ?_
  refine Meets.bind (h.row _ (hrows _ trivial)) fun _ => ?_
  refine Meets.bind (h.ask _) fun bundle => Meets.bind (h.ask _) fun files => ?_
  refine Meets.bind (h.row _ (hrows _ trivial)) fun _ => ?_
  exact Meets.bind (h.ask _) fun contract => Meets.pure fun _ h => h

theorem lastProof (h : Admits spec out P C rowOk eventOk)
    (hrows : ∀ row, LogRow.ofProof row → rowOk row) (shadow : Shadow) (repair : Option RepairOutcome)
    (first : Proof) : Meets P (lastProof out shadow repair first) (fun _ => P) C :=
  Meets.ite (fun _ => h.proveAndClassify hrows shadow) fun _ => Meets.pure fun _ h => h

theorem takeTurns (h : Admits spec out P C rowOk eventOk)
    (hdone : ∀ turns stopped transcript, rowOk (.turnsDone turns stopped transcript))
    (hreplayed : ∀ row worktree baseline, eventOk (.replayed row worktree baseline))
    (plan : ResumePlan) (shadow : Shadow) :
    Meets P (takeTurns spec out plan shadow) (fun _ => P) C := by
  refine Meets.ite (fun _ => ?_) fun _ => ?_
  · refine Meets.bind (h.converse _) fun conversed => ?_
    exact Meets.bind (h.row _ (hdone _ _ _)) fun _ => Meets.pure fun _ h => h
  · refine Meets.bind (h.look _) fun world => ?_
    split
    · exact Meets.pure fun _ h => h
    · exact Meets.bind (h.note _ (hreplayed _ _ _)) fun _ => Meets.pure fun _ h => h

section Repair

variable (h : Admits spec out P C rowOk eventOk) (hrows : ∀ row, LogRow.ofRepair row → rowOk row)
  (hevents : ∀ e, Event.ofRepair e → eventOk e)

include h hrows

theorem takeYardstick (recorded : Option (Proven × PyStr)) (targets : List TargetRecord) :
    Meets P (takeYardstick out recorded targets) (fun _ => P) C := by
  cases recorded with
  | some r => exact Meets.pure fun _ h => h
  | none =>
    refine Meets.bind (h.ask _) fun contract => ?_
    exact Meets.bind (h.row _ (hrows _ trivial)) fun _ => Meets.pure fun _ h => h

include hevents

theorem judgeAttempt (shadow : Shadow) (yardstick : Yardstick) (number : Nat)
    (packet : EvidencePacket) (s : RepairState) :
    Meets P (judgeAttempt out shadow yardstick number packet s) (fun _ => P) C := by
  have hproof : ∀ row, LogRow.ofProof row → rowOk row := fun row hrow => hrows row hrow.ofRepair
  refine Meets.bind (h.proveAndClassify hproof shadow) fun proof => ?_
  refine Meets.bind (h.ask _) fun files =>
    Meets.ite (fun _ => Meets.pure fun _ h => h) fun _ => ?_
  refine Meets.bind (h.ask _) fun contractAfter => Meets.bind (h.ask _) fun reverted => ?_
  refine Meets.bind (h.ask _) fun broken => ?_
  refine Meets.bind (h.note _ (hevents _ trivial)) fun _ => ?_
  exact Meets.ite (fun _ => Meets.pure fun _ h => h) fun _ => Meets.pure fun _ h => h

theorem repairAttempt (shadow : Shadow) (yardstick : Yardstick) (number : Nat)
    (packet : EvidencePacket) (s : RepairState) :
    Meets P (repairAttempt spec out shadow yardstick number packet s) (fun _ => P) C := by
  refine Meets.bind (h.row _ (hrows _ trivial)) fun _ => ?_
  refine Meets.bind (h.note _ (hevents _ trivial)) fun _ => ?_
  refine Meets.bind (h.converse _) fun conversed => ?_
  refine Meets.bind (h.row _ (hrows _ trivial)) fun _ => ?_
  exact h.judgeAttempt hrows hevents shadow yardstick number packet _

theorem repairAttempts (shadow : Shadow) (contract : IntentContract) (yardstick : Yardstick)
    (left number : Nat) (s : RepairState) :
    Meets P (repairAttempts spec out shadow contract yardstick left number s) (fun _ => P) C := by
  induction left generalizing number s with
  | zero => exact Meets.pure fun _ h => h
  | succ left ih =>
    unfold Tempest.repairAttempts
    cases firstOffender out.printable s.targets s.divergences contract with
    | none => exact Meets.pure fun _ h => h
    | some packet =>
      refine Meets.bind (h.repairAttempt hrows hevents shadow yardstick number packet s)
        fun attempted => ?_
      rcases attempted with ⟨s', _ | outcome⟩
      · exact ih (number + 1) s'
      · exact Meets.pure fun _ h => h

theorem repairLoop (shadow : Shadow) (t : Transcript) (first : Proof) (spentAttempts : Nat) :
    Meets P (repairLoop spec out shadow t first spentAttempts) (fun _ => P) C := by
  have hpure : ∀ outcome : Option RepairOutcome × Transcript,
      Meets P (pure outcome : Task (Option RepairOutcome × Transcript)) (fun _ => P) C :=
    fun outcome => Meets.pure fun _ h => h
  refine Meets.bind (h.look _) fun recorded => Meets.bind (h.ask _) fun contract => ?_
  cases contract with
  | none => exact hpure _
  | some contract =>
    refine Meets.ite (fun _ => hpure _) fun _ => Meets.ite (fun _ => ?_) fun _ => ?_
    · exact Meets.ite (fun _ => hpure _) fun _ => hpure _
    · refine Meets.ite (fun _ => hpure _) fun _ => ?_
      refine Meets.bind (h.takeYardstick hrows recorded _) fun yardstick => ?_
      exact Meets.bind (h.repairAttempts hrows hevents shadow contract yardstick _ _ _)
        fun ended => hpure _

theorem concludeTask
    (hfinished : ∀ verdict bundleId repaired, rowOk (.finished verdict bundleId repaired))
    (shadow : Shadow) (spentAttempts : Nat) (turns : Transcript × PyStr × Nat) :
    Meets P (concludeTask spec out shadow spentAttempts turns) (fun _ => P) C := by
  have hproof : ∀ row, LogRow.ofProof row → rowOk row := fun row hrow => hrows row hrow.ofRepair
  refine Meets.bind (h.proveAndClassify hproof shadow) fun first => ?_
  refine Meets.bind (h.repairLoop hrows hevents shadow _ first spentAttempts) fun repair => ?_
  refine Meets.bind (h.lastProof hproof shadow _ first) fun last => ?_
  exact Meets.bind (h.row _ (hfinished _ _ _)) fun _ => Meets.pure fun _ h => h

end Repair

end Admits

/-! ## The log and the trace grow, the disk stays -/

/-- What a call of the model and its charge leave in the trace. -/
def Event.ofMoney : Event → Prop
  | .called | .returned _ | .spent _ _ | .refused _ => True
  | _ => False

section Grows

variable {rowOk : LogRow → Prop} {eventOk : Event → Prop} {P C : World → Prop}

/-- What survives the growth of the log and the trace on the same disk survives every part of a
lifetime after the shadow. -/
theorem admits_grows (hpending : ∀ call kind, rowOk (.pendingApproval call kind))
    (hmoney : ∀ e, Event.ofMoney e → eventOk e)
    (hP : ∀ w w', P w → Grows rowOk eventOk w w' → w'.disk = w.disk → P w')
    (hC : ∀ w, P w → C w) : Admits spec out P C rowOk eventOk := by
  have hstill : ∀ w w', P w → Still w w' → P w' := fun w w' h hstill =>
    hP w w' h hstill.grows hstill.disk
  have hask : ∀ {α : Type} (answer : Nat → Except Stop α),
      Meets P (ask answer) (fun _ => P) C := fun answer =>
    meets_ask (fun _ w w' h hs => hstill w w' h hs) fun w w' h hs => hC w' (hstill w w' h hs)
  have hrow : ∀ row, rowOk row → Meets P (checkpoint out.writes row) (fun _ => P) C :=
    fun row hok => meets_checkpoint
      (fun w w' h hs => hP w w' h (Grows.of_row hs.log hs.trace hok) hs.disk)
      fun w w' h hs => hC w' (hstill w w' h hs)
  have hmodel : ∀ history, Meets P (callModel out history) (fun _ => P) C := by
    refine fun history => meets_op (fun w h => hC w h) fun w w' h hs => ?_
    have hcalled : ∀ world : World, world.log = w'.log → world.disk = w'.disk →
        world.trace = .called :: w'.trace → P world := by
      intro world hlog hdisk htrace
      refine hP w world h (Grows.of_event ?_ ?_ (hmoney .called trivial)) (hdisk.trans hs.disk)
      · exact hlog.trans hs.log
      · rw [htrace, hs.trace]
    cases out.complete w'.clock history with
    | error failure =>
      cases failure with
      | cancelled => exact hC _ (hcalled _ rfl rfl rfl)
      | failed message => exact hcalled _ rfl rfl rfl
    | ok answer =>
      have hbefore : P { w' with trace := .called :: w'.trace } := hcalled _ rfl rfl rfl
      exact hP _ _ hbefore (Grows.of_event rfl rfl (hmoney (.returned answer) trivial)) rfl
  have hspend : ∀ answer, Meets P (spendTurn spec out answer) (fun _ => P) C := by
    intro answer
    unfold spendTurn
    cases spec.meter with
    | none => exact Meets.pure fun _ h => h
    | some meter =>
      refine meets_op (fun w h => hC w h) fun w w' h hs => ?_
      have hspent : ∀ ledger charge, P { w' with
          ledger := ledger, trace := .spent w'.ledger charge :: w'.trace } := fun ledger charge =>
        hP w' _ (hstill w w' h hs) (Grows.of_event rfl rfl (hmoney (.spent _ _) trivial)) rfl
      dsimp only
      split
      · exact hspent _ _
      · exact hP _ _ (hspent w'.ledger _) (Grows.of_event rfl rfl (hmoney (.refused _) trivial)) rfl
      · exact hC _ (hspent _ _)
  exact
    { ask := hask
      look := fun read => meets_look (fun w h => hC w h) fun w w' h hs => hstill w w' h hs
      note := fun e hok => meets_note fun w w' h hs =>
        hP w w' h (Grows.of_event hs.log hs.trace hok) hs.disk
      row := hrow
      turn := meets_converseTurn hask (fun call kind => hrow _ (hpending call kind)) hmodel
        (fun _ _ h => h) hspend }

end Grows

/-! ## The shadow leaves the log alone -/

def Event.ofShadow : Event → Prop
  | .built | .carried => True
  | _ => False

/-- What survives on any disk survives the shadow. -/
theorem meets_shadowFor {rowOk : LogRow → Prop} {eventOk : Event → Prop} {P C : World → Prop}
    (hshadow : ∀ e, Event.ofShadow e → eventOk e)
    (hP : ∀ w w', P w → Grows rowOk eventOk w w' → w'.ledger = w.ledger → P w')
    (hC : ∀ w, P w → C w) (repo : Repository) (plan : ResumePlan) :
    Meets P (shadowFor repo plan) (fun _ => P) C := by
  have hstill : ∀ w w', P w → Still w w' → P w' :=
    fun w w' h hs => hP w w' h hs.grows hs.ledger
  have hdisk : ∀ w disk, P w → P { w with disk := disk } :=
    fun w disk h => hP w _ h (Grows.of_eq rfl rfl) rfl
  have hask : ∀ {α : Type} (answer : Nat → Except Stop α), Meets P (ask answer) (fun _ => P) C :=
    fun answer => meets_ask (fun _ w w' h hs => hstill w w' h hs)
      fun w w' h hs => hC w' (hstill w w' h hs)
  have hattach : Meets P attach (fun _ => P) C := by
    refine meets_op (fun w h => hC w h) fun w w' h hs => ?_
    split <;> exact hstill w w' h hs
  have hclear : Meets P clearWreckage (fun _ => P) C := by
    refine meets_op (fun w h => hC w h) fun w w' h hs => ?_
    split_ifs
    · exact hC w' (hstill w w' h hs)
    · exact hdisk w' _ (hstill w w' h hs)
  have hcommit : Meets P (startingCommit repo plan.baseline) (fun _ => P) C := by
    cases plan.baseline with
    | none => exact hask repo.visible
    | some sha =>
      exact hask fun t => if repo.hasCommit t sha then .ok sha else .error (.noCommit sha)
  have hadd : Meets P (addWorktree repo) (fun _ => P) C := by
    refine meets_op (fun w h => hC w h) fun w w' h hs => ?_
    have hnow : P w' := hstill w w' h hs
    cases repo.addWorktree w'.clock with
    | error e => exact hC w' hnow
    | ok _ => exact hP w' _ hnow (Grows.of_event rfl rfl (hshadow .built trivial)) rfl
  have hcarry : ∀ sha, Meets P (carryOver repo sha) (fun _ => P) C := by
    intro sha
    have hnoted : Meets P (note .carried) (fun _ => P) C := meets_note fun w w' h hs =>
      hP w w' h (Grows.of_event hs.log hs.trace (hshadow .carried trivial)) hs.ledger
    exact Meets.bind (hask _) fun files => Meets.ite (fun _ => Meets.pure fun _ h => h)
      fun _ => Meets.bind hnoted fun _ => hask _
  have hmeta : ∀ sha, Meets P (writeMeta repo sha) (fun _ => P) C := by
    refine fun sha => meets_op (fun w h => hC w h) fun w w' h hs => ?_
    cases repo.writeMeta w'.clock with
    | error e => exact hC w' (hstill w w' h hs)
    | ok _ => exact hdisk w' _ (hstill w w' h hs)
  have hcreate : Meets P (create repo plan.baseline) (fun _ => P) C :=
    Meets.bind hclear fun _ => Meets.bind hcommit fun _ => Meets.bind hadd fun _ =>
      Meets.bind (hcarry _) fun _ => Meets.bind (hmeta _) fun _ => Meets.pure fun _ h => h
  refine Meets.bind hattach fun existing => ?_
  split
  · exact Meets.pure fun _ h => h
  · exact Meets.bind hcreate fun _ => Meets.pure fun _ h => h

/-! ## Lifetimes -/

/-- One lifetime of the process, killed after so many operations. -/
def lifetime (spec : TaskSpec) (out : Outside) (resume : Bool) (life : Nat) (w : World) : World :=
  (runTask spec out resume).final { w with life := life }

/-- What becomes of a task: a lifetime (the label is its `resume`), or the time between two, in which
the worktree or its metadata may be lost and others spend from the ledger. -/
inductive TaskStep (spec : TaskSpec) : Option Bool → World → World → Prop where
  | lifetime (out : Outside) (resume : Bool) (life : Nat) (w : World) :
      TaskStep spec (some resume) w (lifetime spec out resume life w)
  | between (w : World) (disk : Disk) (ledger : Ledger)
      (hworktree : disk.worktree = none ∨ disk.worktree = w.disk.worktree)
      (hmetadata : disk.metadata = none ∨ disk.metadata = w.disk.metadata) :
      TaskStep spec none w { w with disk := disk, ledger := ledger }

/-- A run all of whose steps satisfy `ok`. -/
inductive TaskRun (spec : TaskSpec) (ok : Option Bool → World → World → Prop) :
    World → World → Prop where
  | refl (w : World) : TaskRun spec ok w w
  | tail {w w' w'' : World} {label : Option Bool} (run : TaskRun spec ok w w')
      (step : TaskStep spec label w' w'') (hok : ok label w' w'') : TaskRun spec ok w w''

/-- Nothing is known of the task; a worktree that stands was built before any row. -/
structure TaskStart (w : World) : Prop where
  log : w.log = []
  trace : w.trace = []
  worktree : ∀ rows, w.disk.worktree = some rows → rows = 0

/-! ## A small outside

Everything works, the model answers without a tool call at eleven tokens, and the proof shows one
divergence nobody stated. -/

def headCommit : Sha := ⟨lit "c0", by decide⟩

def strayDivergence : DivergenceRecord where
  divergenceClass := .returnValue
  severity := .normal
  detail := lit "1 became 2"
  argsLiteral := lit "[]"
  kwargsLiteral := lit "{}"
  minimizedArgs := some (lit "[]")
  minimizedKwargs := some (lit "{}")
  shrinkPath := []
  baseSummary := lit "1"
  headSummary := lit "2"
  reproFilename := some (lit "m_f_0.py")
  aiNarrative := none

def strayTarget : TargetRecord where
  filePath := lit "m.py"
  module := lit "m"
  qualname := lit "f"
  lang := .python
  classification := .pureCandidate
  verdict := .divergent
  reasonCode := none
  reasonDetail := none
  inputsRun := 1
  equivalentInputs := 0
  unprovableInputs := 0
  changedLineCoverage := 1
  divergences := [strayDivergence]

def strayBundle : RunBundle where
  manifest :=
    { schemaVersion := 3
      engineVersion := lit "1"
      repo := lit "r"
      baseSha := headCommit.1
      headSha := lit "c1"
      createdAt := []
      verdict := .divergent
      baseDeps := []
      headDeps := []
      budgetMaxInputs := 1
      sandboxTier := []
      sandboxAssurance := [] }
  targets := [strayTarget]
  reproScripts := Dict.empty

def statedIntent : IntentContract where
  intent := lit "keep f"
  mayChange := []
  mustNotChange := []
  stated := by decide
  meant := meant_nil

def plainAnswer : Completion where
  provider := lit "anthropic"
  model := lit "opus"
  text := []
  usage := ⟨11, 0⟩

def plainOutside : Outside where
  repo :=
    { hasCommit := fun _ _ => true
      visible := fun _ => .ok headCommit
      addWorktree := fun _ => .ok ()
      untracked := fun _ => .ok []
      carryOver := fun _ => .ok headCommit
      writeMeta := fun _ => .ok () }
  writes := fun _ => .ok ()
  cancelled := fun _ => .ok ()
  steer := fun _ => .ok []
  complete := fun _ _ => .ok plainAnswer
  today := fun _ => lit "today"
  costText := fun _ => []
  hasApprover := false
  approvalNeeded := fun _ _ => false
  decide := fun _ _ => .ok ⟨true, none, []⟩
  dispatch := fun _ _ => .ok ⟨true, [], false⟩
  setUp := fun _ => .ok ()
  snapshot := fun _ => .ok headCommit
  prove := fun _ _ _ => .ok strayBundle
  changedFiles := fun _ => .ok [lit "m.py"]
  contract := fun _ => .ok (some statedIntent)
  contractBytes := fun _ => .ok []
  reverted := fun _ => .ok ∅
  broken := fun _ => .ok []
  printable := fun _ => true

def plainTask : TaskSpec where
  taskId := lit "t"
  prompt := lit "keep f"
  maxTurns := 1
  maxRepairAttempts := 1

def newWorld : World := ⟨[], ⟨none, none⟩, [], 0, 0, []⟩

theorem newWorld_start : TaskStart newWorld :=
  ⟨rfl, rfl, fun _ h => nomatch h⟩

end Tempest
