import Tempest.Execute.Worker

/-!
# Persistent — the two drivers on one target (`execute/runner.py`)

`run_batch` gives a list of inputs to one process after another; a `PersistentWorker` keeps its process
from one call of `run` to the next, while it lives and its stream can be trusted.  Both are run here on
a target that answers an input by a function of the input: an observation that the persistent worker
does not mark tells the same of an input as the batch, unless the module does not import.  A batch
reads the end of a process that could not import as a crash of the second input, with the status of a
worker that came to its end (`persistent_agrees_iff`).
-/

namespace Tempest
namespace Persistent

open Python

/-! ## A target -/

/-- The literals of the arguments and of the keyword arguments. -/
abbrev Input := PyStr × PyStr

/-- A worker that answers each input by a function of that input alone, and the exit status of a
process that came to the end of `main`.  An import that ends the process, or never comes back, is one
that answers all inputs so. -/
structure Target where
  importing : Option ImportFailure
  answer : Input → Invocation
  exit : Int

/-- A process that is given some of `inputs`, by their index. -/
def Target.process (t : Target) (inputs : List Input) : Process where
  importing := t.importing
  invocation i := t.answer (inputs.getD i ([], []))
  exit := t.exit

def Target.runBatch (t : Target) (timeoutNs : Int) (inputs : List Input) :
    Except RunError (List Observation) :=
  Tempest.runBatch timeoutNs (fun _ => invokeMain (t.process inputs)) inputs.length

/-! ## The process at hand -/

def isBoot : Line → Bool
  | .boot => true
  | _ => false

def isBatchAck : Line → Bool
  | .batchAck => true
  | _ => false

def isBatchEnd : Line → Bool
  | .batchEnd => true
  | _ => false

/-- `_proc` and `_lines`: the lines that are not read yet, what comes after them as things stand, and
whether the process reads its standard input. -/
structure Proc where
  unread : List (Option Line)
  ending : Ending
  serving : Bool

def Proc.fresh : Proc := ⟨[some .boot], .silent, true⟩

/-- The next line has to be the one that is waited for; else the process is retired. -/
def Proc.confirm (p : Proc) (wanted : Line → Bool) : Option Proc :=
  match p.unread with
  | some line :: unread => if wanted line then some { p with unread := unread } else none
  | _ => none

/-- The process once it has written what it writes on a request: it goes back to its standard input
behind `batch_end`. -/
def Proc.writing (unread : List (Option Line)) (run : WorkerRun) : Proc :=
  ⟨unread ++ run.lines, run.ending, run.lines.any fun line => line.any isBatchEnd⟩

/-- `do_serve` on a request. -/
def Proc.request (p : Proc) (process : Process) (pending : List Nat) : Proc :=
  if p.serving then Proc.writing p.unread ((serveBatch process pending).push .batchAck) else p

/-- The loop over `pending` and `_drain_sentinel`: the results, whether the loop broke off, and the
process unless it was retired. -/
def Proc.drain (timeoutNs : Int) :
    List Nat → Proc → Results → Except RunError (Results × Bool × Option Proc)
  | [], p, results => .ok (results, false, p.confirm isBatchEnd)
  | expected :: pending, p, results =>
    match p.unread with
    | [] =>
      match p.ending with
      | .silent => .ok (results.set expected (hungObservation timeoutNs), true, none)
      | .exited status => .ok (results.set expected (crashedObservation status), true, none)
    | none :: _ => .ok (results.set expected (fatalObservation garbledLine), true, none)
    | some .batchEnd :: unread =>
      .ok (results.setAll (expected :: pending) (fatalObservation endedEarly), false,
        some { p with unread := unread })
    | some (.fatal line) :: unread =>
      Proc.drain timeoutNs pending { p with unread := unread }
        (results.set expected (fatalObservation line.error))
    | some (.result line) :: unread =>
      Proc.drain timeoutNs pending { p with unread := unread }
        (results.set line.index (completedObservation line))
    | some .boot :: _ | some .batchAck :: _ => .error .keyError

/-! ## `PersistentWorker` -/

/-- What the surroundings do in each turn of `_run_batches`: whether the process at hand is still
there, a fresh one boots, its standard input can be written, and the request reaches it. -/
structure Surroundings where
  alive : Nat → Bool
  boots : Nat → Bool
  writable : Nat → Bool
  reaches : Nat → Bool

/-- A worker object: its process and the turns it has seen. -/
structure State where
  proc : Option Proc
  turns : Nat

def State.start : State := ⟨none, 0⟩

def State.ensure (s : State) (env : Surroundings) : Option Proc :=
  match s.proc, env.alive s.turns with
  | some p, true => some p
  | _, _ => if env.boots s.turns then Proc.fresh.confirm isBoot else none

/-- What a turn leaves; a turn that broke off costs a respawn, and once there is none the inputs that
are left are told `exhausted`. -/
structure Turn where
  results : Results
  broke : Bool
  proc : Option Proc
  exhausted : PyStr

/-- One turn of `_run_batches`. -/
def State.turn (timeoutNs : Int) (env : Surroundings) (process : Process) (s : State)
    (pending : List Nat) (results : Results) : Except RunError Turn :=
  match s.ensure env with
  | none => .ok ⟨results, true, none, Attempt.noBoot.exhausted⟩
  | some p =>
    if env.writable s.turns then
      let asked := if env.reaches s.turns then p.request process pending else p
      match asked.confirm isBatchAck with
      | none => .ok ⟨results, true, none, Attempt.noAck.exhausted⟩
      | some p =>
        match Proc.drain timeoutNs pending p results with
        | .error e => .error e
        | .ok (results, broke, proc) =>
          .ok ⟨results, broke, proc,
            lit "respawn budget exhausted before this input could run"⟩
    else .ok ⟨results, true, none, Attempt.unwritable.exhausted⟩

/-- `_run_batches` from a turn on. -/
def runBatches (timeoutNs : Int) (env : Surroundings) (process : Process) :
    Nat → Nat → State → List Nat → Results → Except RunError (Results × State)
  | 0, _, _, _, _ => .error .outOfFuel
  | _ + 1, _, s, [], results => .ok (results, s)
  | fuel + 1, respawns, s, i :: pending, results =>
    match s.turn timeoutNs env process (i :: pending) results with
    | .error e => .error e
    | .ok turn =>
      let left := (i :: pending).filter fun i => (turn.results i).isNone
      let next : State := ⟨turn.proc, s.turns + 1⟩
      if turn.broke then
        if maxRespawnsPerRun < respawns + 1 then
          .ok (turn.results.setAll left (syntheticObservation turn.exhausted), next)
        else runBatches timeoutNs env process fuel (respawns + 1) next left turn.results
      else runBatches timeoutNs env process fuel respawns next left turn.results

def State.run (timeoutNs : Int) (env : Surroundings) (t : Target) (s : State)
    (inputs : List Input) : Except RunError (List Observation × State) :=
  match runBatches timeoutNs env (t.process inputs) (inputs.length + maxRespawnsPerRun + 1) 0 s
      (List.range inputs.length) fun _ => none with
  | .error e => .error e
  | .ok (results, s) =>
    match lookups results (List.range inputs.length) with
    | .error e => .error e
    | .ok os => .ok (os, s)

/-- The calls of `run` on one worker, one after the other. -/
def State.runs (timeoutNs : Int) (env : Surroundings) (t : Target) :
    State → List (List Input) → Except RunError (List Observation)
  | _, [] => .ok []
  | s, inputs :: calls => do
    let (os, s) ← s.run timeoutNs env t inputs
    let more ← State.runs timeoutNs env t s calls
    return os ++ more

/-! ## Agreement -/

structure Told where
  outcome : InputOutcome
  exitStatus : Int
  raised : Option RaisedInfo
  returnCanon : Canon

def told (o : Observation) : Told := ⟨o.outcome, o.exitStatus, o.raised, o.returnCanon⟩

/-- Each observation of the persistent worker that is not marked tells the same as the one of the
batch. -/
def Agrees (timeoutNs : Int) (t : Target) (env : Surroundings) (calls : List (List Input)) : Prop :=
  ∃ batch served, t.runBatch timeoutNs calls.flatten = .ok batch ∧
    State.runs timeoutNs env t .start calls = .ok served ∧
    List.Forall₂ (fun o o' => o'.syntheticReason = none → told o' = told o) batch served

/-! ## What a target tells of an input -/

/-- An index is in the line of an input, and nowhere else. -/
theorem report_at (i : Nat) (c : Call) :
    report i c = (fun line => { line with index := i }) <$> report 0 c := by
  simp only [report, map_bind]
  refine bind_congr fun found => bind_congr fun stdout => bind_congr fun fd1 => ?_
  refine bind_congr fun stderr => bind_congr fun effects => bind_congr fun raised => ?_
  rw [apply_ite ((fun line => { line with index := i } : ResultLine → ResultLine) <$> ·)]
  rfl

/-- What is told of an input does not depend on where it is in the list. -/
theorem told_observe (timeoutNs : Int) (i : Nat) (invocation : Invocation) :
    told (observe timeoutNs i invocation) = told (observe timeoutNs 0 invocation) := by
  cases invocation with
  | badLiteral _ | died _ | hung => rfl
  | back call =>
    simp only [observe, report_at i call]
    cases report 0 call with
    | ok line => rfl
    | error status => rfl

def Target.tells (t : Target) (timeoutNs : Int) (x : Input) : Told :=
  match t.importing with
  | some _ => told (fatalObservation none)
  | none => told (observe timeoutNs 0 (t.answer x))

structure Target.Heard (t : Target) (timeoutNs : Int) (x : Input) (o : Observation) : Prop where
  plain : o.syntheticReason = none
  told : Persistent.told o = t.tells timeoutNs x

variable {t : Target}

theorem heard_observe (himport : t.importing = none) (timeoutNs : Int) (i : Nat) (x : Input) :
    t.Heard timeoutNs x (observe timeoutNs i (t.answer x)) := by
  constructor
  · cases t.answer x with
    | badLiteral _ | died _ | hung => rfl
    | back call =>
      simp only [observe]
      cases report i call <;> rfl
  · simp only [Target.tells, himport, told_observe timeoutNs i]

theorem heard_fatal {failure : ImportFailure} (himport : t.importing = some failure) (timeoutNs : Int)
    (x : Input) (error : Option PyStr) : t.Heard timeoutNs x (fatalObservation error) := by
  refine ⟨rfl, ?_⟩
  simp only [Target.tells, himport]
  rfl

/-! ## The lines of a request -/

structure Grows (good : Nat → Observation → Prop) (before after : Results) : Prop where
  old_or_good : ∀ i o, after i = some o → before i = some o ∨ good i o
  kept : ∀ i, (before i).isSome = true → (after i).isSome = true

variable {good better : Nat → Observation → Prop}

theorem Grows.refl (results : Results) : Grows good results results :=
  ⟨fun _ _ h => Or.inl h, fun _ h => h⟩

theorem Grows.trans {a b c : Results} (hab : Grows good a b) (hbc : Grows good b c) :
    Grows good a c := by
  refine ⟨fun i o hi => ?_, fun i hi => hbc.kept i (hab.kept i hi)⟩
  rcases hbc.old_or_good i o hi with hold | hgood
  · exact hab.old_or_good i o hold
  · exact Or.inr hgood

theorem Grows.set {results : Results} {i : Nat} {o : Observation} (h : good i o) :
    Grows good results (results.set i o) := by
  refine ⟨fun j o' hj => ?_, fun j => results.set_isSome i j o⟩
  by_cases hij : j = i
  · subst hij
    rw [Results.set_self] at hj
    exact Or.inr (Option.some.inj hj ▸ h)
  · rw [Results.set_other results hij] at hj
    exact Or.inl hj

theorem Grows.setAll {is : List Nat} {o : Observation} (h : ∀ i, good i o) :
    ∀ results : Results, Grows good results (results.setAll is o) := by
  induction is with
  | nil => exact fun results => Grows.refl results
  | cons i is ih => exact fun results => (Grows.set (h i)).trans (ih (results.set i o))

/-- Whatever was read of the process, it waits for a request. -/
def Proc.Clean (p : Proc) : Prop := p.unread = [] ∧ p.serving = true

/-- What the loop over the lines of a request leaves. -/
structure Served (good : Nat → Observation → Prop) (pending : List Nat) (before after : Results)
    (broke : Bool) (proc : Option Proc) : Prop where
  grows : Grows good before after
  clean : ∀ p, proc = some p → p.Clean
  answered : broke = false → ∀ i ∈ pending, (after i).isSome = true

/-- An input that came back is read, and the stream goes on behind its line. -/
theorem Served.cons {pending : List Nat} {before after : Results} {broke : Bool}
    {proc : Option Proc} {i : Nat} {o : Observation} (hgood : good i o)
    (h : Served good pending (before.set i o) after broke proc) :
    Served good (i :: pending) before after broke proc := by
  refine ⟨(Grows.set hgood).trans h.grows, h.clean, fun hbroke j hj => ?_⟩
  rcases List.mem_cons.1 hj with rfl | hrest
  · exact h.grows.kept j (by simp)
  · exact h.answered hbroke j hrest

theorem served_broke {pending : List Nat} {before : Results} {i : Nat} {o : Observation}
    (hgood : good i o) : Served good (i :: pending) before (before.set i o) true none := by
  refine ⟨Grows.set hgood, ?_, ?_⟩
  · intro p hp
    cases hp
  · intro hbroke
    cases hbroke

/-- The module imports: one input after the other, up to the one that ends the process. -/
theorem drain_inputs {timeoutNs : Int} {process : Process}
    (hgood : ∀ i, good i (observe timeoutNs i (process.invocation i))) :
    ∀ (pending : List Nat) (results : Results), ∃ after broke proc,
      Proc.drain timeoutNs pending
          (Proc.writing [] (invokeInputs process ⟨[some .batchEnd], .silent⟩ pending)) results =
        .ok (after, broke, proc) ∧ Served good pending results after broke proc
  | [], results => by
    refine ⟨results, false, some ⟨[], .silent, true⟩, rfl, Grows.refl results, ?_, by simp⟩
    intro p hp
    exact Option.some.inj hp ▸ ⟨rfl, rfl⟩
  | i :: pending, results => by
    have hfirst := hgood i
    have hnext : ∀ o, good i o → ∃ after broke proc,
        Proc.drain timeoutNs pending
            (Proc.writing [] (invokeInputs process ⟨[some .batchEnd], .silent⟩ pending))
            (results.set i o) = .ok (after, broke, proc) ∧
          Served good (i :: pending) results after broke proc := by
      intro o ho
      rcases drain_inputs hgood pending (results.set i o) with
        ⟨after, broke, proc, hdrain, hserved⟩
      exact ⟨after, broke, proc, hdrain, hserved.cons ho⟩
    cases hinv : process.invocation i with
    | badLiteral error =>
      simp only [observe, hinv] at hfirst
      simpa [invokeInputs, hinv, Proc.writing, WorkerRun.push, Proc.drain, isBatchEnd] using
        hnext _ hfirst
    | died _ | hung =>
      simp only [observe, hinv] at hfirst
      simp only [invokeInputs, hinv]
      exact ⟨_, _, _, rfl, served_broke hfirst⟩
    | back call =>
      cases hreport : report i call with
      | error status =>
        simp only [observe, hinv, hreport] at hfirst
        simp only [invokeInputs, hinv, hreport]
        exact ⟨_, _, _, rfl, served_broke hfirst⟩
      | ok line =>
        have hline := report_index hreport
        have hindex : line.wire.index = i := hline
        simp only [observe, hinv, hreport] at hfirst
        simpa [invokeInputs, hinv, hreport, Proc.writing, WorkerRun.push, Proc.drain,
          isBatchEnd, hindex] using hnext _ hfirst

/-- The module does not import: the first input is told so, and the end of the batch all others. -/
theorem drain_unimported {timeoutNs : Int} {process : Process} {failure : ImportFailure}
    (himport : process.importing = some failure) (hgood : ∀ i error, good i (fatalObservation error))
    (i : Nat) (pending : List Nat) (results : Results) :
    ∃ after proc, Proc.drain timeoutNs (i :: pending)
        (Proc.writing [] (serveBatch process (i :: pending))) results = .ok (after, false, proc) ∧
      Served good (i :: pending) results after false proc := by
  have hrun : serveBatch process (i :: pending) =
      ⟨[some (.fatal failure.line), some .batchEnd], .silent⟩ := by
    simp only [serveBatch, doInvoke, himport, WorkerRun.push]
  have hclean : ∀ p, some (⟨[], .silent, true⟩ : Proc) = some p → p.Clean :=
    fun p hp => Option.some.inj hp ▸ ⟨rfl, rfl⟩
  have hfirst := hgood i failure.line.error
  rw [hrun]
  cases pending with
  | nil =>
    have hserved : Served good [] (results.set i (fatalObservation failure.line.error))
        (results.set i (fatalObservation failure.line.error)) false _ :=
      ⟨Grows.refl _, hclean, by simp⟩
    exact ⟨_, _, rfl, hserved.cons hfirst⟩
  | cons j pending =>
    refine ⟨_, _, rfl, Served.cons hfirst ⟨Grows.setAll (fun k => hgood k _) _, hclean, ?_⟩⟩
    intro _ k hk
    rw [Results.setAll_mem hk]
    rfl

/-! ## A turn -/

def State.Clean (s : State) : Prop := ∀ p, s.proc = some p → p.Clean

theorem State.clean_start : State.start.Clean := fun _ hp => (by cases hp)

theorem Proc.clean_fresh {p : Proc} (h : Proc.fresh.confirm isBoot = some p) : p.Clean :=
  Option.some.inj h ▸ ⟨rfl, rfl⟩

theorem State.clean_ensure {s : State} (hclean : s.Clean) {env : Surroundings} {p : Proc}
    (h : s.ensure env = some p) : p.Clean := by
  have hfresh : (if env.boots s.turns then Proc.fresh.confirm isBoot else none) = some p →
      p.Clean := by
    intro hboot
    by_cases hboots : env.boots s.turns = true
    · exact Proc.clean_fresh (by simpa [hboots] using hboot)
    · simp [hboots] at hboot
  unfold State.ensure at h
  cases hproc : s.proc with
  | none => exact hfresh (by simpa [hproc] using h)
  | some q =>
    cases halive : env.alive s.turns with
    | true =>
      simp only [hproc, halive, Option.some.injEq] at h
      exact h ▸ hclean q hproc
    | false => exact hfresh (by simpa [hproc, halive] using h)

/-- A process that waits acknowledges the request and answers it. -/
theorem Proc.Clean.request {p : Proc} (h : p.Clean) (process : Process) (pending : List Nat) :
    (p.request process pending).confirm isBatchAck =
      some (Proc.writing [] (serveBatch process pending)) := by
  rcases h with ⟨hunread, hserving⟩
  simp [Proc.request, hserving, Proc.writing, hunread, WorkerRun.push, Proc.confirm, isBatchAck,
    isBatchEnd]

theorem Proc.Clean.unheard {p : Proc} (h : p.Clean) : p.confirm isBatchAck = none := by
  simp [Proc.confirm, h.1]

/-- Nothing goes wrong around the worker. -/
structure Surroundings.Calm (env : Surroundings) : Prop where
  boots : ∀ k, env.boots k = true
  writable : ∀ k, env.writable k = true
  reaches : ∀ k, env.reaches k = true

theorem Surroundings.Calm.ensure {env : Surroundings} (h : env.Calm) (s : State) :
    ∃ p, s.ensure env = some p := by
  unfold State.ensure
  split
  · exact ⟨_, rfl⟩
  · exact ⟨_, by rw [if_pos (h.boots s.turns)]; rfl⟩

/-- The lines of a request to a target, whether it imports or not. -/
theorem drain_target {t : Target} {timeoutNs : Int} {inputs : List Input}
    (hgood : ∀ i o, t.Heard timeoutNs (inputs.getD i ([], [])) o → good i o)
    (i : Nat) (pending : List Nat) (results : Results) :
    ∃ after broke proc, Proc.drain timeoutNs (i :: pending)
        (Proc.writing [] (serveBatch (t.process inputs) (i :: pending))) results =
          .ok (after, broke, proc) ∧
      Served good (i :: pending) results after broke proc ∧
      (t.importing ≠ none → broke = false) := by
  cases himport : t.importing with
  | some failure =>
    have hfatal : ∀ j error, good j (fatalObservation error) :=
      fun j error => hgood j _ (heard_fatal himport timeoutNs _ error)
    have himport' : (t.process inputs).importing = some failure := himport
    rcases @drain_unimported good timeoutNs (t.process inputs) failure himport' hfatal i pending
      results with ⟨after, proc, hdrain, hserved⟩
    exact ⟨after, false, proc, hdrain, hserved, fun _ => rfl⟩
  | none =>
    have hobserve : ∀ j, good j (observe timeoutNs j ((t.process inputs).invocation j)) :=
      fun j => hgood j _ (heard_observe himport timeoutNs j _)
    have hrun : serveBatch (t.process inputs) (i :: pending) =
        invokeInputs (t.process inputs) ⟨[some .batchEnd], .silent⟩ (i :: pending) := by
      have himport' : (t.process inputs).importing = none := himport
      simp only [serveBatch, doInvoke, himport']
    rcases @drain_inputs good timeoutNs (t.process inputs) hobserve (i :: pending) results with
      ⟨after, broke, proc, hdrain, hserved⟩
    exact ⟨after, broke, proc, hrun ▸ hdrain, hserved, fun hsome => absurd rfl hsome⟩

theorem turn_spec {t : Target} {timeoutNs : Int} {inputs : List Input} {env : Surroundings}
    {s : State} (hclean : s.Clean)
    (hgood : ∀ i o, t.Heard timeoutNs (inputs.getD i ([], [])) o → good i o)
    (i : Nat) (pending : List Nat) (results : Results) :
    ∃ turn, s.turn timeoutNs env (t.process inputs) (i :: pending) results = .ok turn ∧
      Served good (i :: pending) results turn.results turn.broke turn.proc ∧
      (t.importing ≠ none → env.Calm → turn.broke = false) := by
  -- a request that reaches no worker leaves the results as they are
  have hretry : ∀ exhausted, Served good (i :: pending) results
      (Turn.mk results true none exhausted).results true none := by
    intro exhausted
    refine ⟨Grows.refl results, ?_, ?_⟩
    · intro p hp
      cases hp
    · intro hbroke
      cases hbroke
  unfold State.turn
  cases hensure : s.ensure env with
  | none =>
    refine ⟨_, rfl, hretry _, fun _ hcalm => ?_⟩
    rcases hcalm.ensure s with ⟨p, hp⟩
    cases hensure.symm.trans hp
  | some p =>
    have hp := State.clean_ensure hclean hensure
    cases hwritable : env.writable s.turns with
    | false =>
      refine ⟨_, rfl, hretry _, fun _ hcalm => ?_⟩
      cases hwritable.symm.trans (hcalm.writable s.turns)
    | true =>
      cases hreaches : env.reaches s.turns with
      | false =>
        simp only [if_true, Bool.false_eq_true, if_false, hp.unheard]
        refine ⟨_, rfl, hretry _, fun _ hcalm => ?_⟩
        cases hreaches.symm.trans (hcalm.reaches s.turns)
      | true =>
        rcases @drain_target good t timeoutNs inputs hgood i pending results with
          ⟨after, broke, proc, hdrain, hserved, hsteady⟩
        simp only [if_true, hp.request, hdrain]
        exact ⟨_, rfl, hserved, fun hfails _ => hsteady hfails⟩

/-! ## The calls of `run` -/

/-- What the calls of a worker say: what was heard of the target, or a marked answer. -/
def Target.Says (t : Target) (timeoutNs : Int) (x : Input) (o : Observation) : Prop :=
  o.syntheticReason = none → told o = t.tells timeoutNs x

/-- `good` holds of what is heard, and of marked answers where there are some. -/
structure Allows (t : Target) (timeoutNs : Int) (env : Surroundings)
    (good : Input → Observation → Prop) : Prop where
  heard : ∀ x o, t.Heard timeoutNs x o → good x o
  marked : (∀ x reason, good x (syntheticObservation reason)) ∨ t.importing ≠ none ∧ env.Calm

theorem allows_told (t : Target) (timeoutNs : Int) (env : Surroundings) :
    Allows t timeoutNs env (t.Says timeoutNs) :=
  ⟨fun _ _ h _ => h.told, Or.inl fun _ _ h => (by cases h)⟩

theorem allows_heard {env : Surroundings} (himport : t.importing ≠ none) (hcalm : env.Calm)
    (timeoutNs : Int) : Allows t timeoutNs env (t.Heard timeoutNs) :=
  ⟨fun _ _ h => h, Or.inr ⟨himport, hcalm⟩⟩

section Calls

variable {t : Target} {timeoutNs : Int} {env : Surroundings} {said : Input → Observation → Prop}

/-- The turns of one call, by the respawns that are left; a turn that does not break off leaves no
input. -/
theorem runBatches_spec (hallows : Allows t timeoutNs env said) (inputs : List Input) :
    ∀ (fuel respawns : Nat) (s : State) (pending : List Nat) (results : Results), s.Clean →
      respawns ≤ maxRespawnsPerRun → 0 < fuel →
      (pending ≠ [] → maxRespawnsPerRun + 1 < fuel + respawns) →
      ∃ after s', runBatches timeoutNs env (t.process inputs) fuel respawns s pending results =
          .ok (after, s') ∧ s'.Clean ∧
        Grows (fun i => said (inputs.getD i ([], []))) results after ∧
        ∀ i ∈ pending, (after i).isSome = true
  | 0, _, _, _, _, _, _, hfuel, _ => absurd hfuel (Nat.lt_irrefl 0)
  | _ + 1, _, s, [], results, hclean, _, _, _ =>
    ⟨results, s, rfl, hclean, Grows.refl results, by simp⟩
  | fuel + 1, respawns, s, i :: pending, results, hclean, hrespawns, _, henough => by
    have hlast := henough (List.cons_ne_nil i pending)
    rcases @turn_spec (fun i => said (inputs.getD i ([], []))) t timeoutNs inputs env s hclean
      (fun i => hallows.heard _) i pending results with ⟨turn, hturn, hserved, hsteady⟩
    have hleft : ∀ j ∈ i :: pending, (turn.results j).isSome = true ∨
        j ∈ (i :: pending).filter fun j => (turn.results j).isNone := by
      intro j hj
      cases hj' : turn.results j with
      | some o => exact Or.inl rfl
      | none => exact Or.inr (List.mem_filter.2 ⟨hj, by simp [hj']⟩)
    simp only [runBatches, hturn]
    cases hbroke : turn.broke with
    | false =>
      have hnone : ((i :: pending).filter fun j => (turn.results j).isNone) = [] := by
        refine List.filter_eq_nil_iff.2 fun j hj => ?_
        have hsome := hserved.answered hbroke j hj
        rw [← Option.not_isSome, hsome]
        decide
      simp only [Bool.false_eq_true, if_false, hnone]
      rcases runBatches_spec hallows inputs fuel respawns ⟨turn.proc, s.turns + 1⟩ []
        turn.results hserved.clean hrespawns (by omega) (fun hne => absurd rfl hne) with
        ⟨after, s', hrun, hclean', hgrows, _⟩
      exact ⟨after, s', hrun, hclean', hserved.grows.trans hgrows, fun j hj =>
        hgrows.kept j (hserved.answered hbroke j hj)⟩
    | true =>
      simp only [if_true]
      split_ifs with hspent
      · rcases hallows.marked with hmarked | ⟨hfails, hcalm⟩
        · have hall := @Grows.setAll (fun i => said (inputs.getD i ([], [])))
            ((i :: pending).filter fun j => (turn.results j).isNone)
            (syntheticObservation turn.exhausted) (fun j => hmarked _ turn.exhausted)
            turn.results
          refine ⟨_, _, rfl, hserved.clean, hserved.grows.trans hall, fun j hj => ?_⟩
          rcases hleft j hj with hsome | hmem
          · exact hall.kept j hsome
          · rw [Results.setAll_mem hmem]
            rfl
        · exact absurd (hsteady hfails hcalm) (by simp [hbroke])
      · rcases runBatches_spec hallows inputs fuel (respawns + 1) ⟨turn.proc, s.turns + 1⟩
          ((i :: pending).filter fun j => (turn.results j).isNone) turn.results hserved.clean
          (by omega) (by omega) (fun _ => by omega) with
          ⟨after, s', hrun, hclean', hgrows, hall⟩
        refine ⟨after, s', hrun, hclean', hserved.grows.trans hgrows, fun j hj => ?_⟩
        rcases hleft j hj with hsome | hmem
        · exact hgrows.kept j hsome
        · exact hall j hmem

theorem map_getD_range (inputs : List Input) :
    (List.range inputs.length).map (fun i => inputs.getD i ([], [])) = inputs := by
  refine List.ext_getElem (by simp) fun i hi hi' => ?_
  simp [hi']

/-- What holds of the input at each index holds of the inputs. -/
theorem forall₂_inputs {inputs : List Input} {os : List Observation}
    (h : List.Forall₂ (fun i o => said (inputs.getD i ([], [])) o) (List.range inputs.length) os) :
    List.Forall₂ said inputs os := by
  have hmap := List.forall₂_map_left_iff.2 h
  rwa [map_getD_range] at hmap

theorem run_spec (hallows : Allows t timeoutNs env said) {s : State} (hclean : s.Clean)
    (inputs : List Input) :
    ∃ os s', s.run timeoutNs env t inputs = .ok (os, s') ∧ s'.Clean ∧
      List.Forall₂ said inputs os := by
  rcases runBatches_spec hallows inputs (inputs.length + maxRespawnsPerRun + 1) 0 s
    (List.range inputs.length) (fun _ => none) hclean (Nat.zero_le _) (by omega) (fun hne => by
      have hpos : inputs.length ≠ 0 := fun hzero => hne (by simp [hzero])
      omega) with ⟨after, s', hrun, hclean', hgrows, hall⟩
  rcases lookups_ok after (List.range inputs.length) hall with ⟨os, hos, hvalues⟩
  refine ⟨os, s', by simp only [State.run, hrun, hos], hclean', forall₂_inputs ?_⟩
  refine hvalues.imp fun i o ho => ?_
  rcases hgrows.old_or_good i o ho with hold | hsaid
  · cases hold
  · exact hsaid

/-- Every call answers its inputs, whatever the calls before it did to the process. -/
theorem runs_spec (hallows : Allows t timeoutNs env said) :
    ∀ (calls : List (List Input)) (s : State), s.Clean →
      ∃ os, State.runs timeoutNs env t s calls = .ok os ∧ List.Forall₂ said calls.flatten os
  | [], _, _ => ⟨[], rfl, .nil⟩
  | inputs :: calls, s, hclean => by
    rcases run_spec hallows hclean inputs with ⟨os, s', hrun, hclean', hos⟩
    rcases runs_spec hallows calls s' hclean' with ⟨more, hmore, hrest⟩
    refine ⟨os ++ more, ?_, List.rel_append hos hrest⟩
    simp only [State.runs, hrun, Bind.bind, Except.bind, hmore]
    rfl

end Calls

/-! ## The batch -/

/-- Once the module imports, a batch says of each input what the target does. -/
theorem runBatch_imported (himport : t.importing = none) (timeoutNs : Int) (inputs : List Input) :
    ∃ os, t.runBatch timeoutNs inputs = .ok os ∧ List.Forall₂ (t.Heard timeoutNs) inputs os := by
  rcases runBatch_invoke timeoutNs (fun _ => t.process inputs) inputs.length (fun _ => himport) with
    ⟨os, hos, hall⟩
  refine ⟨os, hos, forall₂_inputs (hall.imp fun i o ho => ?_)⟩
  rcases ho with ⟨_, rfl⟩
  exact heard_observe himport timeoutNs i _

theorem runBatch_unimported {failure : ImportFailure} (himport : t.importing = some failure)
    (timeoutNs : Int) (inputs : List Input) :
    ∃ os, t.runBatch timeoutNs inputs = .ok os ∧ os.length = inputs.length ∧
      ∀ (j : Nat) (o : Observation), os[j]? = some o →
        o = if j % 2 = 0 then fatalObservation failure.line.error
          else crashedObservation t.exit := by
  rcases @runLoop_unimported timeoutNs (fun _ => t.process inputs) failure (fun _ => himport)
    (inputs.length + 1) 0
    (List.range inputs.length) (fun _ => none) (by simp) List.nodup_range (fun _ _ => rfl) with
    ⟨after, hrun, _, hall⟩
  have hanswered : ∀ j, j < inputs.length → after j = some (if j % 2 = 0 then
      fatalObservation failure.line.error else crashedObservation t.exit) :=
    fun j hj => hall j j (by simp [hj])
  rcases lookups_ok after (List.range inputs.length) (fun j hj => by
    rw [hanswered j (List.mem_range.1 hj)]
    rfl) with ⟨os, hos, hvalues⟩
  have hlength : os.length = inputs.length := by
    rw [← hvalues.length_eq, List.length_range]
  refine ⟨os, by simp only [Target.runBatch, runBatch, hrun, hos], hlength, fun j o hj => ?_⟩
  rcases List.getElem?_eq_some_iff.1 hj with ⟨hlt, rfl⟩
  have hj' : j < inputs.length := hlength ▸ hlt
  have hvalue := List.Forall₂.get hvalues (by simpa using hj') hlt
  simp only [List.get_eq_getElem, List.getElem_range, hanswered j hj'] at hvalue
  exact (Option.some.inj hvalue).symm

/-! ## When the drivers agree -/

/-- The module imports, or there is no second input, or the process that could not import ends with
the status that a fatal line stands for. -/
def Target.Alike (t : Target) (inputs : List Input) : Prop :=
  t.importing = none ∨ inputs.length ≤ 1 ∨ t.exit = 1

/-- What a batch says of the inputs of such a target is what it does. -/
theorem runBatch_alike {inputs : List Input} (h : t.Alike inputs) (timeoutNs : Int) :
    ∃ os, t.runBatch timeoutNs inputs = .ok os ∧
      List.Forall₂ (fun x o => told o = t.tells timeoutNs x) inputs os := by
  cases himport : t.importing with
  | none =>
    rcases runBatch_imported himport timeoutNs inputs with ⟨os, hos, hall⟩
    exact ⟨os, hos, hall.imp fun x o ho => ho.told⟩
  | some failure =>
    rcases runBatch_unimported himport timeoutNs inputs with ⟨os, hos, hlength, hall⟩
    refine ⟨os, hos, List.forall₂_iff_get.2 ⟨hlength.symm, fun j hj hj' => ?_⟩⟩
    have ho := hall j _ (List.getElem?_eq_getElem hj')
    have hfatal := (heard_fatal himport timeoutNs (inputs.get ⟨j, hj⟩) failure.line.error).told
    rw [List.get_eq_getElem, ho]
    split_ifs with heven
    · exact hfatal
    · -- the input behind the first is told the exit status
      rcases h with hnone | hshort | hexit
      · cases himport.symm.trans hnone
      · exact absurd (by omega : j % 2 = 0) heven
      · rw [hexit, ← hfatal]
        rfl

theorem agrees_of_alike {calls : List (List Input)} (h : t.Alike calls.flatten) (timeoutNs : Int)
    (env : Surroundings) : Agrees timeoutNs t env calls := by
  rcases runBatch_alike h timeoutNs with ⟨batch, hbatch, htold⟩
  rcases runs_spec (allows_told t timeoutNs env) calls .start State.clean_start with
    ⟨served, hserved, hsays⟩
  refine ⟨batch, served, hbatch, hserved, ?_⟩
  have hlength : batch.length = served.length := htold.length_eq.symm.trans hsays.length_eq
  refine List.forall₂_iff_get.2 ⟨hlength, fun j hj hj' hplain => ?_⟩
  have hj'' : j < calls.flatten.length := by
    rw [htold.length_eq]
    exact hj
  calc told (served.get ⟨j, hj'⟩) = t.tells timeoutNs (calls.flatten.get ⟨j, hj''⟩) :=
        hsays.get hj'' hj' hplain
    _ = told (batch.get ⟨j, hj⟩) := (htold.get hj'' hj).symm

def calm : Surroundings where
  alive _ := true
  boots _ := true
  writable _ := true
  reaches _ := true

theorem calm_calm : calm.Calm := ⟨fun _ => rfl, fun _ => rfl, fun _ => rfl⟩

/-- The second input of a target that does not import. -/
theorem alike_of_agrees {timeoutNs : Int} {calls : List (List Input)}
    (h : Agrees timeoutNs t calm calls) : t.Alike calls.flatten := by
  cases himport : t.importing with
  | none => exact Or.inl himport
  | some failure =>
    refine Or.inr ?_
    by_contra hnot
    simp only [not_or, not_le] at hnot
    rcases hnot with ⟨hlong, hexit⟩
    have himport' : t.importing ≠ none := by simp [himport]
    rcases h with ⟨batch, served, hbatch, hserved, hall⟩
    rcases runBatch_unimported himport timeoutNs calls.flatten with ⟨os, hos, hlength, hbatched⟩
    rcases runs_spec (allows_heard himport' calm_calm timeoutNs) calls .start
      State.clean_start with ⟨os', hos', hheard⟩
    obtain rfl := Except.ok.inj (hbatch.symm.trans hos)
    obtain rfl := Except.ok.inj (hserved.symm.trans hos')
    have hj : 1 < batch.length := by omega
    have hj' : 1 < served.length := by
      rw [← hall.length_eq]
      exact hj
    have hsecond := hheard.get hlong hj'
    have hsame := hall.get hj hj' hsecond.plain
    have hcrashed := hbatched 1 _ (List.getElem?_eq_getElem hj)
    have hfatal := (heard_fatal himport timeoutNs (calls.flatten.get ⟨1, hlong⟩) none).told
    have hstatus : (1 : Int) = t.exit := by
      calc (1 : Int) = (told (fatalObservation none)).exitStatus := rfl
        _ = (told (served.get ⟨1, hj'⟩)).exitStatus := by rw [hfatal, hsecond.told]
        _ = (told (batch.get ⟨1, hj⟩)).exitStatus := by rw [hsame]
        _ = t.exit := by
          rw [List.get_eq_getElem, hcrashed]
          rfl
    exact hexit hstatus.symm

/-- Whatever goes wrong around the worker and however the inputs are given to it: the persistent
worker agrees with the batch exactly when the module imports, when there is no second input, or when a
process that could not import ends with status 1. -/
theorem persistent_agrees_iff (timeoutNs : Int) (t : Target) (calls : List (List Input)) :
    (∀ env, Agrees timeoutNs t env calls) ↔
      t.importing = none ∨ calls.flatten.length ≤ 1 ∨ t.exit = 1 :=
  ⟨fun h => alike_of_agrees (h calm), fun h => agrees_of_alike h timeoutNs⟩

/-- A module whose import raises; its process comes to the end of `main`. -/
def unimported : Target where
  importing := some (.other (lit "ModuleNotFoundError"))
  answer _ := .died 0
  exit := 0

/-- The persistent worker tells both inputs of the failed import; the batch takes the end of the
process for a crash of the second. -/
theorem import_read_as_crash :
    ¬ ∀ (timeoutNs : Int) (t : Target) (env : Surroundings) (calls : List (List Input)),
      Agrees timeoutNs t env calls := by
  intro h
  have halike := alike_of_agrees (h 10 unimported calm
    [[(lit "(1,)", lit "\x7b\x7d"), (lit "(2,)", lit "\x7b\x7d")]])
  rcases halike with himport | hlong | hexit
  · cases himport
  · exact absurd hlong (by decide)
  · exact absurd hexit (by decide)

end Persistent
end Tempest
