import Tempest.Compare.Compare

/-!
# Runner — one batch of inputs against restarted workers (`execute/runner.py`)

A worker process is seen through the lines it writes and the way it stops writing.  `runBatch`
reads one line for each pending input; a worker that dies, hangs or garbles its stream loses the
input in flight, and a fresh process gets the inputs that are left.  A batch always comes to an end
(`runBatch_terminates`): whatever a worker writes, its run answers the input in flight.
-/

namespace Tempest

open Python

/-! ## Protocol -/

structure ResultLine where
  index : Nat
  returnPresent : Bool
  returnCanon : Canon
  raised : Option RaisedInfo
  stdout : PyStr
  stderr : PyStr
  wallNs : Int
  cpuNs : Int
  lines : List Nat
  arcs : List (Nat × Nat)
  unrepresentable : Option PyStr
  cassetteMiss : Option PyStr
  uninterceptable : Option PyStr
  effects : List EffectEntry
  cassette : Option InputCassette

/-- A `fatal` line: about one input, or about the import of the module when it has no index. -/
structure FatalLine where
  index : Option Nat := none
  error : Option PyStr := none
  uninterceptable : Option PyStr := none
  cassetteMiss : Option PyStr := none

inductive Line where
  | boot
  | batchAck
  | batchEnd
  | fatal (line : FatalLine)
  | result (line : ResultLine)

/-- What comes after the last line: the process ends, or nothing within the time budget. -/
inductive Ending where
  | exited (status : Int)
  | silent

/-- The stream of one worker process; a line that is no JSON object is `none`. -/
structure WorkerRun where
  lines : List (Option Line)
  ending : Ending

def WorkerRun.push (line : Line) (run : WorkerRun) : WorkerRun :=
  ⟨some line :: run.lines, run.ending⟩

/-! ## Observations of the runner -/

def completedObservation (p : ResultLine) : Observation where
  outcome := .completed
  returnPresent := p.returnPresent
  returnCanon := p.returnCanon
  raised := p.raised
  effects := p.effects
  stdout := p.stdout
  stderr := p.stderr
  exitStatus := 0
  timing := ⟨p.wallNs, p.cpuNs⟩
  unrepresentable := p.unrepresentable
  executedLines := p.lines.toFinset
  executedArcs := p.arcs.toFinset
  cassetteMiss := p.cassetteMiss
  uninterceptable := p.uninterceptable
  cassette := p.cassette

def syntheticObservation (reason : PyStr) : Observation where
  outcome := .crashed
  returnPresent := false
  returnCanon := .none
  raised := none
  exitStatus := -1
  syntheticReason := some reason

def crashedObservation (exitStatus : Int) : Observation where
  outcome := .crashed
  returnPresent := false
  returnCanon := .none
  raised := none
  exitStatus := exitStatus

def hungObservation (timeoutNs : Int) : Observation where
  outcome := .hung
  returnPresent := false
  returnCanon := .none
  raised := none
  exitStatus := -9
  timing := ⟨timeoutNs, 0⟩

def fatalObservation (error : Option PyStr) : Observation where
  outcome := .crashed
  returnPresent := false
  returnCanon := .none
  raised := none
  stderr := error.getD []
  exitStatus := 1

/-! ## A batch -/

inductive RunError where
  /-- A line with no `index`, or an input without a result. -/
  | keyError
  | outOfFuel
  deriving DecidableEq

/-- The dict `results`. -/
abbrev Results := Nat → Option Observation

def Results.set (results : Results) (i : Nat) (o : Observation) : Results :=
  fun j => if j = i then some o else results j

def Results.setAll (results : Results) (is : List Nat) (o : Observation) : Results :=
  is.foldl (fun results i => results.set i o) results

/-- `_await_boot`: the lines after the boot line, or why there was none. -/
def awaitBoot (run : WorkerRun) : Except PyStr (List (Option Line)) :=
  match run.lines, run.ending with
  | some .boot :: lines, _ => .ok lines
  | _ :: _, _ => .error (lit "worker protocol slip before boot")
  | [], .silent => .error (lit "worker did not boot within the startup budget")
  | [], .exited status =>
    .error (lit "worker died before booting (exit " ++ intText status ++ lit ")")

def garbledLine : PyStr := lit "garbled worker protocol line"

def endedEarly : PyStr := lit "worker ended batch early"

/-- The loop over `pending`; the flag says that it did not break off.  Only a persistent worker
writes `batch_end`. -/
def drain (persistent : Bool) (timeoutNs : Int) (ending : Ending) :
    List Nat → List (Option Line) → Results → Except RunError (Results × Bool)
  | [], _, results => .ok (results, true)
  | expected :: _, [], results =>
    match ending with
    | .silent => .ok (results.set expected (hungObservation timeoutNs), false)
    | .exited status => .ok (results.set expected (crashedObservation status), false)
  | expected :: _, none :: _, results =>
    -- the stream can no longer be trusted, a fresh worker gets the rest
    .ok (results.set expected (fatalObservation garbledLine), false)
  | expected :: pending, some (.fatal line) :: lines, results =>
    drain persistent timeoutNs ending pending lines
      (results.set expected (fatalObservation line.error))
  | _ :: pending, some (.result line) :: lines, results =>
    drain persistent timeoutNs ending pending lines
      (results.set line.index (completedObservation line))
  | expected :: pending, some .batchEnd :: _, results =>
    if persistent then
      .ok (results.setAll (expected :: pending) (fatalObservation endedEarly), true)
    else .error .keyError
  | _ :: _, some .boot :: _, _ | _ :: _, some .batchAck :: _, _ => .error .keyError

/-- One process: its results so far, and whether nothing is left to run. -/
def runOnce (timeoutNs : Int) (run : WorkerRun) (pending : List Nat) (results : Results) :
    Except RunError (Results × Bool) :=
  match awaitBoot run with
  | .error reason => .ok (results.setAll pending (syntheticObservation reason), true)
  | .ok lines => drain false timeoutNs run.ending pending lines results

/-- `while pending`, with the processes that are spawned one after the other. -/
def runLoop (timeoutNs : Int) (spawn : Nat → List Nat → WorkerRun) :
    Nat → Nat → List Nat → Results → Except RunError Results
  | 0, _, _, _ => .error .outOfFuel
  | _ + 1, _, [], results => .ok results
  | fuel + 1, k, i :: pending, results =>
    match runOnce timeoutNs (spawn k (i :: pending)) (i :: pending) results with
    | .error e => .error e
    | .ok (results, true) => .ok results
    | .ok (results, false) =>
      runLoop timeoutNs spawn fuel (k + 1) ((i :: pending).filter fun i => (results i).isNone)
        results

/-- `[results[i] for i in …]`. -/
def lookups (results : Results) : List Nat → Except RunError (List Observation)
  | [] => .ok []
  | i :: is =>
    match results i, lookups results is with
    | some o, .ok os => .ok (o :: os)
    | _, _ => .error .keyError

def runBatch (timeoutNs : Int) (spawn : Nat → List Nat → WorkerRun) (n : Nat) :
    Except RunError (List Observation) :=
  match runLoop timeoutNs spawn (n + 1) 0 (List.range n) fun _ => none with
  | .error e => .error e
  | .ok results => lookups results (List.range n)

/-! ## The persistent worker -/

/-- One turn of `_run_batches`: the request reaches no living worker, or it is served. -/
inductive Attempt where
  | noBoot
  | unwritable
  | noAck
  | served (run : WorkerRun)

def maxRespawnsPerRun : Nat := 3

/-- What the inputs left over are told when the respawn budget is spent. -/
def Attempt.exhausted : Attempt → PyStr
  | .noBoot => lit "worker died or hung before booting; respawn budget exhausted"
  | .unwritable => lit "worker stdin unwritable; respawn budget exhausted"
  | .noAck =>
    lit "worker never acknowledged a batch (dead-on-arrival stdin); respawn budget exhausted"
  | .served _ => lit "respawn budget exhausted before this input could run"

/-- The lines of an attempt; none reached the worker unless it was served. -/
def Attempt.drained (timeoutNs : Int) (pending : List Nat) (results : Results) :
    Attempt → Except RunError (Results × Bool)
  | .served run => drain true timeoutNs run.ending pending run.lines results
  | _ => .ok (results, false)

/-- `PersistentWorker._run_batches`; every attempt that breaks off costs a respawn. -/
def serveLoop (timeoutNs : Int) (attempt : Nat → List Nat → Attempt) :
    Nat → Nat → Nat → List Nat → Results → Except RunError Results
  | 0, _, _, _, _ => .error .outOfFuel
  | _ + 1, _, _, [], results => .ok results
  | fuel + 1, k, respawns, i :: pending, results =>
    match (attempt k (i :: pending)).drained timeoutNs (i :: pending) results with
    | .error e => .error e
    | .ok (results, finished) =>
      let left := (i :: pending).filter fun i => (results i).isNone
      if finished then serveLoop timeoutNs attempt fuel (k + 1) respawns left results
      else if maxRespawnsPerRun < respawns + 1 then
        .ok (results.setAll left (syntheticObservation (attempt k (i :: pending)).exhausted))
      else serveLoop timeoutNs attempt fuel (k + 1) (respawns + 1) left results

def PersistentWorker.run (timeoutNs : Int) (attempt : Nat → List Nat → Attempt) (n : Nat) :
    Except RunError (List Observation) :=
  match serveLoop timeoutNs attempt (n + maxRespawnsPerRun + 1) 0 0 (List.range n)
      fun _ => none with
  | .error e => .error e
  | .ok results => lookups results (List.range n)

@[simp] theorem Results.set_self (results : Results) (i : Nat) (o : Observation) :
    results.set i o i = some o := by
  simp [Results.set]

theorem Results.set_other (results : Results) {i j : Nat} (h : j ≠ i) (o : Observation) :
    results.set i o j = results j := by
  simp [Results.set, h]

theorem Results.set_isSome (results : Results) (i j : Nat) (o : Observation)
    (h : (results j).isSome = true) : (results.set i o j).isSome = true := by
  by_cases hj : j = i
  · simp [hj]
  · simpa [Results.set_other results hj o] using h

theorem Results.setAll_isSome (is : List Nat) (j : Nat) (o : Observation) :
    ∀ results : Results, (results j).isSome = true → (results.setAll is o j).isSome = true := by
  induction is with
  | nil => exact fun _ h => h
  | cons i is ih => exact fun results h => ih _ (results.set_isSome i j o h)

theorem Results.setAll_other {is : List Nat} {j : Nat} {o : Observation} :
    ∀ {results : Results}, j ∉ is → results.setAll is o j = results j := by
  induction is with
  | nil => exact fun _ => rfl
  | cons i is ih =>
    intro results hj
    simp only [List.mem_cons, not_or] at hj
    exact (ih hj.2).trans (results.set_other hj.1 o)

theorem Results.setAll_mem {is : List Nat} {j : Nat} {o : Observation} :
    ∀ {results : Results}, j ∈ is → results.setAll is o j = some o := by
  induction is with
  | nil => exact fun hj => nomatch hj
  | cons i is ih =>
    intro results hj
    by_cases hrest : j ∈ is
    · exact ih hrest
    · -- the last write of `j` is the first one
      obtain rfl : j = i := (List.mem_cons.1 hj).resolve_right hrest
      exact (Results.setAll_other hrest).trans (results.set_self j o)

/-! ## Termination -/

/-- Reading lines never takes an answer back, and a run that breaks off has answered an input. -/
theorem drain_answers (persistent : Bool) (timeoutNs : Int) (ending : Ending) :
    ∀ (pending : List Nat) (lines : List (Option Line)) (results results' : Results)
      (finished : Bool),
      drain persistent timeoutNs ending pending lines results = .ok (results', finished) →
      (∀ j, (results j).isSome = true → (results' j).isSome = true) ∧
        (finished = false → ∃ i ∈ pending, (results' i).isSome = true)
  | [], lines, results, results', finished, h => by
    simp only [drain, Except.ok.injEq, Prod.mk.injEq] at h
    rcases h with ⟨rfl, rfl⟩
    simp
  | expected :: pending, [], results, results', finished, h => by
    have hset : ∃ o, results' = results.set expected o := by
      cases ending with
      | silent | exited _ => exact ⟨_, (congrArg Prod.fst (Except.ok.inj h)).symm⟩
    rcases hset with ⟨o, rfl⟩
    exact ⟨fun j => results.set_isSome expected j o, fun _ => ⟨expected, by simp, by simp⟩⟩
  | expected :: pending, none :: lines, results, results', finished, h => by
    simp only [drain, Except.ok.injEq, Prod.mk.injEq] at h
    rcases h with ⟨rfl, rfl⟩
    exact ⟨fun j => results.set_isSome expected j _, fun _ => ⟨expected, by simp, by simp⟩⟩
  | expected :: pending, some (.fatal line) :: lines, results, results', finished, h => by
    have ih := drain_answers persistent timeoutNs ending pending lines _ _ _ h
    refine ⟨fun j hj => ih.1 j (results.set_isSome expected j _ hj), fun hf => ?_⟩
    rcases ih.2 hf with ⟨i, hi, hsome⟩
    exact ⟨i, List.mem_cons_of_mem _ hi, hsome⟩
  | expected :: pending, some (.result line) :: lines, results, results', finished, h => by
    have ih := drain_answers persistent timeoutNs ending pending lines _ _ _ h
    refine ⟨fun j hj => ih.1 j (results.set_isSome line.index j _ hj), fun hf => ?_⟩
    rcases ih.2 hf with ⟨i, hi, hsome⟩
    exact ⟨i, List.mem_cons_of_mem _ hi, hsome⟩
  | expected :: pending, some .batchEnd :: _, results, results', finished, h => by
    cases persistent with
    | false => cases h
    | true =>
      simp only [drain, if_true, Except.ok.injEq, Prod.mk.injEq] at h
      rcases h with ⟨rfl, rfl⟩
      exact ⟨fun j => Results.setAll_isSome _ j _ results, fun hf => by cases hf⟩
  | _ :: _, some .boot :: _, _, _, _, h | _ :: _, some .batchAck :: _, _, _, _, h => by cases h

theorem drain_error (persistent : Bool) (timeoutNs : Int) (ending : Ending) :
    ∀ (pending : List Nat) (lines : List (Option Line)) (results : Results) (e : RunError),
      drain persistent timeoutNs ending pending lines results = .error e → e = .keyError
  | [], _, _, _, h => by cases h
  | _ :: _, [], _, _, h => by cases ending <;> cases h
  | _ :: _, none :: _, _, _, h => by cases h
  | _ :: pending, some (.fatal _) :: lines, _, e, h =>
    drain_error persistent timeoutNs ending pending lines _ e h
  | _ :: pending, some (.result _) :: lines, _, e, h =>
    drain_error persistent timeoutNs ending pending lines _ e h
  | _ :: _, some .batchEnd :: _, _, _, h => by
    cases persistent with
    | false => cases h; rfl
    | true => cases h
  | _ :: _, some .boot :: _, _, _, h | _ :: _, some .batchAck :: _, _, _, h => by cases h; rfl

theorem runOnce_error {timeoutNs : Int} {run : WorkerRun} {pending : List Nat} {results : Results}
    {e : RunError} (h : runOnce timeoutNs run pending results = .error e) : e = .keyError := by
  unfold runOnce at h
  split at h
  · cases h
  · exact drain_error _ _ _ _ _ _ _ h

/-- A process that breaks off leaves fewer inputs than it got. -/
theorem runOnce_shorter {timeoutNs : Int} {run : WorkerRun} {pending : List Nat}
    {results results' : Results}
    (h : runOnce timeoutNs run pending results = .ok (results', false)) :
    (pending.filter fun i => (results' i).isNone).length < pending.length := by
  unfold runOnce at h
  split at h
  · cases h
  · rcases (drain_answers _ _ _ _ _ _ _ _ h).2 rfl with ⟨i, hi, hsome⟩
    refine List.length_filter_lt_length_iff_exists.2 ⟨i, hi, ?_⟩
    simp [Option.isSome_iff_ne_none.1 hsome]

theorem runLoop_terminates (timeoutNs : Int) (spawn : Nat → List Nat → WorkerRun) :
    ∀ (fuel k : Nat) (pending : List Nat) (results : Results), pending.length < fuel →
      runLoop timeoutNs spawn fuel k pending results ≠ .error .outOfFuel
  | 0, _, _, _, h => absurd h (Nat.not_lt_zero _)
  | _ + 1, _, [], _, _ => by simp [runLoop]
  | fuel + 1, k, i :: pending, results, h => by
    unfold runLoop
    cases hrun : runOnce timeoutNs (spawn k (i :: pending)) (i :: pending) results with
    | error e => simp [runOnce_error hrun]
    | ok out =>
      rcases out with ⟨results', finished⟩
      cases finished with
      | true => simp
      | false =>
        have hshorter := runOnce_shorter hrun
        exact runLoop_terminates timeoutNs spawn fuel (k + 1) _ results' (by omega)

theorem lookups_error (results : Results) : ∀ (is : List Nat) (e : RunError),
    lookups results is = .error e → e = .keyError
  | [], _, h => by cases h
  | i :: is, e, h => by
    unfold lookups at h
    split at h
    · cases h
    · exact (Except.error.inj h).symm

/-- A batch ends, whatever the workers do. -/
theorem runBatch_terminates (timeoutNs : Int) (spawn : Nat → List Nat → WorkerRun) (n : Nat) :
    runBatch timeoutNs spawn n ≠ .error .outOfFuel := by
  have hloop := runLoop_terminates timeoutNs spawn (n + 1) 0 (List.range n) (fun _ => none)
    (by simp)
  unfold runBatch
  cases hrun : runLoop timeoutNs spawn (n + 1) 0 (List.range n) fun _ => none with
  | error e => simpa [hrun] using hloop
  | ok results =>
    intro hbad
    cases lookups_error results _ _ hbad

/-- A batch whose inputs all got a result returns them in order. -/
theorem lookups_ok (results : Results) : ∀ is : List Nat,
    (∀ i ∈ is, (results i).isSome = true) →
      ∃ os, lookups results is = .ok os ∧ List.Forall₂ (fun i o => results i = some o) is os
  | [], _ => ⟨[], rfl, .nil⟩
  | i :: is, h => by
    rcases lookups_ok results is fun j hj => h j (List.mem_cons_of_mem _ hj) with ⟨os, hos, hall⟩
    rcases Option.isSome_iff_exists.1 (h i (by simp)) with ⟨o, ho⟩
    exact ⟨o :: os, by simp [lookups, ho, hos], .cons ho hall⟩

end Tempest
