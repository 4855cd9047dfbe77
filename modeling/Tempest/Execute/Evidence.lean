import Tempest.Execute.Reproduced
import Tempest.Execute.Worker

/-!
# Evidence — no blessing over nothing

`Body` is a worker that follows the protocol: every call comes back and is reported.  How the module
imports stays open, so that a process either starts every input it is given or none.

`runBatch_unimported` says what a batch records when the module does not import: the fatal line is
taken for the answer to the input in flight and the end of the process for a crash of the next one.
`blessed_iff` says when two such batches pass for equivalent behaviour.
-/

namespace Tempest

open Python

/-! ## Workers -/

structure Body where
  call : Nat → Call
  line : Nat → ResultLine
  reported : ∀ i, report i (call i) = .ok (line i)
  exit : Int

def Body.process (body : Body) (importing : Option ImportFailure) : Process where
  importing := importing
  invocation := fun i => .back (body.call i)
  exit := body.exit

def perInputTimeoutNs : Int := 10000000000

/-- `run_batch` on `n` inputs, with one process after the other. -/
def batch (importing : Option ImportFailure) (bodies : Nat → Body) (n : Nat) : List Observation :=
  match runBatch perInputTimeoutNs (fun k => invokeMain ((bodies k).process importing)) n with
  | .ok observations => observations
  | .error _ => []

/-- `(obs,) = run_batch(…)` on one input. -/
def single (importing : Option ImportFailure) (bodies : Nat → Body) : Observation :=
  (batch importing bodies 1).headD (syntheticObservation [])

/-- `PersistentWorker.run` on `n` inputs. -/
def served (importing : Option ImportFailure) (bodies : Nat → Body) (n : Nat) :
    List Observation :=
  match PersistentWorker.run perInputTimeoutNs
      (fun k pending => .served (serveBatch ((bodies k).process importing) pending)) n with
  | .ok observations => observations
  | .error _ => []

/-! ## Started calls -/

/-- The inputs whose callable a process starts. -/
def invoked (p : Process) : List Nat → List Nat
  | [] => []
  | i :: rest =>
    match p.invocation i with
    | .badLiteral _ => invoked p rest
    | .back call =>
      match report i call with
      | .ok _ => i :: invoked p rest
      | .error _ => [i]
    | .died _ | .hung => [i]

def Process.started (p : Process) (pending : List Nat) : List Nat :=
  match p.importing with
  | some _ => []
  | none => invoked p pending

/-- The processes of `runLoop`, each with the inputs it is given. -/
def requests (timeoutNs : Int) (spawn : Nat → List Nat → WorkerRun) :
    Nat → Nat → List Nat → Results → List (Nat × List Nat)
  | 0, _, _, _ => []
  | _ + 1, _, [], _ => []
  | fuel + 1, k, i :: pending, results =>
    (k, i :: pending) ::
      match runOnce timeoutNs (spawn k (i :: pending)) (i :: pending) results with
      | .ok (results, false) =>
        requests timeoutNs spawn fuel (k + 1)
          ((i :: pending).filter fun i => (results i).isNone) results
      | _ => []

/-- The attempts of `serveLoop`, each with the inputs it is given. -/
def serveRequests (timeoutNs : Int) (attempt : Nat → List Nat → Attempt) :
    Nat → Nat → Nat → List Nat → Results → List (Nat × List Nat)
  | 0, _, _, _, _ => []
  | _ + 1, _, _, [], _ => []
  | fuel + 1, k, respawns, i :: pending, results =>
    (k, i :: pending) ::
      match (attempt k (i :: pending)).drained timeoutNs (i :: pending) results with
      | .error _ => []
      | .ok (results, finished) =>
        let left := (i :: pending).filter fun i => (results i).isNone
        if finished then serveRequests timeoutNs attempt fuel (k + 1) respawns left results
        else if maxRespawnsPerRun < respawns + 1 then []
        else serveRequests timeoutNs attempt fuel (k + 1) (respawns + 1) left results

/-- Some process of the batch starts the callable on input `i`. -/
def StartedIn (importing : Option ImportFailure) (bodies : Nat → Body) (n i : Nat) : Prop :=
  ∃ request ∈ requests perInputTimeoutNs
      (fun k => invokeMain ((bodies k).process importing)) (n + 1) 0 (List.range n) fun _ => none,
    i ∈ ((bodies request.1).process importing).started request.2

/-- Some attempt of the persistent worker starts the callable on input `i`. -/
def StartedServed (importing : Option ImportFailure) (bodies : Nat → Body) (n i : Nat) : Prop :=
  ∃ request ∈ serveRequests perInputTimeoutNs
      (fun k pending => .served (serveBatch ((bodies k).process importing) pending))
      (n + maxRespawnsPerRun + 1) 0 0 (List.range n) fun _ => none,
    i ∈ ((bodies request.1).process importing).started request.2

/-! ## The flows over such workers -/

/-- The workers of a pure target: the bodies of each round, and of the fresh runs of each input and
attempt. -/
structure PureWorkers where
  persistent : Bool
  baseImport : Option ImportFailure
  headImport : Option ImportFailure
  base : Nat → Nat → Body
  head : Nat → Nat → Body
  freshBase : Nat → Nat → Nat → Body
  freshHead : Nat → Nat → Nat → Body
  mutate : Literals → Int → Literals

def PureWorkers.run (w : PureWorkers) (importing : Option ImportFailure) (bodies : Nat → Body)
    (n : Nat) : List Observation :=
  if w.persistent then served importing bodies n else batch importing bodies n

def PureWorkers.lab (w : PureWorkers) : PureLab where
  runBase := fun round inputs => w.run w.baseImport (w.base round) inputs.length
  runHead := fun round inputs => w.run w.headImport (w.head round) inputs.length
  freshBase := fun i attempt => single w.baseImport (w.freshBase i attempt)
  freshHead := fun i attempt => single w.headImport (w.freshHead i attempt)
  mutate := w.mutate

/-- `synthesize` introspects the head module and probes it with the shims off, as the workers of a
pure target run it. -/
def PureWorkers.inputs (w : PureWorkers) (failure : SynthesisFailure)
    (inputs : Except SynthesisFailure (List Literals)) :
    Except SynthesisFailure (List Literals) :=
  match w.headImport with
  | some _ => .error failure
  | none => inputs

def PureWorkers.Started (w : PureWorkers) (importing : Option ImportFailure) (bodies : Nat → Body)
    (n i : Nat) : Prop :=
  if w.persistent then StartedServed importing bodies n i else StartedIn importing bodies n i

/-- The import rows of the first cassette: `next(…)` over the recordings that have one. -/
def importCassette (recordings : List Observation) : Option Cassette :=
  recordings.findSome? fun o => o.cassette.map InputCassette.importRows

/-- The workers of an impure target.  A replay worker imports the module against the import rows of
the recording; whatever the import does is a function of them. -/
structure ImpureWorkers where
  recordImport : Option ImportFailure
  replayImport : Option Cassette → Option ImportFailure
  headImport : Option Cassette → Option ImportFailure
  record : Nat → Body
  replay : Nat → Body
  head : Nat → Body
  freshRecord : Nat → Nat → Nat → Body
  freshReplay : Nat → Nat → Nat → Body
  freshHead : Nat → Nat → Nat → Body

def ImpureWorkers.recording (w : ImpureWorkers) (n : Nat) : List Observation :=
  batch w.recordImport w.record n

def ImpureWorkers.lab (w : ImpureWorkers) : ImpureLab where
  record := fun inputs => w.recording inputs.length
  replay := fun inputs recorded =>
    batch (w.replayImport (importCassette recorded)) w.replay inputs.length
  replayHead := fun inputs recorded =>
    batch (w.headImport (importCassette recorded)) w.head inputs.length
  freshRecord := fun i attempt => single w.recordImport (w.freshRecord i attempt)
  freshReplay := fun i attempt =>
    single (w.replayImport (importCassette [single w.recordImport (w.freshRecord i attempt)]))
      (w.freshReplay i attempt)
  freshHead := fun i attempt =>
    single (w.headImport (importCassette [single w.recordImport (w.freshRecord i attempt)]))
      (w.freshHead i attempt)

/-! ## A module that imports -/

/-- What the runner makes of the line of input `i`. -/
def Body.observation (body : Body) (i : Nat) : Observation :=
  completedObservation (body.line i).wire

theorem Body.line_index (body : Body) (i : Nat) : (body.line i).wire.index = i := by
  have hindex : (body.line i).index = i := report_index (body.reported i)
  exact hindex

theorem Body.started_all (body : Body) (pending : List Nat) :
    (body.process none).started pending = pending := by
  have hall : invoked (body.process none) pending = pending := by
    induction pending with
    | nil => rfl
    | cons i pending ih =>
      have hback : (body.process none).invocation i = .back (body.call i) := rfl
      simp [invoked, hback, body.reported i, ih]
  exact hall

theorem drain_body (persistent : Bool) (timeoutNs : Int) (ending : Ending) (body : Body)
    (after : WorkerRun) (pending : List Nat) (results : Results) :
    ∃ results', drain persistent timeoutNs ending pending
        (invokeInputs (body.process none) after pending).lines results = .ok (results', true) ∧
      ∀ j, results' j = if j ∈ pending then some (body.observation j) else results j := by
  induction pending generalizing results with
  | nil => exact ⟨results, rfl, fun j => by simp⟩
  | cons i pending ih =>
    rcases ih (results.set i (body.observation i)) with ⟨results', hdrain, hvalues⟩
    refine ⟨results', ?_, ?_⟩
    · have hreport : report i (body.call i) = .ok (body.line i) := body.reported i
      have hback : (body.process none).invocation i = .back (body.call i) := rfl
      simpa [invokeInputs, hback, hreport, WorkerRun.push, drain, body.line_index,
        Body.observation] using hdrain
    · intro j
      by_cases hj : j = i
      · subst hj
        simp [hvalues]
      · simp [hvalues, hj, Results.set_other results hj]

theorem lookups_of_values {results : Results} {value : Nat → Observation} (is : List Nat)
    (h : ∀ i ∈ is, results i = some (value i)) : lookups results is = .ok (is.map value) := by
  induction is with
  | nil => rfl
  | cons i is ih =>
    have htail := ih fun j hj => h j (List.mem_cons_of_mem _ hj)
    simp [lookups, h i (by simp), htail]

theorem runOnce_imported (bodies : Nat → Body) (k : Nat) (pending : List Nat) (results : Results) :
    ∃ results', runOnce perInputTimeoutNs (invokeMain ((bodies k).process none) pending) pending
        results = .ok (results', true) ∧
      ∀ j ∈ pending, results' j = some ((bodies k).observation j) := by
  rcases drain_body false perInputTimeoutNs
    (invokeInputs ((bodies k).process none) ⟨[], .exited (bodies k).exit⟩ pending).ending (bodies k)
    ⟨[], .exited (bodies k).exit⟩ pending results with ⟨results', hdrain, hvalues⟩
  refine ⟨results', hdrain, ?_⟩
  intro j hj
  simp [hvalues, hj]

/-- A module that imports is run by one process. -/
theorem batch_imported (bodies : Nat → Body) (n : Nat) :
    batch none bodies n = (List.range n).map (bodies 0).observation := by
  have hrun : runBatch perInputTimeoutNs (fun k => invokeMain ((bodies k).process none)) n =
      .ok ((List.range n).map (bodies 0).observation) := by
    rcases runOnce_imported bodies 0 (List.range n) fun _ => none with ⟨results, honce, hvalues⟩
    have hlookups := lookups_of_values (List.range n) hvalues
    unfold runBatch
    cases hpending : List.range n with
    | nil => rfl
    | cons i pending =>
      rw [hpending] at honce hlookups
      simp only [runLoop, honce]
      exact hlookups
  simp only [batch, hrun]

theorem served_imported (bodies : Nat → Body) (n : Nat) :
    served none bodies n = (List.range n).map (bodies 0).observation := by
  have hrun : PersistentWorker.run perInputTimeoutNs
      (fun k pending => .served (serveBatch ((bodies k).process none) pending)) n =
        .ok ((List.range n).map (bodies 0).observation) := by
    have hdrain := drain_body true perInputTimeoutNs
      (serveBatch ((bodies 0).process none) (List.range n)).ending (bodies 0)
      ⟨[some .batchEnd], .silent⟩ (List.range n) fun _ => none
    rcases hdrain with ⟨results, hdrain, hvalues⟩
    have hanswered : ∀ j ∈ List.range n, results j = some ((bodies 0).observation j) := by
      intro j hj
      simp [hvalues, List.mem_range.1 hj]
    -- nothing is left once the only attempt has answered every input
    have hleft : ((List.range n).filter fun i => (results i).isNone) = [] := by
      apply List.filter_eq_nil_iff.2
      intro j hj
      simp [hanswered j hj]
    have hlookups := lookups_of_values (List.range n) hanswered
    unfold PersistentWorker.run
    cases hpending : List.range n with
    | nil => rfl
    | cons i pending =>
      rw [hpending] at hdrain hleft hlookups
      have hattempt : Attempt.drained perInputTimeoutNs (i :: pending) (fun _ => none)
          (.served (serveBatch ((bodies 0).process none) (i :: pending))) =
            .ok (results, true) := hdrain
      simp only [serveLoop, hattempt, hleft, if_true]
      exact hlookups
  simp only [served, hrun]

variable {i n : Nat}

theorem startedIn_imported (bodies : Nat → Body) (h : i < n) :
    StartedIn none bodies n i := by
  have hmem : i ∈ List.range n := List.mem_range.2 h
  refine ⟨(0, List.range n), ?_, ?_⟩
  · cases hpending : List.range n with
    | nil => simp [hpending] at hmem
    | cons j pending => simp [requests]
  · simpa only [(bodies 0).started_all] using hmem

theorem startedServed_imported (bodies : Nat → Body) (h : i < n) :
    StartedServed none bodies n i := by
  have hmem : i ∈ List.range n := List.mem_range.2 h
  refine ⟨(0, List.range n), ?_, ?_⟩
  · cases hpending : List.range n with
    | nil => simp [hpending] at hmem
    | cons j pending => simp [serveRequests]
  · simpa only [(bodies 0).started_all] using hmem

/-! ## A module that does not import -/

theorem not_startedIn_unimported (failure : ImportFailure) (bodies : Nat → Body) (n i : Nat) :
    ¬ StartedIn (some failure) bodies n i := by
  rintro ⟨request, _, hstarted⟩
  cases hstarted

/-- The observation of input `i` of a batch whose processes all fail to import: every process
answers one input with its fatal line and takes the next one down with it. -/
def unimportedAt (failure : ImportFailure) (bodies : Nat → Body) (i : Nat) : Observation :=
  if i % 2 = 0 then fatalObservation failure.line.error
  else crashedObservation (bodies (i / 2)).exit

theorem unimportedAt_even (failure : ImportFailure) (bodies : Nat → Body) (k : Nat) :
    unimportedAt failure bodies (2 * k) = fatalObservation failure.line.error := by
  simp [unimportedAt]

theorem unimportedAt_odd (failure : ImportFailure) (bodies : Nat → Body) (k : Nat) :
    unimportedAt failure bodies (2 * k + 1) = crashedObservation (bodies k).exit := by
  have hodd : (2 * k + 1) % 2 = 1 := by omega
  have hhalf : (2 * k + 1) / 2 = k := by omega
  simp [unimportedAt, hodd, hhalf]

theorem batch_unimported (failure : ImportFailure) (bodies : Nat → Body) (n : Nat) :
    batch (some failure) bodies n = (List.range n).map (unimportedAt failure bodies) := by
  have hrun : runBatch perInputTimeoutNs
      (fun k => invokeMain ((bodies k).process (some failure))) n =
        .ok ((List.range n).map (unimportedAt failure bodies)) := by
    rcases @runLoop_unimported perInputTimeoutNs (fun k => (bodies k).process (some failure)) failure
      (fun _ => rfl) (n + 1) 0 (List.range n) (fun _ => none) (by simp) List.nodup_range
      (fun _ _ => rfl) with ⟨results, hloop, _, hall⟩
    have hvalues : ∀ i ∈ List.range n, results i = some (unimportedAt failure bodies i) := by
      intro i hi
      have hvalue := hall i i (by simp [List.mem_range.1 hi])
      rwa [Nat.zero_add] at hvalue
    simp only [runBatch, hloop]
    exact lookups_of_values (List.range n) hvalues
  simp only [batch, hrun]

theorem single_imported (bodies : Nat → Body) :
    single none bodies = (bodies 0).observation 0 := by
  simp [single, batch_imported]

theorem single_unimported (failure : ImportFailure) (bodies : Nat → Body) :
    single (some failure) bodies = fatalObservation failure.line.error := by
  simp [single, batch_unimported, unimportedAt]

/-- A persistent worker whose module does not import only answers with crashes. -/
theorem served_unimported (failure : ImportFailure) (bodies : Nat → Body) (n : Nat) :
    ∀ o ∈ served (some failure) bodies n, o.outcome = .crashed := by
  -- the fatal line answers the first input, the end of the batch all the others
  have hfirst : ∃ results, drain true perInputTimeoutNs .silent (List.range n)
      [some (.fatal failure.line), some .batchEnd] (fun _ => none) = .ok (results, true) ∧
        ∀ i ∈ List.range n, ∃ error, results i = some (fatalObservation error) := by
    cases List.range n with
    | nil => exact ⟨fun _ => none, rfl, by simp⟩
    | cons i pending =>
      cases pending with
      | nil =>
        refine ⟨Results.set (fun _ => none) i (fatalObservation failure.line.error), rfl, ?_⟩
        intro j hj
        obtain rfl : j = i := by simpa using hj
        exact ⟨_, Results.set_self _ _ _⟩
      | cons i' pending =>
        let results := Results.set (fun _ => none) i (fatalObservation failure.line.error)
        refine ⟨results.setAll (i' :: pending) (fatalObservation endedEarly), rfl, ?_⟩
        intro j hj
        by_cases hrest : j ∈ i' :: pending
        · exact ⟨_, Results.setAll_mem hrest⟩
        · obtain rfl : j = i := by
            simp only [List.mem_cons, not_or] at hj hrest
            tauto
          exact ⟨_, (Results.setAll_other hrest).trans (Results.set_self _ _ _)⟩
  rcases hfirst with ⟨results, hdrain, hvalues⟩
  have hleft : ((List.range n).filter fun i => (results i).isNone) = [] := by
    apply List.filter_eq_nil_iff.2
    intro j hj
    rcases hvalues j hj with ⟨error, herror⟩
    simp [herror]
  have hlookups := lookups_ok results (List.range n) fun i hi => by
    rcases hvalues i hi with ⟨error, herror⟩
    simp [herror]
  rcases hlookups with ⟨os, hos, hall⟩
  have hrun : served (some failure) bodies n = os := by
    unfold served PersistentWorker.run
    cases hpending : List.range n with
    | nil =>
      rw [hpending] at hos
      obtain rfl : [] = os := Except.ok.inj hos
      rfl
    | cons i pending =>
      rw [hpending] at hdrain hleft hos
      have hattempt : Attempt.drained perInputTimeoutNs (i :: pending) (fun _ => none)
          (.served (serveBatch ((bodies 0).process (some failure)) (i :: pending))) =
            .ok (results, true) := hdrain
      have hdone : serveLoop perInputTimeoutNs
          (fun k pending => .served (serveBatch ((bodies k).process (some failure)) pending))
          (n + maxRespawnsPerRun) 1 0 [] results = .ok results := rfl
      simp only [serveLoop, hattempt, hleft, if_true, Nat.zero_add, hdone, hos]
  intro o ho
  rw [hrun] at ho
  rcases forall₂_mem_right hall ho with ⟨i, hi, hio⟩
  rcases hvalues i hi with ⟨error, herror⟩
  obtain rfl : fatalObservation error = o := Option.some.inj (herror.symm.trans hio)
  rfl

/-! ## Comparing such observations -/

/-- An observation the runner makes of a process that did not answer. -/
structure Broken (o : Observation) : Prop where
  crashed : o.outcome = .crashed
  notSynthetic : o.syntheticReason = none
  intercepted : o.uninterceptable = none
  noMiss : o.cassetteMiss = none
  represented : o.unrepresentable = none
  noCassette : o.cassette = none

theorem fatal_broken (error : Option PyStr) : Broken (fatalObservation error) :=
  ⟨rfl, rfl, rfl, rfl, rfl, rfl⟩

theorem unimported_broken (failure : ImportFailure) (bodies : Nat → Body) (i : Nat) :
    Broken (unimportedAt failure bodies i) := by
  unfold unimportedAt
  split_ifs
  · exact fatal_broken _
  · exact ⟨rfl, rfl, rfl, rfl, rfl, rfl⟩

variable {cfg : CompareConfig}

theorem compare_broken {b h : Observation} (hb : Broken b) (hh : Broken h) :
    compare b h cfg = if b.exitStatus = h.exitStatus then .equal else
      .diverged ⟨.crash, .headline,
        [.text (lit "both crashed but differently: base exit " ++ intText b.exitStatus ++
          lit ", head exit " ++ intText h.exitStatus)], none⟩ := by
  simp only [compare, hb.notSynthetic, hh.notSynthetic, hb.intercepted, hh.intercepted, hb.noMiss,
    hh.noMiss, hb.represented, hh.represented, compareOutcomes, hb.crashed, hh.crashed]
  by_cases hexit : b.exitStatus = h.exitStatus
  · simp [hexit]
  · simp [hexit]

theorem outcome_of_equal {b h : Observation} (heq : compare b h cfg = .equal) :
    b.outcome = h.outcome := by
  unfold compare at heq
  split at heq
  · cases heq
  · cases heq
  · cases heq
  · cases heq
  · split at heq
    · cases heq
    · cases heq
    · split at heq
      · cases heq
      · cases heq
      · by_contra hne
        simp [compareOutcomes, hne] at heq

/-- The exit statuses of the processes that take an input down with them. -/
def SameExits (bodies bodies' : Nat → Body) (n : Nat) : Prop :=
  ∀ k, 2 * k + 1 < n → (bodies k).exit = (bodies' k).exit

theorem compare_unimported (f g : ImportFailure) (bodies bodies' : Nat → Body) (i : Nat) :
    compare (unimportedAt f bodies i) (unimportedAt g bodies' i) cfg = .equal ↔
      (unimportedAt f bodies i).exitStatus = (unimportedAt g bodies' i).exitStatus := by
  rw [compare_broken (unimported_broken f bodies i) (unimported_broken g bodies' i)]
  simp

theorem sameExits_iff (f g : ImportFailure) (bodies bodies' : Nat → Body) (n : Nat) :
    (∀ i < n, compare (unimportedAt f bodies i) (unimportedAt g bodies' i) cfg = .equal) ↔
      SameExits bodies bodies' n := by
  simp only [compare_unimported]
  constructor
  · intro h k hk
    have hexit := h (2 * k + 1) hk
    simp only [unimportedAt_odd] at hexit
    exact hexit
  · intro h i hi
    rcases Nat.even_or_odd' i with ⟨k, rfl | rfl⟩
    · simp only [unimportedAt_even]
      rfl
    · simp only [unimportedAt_odd]
      exact h k hi

theorem found_unrepresentable {outcome : CallOutcome} {found : Found}
    (h : outcome.found = .ok found) (hreason : found.unrepresentable.isSome = true) :
    found.uninterceptable = none ∧ found.cassetteMiss = none := by
  cases outcome with
  | raised error kind =>
    -- a call that raised has no value to encode
    cases kind <;>
      · simp only [CallOutcome.found, bind_eq_ok, pure_eq_ok] at h
        rcases h with ⟨_, _, rfl⟩
        simp at hreason
  | returned v =>
    cases hcanon : canonicalize v with
    | ok canon =>
      simp only [CallOutcome.found, hcanon, Except.ok.injEq] at h
      subst h
      exact ⟨rfl, rfl⟩
    | error e =>
      simp only [CallOutcome.found, hcanon, bind_eq_ok, pure_eq_ok] at h
      rcases h with ⟨_, _, rfl⟩
      exact ⟨rfl, rfl⟩

theorem Body.observation_unrepresentable (body : Body) (i : Nat) :
    ((body.observation i).unrepresentable.isSome = true →
        (body.observation i).uninterceptable = none ∧ (body.observation i).cassetteMiss = none) ∧
      (body.observation i).unrepresentable.isSome = (body.line i).unrepresentable.isSome := by
  rcases report_eq_ok (body.reported i) with
    ⟨found, _, _, _, _, _, hfound, _, _, _, _, _, _, _, hline⟩
  constructor
  · intro hreason
    have hsome : found.unrepresentable.isSome = true := by
      simpa [Body.observation, completedObservation, ResultLine.wire, hline, Call.payload] using
        hreason
    have hothers := found_unrepresentable hfound hsome
    simp [Body.observation, completedObservation, ResultLine.wire, hline, Call.payload, hothers]
  · simp [Body.observation, completedObservation, ResultLine.wire]

variable {b o : Observation}

/-- Against a broken recording only a value that could not be encoded passes the verification. -/
theorem replayVerified_broken (hb : Broken b) (body : Body) (i : Nat) :
    replayVerified cfg b (body.observation i) = (body.line i).unrepresentable.isSome := by
  rcases body.observation_unrepresentable i with ⟨hothers, hsome⟩
  rw [← hsome]
  have hsynthetic : (body.observation i).syntheticReason = none := rfl
  have hcompleted : (body.observation i).outcome = .completed := rfl
  cases hreason : (body.observation i).unrepresentable with
  | some reason =>
    have hnone := hothers (by simp [hreason])
    simp [replayVerified, compare, hb.notSynthetic, hsynthetic, hb.intercepted, hb.noMiss,
      hb.represented, hnone, hreason, notEncoded]
  | none =>
    have hne : InputOutcome.crashed ≠ .completed := by decide
    cases hsurface : (body.observation i).uninterceptable with
    | some surface =>
      simp [replayVerified, compare, hb.notSynthetic, hsynthetic, hb.intercepted, hsurface,
        notIntercepted]
    | none =>
      cases hmiss : (body.observation i).cassetteMiss with
      | some call =>
        simp [replayVerified, compare, hb.notSynthetic, hsynthetic, hb.intercepted, hsurface,
          hb.noMiss, hmiss]
      | none =>
        simp [replayVerified, compare, hb.notSynthetic, hsynthetic, hb.intercepted, hsurface,
          hb.noMiss, hmiss, hb.represented, hreason, compareOutcomes, hb.crashed, hcompleted]

/-! ## Rows -/

theorem zipRows_spec {rerun : Nat → Nat → Rerun} {inputs : List Literals} :
    ∀ {i : Nat} {base head : List Observation} {rows : List Row},
      zipRows rerun i inputs base head = .ok rows →
        rows.map Row.base = base ∧ rows.map Row.head = head ∧ rows.length = inputs.length ∧
          ∀ j row, rows[j]? = some row → row.rerun = rerun (i + j) := by
  induction inputs with
  | nil =>
    intro i base head rows hzip
    cases base with
    | cons b base => simp [zipRows] at hzip
    | nil =>
      cases head with
      | cons h head => simp [zipRows] at hzip
      | nil =>
        obtain rfl : [] = rows := Except.ok.inj hzip
        simp
  | cons input inputs ih =>
    intro i base head rows hzip
    cases base with
    | nil => simp [zipRows] at hzip
    | cons b base =>
      cases head with
      | nil => simp [zipRows] at hzip
      | cons h head =>
        unfold zipRows at hzip
        cases hrest : zipRows rerun (i + 1) inputs base head with
        | error e => simp [hrest] at hzip
        | ok rest =>
          simp only [hrest, Except.ok.injEq] at hzip
          subst hzip
          rcases ih hrest with ⟨hbase, hhead, hlength, hreruns⟩
          refine ⟨by simp [hbase], by simp [hhead], by simp [hlength], ?_⟩
          intro j row hrow
          cases j with
          | zero =>
            cases hrow
            rfl
          | succ j =>
            have hrerun := hreruns j row hrow
            rwa [Nat.add_right_comm] at hrerun

theorem firstUninterceptable_none {observations : List Observation}
    (h : ∀ o ∈ observations, o.uninterceptable = none) :
    firstUninterceptable observations = none := by
  apply List.findSome?_eq_none_iff.2
  intro o ho
  simp [h o ho]

variable {module qualname : PyStr} {changedLines : Finset Nat} {inputs : Except SynthesisFailure (List Literals)} {outcome : TargetOutcome}

/-- An impure target is blessed when it gets to the loop, the base is stable there, nothing is
confirmed and something is equal. -/
theorem impure_equivalent_iff {lab : ImpureLab}
    (h : proveImpureTarget module qualname lab changedLines cfg inputs = .ok outcome) :
    outcome.verdict = .equivalentUnderBudget ↔
      ∃ literals rows, inputs = .ok literals ∧
        impureRows module qualname lab cfg literals = .ok (.inr rows) ∧
          ¬ BaseUnstable cfg false rows ∧
            (∀ i row, Reached cfg false rows i row → confirmDivergence row.rerun ≠ .confirmed) ∧
              ∃ row ∈ rows, compare row.base row.head cfg = .equal := by
  unfold proveImpureTarget at h
  cases inputs with
  | error failure =>
    cases h
    simp [unproven]
  | ok literals =>
    cases hrows : impureRows module qualname lab cfg literals with
    | error e => simp [hrows] at h
    | ok result =>
      cases result with
      | inl early =>
        simp only [hrows, Except.ok.injEq] at h
        subst h
        rcases impureRows_inl hrows with ⟨code, detail, rfl⟩
        simp [unproven, hrows]
      | inr rows =>
        simp only [hrows] at h
        constructor
        · intro hverdict
          exact ⟨literals, rows, rfl, hrows, (conclude_equivalent_iff h).1 hverdict⟩
        · rintro ⟨literals', rows', hinputs, hrows', hblessed⟩
          cases hinputs
          obtain rfl : rows = rows' :=
            Sum.inr.inj (Except.ok.inj (hrows.symm.trans hrows'))
          exact (conclude_equivalent_iff h).2 hblessed

/-- A blessed impure target has an input whose two observations are equal. -/
theorem impure_equal {lab : ImpureLab}
    (h : proveImpureTarget module qualname lab changedLines cfg inputs = .ok outcome)
    (hverdict : outcome.verdict = .equivalentUnderBudget) :
    ∃ literals b hd, inputs = .ok literals ∧ 0 < literals.length ∧ b ∈ lab.record literals ∧
      hd ∈ lab.replayHead literals (lab.record literals) ∧ compare b hd cfg = .equal := by
  rcases (impure_equivalent_iff h).1 hverdict with
    ⟨literals, rows, rfl, hrows, _, _, row, hrow, heq⟩
  rcases impureRows_inr_iff.1 hrows with ⟨_, _, _, _, hzip⟩
  rcases zipRows_spec hzip with ⟨hbase, hhead, hlength, _⟩
  refine ⟨literals, row.base, row.head, rfl, ?_, ?_, ?_, heq⟩
  · rw [← hlength]
    exact List.length_pos_of_mem hrow
  · rw [← hbase]
    exact List.mem_map_of_mem hrow
  · rw [← hhead]
    exact List.mem_map_of_mem hrow

/-! ## The claim about a target -/

def ImpureWorkers.StartedBase (w : ImpureWorkers) (n i : Nat) : Prop :=
  StartedIn w.recordImport w.record n i ∨
    StartedIn (w.replayImport (importCassette (w.recording n))) w.replay n i

def ImpureWorkers.StartedHead (w : ImpureWorkers) (n i : Nat) : Prop :=
  StartedIn (w.headImport (importCassette (w.recording n))) w.head n i

/-- Neither the record worker nor a replay worker gets through the import. -/
def ImpureWorkers.NeverImports (w : ImpureWorkers) (n : Nat) : Prop :=
  w.recordImport.isSome = true ∧
    (w.replayImport (importCassette (w.recording n))).isSome = true ∧
      (w.headImport (importCassette (w.recording n))).isSome = true

def ImpureWorkers.Backed (w : ImpureWorkers) (n : Nat) (outcome : TargetOutcome) : Prop :=
  (outcome.verdict = .equivalentUnderBudget → ∃ i < n, w.StartedBase n i ∧ w.StartedHead n i) ∧
    (w.NeverImports n → outcome.verdict = .unproven)

/-- The imports fail alike: record and head do not import, and the replay of the base either fails
with the exit statuses of the recording or has nothing that can be encoded while head fails with
the exit statuses of the recording. -/
def ImpureWorkers.FailsAlike (w : ImpureWorkers) (n : Nat) : Prop :=
  0 < n ∧ w.recordImport.isSome = true ∧ (w.headImport none).isSome = true ∧
    (((w.replayImport none).isSome = true ∧ SameExits w.record w.replay n) ∨
      ((w.replayImport none).isSome = false ∧
        (∀ i < n, ((w.replay 0).line i).unrepresentable.isSome = true) ∧
          SameExits w.record w.head n))

def inputCount : Except SynthesisFailure (List Literals) → Nat
  | .ok literals => literals.length
  | .error _ => 0

theorem importCassette_broken {recordings : List Observation} (h : ∀ o ∈ recordings, Broken o) :
    importCassette recordings = none := by
  apply List.findSome?_eq_none_iff.2
  intro o ho
  simp [(h o ho).noCassette]

variable {bodies : Nat → Body}

theorem broken_of_unimported {failure : ImportFailure} (ho : o ∈ batch (some failure) bodies n) :
    Broken o := by
  rw [batch_unimported] at ho
  rcases List.mem_map.1 ho with ⟨i, _, rfl⟩
  exact unimported_broken failure bodies i

theorem ImpureWorkers.recording_cassette {w : ImpureWorkers} {failure : ImportFailure}
    (h : w.recordImport = some failure) (n : Nat) : importCassette (w.recording n) = none := by
  apply importCassette_broken
  intro o ho
  simp only [ImpureWorkers.recording, h] at ho
  exact broken_of_unimported ho

variable {importing : Option ImportFailure}

/-- Only a module that imports makes completed observations. -/
theorem imported_of_completed (ho : o ∈ batch importing bodies n) (hcompleted : o.outcome = .completed) :
    importing = none := by
  cases importing with
  | none => rfl
  | some failure =>
    have hcrashed := (broken_of_unimported ho).crashed
    simp [hcompleted] at hcrashed

theorem completed_of_imported (ho : o ∈ batch none bodies n) : o.outcome = .completed := by
  rw [batch_imported] at ho
  rcases List.mem_map.1 ho with ⟨i, _, rfl⟩
  rfl

/-! ## When the recording imports -/

theorem backed_of_recorded {w : ImpureWorkers}
    (h : proveImpureTarget module qualname w.lab changedLines cfg inputs = .ok outcome)
    (hrecord : w.recordImport = none) : w.Backed (inputCount inputs) outcome := by
  constructor
  · intro hverdict
    rcases impure_equal h hverdict with ⟨literals, b, hd, rfl, hpos, hb, hhd, heq⟩
    simp only [ImpureWorkers.lab, ImpureWorkers.recording] at hb hhd
    -- the recording completed, so the equal head observation did, too
    have hbase : b.outcome = .completed := completed_of_imported (hrecord ▸ hb)
    have hhead := imported_of_completed hhd ((outcome_of_equal heq).symm.trans hbase)
    refine ⟨0, hpos, Or.inl ?_, ?_⟩
    · rw [hrecord]
      exact startedIn_imported w.record hpos
    · have hat : w.headImport (importCassette (w.recording literals.length)) = none := hhead
      simp only [ImpureWorkers.StartedHead, inputCount, hat]
      exact startedIn_imported w.head hpos
  · rintro ⟨hfails, _⟩
    simp [hrecord] at hfails

/-! ## When it does not -/

section Unimported

variable {module qualname : PyStr} {w : ImpureWorkers} {changedLines : Finset Nat}
  {literals : List Literals} {f g : ImportFailure}

theorem lab_record (hrecord : w.recordImport = some f) :
    w.lab.record literals = (List.range literals.length).map (unimportedAt f w.record) := by
  simp only [ImpureWorkers.lab, ImpureWorkers.recording, hrecord, batch_unimported]

theorem lab_cassette (hrecord : w.recordImport = some f) :
    importCassette (w.lab.record literals) = none :=
  w.recording_cassette hrecord literals.length

theorem lab_replayHead (hrecord : w.recordImport = some f) (hhead : w.headImport none = some g) :
    w.lab.replayHead literals (w.lab.record literals) =
      (List.range literals.length).map (unimportedAt g w.head) := by
  have hcassette := @lab_cassette w literals f hrecord
  simp only [ImpureWorkers.lab] at hcassette ⊢
  simp only [hcassette, hhead, batch_unimported]

/-- A fresh run of a module that does not import finds no divergence; it passes for stable exactly
when the replay fails, too. -/
theorem rerun_unimported (hrecord : w.recordImport = some f) (hhead : w.headImport none = some g)
    (i attempt : Nat) :
    impureRerun cfg (w.lab.freshRecord i) (w.lab.freshReplay i) (w.lab.freshHead i) attempt =
      ⟨none, (w.replayImport none).isSome, true⟩ := by
  have hrec : w.lab.freshRecord i attempt = fatalObservation f.line.error := by
    simp only [ImpureWorkers.lab, hrecord, single_unimported]
  have hcassette : importCassette [fatalObservation f.line.error] = none := rfl
  have hhd : w.lab.freshHead i attempt = fatalObservation g.line.error := by
    simp only [ImpureWorkers.lab, hrecord, single_unimported, hcassette, hhead]
  have hpair : compare (fatalObservation f.line.error) (fatalObservation g.line.error) cfg =
      .equal := compare_broken (fatal_broken _) (fatal_broken _)
  cases hreplay : w.replayImport none with
  | some r =>
    have hrep : w.lab.freshReplay i attempt = fatalObservation r.line.error := by
      simp only [ImpureWorkers.lab, hrecord, single_unimported, hcassette, hreplay]
    have hstable : compare (fatalObservation f.line.error) (fatalObservation r.line.error) cfg =
        .equal := compare_broken (fatal_broken _) (fatal_broken _)
    simp [impureRerun, hrec, hhd, hrep, hpair, hstable]
  | none =>
    have hrep : w.lab.freshReplay i attempt =
        (w.freshReplay i attempt 0).observation 0 := by
      simp only [ImpureWorkers.lab, hrecord, single_unimported, hcassette, hreplay,
        single_imported]
    have hdiffers : compare (fatalObservation f.line.error)
        ((w.freshReplay i attempt 0).observation 0) cfg ≠ .equal := by
      intro heq
      cases outcome_of_equal heq
    simp [impureRerun, hrec, hhd, hrep, hpair, hdiffers]

theorem confirm_unimported {row : Row} {ok : Bool} (h : ∀ attempt, row.rerun attempt =
    ⟨none, ok, true⟩) :
    confirmDivergence row.rerun = if ok then .flaky else .nondeterministicBase := by
  cases ok <;> simp [confirmDivergence, confirmAttempts, List.range_succ, confirmFrom, h]

theorem forall_zip_range {P : Observation → Observation → Prop} {base replay : Nat → Observation}
    (literals : List Literals) :
    (∀ p ∈ literals.zip (((List.range literals.length).map base).zip
      ((List.range literals.length).map replay)), P p.2.1 p.2.2) ↔
      ∀ i < literals.length, P (base i) (replay i) := by
  constructor
  · intro h i hi
    have hlen : i < (literals.zip (((List.range literals.length).map base).zip
        ((List.range literals.length).map replay))).length := by
      simpa using hi
    simpa using h _ (List.getElem_mem hlen)
  · intro h p hp
    rcases List.getElem_of_mem hp with ⟨i, hlen, rfl⟩
    have hi : i < literals.length := by
      simpa using hlen
    simpa using h i hi

/-- Whether the replay passes the verification against the failed recording. -/
theorem verified_unimported (hrecord : w.recordImport = some f) :
    (∀ p ∈ literals.zip ((w.lab.record literals).zip
      (w.lab.replay literals (w.lab.record literals))), replayVerified cfg p.2.1 p.2.2 = true) ↔
      ((w.replayImport none).isSome = true ∧ SameExits w.record w.replay literals.length) ∨
        ((w.replayImport none).isSome = false ∧
          ∀ i < literals.length, ((w.replay 0).line i).unrepresentable.isSome = true) := by
  have hcassette := @lab_cassette w literals f hrecord
  have hreplay : w.lab.replay literals (w.lab.record literals) =
      batch (w.replayImport none) w.replay literals.length := by
    rw [← hcassette]
    rfl
  rw [hreplay, lab_record hrecord]
  cases himport : w.replayImport none with
  | some r =>
    rw [batch_unimported, @forall_zip_range (fun b r => replayVerified cfg b r = true)]
    have hverified : ∀ i, replayVerified cfg (unimportedAt f w.record i)
        (unimportedAt r w.replay i) = true ↔
          compare (unimportedAt f w.record i) (unimportedAt r w.replay i) cfg = .equal := by
      intro i
      have hcompare := @compare_broken cfg _ _ (unimported_broken f w.record i)
        (unimported_broken r w.replay i)
      unfold replayVerified
      rw [hcompare]
      split_ifs <;> simp
    simp only [hverified, sameExits_iff]
    simp
  | none =>
    rw [batch_imported, @forall_zip_range (fun b r => replayVerified cfg b r = true)]
    simp only [replayVerified_broken (unimported_broken f w.record _)]
    simp

theorem row_at {rows : List Row} {base head : Nat → Observation} {n i : Nat}
    (hbase : rows.map Row.base = (List.range n).map base)
    (hhead : rows.map Row.head = (List.range n).map head) (hi : i < n) :
    ∃ row, rows[i]? = some row ∧ row.base = base i ∧ row.head = head i := by
  have hbaseAt := congrArg (fun os => os[i]?) hbase
  have hheadAt := congrArg (fun os => os[i]?) hhead
  simp only [List.getElem?_map, List.getElem?_range hi, Option.map_some] at hbaseAt hheadAt
  cases hrow : rows[i]? with
  | none => simp [hrow] at hbaseAt
  | some row =>
    simp only [hrow, Option.map_some, Option.some.injEq] at hbaseAt hheadAt
    exact ⟨row, rfl, hbaseAt, hheadAt⟩

theorem detected_of_broken {row : Row} (hbase : Broken row.base) (hhead : Broken row.head)
    (hdiffers : compare row.base row.head cfg ≠ .equal) : (row.detected cfg).isSome = true := by
  unfold Row.detected
  rw [compare_broken hbase hhead] at hdiffers ⊢
  split_ifs at hdiffers ⊢ with hexit
  · exact absurd rfl hdiffers
  · rfl

theorem unimported_rows (hrecord : w.recordImport = some f) (hhead : w.headImport none = some g)
    (hverified : ∀ p ∈ literals.zip ((w.lab.record literals).zip
      (w.lab.replay literals (w.lab.record literals))), replayVerified cfg p.2.1 p.2.2 = true) :
    ∃ rows, impureRows module qualname w.lab cfg literals = .ok (.inr rows) := by
  have hrec := @lab_record w literals f hrecord
  have hhd := @lab_replayHead w literals f g hrecord hhead
  have hintercepted : ∀ (failure : ImportFailure) (bodies : Nat → Body),
      firstUninterceptable ((List.range literals.length).map (unimportedAt failure bodies)) =
        none := by
    intro failure bodies
    apply firstUninterceptable_none
    intro o ho
    rcases List.mem_map.1 ho with ⟨i, _, rfl⟩
    exact (unimported_broken failure bodies i).intercepted
  have hlength : (w.lab.replay literals (w.lab.record literals)).length = literals.length := by
    simp only [ImpureWorkers.lab]
    cases w.replayImport (importCassette (w.recording literals.length)) with
    | none => simp [batch_imported]
    | some r => simp [batch_unimported]
  rcases zipRows_ok (fun i => impureRerun cfg (w.lab.freshRecord i) (w.lab.freshReplay i)
    (w.lab.freshHead i)) literals 0 (w.lab.record literals)
    (w.lab.replayHead literals (w.lab.record literals)) (by simp [hrec]) (by simp [hhd]) with
    ⟨rows, hzip⟩
  refine ⟨rows, impureRows_inr_iff.2 ⟨?_, hverified, ?_, ?_, hzip⟩⟩
  · rw [hrec]
    exact hintercepted f w.record
  · rw [hlength, hrec]
    simp
  · rw [hhd]
    exact hintercepted g w.head

/-- What the loop goes over, if it is reached; nothing is ever confirmed. -/
theorem unimported_rows_spec {rows : List Row} (hrecord : w.recordImport = some f)
    (hhead : w.headImport none = some g)
    (hinr : impureRows module qualname w.lab cfg literals = .ok (.inr rows)) :
    rows.map Row.base = (List.range literals.length).map (unimportedAt f w.record) ∧
      rows.map Row.head = (List.range literals.length).map (unimportedAt g w.head) ∧
      ∀ row ∈ rows, confirmDivergence row.rerun =
        if (w.replayImport none).isSome then .flaky else .nondeterministicBase := by
  rcases impureRows_inr_iff.1 hinr with ⟨_, _, _, _, hzip⟩
  rcases zipRows_spec hzip with ⟨hbase, hheads, _, hreruns⟩
  refine ⟨hbase.trans (lab_record hrecord), hheads.trans (lab_replayHead hrecord hhead), ?_⟩
  intro row hrow
  rcases List.getElem_of_mem hrow with ⟨j, hj, hget⟩
  have hrerun := hreruns j row (by rw [List.getElem?_eq_getElem hj, hget])
  apply confirm_unimported
  intro attempt
  rw [hrerun]
  exact rerun_unimported hrecord hhead (0 + j) attempt

theorem blessed_unimported_iff {outcome : TargetOutcome}
    (h : proveImpureTarget module qualname w.lab changedLines cfg (.ok literals) = .ok outcome)
    (hrecord : w.recordImport = some f) (hhead : w.headImport none = some g) :
    outcome.verdict = .equivalentUnderBudget ↔ w.FailsAlike literals.length := by
  have hverified := @verified_unimported cfg w literals f hrecord
  rw [impure_equivalent_iff h]
  constructor
  · rintro ⟨_, rows, hinputs, hinr, hstable, hnone, row, hrow, _⟩
    cases hinputs
    rcases unimported_rows_spec hrecord hhead hinr with ⟨hbase, hheads, hconfirm⟩
    have hlength : rows.length = literals.length := by
      simpa using congrArg List.length hbase
    have hpos : 0 < literals.length := hlength ▸ List.length_pos_of_mem hrow
    refine ⟨hpos, by simp [hrecord], by simp [hhead], ?_⟩
    rcases hverified.1 (impureRows_inr_iff.1 hinr).2.1 with hreplay | ⟨hreplay, hlines⟩
    · exact Or.inl hreplay
    · refine Or.inr ⟨hreplay, hlines, ?_⟩
      apply (@sameExits_iff cfg f g w.record w.head literals.length).1
      intro i hi
      -- a difference would be submitted, and shows an unstable base
      by_contra hdiffers
      rcases row_at hbase hheads hi with ⟨r, hr, hrbase, hrhead⟩
      have hdet : (r.detected cfg).isSome = true := by
        rw [← hrbase, ← hrhead] at hdiffers
        exact detected_of_broken (hrbase ▸ unimported_broken f w.record i)
          (hrhead ▸ unimported_broken g w.head i) hdiffers
      refine hstable ⟨i, r, reached_of_detected hnone hr hdet, ?_⟩
      simp [hconfirm r (List.mem_of_getElem? hr), hreplay]
  · rintro ⟨hpos, _, _, hfails⟩
    have hall := hverified.2 (hfails.imp id fun hreplay => ⟨hreplay.1, hreplay.2.1⟩)
    rcases unimported_rows hrecord hhead hall with ⟨rows, hinr⟩
    rcases unimported_rows_spec hrecord hhead hinr with ⟨hbase, hheads, hconfirm⟩
    refine ⟨literals, rows, rfl, hinr, ?_, ?_, ?_⟩
    · rintro ⟨i, row, hreached, hunstable⟩
      have hmem := List.mem_of_getElem? hreached.1
      rw [hconfirm row hmem] at hunstable
      rcases hfails with ⟨hreplay, _⟩ | ⟨hreplay, _, hexits⟩
      · simp [hreplay] at hunstable
      · -- nothing differs, so nothing was submitted
        have hi : i < literals.length := by
          have hlength := congrArg List.length hbase
          have hlt := (List.getElem?_eq_some_iff.1 hreached.1).1
          simp only [List.length_map, List.length_range] at hlength
          omega
        rcases row_at hbase hheads hi with ⟨r, hr, hrbase, hrhead⟩
        obtain rfl : row = r := Option.some.inj (hreached.1.symm.trans hr)
        have heq := (@sameExits_iff cfg f g w.record w.head literals.length).2 hexits i hi
        have hfirst := hreached.2.1
        simp [firstOfKey, Row.detected, hrbase, hrhead, heq] at hfirst
    · intro i row hreached
      rw [hconfirm row (List.mem_of_getElem? hreached.1)]
      split_ifs <;> simp
    · rcases row_at hbase hheads hpos with ⟨row, hrow, hrbase, hrhead⟩
      refine ⟨row, List.mem_of_getElem? hrow, ?_⟩
      rw [hrbase, hrhead]
      exact (compare_unimported f g w.record w.head 0).2 rfl

/-- Without a confirmed divergence the verdict is one of two. -/
theorem verdict_unimported {inputs : Except SynthesisFailure (List Literals)}
    {outcome : TargetOutcome}
    (h : proveImpureTarget module qualname w.lab changedLines cfg inputs = .ok outcome)
    (hrecord : w.recordImport = some f) (hhead : w.headImport none = some g) :
    outcome.verdict = .equivalentUnderBudget ∨ outcome.verdict = .unproven := by
  unfold proveImpureTarget at h
  cases inputs with
  | error failure =>
    cases h
    exact Or.inr rfl
  | ok literals =>
    cases hrows : impureRows module qualname w.lab cfg literals with
    | error e => simp [hrows] at h
    | ok result =>
      cases result with
      | inl early =>
        simp only [hrows, Except.ok.injEq] at h
        subst h
        rcases impureRows_inl hrows with ⟨code, detail, rfl⟩
        exact Or.inr rfl
      | inr rows =>
        simp only [hrows] at h
        have hconfirm := (unimported_rows_spec hrecord hhead hrows).2.2
        rcases conclude_cases h with ⟨_, args, rfl⟩ | ⟨_, s, _, hinv, rfl⟩
        · exact Or.inr rfl
        · have hnil : s.confirmed = [] := by
            apply (confirmed_nil_iff hinv).2
            intro i row hreached
            rw [hconfirm row (List.mem_of_getElem? hreached.1)]
            split_ifs <;> simp
          unfold deriveOutcome
          by_cases hequal : 0 < s.equivalent
          · simp [hnil, hequal]
          · simp [hnil, hequal]

end Unimported

/-! ## The verdict -/

theorem backed_iff_of_inputs {w : ImpureWorkers}
    (h : proveImpureTarget module qualname w.lab changedLines cfg inputs = .ok outcome) :
    w.Backed (inputCount inputs) outcome ↔ ¬ w.FailsAlike (inputCount inputs) := by
  cases hrecord : w.recordImport with
  | none =>
    refine iff_of_true (backed_of_recorded h hrecord) ?_
    rintro ⟨_, hfails, _⟩
    simp [hrecord] at hfails
  | some f =>
    have hcassette := w.recording_cassette hrecord (inputCount inputs)
    cases hhead : w.headImport none with
    | none =>
      -- a head that imports is never equal to a recording that does not
      refine iff_of_true ⟨?_, ?_⟩ ?_
      · intro hverdict
        rcases impure_equal h hverdict with ⟨literals, b, hd, rfl, _, hb, hhd, heq⟩
        have hrecorded := w.recording_cassette hrecord literals.length
        simp only [ImpureWorkers.lab, hrecorded, hhead] at hhd
        have hcompleted := (outcome_of_equal heq).trans (completed_of_imported hhd)
        have himported := imported_of_completed hb hcompleted
        simp [hrecord] at himported
      · rintro ⟨_, _, hfails⟩
        simp [hcassette, hhead] at hfails
      · rintro ⟨_, _, hfails, _⟩
        simp [hhead] at hfails
    | some g =>
      have hblessed : outcome.verdict = .equivalentUnderBudget ↔
          w.FailsAlike (inputCount inputs) := by
        cases inputs with
        | ok literals => exact blessed_unimported_iff h hrecord hhead
        | error failure =>
          unfold proveImpureTarget at h
          cases h
          refine iff_of_false (fun hverdict => nomatch hverdict) ?_
          rintro ⟨hpos, _⟩
          exact Nat.lt_irrefl 0 hpos
      rw [← hblessed]
      constructor
      · rintro ⟨hstarted, _⟩ hverdict
        rcases hstarted hverdict with ⟨i, _, _, hhd⟩
        simp only [ImpureWorkers.StartedHead, hcassette, hhead] at hhd
        exact not_startedIn_unimported g w.head _ i hhd
      · intro hnot
        refine ⟨fun hverdict => absurd hverdict hnot, fun _ => ?_⟩
        exact (verdict_unimported h hrecord hhead).resolve_left hnot

theorem PureWorkers.run_outcome {w : PureWorkers} (ho : o ∈ w.run importing bodies n) :
    o.outcome = if importing.isSome then .crashed else .completed := by
  unfold PureWorkers.run at ho
  cases importing with
  | some failure =>
    cases hpersistent : w.persistent with
    | true => exact served_unimported failure bodies n o (by simpa [hpersistent] using ho)
    | false => exact (broken_of_unimported (by simpa [hpersistent] using ho)).crashed
  | none =>
    rw [batch_imported, served_imported, ite_self] at ho
    rcases List.mem_map.1 ho with ⟨i, _, rfl⟩
    rfl

theorem PureWorkers.started_imported (w : PureWorkers) (bodies : Nat → Body) (h : i < n) :
    w.Started none bodies n i := by
  unfold PureWorkers.Started
  cases w.persistent with
  | true => exact startedServed_imported bodies h
  | false => exact startedIn_imported bodies h

/-- There is one round, or a second one, which without inputs is empty. -/
theorem pureRuns_cases (lab : PureLab) (changedLines : Finset Nat) (budget : Budget)
    (literals : List Literals) :
    pureRuns lab changedLines budget literals =
        (literals, lab.runBase 0 literals, lab.runHead 0 literals) ∨
      ∃ more, (literals = [] → more = []) ∧ pureRuns lab changedLines budget literals =
        (literals ++ more, lab.runBase 0 literals ++ lab.runBase 1 more,
          lab.runHead 0 literals ++ lab.runHead 1 more) := by
  by_cases hround : changedLines ≠ ∅ ∧ literals.length < budget.maxInputs
  · by_cases hmade : mutants lab changedLines budget literals (lab.runHead 0 literals) = []
    · simp only [pureRuns, if_pos hround, if_pos hmade]
      exact Or.inl trivial
    · refine Or.inr ⟨mutants lab changedLines budget literals (lab.runHead 0 literals), ?_, ?_⟩
      · rintro rfl
        simp [mutants]
      · simp only [pureRuns, if_pos hround, if_neg hmade]
  · simp only [pureRuns, if_neg hround, if_true]
    exact Or.inl trivial

theorem pureRuns_batches (lab : PureLab) (changedLines : Finset Nat) (budget : Budget)
    (literals : List Literals) :
    (∀ o ∈ (pureRuns lab changedLines budget literals).2.1,
        ∃ round inputs, o ∈ lab.runBase round inputs) ∧
      (∀ o ∈ (pureRuns lab changedLines budget literals).2.2,
        ∃ round inputs, o ∈ lab.runHead round inputs) ∧
      (literals = [] → (pureRuns lab changedLines budget literals).1 = []) := by
  rcases pureRuns_cases lab changedLines budget literals with hruns | ⟨more, hmore, hruns⟩
  · rw [hruns]
    exact ⟨fun o ho => ⟨0, literals, ho⟩, fun o ho => ⟨0, literals, ho⟩, id⟩
  · rw [hruns]
    refine ⟨?_, ?_, ?_⟩
    · intro o ho
      rcases List.mem_append.1 ho with hfirst | hsecond
      · exact ⟨0, literals, hfirst⟩
      · exact ⟨1, more, hsecond⟩
    · intro o ho
      rcases List.mem_append.1 ho with hfirst | hsecond
      · exact ⟨0, literals, hfirst⟩
      · exact ⟨1, more, hsecond⟩
    · intro hempty
      simp [hempty, hmore hempty]

/-- A blessed pure target was started on both sides. -/
theorem pure_started {w : PureWorkers} {budget : Budget} {failure : SynthesisFailure}
    (h : proveTarget module qualname w.lab changedLines budget cfg (w.inputs failure inputs) =
      .ok outcome)
    (hverdict : outcome.verdict = .equivalentUnderBudget) :
    ∃ i < inputCount inputs, w.Started w.baseImport (w.base 0) (inputCount inputs) i ∧
      w.Started w.headImport (w.head 0) (inputCount inputs) i := by
  unfold proveTarget PureWorkers.inputs at h
  cases hhead : w.headImport with
  | some _ =>
    simp only [hhead, Except.ok.injEq] at h
    subst h
    cases hverdict
  | none =>
    simp only [hhead] at h
    cases inputs with
    | error failure =>
      cases h
      cases hverdict
    | ok literals =>
      cases hrows : pureRows w.lab changedLines budget cfg literals with
      | error e => simp [hrows] at h
      | ok rows =>
        simp only [hrows] at h
        rcases ((conclude_equivalent_iff h).1 hverdict).2.2 with ⟨row, hrow, heq⟩
        rcases zipRows_spec hrows with ⟨hbase, hheads, hlength, _⟩
        rcases pureRuns_batches w.lab changedLines budget literals with
          ⟨hbases, hheadBatches, hnone⟩
        rcases hbases row.base (hbase ▸ List.mem_map_of_mem hrow) with ⟨_, _, hbaseMem⟩
        rcases hheadBatches row.head (hheads ▸ List.mem_map_of_mem hrow) with
          ⟨_, _, hheadMem⟩
        have hbaseOutcome := PureWorkers.run_outcome hbaseMem
        have hheadOutcome := PureWorkers.run_outcome hheadMem
        have himported : w.baseImport = none := by
          cases himport : w.baseImport with
          | none => rfl
          | some f =>
            have hsame := outcome_of_equal heq
            simp [hheadOutcome, hbaseOutcome, hhead, himport] at hsame
        have hpos : 0 < literals.length := by
          apply List.length_pos_iff.2
          intro hempty
          have hrows' := List.length_pos_of_mem hrow
          rw [hlength, hnone hempty] at hrows'
          exact Nat.lt_irrefl 0 hrows'
        refine ⟨0, hpos, ?_, w.started_imported (w.head 0) hpos⟩
        rw [himported]
        exact w.started_imported (w.base 0) hpos

/-- When no target is blessed over nothing: always in the pure flow, and in the impure flow unless
the imports fail alike. -/
theorem backed_iff (module qualname : PyStr) :
    (∀ (w : PureWorkers) (changedLines : Finset Nat) (budget : Budget)
      (cfg : CompareConfig) (failure : SynthesisFailure)
      (inputs : Except SynthesisFailure (List Literals)) (outcome : TargetOutcome),
      proveTarget module qualname w.lab changedLines budget cfg (w.inputs failure inputs) =
        .ok outcome → outcome.verdict = .equivalentUnderBudget →
      ∃ i < inputCount inputs, w.Started w.baseImport (w.base 0) (inputCount inputs) i ∧
        w.Started w.headImport (w.head 0) (inputCount inputs) i) ∧
    (∀ (w : ImpureWorkers) (changedLines : Finset Nat) (cfg : CompareConfig)
      (inputs : Except SynthesisFailure (List Literals)) (outcome : TargetOutcome),
      proveImpureTarget module qualname w.lab changedLines cfg inputs = .ok outcome →
      (w.Backed (inputCount inputs) outcome ↔ ¬ w.FailsAlike (inputCount inputs))) := by
  constructor
  · intro w changedLines budget cfg failure inputs outcome h hverdict
    exact pure_started h hverdict
  · intro w changedLines cfg inputs outcome h
    exact backed_iff_of_inputs h

/-- A worker whose target returns `None`. -/
def quietBody : Body where
  call := fun _ =>
    { outcome := .returned .none, stdout := .ok [], fd1 := .ok [], stderr := .ok [], wallNs := 0
      cpuNs := 0, lines := [], arcs := [], session := none }
  line := fun i =>
    { index := i, returnPresent := true, returnCanon := .none, raised := none, stdout := []
      stderr := [], wallNs := 0, cpuNs := 0, lines := [], arcs := [], unrepresentable := none
      cassetteMiss := none, uninterceptable := none, effects := [], cassette := none }
  reported := fun _ => rfl
  exit := 0

/-- Workers whose import goes the same way everywhere. -/
def alikeWorkers (importing : Option ImportFailure) : ImpureWorkers where
  recordImport := importing
  replayImport := fun _ => importing
  headImport := fun _ => importing
  record := fun _ => quietBody
  replay := fun _ => quietBody
  head := fun _ => quietBody
  freshRecord := fun _ _ _ => quietBody
  freshReplay := fun _ _ _ => quietBody
  freshHead := fun _ _ _ => quietBody

def quietPure : PureWorkers where
  persistent := false
  baseImport := none
  headImport := none
  base := fun _ _ => quietBody
  head := fun _ _ => quietBody
  freshBase := fun _ _ _ => quietBody
  freshHead := fun _ _ _ => quietBody
  mutate := fun input _ => input

theorem compare_quiet : compare (quietBody.observation 0) (quietBody.observation 0) exact =
    .equal := by
  have hwire : wireText [] = [] := rfl
  simp [quietBody, Body.observation, completedObservation, ResultLine.wire, Canon.wire, compare,
    compareOutcomes, compareCompleted, compareExceptions, valuesEqual, compareEffects,
    compareEffectsFrom]

/-- One input on which the two sides are equal blesses the target. -/
theorem conclude_single {module qualname : PyStr} {changedLines : Finset Nat}
    {unstable : PyStr → PyStr} {dedupe : Bool} {row : Row}
    (heq : compare row.base row.head cfg = .equal) :
    ∃ outcome, conclude module qualname changedLines cfg dedupe unstable [row] = .ok outcome ∧
      outcome.verdict = .equivalentUnderBudget := by
  have hrun : proveLoop cfg dedupe [row] {} = .ok ({ equivalent := 1 }, none) := by
    simp [proveLoop, proveRow, heq]
  unfold conclude
  simp only [hrun]
  exact ⟨_, rfl, rfl⟩

/-- One input whose observations are all the same blesses the target. -/
theorem impure_single (hbatch : batch importing (fun _ => quietBody) 1 = [b])
    (heq : compare b b exact = .equal) (hintercepted : b.uninterceptable = none) (input : Literals) :
    ∃ outcome, proveImpureTarget (lit "m") (lit "f") (alikeWorkers importing).lab ∅ exact
      (.ok [input]) = .ok outcome ∧ outcome.verdict = .equivalentUnderBudget := by
  let lab := (alikeWorkers importing).lab
  let row : Row := ⟨input, b, b, impureRerun exact (lab.freshRecord 0) (lab.freshReplay 0)
    (lab.freshHead 0)⟩
  have hrecord : lab.record [input] = [b] := hbatch
  have hreplay : lab.replay [input] [b] = [b] := hbatch
  have hhead : lab.replayHead [input] [b] = [b] := hbatch
  have hnone : firstUninterceptable [b] = none := by
    simp [firstUninterceptable, hintercepted]
  have hrows : impureRows (lit "m") (lit "f") lab exact [input] = .ok (.inr [row]) := by
    apply impureRows_inr_iff.2
    simp [hrecord, hreplay, hhead, hnone, replayVerified, heq, zipRows, row]
  have hequal : compare row.base row.head exact = .equal := heq
  rcases @conclude_single exact (lit "m") (lit "f") ∅ unstableImpure false row hequal with
    ⟨outcome, hconclude, hverdict⟩
  refine ⟨outcome, ?_, hverdict⟩
  have hprove : proveImpureTarget (lit "m") (lit "f") lab ∅ exact (.ok [input]) =
      conclude (lit "m") (lit "f") ∅ exact false unstableImpure [row] := by
    simp only [proveImpureTarget, hrows]
  exact hprove.trans hconclude

theorem pure_single (hbatch : batch none (fun _ => quietBody) 1 = [quietBody.observation 0])
    (input : Literals) :
    ∃ outcome, proveTarget (lit "m") (lit "f") quietPure.lab ∅ {} exact
        (quietPure.inputs ⟨.harnessSynthesisFailed, []⟩ (.ok [input])) = .ok outcome ∧
      outcome.verdict = .equivalentUnderBudget := by
  let row : Row := ⟨input, quietBody.observation 0, quietBody.observation 0,
    pureRerun exact (quietPure.lab.freshBase 0) (quietPure.lab.freshHead 0)⟩
  have hbase : quietPure.lab.runBase 0 [input] = [quietBody.observation 0] := hbatch
  have hhead : quietPure.lab.runHead 0 [input] = [quietBody.observation 0] := hbatch
  have hrows : pureRows quietPure.lab ∅ {} exact [input] = .ok [row] := by
    simp [pureRows, pureRuns, hbase, hhead, zipRows, row]
  rcases @conclude_single exact (lit "m") (lit "f") ∅ unstablePure true row compare_quiet with
    ⟨outcome, hconclude, hverdict⟩
  refine ⟨outcome, ?_, hverdict⟩
  have hprove : proveTarget (lit "m") (lit "f") quietPure.lab ∅ {} exact
      (quietPure.inputs ⟨.harnessSynthesisFailed, []⟩ (.ok [input])) =
        conclude (lit "m") (lit "f") ∅ exact true unstablePure [row] := by
    have hinputs : quietPure.inputs ⟨.harnessSynthesisFailed, []⟩ (.ok [input]) =
        .ok [input] := rfl
    simp only [proveTarget, hinputs, hrows]
  exact hprove.trans hconclude

/-- Quiet workers bless the target over a started call, in both flows. -/
theorem backed_iff_at :
    (∃ outcome, proveTarget (lit "m") (lit "f") quietPure.lab ∅ {} exact
        (quietPure.inputs ⟨.harnessSynthesisFailed, []⟩ (.ok [(lit "()", lit "{}")])) =
          .ok outcome ∧
      ∃ i < 1, quietPure.Started none (fun _ => quietBody) 1 i ∧
        quietPure.Started none (fun _ => quietBody) 1 i) ∧
    ∃ outcome, proveImpureTarget (lit "m") (lit "f") (alikeWorkers none).lab ∅ exact
        (.ok [(lit "()", lit "{}")]) = .ok outcome ∧ (alikeWorkers none).Backed 1 outcome := by
  have hbatch : batch none (fun _ => quietBody) 1 = [quietBody.observation 0] := by
    simp [batch_imported]
  constructor
  · rcases pure_single hbatch (lit "()", lit "{}") with ⟨outcome, hrun, hverdict⟩
    exact ⟨outcome, hrun, (backed_iff _ _).1 _ _ _ _ _ _ outcome hrun hverdict⟩
  · rcases impure_single hbatch compare_quiet rfl (lit "()", lit "{}") with ⟨outcome, hrun, _⟩
    refine ⟨outcome, hrun, ((backed_iff _ _).2 _ _ _ _ outcome hrun).2 ?_⟩
    rintro ⟨_, hfails, _⟩
    cases hfails

/-- A module that imports nowhere, with the same traceback and exit status on both sides. -/
theorem unimported_target_blessed :
    ¬ ∀ (w : ImpureWorkers) (inputs : Except SynthesisFailure (List Literals))
        (outcome : TargetOutcome),
      proveImpureTarget (lit "m") (lit "f") w.lab ∅ exact inputs = .ok outcome →
      w.Backed (inputCount inputs) outcome := by
  intro hall
  have hbatch : batch (some (.uninterceptable [])) (fun _ => quietBody) 1 =
      [fatalObservation none] := by
    simp [batch_unimported, unimportedAt, ImportFailure.line]
  have hsame : compare (fatalObservation none) (fatalObservation none) exact = .equal := rfl
  rcases impure_single hbatch hsame rfl (lit "()", lit "{}") with ⟨outcome, hrun, hverdict⟩
  have hnever : (alikeWorkers (some (.uninterceptable []))).NeverImports 1 := ⟨rfl, rfl, rfl⟩
  have hunproven := (hall _ _ outcome hrun).2 hnever
  simp [hverdict] at hunproven

end Tempest
