import Tempest.Api.Upload
import Tempest.Process.Reachable

/-!
# Runs — the rows of the runs and who writes them (`ingest.py`, `localprove.py`, `routers/runs.py`)

A run is created pending, by a request that waits for its bundle or by one that starts a local prove, or
it is imported with its bundle at once.  Uploads and the prove thread read the row in one step and commit
in another, so that any of them may come in between.
-/

namespace Tempest
namespace Runs

open Python

/-! ## Rows -/

inductive RunStatus where
  | pending
  | complete
  | cancelled
  deriving DecidableEq

/-- A row of `targets` with those of its divergences: the record and the scripts it names. -/
structure TargetRow where
  position : Nat
  record : Upload.TargetRecord
  scripts : List PyStr

/-- A row of `run_events` by what it tells. -/
inductive RunEvent where
  | created
  | progress (stage : PyStr)
  | ingested (verdict : Verdict) (targets divergences : Nat)
  | complete (verdict : Verdict) (targets divergences : Nat)
  | cancelled
  | error

/-- A row of `runs`; `manifest` is the columns that are copied from it. -/
structure Run where
  repo : PyStr
  baseSha : PyStr
  headSha : PyStr
  status : RunStatus := .pending
  verdict : Option Verdict := none
  manifest : Option RunManifest := none
  bundleDigest : Option PyStr := none
  targets : List TargetRow := []
  events : List RunEvent := []

/-! ## Ingestion -/

inductive IngestError where
  | notPending (status : RunStatus)
  | noMinimizedInput (target : PyStr)
  | noScriptName (target : PyStr)
  | noScript (target : PyStr) (name : JsonValue)
  /-- `TypeError`: the name of the script is a list or an object. -/
  | unhashable
  | mismatch (fields : List PyStr)

def isNone : JsonValue → Bool
  | .null => true
  | _ => false

/-- One divergence of `check_bundle_integrity`. -/
def checkDivergence (scripts : Dict PyStr PyStr) (target : PyStr) (d : Upload.DivergenceRecord) :
    Except IngestError Unit :=
  if isNone d.minimizedArgs || isNone d.minimizedKwargs then .error (.noMinimizedInput target)
  else
    match d.reproFilename with
    | .null => .error (.noScriptName target)
    | .str name => if scripts.contains name then .ok () else .error (.noScript target (.str name))
    | .arr _ | .obj _ => .error .unhashable
    | other => .error (.noScript target other)

def checkBundleIntegrity (bundle : Upload.RunBundle) : Except IngestError Unit :=
  bundle.targets.forM fun t =>
    t.divergences.forM (checkDivergence bundle.reproScripts (t.module ++ lit "." ++ t.qualname))

def checkBundleMatchesRun (bundle : Upload.RunBundle) (run : Run) : Except IngestError Unit :=
  let fields := [(lit "repo", run.repo, bundle.manifest.repo),
    (lit "base_sha", run.baseSha, bundle.manifest.baseSha),
    (lit "head_sha", run.headSha, bundle.manifest.headSha)]
  let mismatches := (fields.filter fun field => field.2.1 ≠ field.2.2).map Prod.fst
  if mismatches = [] then .ok () else .error (.mismatch mismatches)

/-- The checks of `ingest_bundle`, on the row as it was read. -/
def checkIngest (seen : Run) (bundle : Upload.RunBundle) : Except IngestError Unit := do
  if seen.status ≠ .pending then throw (.notPending seen.status)
  checkBundleIntegrity bundle
  checkBundleMatchesRun bundle seen

def scriptsOf (scripts : Dict PyStr PyStr) (t : Upload.TargetRecord) : List PyStr :=
  t.divergences.filterMap fun d =>
    match d.reproFilename with
    | .str name => scripts.get? name
    | _ => none

def targetRows (bundle : Upload.RunBundle) : List TargetRow :=
  bundle.targets.zipIdx.map fun t => ⟨t.2, t.1, scriptsOf bundle.reproScripts t.1⟩

def divergenceTotal (bundle : Upload.RunBundle) : Nat :=
  (bundle.targets.map fun t => t.divergences.length).sum

def ingestedEvent (bundle : Upload.RunBundle) : RunEvent :=
  .ingested bundle.manifest.verdict bundle.targets.length (divergenceTotal bundle)

def completeEvent (bundle : Upload.RunBundle) : RunEvent :=
  .complete bundle.manifest.verdict bundle.targets.length (divergenceTotal bundle)

/-- The row that `ingest_bundle` writes. -/
def Run.ingest (row : Run) (digest : PyStr) (bundle : Upload.RunBundle) : Run :=
  { row with
    status := .complete
    verdict := some bundle.manifest.verdict
    manifest := some bundle.manifest
    bundleDigest := some digest
    targets := row.targets ++ targetRows bundle
    events := row.events ++ [ingestedEvent bundle] }

/-- `uq_targets_run_position` refuses the new targets. -/
def Run.conflicts (row : Run) (bundle : Upload.RunBundle) : Bool :=
  row.targets.any fun t => t.position < bundle.targets.length

/-! ## Of one bundle -/

section Sources

variable (parse : Bytes → Option Upload.RunBundle) (hexdigest : Bytes → PyStr)

def Tells (bundle : Upload.RunBundle) : RunEvent → Prop
  | .ingested verdict targets divergences | .complete verdict targets divergences =>
    verdict = bundle.manifest.verdict ∧ targets = bundle.targets.length ∧
      divergences = divergenceTotal bundle
  | _ => True

def IsOfBundle : RunEvent → Prop
  | .ingested _ _ _ | .complete _ _ _ => True
  | _ => False

structure Blank (row : Run) : Prop where
  digest : row.bundleDigest = none
  manifest : row.manifest = none
  targets : row.targets = []
  events : ∀ e ∈ row.events, ¬ IsOfBundle e

structure OfBundle (row : Run) (data : Bytes) (bundle : Upload.RunBundle) : Prop where
  parsed : parse data = some bundle
  digest : row.bundleDigest = some (hexdigest data)
  manifest : row.manifest = some bundle.manifest
  targets : row.targets = targetRows bundle
  events : ∀ e ∈ row.events, Tells bundle e

def SingleSourced (row : Run) : Prop :=
  Blank row ∨ ∃ data bundle, OfBundle parse hexdigest row data bundle

def Run.result (row : Run) : RunStatus × Option Verdict × Option PyStr :=
  (row.status, row.verdict, row.bundleDigest)

end Sources

/-! ## The database and who uses it -/

inductive Request where
  | idle
  | loaded (run : Nat) (seen : Run)

inductive Prove where
  | none
  | created
  | proving
  | loaded (seen : Run)
  | committed
  | cancelled
  | failed
  | done
  deriving Inhabited

/-- The rows by their ids, the next id, the requests, and the thread of each run. -/
structure World where
  runs : Nat → Option Run
  next : Nat
  requests : Nat → Request
  proves : Nat → Prove

inductive Action where
  | createRun (repo baseSha headSha : PyStr)
  | localProve (repo baseSha headSha : PyStr)
  | importBundle (data : Bytes) (victims : List Nat)
  | load (w run : Nat)
  | upload (w : Nat) (data : Bytes) (victims : List Nat)
  | leave (w : Nat)
  | spawn (run : Nat)
  | event (run : Nat) (stage : PyStr)
  | loadRun (run : Nat)
  | ingestRun (run : Nat) (data : Bytes) (victims : List Nat)
  | finish (run : Nat)
  | fail (run : Nat)
  | cancel (run : Nat)
  | markError (run : Nat)
  | markCancelled (run : Nat)
  | crash

namespace World

def setRun (s : World) (run : Nat) (row : Run) : World :=
  { s with runs := fun i => if i = run then some row else s.runs i }

def setRequest (s : World) (w : Nat) (request : Request) : World :=
  { s with requests := fun i => if i = w then request else s.requests i }

def setProve (s : World) (run : Nat) (prove : Prove) : World :=
  { s with proves := fun i => if i = run then prove else s.proves i }

def create (s : World) (row : Run) : World :=
  { s.setRun s.next row with next := s.next + 1 }

/-- The rows that `prune_over_budget` deletes: some of the others that have a bundle. -/
def prune (s : World) (victims : List Nat) (keep : Nat) : World :=
  { s with runs := fun i =>
      if i ∈ victims ∧ i ≠ keep ∧ ((s.runs i).bind Run.bundleDigest).isSome then none else s.runs i }

section Steps

-- `parse_bundle_zip`, where it returns, and the checksum
variable (parse : Bytes → Option Upload.RunBundle) (hexdigest : Bytes → PyStr)

/-- `ingest_zip_bytes` and the commit, on the row as it is then, with the events that are committed with
it; `none` when nothing is written. -/
def ingest (s : World) (run : Nat) (seen : Run) (data : Bytes) (victims : List Nat)
    (more : Upload.RunBundle → List RunEvent) : Option World :=
  match parse data with
  | none => none
  | some bundle =>
    match checkIngest seen bundle with
    | .error _ => none
    | .ok () =>
      match s.runs run with
      | none => none
      | some row =>
        if row.conflicts bundle then none
        else
          let row := row.ingest (hexdigest data) bundle
          some ((s.setRun run { row with events := row.events ++ more bundle }).prune victims run)

def upload (s : World) (w : Nat) (data : Bytes) (victims : List Nat) : Option World :=
  match s.requests w with
  | .loaded run seen =>
    match s.ingest parse hexdigest run seen data victims fun _ => [] with
    | some s' => some (s'.setRequest w .idle)
    | none => some (s.setRequest w .idle)
  | .idle => none

def holds (s : World) (digest : PyStr) : Bool :=
  (List.range s.next).any fun i => ((s.runs i).bind Run.bundleDigest) = some digest

def importedRow (bundle : Upload.RunBundle) : Run where
  repo := bundle.manifest.repo
  baseSha := bundle.manifest.baseSha
  headSha := bundle.manifest.headSha
  events := [.created]

/-- `import_run_bundle`.  Its row is a new one, so that it is one step here. -/
def importBundle (s : World) (data : Bytes) (victims : List Nat) : Option World :=
  if s.holds (hexdigest data) then some s
  else
    match parse data with
    | none => none
    | some bundle =>
      (s.create (importedRow bundle)).ingest parse hexdigest s.next (importedRow bundle) data victims
        fun _ => []

/-- The thread has its bundle: `local.complete` is committed with it. -/
def ingestRun (s : World) (run : Nat) (data : Bytes) (victims : List Nat) : Option World :=
  match s.proves run with
  | .loaded seen =>
    match s.ingest parse hexdigest run seen data victims fun bundle => [completeEvent bundle] with
    | some s' => some (s'.setProve run .committed)
    | none => some (s.setProve run .failed)
  | _ => none

def markError (s : World) (run : Nat) : Option World :=
  match s.proves run with
  | .failed =>
    match s.runs run with
    | none => some (s.setProve run .done)
    | some row =>
      some ((s.setRun run { row with
        status := .complete
        verdict := some .error
        events := row.events ++ [.error] }).setProve run .done)
  | _ => none

def markCancelled (s : World) (run : Nat) : Option World :=
  match s.proves run with
  | .cancelled =>
    match s.runs run with
    | none => some (s.setProve run .done)
    | some row =>
      some ((s.setRun run { row with
        status := .cancelled
        events := row.events ++ [.cancelled] }).setProve run .done)
  | _ => none

def event (s : World) (run : Nat) (stage : PyStr) : Option World :=
  match s.proves run with
  | .proving =>
    match s.runs run with
    | none => none
    | some row => some (s.setRun run { row with events := row.events ++ [.progress stage] })
  | _ => none

def loadRun (s : World) (run : Nat) : Option World :=
  match s.proves run with
  | .proving =>
    match s.runs run with
    | none => some (s.setProve run .done)
    | some row => some (s.setProve run (.loaded row))
  | _ => none

def load (s : World) (w run : Nat) : Option World :=
  match s.requests w with
  | .idle =>
    match s.runs run with
    | none => none
    | some row => some (s.setRequest w (.loaded run row))
  | _ => none

/-- An exception in the thread: before the commit, in it, or in what follows it. -/
def fail (s : World) (run : Nat) : Option World :=
  match s.proves run with
  | .proving | .loaded _ | .committed => some (s.setProve run .failed)
  | _ => none

def step (s : World) : Action → Option World
  | .createRun repo baseSha headSha =>
    some (s.create { repo := repo, baseSha := baseSha, headSha := headSha, events := [.created] })
  | .localProve repo baseSha headSha =>
    some ((s.create { repo := repo, baseSha := baseSha, headSha := headSha, events := [.created] }).setProve
      s.next .created)
  | .importBundle data victims => s.importBundle parse hexdigest data victims
  | .load w run => s.load w run
  | .upload w data victims => s.upload parse hexdigest w data victims
  | .leave w => some (s.setRequest w .idle)
  | .spawn run =>
    match s.proves run with
    | .created => some (s.setProve run .proving)
    | _ => none
  | .event run stage => s.event run stage
  | .loadRun run => s.loadRun run
  | .ingestRun run data victims => s.ingestRun parse hexdigest run data victims
  | .finish run =>
    match s.proves run with
    | .committed => some (s.setProve run .done)
    | _ => none
  | .fail run => s.fail run
  | .cancel run =>
    match s.proves run with
    | .proving => some (s.setProve run .cancelled)
    | _ => none
  | .markError run => s.markError run
  | .markCancelled run => s.markCancelled run
  -- the process dies, with its requests and its threads
  | .crash => some { s with requests := fun _ => .idle, proves := fun _ => .done }

end Steps

def empty : World where
  runs := fun _ => none
  next := 0
  requests := fun _ => .idle
  proves := fun _ => .none

/-! ## Final and from one bundle -/

section Finished

variable (parse : Bytes → Option Upload.RunBundle) (hexdigest : Bytes → PyStr)

/-- Terminal rows are as they were, where they are not pruned. -/
def Final (s s' : World) : Prop :=
  ∀ run row, s.runs run = some row → row.status ≠ .pending →
    ∀ row', s'.runs run = some row' → row'.result = row.result

/-- An ingestion that passes its checks finds its row still pending, or is refused by the database for
its targets: the one that came before has some, and so has it. -/
def Timely (s : World) (run : Nat) (seen : Run) (data : Bytes) : Prop :=
  ∀ bundle row, parse data = some bundle → checkIngest seen bundle = .ok () →
    s.runs run = some row → row.status = .pending ∨ row.targets ≠ [] ∧ bundle.targets ≠ []

def Admits (s : World) : Action → Prop
  | .upload w data _ => ∀ run seen, s.requests w = .loaded run seen → s.Timely parse run seen data
  | .ingestRun run data _ => ∀ seen, s.proves run = .loaded seen → s.Timely parse run seen data
  | .markError run => ∀ row, s.proves run = .failed → s.runs run = some row → row.status = .pending
  | .markCancelled run =>
    ∀ row, s.proves run = .cancelled → s.runs run = some row → row.status = .pending
  | _ => True

/-- A pending row is blank, a terminal one of one bundle or blank, and the ids from the next on are
free. -/
structure Inv (s : World) : Prop where
  rows : ∀ run row, s.runs run = some row → SingleSourced parse hexdigest row
  pending : ∀ run row, s.runs run = some row → row.status = .pending → Blank row
  free : ∀ run, s.next ≤ run → s.runs run = none

/-- What a row may be after a step: of one bundle, and blank while it is pending. -/
structure Sound (row : Run) : Prop where
  source : SingleSourced parse hexdigest row
  pending : row.status = .pending → Blank row

/-- What a step does: it keeps rows or deletes them, creates some from the next id on, and writes others
that are pending or keeps their result. -/
structure Turn (s s' : World) : Prop where
  rows : ∀ run row', s'.runs run = some row' → s.runs run = some row' ∨
    Sound parse hexdigest row' ∧ (s.next ≤ run ∨
      ∃ row, s.runs run = some row ∧ (row.status = .pending ∨ row'.result = row.result))
  next : s.next ≤ s'.next
  free : ∀ run, s'.next ≤ run → s'.runs run = none

variable {parse hexdigest} {s s' : World} {run w : Nat} {row row' seen : Run} {data : Bytes}
  {victims : List Nat} {bundle : Upload.RunBundle}

theorem runs_prune {s : World} {victims : List Nat} {keep : Nat}
    (h : (s.prune victims keep).runs run = some row) : s.runs run = some row := by
  change (if _ then none else s.runs run) = some row at h
  split at h
  · cases h
  · exact h

theorem Turn.same (hinv : s.Inv parse hexdigest) (hruns : s'.runs = s.runs) (hnext : s'.next = s.next) :
    Turn parse hexdigest s s' where
  rows run row' h := Or.inl (by rw [← hruns]; exact h)
  next := hnext.ge
  free run h := by
    rw [hruns]
    exact hinv.free run (hnext ▸ h)

theorem Turn.write (hinv : s.Inv parse hexdigest) (hrow : s.runs run = some row)
    (hsound : Sound parse hexdigest row')
    (hresult : row.status = .pending ∨ row'.result = row.result)
    (hruns : ∀ i r, s'.runs i = some r → (i = run ∧ r = row') ∨ s.runs i = some r)
    (hnext : s'.next = s.next) : Turn parse hexdigest s s' where
  rows i r h := by
    rcases hruns i r h with ⟨rfl, rfl⟩ | hold
    · exact Or.inr ⟨hsound, Or.inr ⟨row, hrow, hresult⟩⟩
    · exact Or.inl hold
  next := hnext.ge
  free i h := by
    cases hi : s'.runs i with
    | none => rfl
    | some r =>
      have hfree := hinv.free i (hnext ▸ h)
      rcases hruns i r hi with ⟨rfl, rfl⟩ | hold
      · rw [hrow] at hfree
        cases hfree
      · rw [hold] at hfree
        cases hfree

theorem Turn.create (hinv : s.Inv parse hexdigest) (hsound : Sound parse hexdigest row')
    (hruns : ∀ i r, s'.runs i = some r → (i = s.next ∧ r = row') ∨ s.runs i = some r)
    (hnext : s'.next = s.next + 1) : Turn parse hexdigest s s' where
  rows i r h := by
    rcases hruns i r h with ⟨rfl, rfl⟩ | hold
    · exact Or.inr ⟨hsound, Or.inl le_rfl⟩
    · exact Or.inl hold
  next := by omega
  free i h := by
    cases hi : s'.runs i with
    | none => rfl
    | some r =>
      rcases hruns i r hi with ⟨rfl, rfl⟩ | hold
      · omega
      · rw [hinv.free i (by omega)] at hold
        cases hold

theorem runs_setRun {i : Nat} {r : Run} (h : (s.setRun run row).runs i = some r) :
    (i = run ∧ r = row) ∨ s.runs i = some r := by
  change (if i = run then some row else s.runs i) = some r at h
  split at h
  · rename_i heq
    exact Or.inl ⟨heq, (Option.some.inj h).symm⟩
  · exact Or.inr h

theorem inv_of_turn (hinv : s.Inv parse hexdigest) (hturn : Turn parse hexdigest s s') :
    s'.Inv parse hexdigest where
  rows run row h := by
    rcases hturn.rows run row h with hold | ⟨hsound, -⟩
    · exact hinv.rows run row hold
    · exact hsound.source
  pending run row h hpending := by
    rcases hturn.rows run row h with hold | ⟨hsound, -⟩
    · exact hinv.pending run row hold hpending
    · exact hsound.pending hpending
  free := hturn.free

/-! ## Rows that are written -/

theorem tells_of_not {e : RunEvent} (h : ¬ IsOfBundle e) : Tells bundle e := by
  cases e with
  | ingested | complete => exact absurd trivial h
  | created | progress | cancelled | error => trivial

theorem sound_ingest (hblank : Blank row) (hparse : parse data = some bundle) {more : List RunEvent}
    (hmore : ∀ e ∈ more, Tells bundle e) :
    Sound parse hexdigest { row.ingest (hexdigest data) bundle with
      events := (row.ingest (hexdigest data) bundle).events ++ more } where
  source := by
    refine Or.inr ⟨data, bundle, hparse, rfl, rfl, ?_, fun e he => ?_⟩
    · change row.targets ++ targetRows bundle = targetRows bundle
      rw [hblank.targets, List.nil_append]
    · rcases List.mem_append.1 he with hold | hnew
      · rcases List.mem_append.1 hold with hrow | hingested
        · exact tells_of_not (hblank.events e hrow)
        · rw [List.mem_singleton.1 hingested]
          exact ⟨rfl, rfl, rfl⟩
      · exact hmore e hnew
  pending h := by cases h

/-- An event that tells of no bundle changes nothing. -/
theorem sound_event (hrow : Sound parse hexdigest row) {e : RunEvent} (he : ¬ IsOfBundle e) :
    Sound parse hexdigest { row with events := row.events ++ [e] } := by
  have hevents : ∀ (P : RunEvent → Prop), (∀ e ∈ row.events, P e) → P e →
      ∀ e' ∈ row.events ++ [e], P e' := by
    intro P hall hlast e' he'
    rcases List.mem_append.1 he' with hold | hnew
    · exact hall e' hold
    · rw [List.mem_singleton.1 hnew]
      exact hlast
  have hblank : Blank row → Blank { row with events := row.events ++ [e] } := fun h =>
    ⟨h.digest, h.manifest, h.targets, hevents _ h.events he⟩
  refine ⟨?_, fun h => hblank (hrow.pending h)⟩
  rcases hrow.source with h | ⟨data, bundle, h⟩
  · exact Or.inl (hblank h)
  · exact Or.inr ⟨data, bundle, h.parsed, h.digest, h.manifest, h.targets,
      hevents _ h.events (tells_of_not he)⟩

theorem sound_mark (hblank : Blank row) {status : RunStatus} {verdict : Option Verdict} {e : RunEvent}
    (he : ¬ IsOfBundle e) :
    Sound parse hexdigest
      { row with status := status, verdict := verdict, events := row.events ++ [e] } := by
  have hnew : Blank { row with status := status, verdict := verdict, events := row.events ++ [e] } := by
    refine ⟨hblank.digest, hblank.manifest, hblank.targets, fun e' he' => ?_⟩
    rcases List.mem_append.1 he' with hold | hlast
    · exact hblank.events e' hold
    · rw [List.mem_singleton.1 hlast]
      exact he
  exact ⟨Or.inl hnew, fun _ => hnew⟩

/-- Two bundles with targets cannot have the same run. -/
theorem conflicts_of_targets (hrow : SingleSourced parse hexdigest row) (htargets : row.targets ≠ [])
    (hbundle : bundle.targets ≠ []) : row.conflicts bundle = true := by
  rcases hrow with hblank | ⟨data', bundle', h⟩
  · exact absurd hblank.targets htargets
  · rw [h.targets] at htargets
    have hother : bundle'.targets ≠ [] := by
      intro hnil
      rw [targetRows, hnil] at htargets
      exact htargets rfl
    obtain ⟨t, ts, hts⟩ := List.exists_cons_of_ne_nil hother
    -- the first target of either has the position 0
    rw [Run.conflicts, List.any_eq_true, h.targets]
    refine ⟨⟨0, t, scriptsOf bundle'.reproScripts t⟩, ?_, ?_⟩
    · rw [targetRows, hts]
      exact List.mem_cons_self ..
    · exact decide_eq_true (List.length_pos_iff.2 hbundle)

theorem ingest_spec {more : Upload.RunBundle → List RunEvent} (hinv : s.Inv parse hexdigest)
    (htimely : s.Timely parse run seen data)
    (hingest : s.ingest parse hexdigest run seen data victims more = some s') :
    ∃ bundle row, parse data = some bundle ∧ s.runs run = some row ∧ row.status = .pending ∧
      (∀ i r, s'.runs i = some r →
        (i = run ∧ r = { row.ingest (hexdigest data) bundle with
          events := (row.ingest (hexdigest data) bundle).events ++ more bundle }) ∨ s.runs i = some r) ∧
      s'.next = s.next := by
  unfold ingest at hingest
  split at hingest
  · cases hingest
  · rename_i bundle hparse
    split at hingest
    · cases hingest
    · rename_i hcheck
      split at hingest
      · cases hingest
      · rename_i row hrow
        split at hingest
        · cases hingest
        · rename_i hfree
          cases hingest
          refine ⟨bundle, row, hparse, hrow, ?_, fun i r h => runs_setRun (runs_prune h), rfl⟩
          rcases htimely bundle row hparse hcheck hrow with hpending | ⟨htargets, hbundle⟩
          · exact hpending
          · exact absurd (conflicts_of_targets (hinv.rows run row hrow) htargets hbundle) hfree

theorem ingest_turn {more : Upload.RunBundle → List RunEvent} (hinv : s.Inv parse hexdigest)
    (htimely : s.Timely parse run seen data)
    (hmore : ∀ bundle, ∀ e ∈ more bundle, Tells bundle e)
    (hingest : s.ingest parse hexdigest run seen data victims more = some s') :
    Turn parse hexdigest s s' := by
  obtain ⟨bundle, row, hparse, hrow, hpending, hruns, hnext⟩ := ingest_spec hinv htimely hingest
  exact .write hinv hrow (sound_ingest (hinv.pending run row hrow hpending) hparse (hmore bundle))
    (Or.inl hpending) hruns hnext

theorem upload_turn (hinv : s.Inv parse hexdigest) (hok : s.Admits parse (.upload w data victims))
    (hstep : s.upload parse hexdigest w data victims = some s') : Turn parse hexdigest s s' := by
  unfold upload at hstep
  split at hstep
  · rename_i run seen hrequest
    split at hstep
    · rename_i s₁ hingest
      cases hstep
      have hturn : Turn parse hexdigest s s₁ :=
        ingest_turn hinv (hok run seen hrequest) (fun _ e he => (by cases he)) hingest
      exact ⟨hturn.rows, hturn.next, hturn.free⟩
    · cases hstep
      exact .same hinv rfl rfl
  · cases hstep

theorem ingestRun_turn (hinv : s.Inv parse hexdigest)
    (hok : s.Admits parse (.ingestRun run data victims))
    (hstep : s.ingestRun parse hexdigest run data victims = some s') : Turn parse hexdigest s s' := by
  unfold ingestRun at hstep
  split at hstep
  · rename_i seen hprove
    split at hstep
    · rename_i s₁ hingest
      cases hstep
      have hmore : ∀ bundle, ∀ e ∈ [completeEvent bundle], Tells bundle e := by
        intro bundle e he
        rw [List.mem_singleton.1 he]
        exact ⟨rfl, rfl, rfl⟩
      have hturn : Turn parse hexdigest s s₁ := ingest_turn hinv (hok seen hprove) hmore hingest
      exact ⟨hturn.rows, hturn.next, hturn.free⟩
    · cases hstep
      exact .same hinv rfl rfl
  · cases hstep

theorem sound_created (repo baseSha headSha : PyStr) :
    Sound parse hexdigest
      { repo := repo, baseSha := baseSha, headSha := headSha, events := [.created] } := by
  have hblank : Blank { repo := repo, baseSha := baseSha, headSha := headSha, events := [.created] } := by
    refine ⟨rfl, rfl, rfl, fun e he => ?_⟩
    rw [List.mem_singleton.1 he]
    exact id
  exact ⟨Or.inl hblank, fun _ => hblank⟩

theorem create_turn (hinv : s.Inv parse hexdigest) (hsound : Sound parse hexdigest row) :
    Turn parse hexdigest s (s.create row) :=
  .create hinv hsound (fun _ _ h => runs_setRun h) rfl

/-- The row of an import is created and ingested at once. -/
theorem importBundle_turn (hinv : s.Inv parse hexdigest)
    (hstep : s.importBundle parse hexdigest data victims = some s') : Turn parse hexdigest s s' := by
  unfold importBundle at hstep
  split at hstep
  · cases hstep
    exact .same hinv rfl rfl
  · split at hstep
    · cases hstep
    · rename_i bundle hparse
      have hsound : Sound parse hexdigest (importedRow bundle) := sound_created _ _ _
      have hcreated := create_turn hinv hsound
      have hrow : (s.create (importedRow bundle)).runs s.next = some (importedRow bundle) := if_pos rfl
      have hinv' := inv_of_turn hinv hcreated
      have htimely : (s.create (importedRow bundle)).Timely parse s.next (importedRow bundle) data := by
        intro _ row' _ _ hrow'
        rw [hrow] at hrow'
        cases hrow'
        exact Or.inl rfl
      obtain ⟨bundle', row, hparse', hrow', hpending, hruns, hnext⟩ := ingest_spec hinv' htimely hstep
      rw [hrow] at hrow'
      cases hrow'
      have hblank : Blank (importedRow bundle) := hsound.pending rfl
      constructor
      case rows =>
        intro run row h
        rcases hruns run row h with ⟨rfl, rfl⟩ | hold
        · exact Or.inr ⟨sound_ingest hblank hparse' fun e he => (by cases he), Or.inl le_rfl⟩
        · exact hcreated.rows run row hold
      case next =>
        rw [hnext]
        exact hcreated.next
      case free =>
        intro run h
        rw [hnext] at h
        cases hrun : s'.runs run with
        | none => rfl
        | some row =>
          have hfree := hcreated.free run h
          rcases hruns run row hrun with ⟨rfl, -⟩ | hold
          · rw [hrow] at hfree
            cases hfree
          · rw [hfree] at hold
            cases hold

theorem markError_turn (hinv : s.Inv parse hexdigest) (hok : s.Admits parse (.markError run))
    (hstep : s.markError run = some s') : Turn parse hexdigest s s' := by
  unfold markError at hstep
  split at hstep
  · rename_i hprove
    split at hstep
    · cases hstep
      exact .same hinv rfl rfl
    · rename_i row hrow
      cases hstep
      have hpending := hok row hprove hrow
      exact .write hinv hrow (sound_mark (hinv.pending run row hrow hpending) id) (Or.inl hpending)
        (fun _ _ h => runs_setRun h) rfl
  · cases hstep

theorem markCancelled_turn (hinv : s.Inv parse hexdigest) (hok : s.Admits parse (.markCancelled run))
    (hstep : s.markCancelled run = some s') : Turn parse hexdigest s s' := by
  unfold markCancelled at hstep
  split at hstep
  · rename_i hprove
    split at hstep
    · cases hstep
      exact .same hinv rfl rfl
    · rename_i row hrow
      cases hstep
      have hpending := hok row hprove hrow
      exact .write hinv hrow (sound_mark (hinv.pending run row hrow hpending) id) (Or.inl hpending)
        (fun _ _ h => runs_setRun h) rfl
  · cases hstep

/-- An event is added to a row whatever its status. -/
theorem event_turn {stage : PyStr} (hinv : s.Inv parse hexdigest)
    (hstep : s.event run stage = some s') : Turn parse hexdigest s s' := by
  unfold event at hstep
  split at hstep
  · split at hstep
    · cases hstep
    · rename_i row hrow
      cases hstep
      have hsound : Sound parse hexdigest row := ⟨hinv.rows run row hrow, hinv.pending run row hrow⟩
      exact .write hinv hrow (sound_event hsound id) (Or.inr rfl) (fun _ _ h => runs_setRun h) rfl
  · cases hstep

/-- The steps that only move a request or a thread. -/
theorem quiet_turn {action : Action} (hinv : s.Inv parse hexdigest)
    (hstep : s.step parse hexdigest action = some s')
    (hquiet : match action with
      | .load _ _ | .leave _ | .spawn _ | .loadRun _ | .finish _ | .fail _ | .cancel _ | .crash => True
      | _ => False) : Turn parse hexdigest s s' := by
  cases action <;> simp only at hquiet
  case leave w =>
    cases hstep
    exact .same hinv rfl rfl
  case crash =>
    cases hstep
    exact .same hinv rfl rfl
  all_goals
    simp only [step, load, loadRun, fail] at hstep
    repeat' split at hstep
    all_goals first
      | cases hstep
        done
      | obtain rfl := Option.some.inj hstep
        exact .same hinv rfl rfl

theorem step_turn {action : Action} (hinv : s.Inv parse hexdigest) (hok : s.Admits parse action)
    (hstep : s.step parse hexdigest action = some s') : Turn parse hexdigest s s' := by
  cases action with
  | createRun repo baseSha headSha =>
    cases hstep
    exact create_turn hinv (sound_created repo baseSha headSha)
  | localProve repo baseSha headSha =>
    cases hstep
    have hturn := create_turn hinv (sound_created repo baseSha headSha)
    exact ⟨hturn.rows, hturn.next, hturn.free⟩
  | importBundle data victims => exact importBundle_turn hinv hstep
  | upload w data victims => exact upload_turn hinv hok hstep
  | ingestRun run data victims => exact ingestRun_turn hinv hok hstep
  | markError run => exact markError_turn hinv hok hstep
  | markCancelled run => exact markCancelled_turn hinv hok hstep
  | event run stage => exact event_turn hinv hstep
  | load _ _ | leave _ | spawn _ | loadRun _ | finish _ | fail _ | cancel _ | crash =>
    exact quiet_turn hinv hstep trivial

theorem inv_empty : empty.Inv parse hexdigest where
  rows run row h := by cases h
  pending run row h := by cases h
  free _ _ := rfl

structure Later (s s' : World) : Prop where
  final : s.Final s'
  terminal : ∀ run row, s.runs run = some row → row.status ≠ .pending →
    ∀ row', s'.runs run = some row' → row'.status ≠ .pending
  gone : ∀ run, run < s.next → s.runs run = none → s'.runs run = none
  next : s.next ≤ s'.next

theorem later_refl : s.Later s where
  final run row h _ row' h' := by
    rw [h] at h'
    rw [Option.some.inj h']
  terminal run row h hrow row' h' := by
    rw [h] at h'
    exact Option.some.inj h' ▸ hrow
  gone run _ h := h
  next := le_rfl

theorem later_of_turn {s₁ : World} (hlater : s.Later s₁) (hinv : s.Inv parse hexdigest)
    (hturn : Turn parse hexdigest s₁ s') : s.Later s' := by
  -- a row that is there after the step and whose id was given away was there before
  have hback : ∀ run, run < s₁.next → ∀ row', s'.runs run = some row' → ∃ row₁,
      s₁.runs run = some row₁ ∧ (row₁.status = .pending ∨ row'.result = row₁.result) := by
    intro run hrun row' h'
    rcases hturn.rows run row' h' with hold | ⟨-, hnew | hwritten⟩
    · exact ⟨row', hold, Or.inr rfl⟩
    · omega
    · exact hwritten
  have hgiven : ∀ run row, s.runs run = some row → run < s₁.next := by
    intro run row hrow
    by_contra hnot
    have hfree := hinv.free run (hlater.next.trans (not_lt.1 hnot))
    rw [hrow] at hfree
    cases hfree
  have hresult : ∀ run row, s.runs run = some row → row.status ≠ .pending → ∀ row',
      s'.runs run = some row' → row'.result = row.result := by
    intro run row hrow hstatus row' h'
    obtain ⟨row₁, h₁, hpending | hsame⟩ := hback run (hgiven run row hrow) row' h'
    · exact absurd hpending (hlater.terminal run row hrow hstatus row₁ h₁)
    · exact hsame.trans (hlater.final run row hrow hstatus row₁ h₁)
  constructor
  case final => exact hresult
  case terminal =>
    intro run row hrow hstatus row' h' hpending
    have hsame := congrArg Prod.fst (hresult run row hrow hstatus row' h')
    exact hstatus (hsame.symm.trans hpending)
  case gone =>
    intro run hrun hnone
    cases h' : s'.runs run with
    | none => rfl
    | some row' =>
      obtain ⟨row₁, h₁, -⟩ := hback run (by have := hlater.next; omega) row' h'
      rw [hlater.gone run hrun hnone] at h₁
      cases h₁
  case next => exact hlater.next.trans hturn.next

end Finished

end World

/-- Whatever the order of proves, uploads, imports and cancellations and whatever fails: a row is of one
bundle, and a terminal one keeps its status, its verdict and its digest. -/
theorem finished_is_final {parse : Bytes → Option Upload.RunBundle} {hexdigest : Bytes → PyStr}
    {s : World} (h : Reachable (World.step parse hexdigest) (World.Admits parse) (· = World.empty) s) :
    (∀ run row, s.runs run = some row → SingleSourced parse hexdigest row) ∧
      ∀ s', Reachable (World.step parse hexdigest) (World.Admits parse) (· = s) s' → s.Final s' := by
  have hinv : s.Inv parse hexdigest := h.invariant (fun _ hstart => hstart ▸ World.inv_empty)
    fun _ _ _ hinv hok hstep => World.inv_of_turn hinv (World.step_turn hinv hok hstep)
  refine ⟨hinv.rows, fun s' h' => ?_⟩
  have hstart : ∀ t, t = s → t.Inv parse hexdigest ∧ s.Later t := by
    rintro t rfl
    exact ⟨hinv, World.later_refl⟩
  have hstep : ∀ (t : World) a t', t.Inv parse hexdigest ∧ s.Later t → t.Admits parse a →
      t.step parse hexdigest a = some t' → t'.Inv parse hexdigest ∧ s.Later t' := by
    rintro t a t' ⟨htinv, hlater⟩ hok hts
    have hturn := World.step_turn htinv hok hts
    exact ⟨World.inv_of_turn htinv hturn, World.later_of_turn hlater hinv hturn⟩
  exact (h'.invariant hstart hstep).2.final

/-! ## Two bundles of a run -/

/-- A manifest for the revisions `aaaa` and `bbbb` of `shop`. -/
def shopManifest : RunManifest where
  schemaVersion := 3
  engineVersion := lit "1"
  repo := lit "shop"
  baseSha := lit "aaaa"
  headSha := lit "bbbb"
  createdAt := lit "2026-01-01"
  verdict := .unproven
  baseDeps := []
  headDeps := []
  budgetMaxInputs := 8
  sandboxTier := lit "unknown"
  sandboxAssurance := lit "unknown"

def shopTarget : Upload.TargetRecord where
  filePath := lit "shop.py"
  module := lit "shop"
  qualname := lit "total"
  lang := .python
  classification := .unreachable
  verdict := .unproven
  reasonCode := some .targetUnreachable
  reasonDetail := .null
  inputsRun := 0
  equivalentInputs := 0
  unprovableInputs := 0
  changedLineCoverage := .finite false 0 0
  divergences := []

/-- What two archives hold: one has a target, the other has none. -/
def shopBundle (data : Bytes) : Option Upload.RunBundle :=
  if data = [0x50] then some ⟨shopManifest, [shopTarget], .empty⟩
  else if data = [0x51] then some ⟨shopManifest, [], .empty⟩
  else none

def shopDigest (data : Bytes) : PyStr :=
  if data = [0x50] then lit "5c62e091b8c0565f1bafad0dad5934276143ae2ccef7a5381e8ada5b1a8d26d2"
  else if data = [0x51] then
    lit "4ae81572f06e1b88fd5ced7a1a000945432e83e1551e6f721ee9c00b8cc33260"
  else []

def provedRun : List Action :=
  [.localProve (lit "shop") (lit "aaaa") (lit "bbbb"), .spawn 0, .event 0 (lit "proving"), .loadRun 0]

theorem finished_is_final_proved :
    ∃ s : World, (s.runs 0).map Run.result = some (.complete, some .unproven, some (shopDigest [0x50])) ∧
      (∀ run row, s.runs run = some row → SingleSourced shopBundle shopDigest row) ∧
      ∀ s', Reachable (World.step shopBundle shopDigest) (World.Admits shopBundle) (· = s) s' →
        s.Final s' := by
  have hempty : Reachable (World.step shopBundle shopDigest) (World.Admits shopBundle) (· = World.empty)
      World.empty := .start rfl
  have hloaded := hempty.of_always provedRun (by simp [provedRun, World.Admits]) rfl
  have hdone := hloaded.step (a := .ingestRun 0 [0x50] []) (by
    rintro seen - bundle row - - hrow
    cases hrow
    exact Or.inl rfl) rfl
  exact ⟨_, rfl, finished_is_final hdone⟩

/-- The ingestion is committed, and the record of the aggregate raises. -/
theorem marked_after_commit :
    ∃ s s' : World, Reachable (World.step shopBundle shopDigest) (fun _ _ => True) (· = World.empty) s ∧
      Reachable (World.step shopBundle shopDigest) (fun _ _ => True) (· = s) s' ∧ ¬ s.Final s' := by
  have hempty : Reachable (World.step shopBundle shopDigest) (fun _ _ => True) (· = World.empty)
      World.empty := .start rfl
  have hdone := hempty.of_always (provedRun ++ [.ingestRun 0 [0x50] []]) (fun _ _ _ => trivial) rfl
  have hmarked : ∀ {s s' : World},
      [Action.fail 0, .markError 0].foldlM (World.step shopBundle shopDigest) s = some s' →
        Reachable (World.step shopBundle shopDigest) (fun _ _ => True) (· = s) s' := by
    intro s s' hrun
    have hs : Reachable (World.step shopBundle shopDigest) (fun _ _ => True) (· = s) s := .start rfl
    exact hs.of_always _ (fun _ _ _ => trivial) hrun
  refine ⟨_, _, hdone, hmarked rfl, fun hfinal => ?_⟩
  have hsame := hfinal 0 _ rfl (by decide) _ rfl
  exact absurd (congrArg (fun result => result.2.1) hsame) (by decide)

/-- Two uploads read the pending run, and the one without targets is committed last. -/
def mixedRun : List Action :=
  [.createRun (lit "shop") (lit "aaaa") (lit "bbbb"), .load 0 0, .load 1 0, .upload 0 [0x50] [],
    .upload 1 [0x51] []]

theorem mixed_sources :
    ∃ (s : World) (row : Run),
      Reachable (World.step shopBundle shopDigest) (fun _ _ => True) (· = World.empty) s ∧
      s.runs 0 = some row ∧ ¬ SingleSourced shopBundle shopDigest row := by
  obtain ⟨s, hs, htest⟩ := Reachable.exists_of_foldlM mixedRun
    (fun s => (s.runs 0).any fun row =>
      row.bundleDigest = some (shopDigest [0x51]) ∧ row.targets.length = 1)
    (.start rfl : Reachable (World.step shopBundle shopDigest) (fun _ _ => True) (· = World.empty)
      World.empty)
    (by decide)
  rw [Option.any_eq_true] at htest
  obtain ⟨row, hrow, htest⟩ := htest
  obtain ⟨hdigest, hlength⟩ := of_decide_eq_true htest
  refine ⟨s, row, hs, hrow, fun hsource => ?_⟩
  rcases hsource with hblank | ⟨data, bundle, h⟩
  · rw [hblank.digest] at hdigest
    cases hdigest
  · have hparsed := h.parsed
    have hsame : shopDigest data = shopDigest [0x51] := by
      rw [h.digest] at hdigest
      exact Option.some.inj hdigest
    unfold shopBundle at hparsed
    split at hparsed
    · -- the archive with the target has another digest
      rename_i hdata
      rw [hdata] at hsame
      exact absurd hsame (by decide)
    · split at hparsed
      · cases hparsed
        rw [h.targets] at hlength
        exact absurd hlength (by decide)
      · cases hparsed

/-- A committed verdict is replaced, and a row has the digest of one bundle and the targets of
another. -/
theorem finished_and_changed :
    (∃ s s' : World, Reachable (World.step shopBundle shopDigest) (fun _ _ => True) (· = World.empty) s ∧
      Reachable (World.step shopBundle shopDigest) (fun _ _ => True) (· = s) s' ∧ ¬ s.Final s') ∧
    ∃ (s : World) (row : Run),
      Reachable (World.step shopBundle shopDigest) (fun _ _ => True) (· = World.empty) s ∧
      s.runs 0 = some row ∧ ¬ SingleSourced shopBundle shopDigest row :=
  ⟨marked_after_commit, mixed_sources⟩

end Runs
end Tempest
