import Mathlib.Data.Finset.Lattice.Lemmas

/-!
# LocalStore — opening the SQLite store of the desktop (`db/local_store.py`)

A statement that changes the schema is committed by itself, unless a statement that changes rows has
opened a transaction before; what is in a transaction is kept when `prepare_local_store` has come to
its end.  An interruption is the death of the process or a statement that fails, which leave the file
alike.

`openStore_keeps` says what no open loses, and `openStore_iff` which interruptions leave the file as it
is.
-/

namespace Tempest
namespace LocalStore

/-! ## The schema -/

/-- What `sqlite_master` lists, and the columns of the tables.  The adjuncts are those of the search. -/
inductive Obj where
  | table (name : String)
  | column (table name : String)
  | index (table name : String)
  | adjunct (name : String)
  deriving DecidableEq

structure Table where
  name : String
  columns : List String
  indexes : List String

def Table.objects (t : Table) : List Obj :=
  .table t.name :: (t.columns.map (.column t.name) ++ t.indexes.map (.index t.name))

/-- `Base.metadata`, in the order of `create_all`. -/
def metadata : List Table :=
  [⟨"api_tokens", ["id", "name", "token_hash", "created_at", "expires_at", "last_used_at", "revoked_at"], []⟩,
    ⟨"repos", ["id", "name", "created_at"], []⟩,
    ⟨"runs", ["id", "repo_id", "base_sha", "head_sha", "status", "verdict", "schema_version",
      "engine_version", "bundle_created_at", "base_deps", "head_deps", "budget_max_inputs",
      "sandbox_tier", "sandbox_assurance", "bundle_digest", "idempotency_key", "created_at"],
      ["ix_runs_repo_id", "ix_runs_status", "ix_runs_verdict"]⟩,
    ⟨"run_events", ["id", "run_id", "seq", "event_type", "payload", "created_at"],
      ["ix_run_events_run_id"]⟩,
    ⟨"targets", ["id", "run_id", "position", "file_path", "module", "qualname", "lang",
      "classification", "verdict", "reason_code", "reason_detail", "inputs_run", "equivalent_inputs",
      "unprovable_inputs", "changed_line_coverage"], ["ix_targets_run_id"]⟩,
    ⟨"cassettes", ["id", "run_id", "target_id", "filename", "fingerprint", "ledger", "created_at"],
      ["ix_cassettes_run_id", "ix_cassettes_target_id"]⟩,
    ⟨"divergences", ["id", "target_id", "position", "divergence_class", "severity", "detail",
      "args_literal", "kwargs_literal", "minimized_args", "minimized_kwargs", "shrink_path",
      "base_summary", "head_summary", "repro_filename", "repro_script", "ai_narrative"],
      ["ix_divergences_target_id"]⟩]

def revisionChain : List String := ["0001", "0002", "0003", "0004", "0005"]

def headRevision : String := "0005"

/-- `_FORWARD_STEPS`: the columns that a step adds. -/
def forwardSteps : List (String × List (String × String)) :=
  [("0001", [("runs", "sandbox_tier"), ("runs", "sandbox_assurance")]),
    ("0002", [("runs", "bundle_digest")]),
    ("0003", []),
    ("0004", [("divergences", "ai_narrative")])]

def additive : List (String × String) := forwardSteps.flatMap Prod.snd

def stepsFrom (revision : String) : List (String × String) :=
  (forwardSteps.dropWhile fun step => step.1 ≠ revision).flatMap Prod.snd

def versionTable : Obj := .table "alembic_version"

def ftsTable : Obj := .adjunct "divergences_fts"

/-- `_FTS_DDL`. -/
def ftsObjects : List Obj := [ftsTable, .adjunct "divergences_fts_ai", .adjunct "divergences_fts_ad"]

/-! ## The file -/

/-- A store: the one row of `alembic_version`, the rows of the other tables, and how many divergences
the search has indexed. -/
structure Store (ρ : Type) where
  objects : Finset Obj
  stamp : Option String
  rows : String → List ρ
  indexed : Nat

inductive Statement where
  | addColumn (table column : String)
  | createTable (t : Table)
  | createIndex (table name : String)
  | createVersionTable
  | insertStamp
  | updateStamp
  | createAdjunct (obj : Obj)
  | rebuild

inductive SqlError where
  | noSuchTable (table : String)
  | duplicateColumn (column : String)
  | alreadyExists (name : String)
  deriving DecidableEq

def Statement.isDml : Statement → Bool
  | .insertStamp | .updateStamp | .rebuild => true
  | .addColumn _ _ | .createTable _ | .createIndex _ _ | .createVersionTable | .createAdjunct _ => false

variable {ρ : Type}

def Store.has (s : Store ρ) (table : String) : Bool := decide (.table table ∈ s.objects)

def Store.add (s : Store ρ) (objects : List Obj) : Store ρ :=
  { s with objects := s.objects ∪ objects.toFinset }

def Statement.apply (s : Store ρ) : Statement → Except SqlError (Store ρ)
  | .addColumn table column =>
    if s.has table = false then .error (.noSuchTable table)
    else if .column table column ∈ s.objects then .error (.duplicateColumn column)
    else .ok (s.add [.column table column])
  | .createTable t =>
    if s.has t.name then .error (.alreadyExists t.name)
    else .ok (s.add (.table t.name :: t.columns.map (.column t.name)))
  | .createIndex table name =>
    if s.has table = false then .error (.noSuchTable table)
    else if .index table name ∈ s.objects then .error (.alreadyExists name)
    else .ok (s.add [.index table name])
  | .createVersionTable => .ok (s.add [versionTable])
  | .insertStamp | .updateStamp =>
    if versionTable ∈ s.objects then .ok { s with stamp := some headRevision }
    else .error (.noSuchTable "alembic_version")
  | .createAdjunct obj =>
    if obj ∈ s.objects then .ok s
    else if s.has "divergences" = false then .error (.noSuchTable "divergences")
    else if obj = ftsTable then .ok { s.add [obj] with indexed := 0 }
    else .ok (s.add [obj])
  | .rebuild => .ok { s with indexed := (s.rows "divergences").length }

/-! ## The connection -/

inductive StoreError where
  | sql (e : SqlError)
  /-- `NewerDatabaseError`. -/
  | newer (stamp : String)
  /-- `DamagedDatabaseError`, with what is missing. -/
  | damaged (missing : List String)
  deriving DecidableEq

inductive Halt where
  | interrupted
  | raised (e : StoreError)
  deriving DecidableEq

/-- The file, what the connection sees of it, whether a transaction is open, and how many statements are
executed before the interruption, if there is one. -/
structure Conn (ρ : Type) where
  disk : Store ρ
  live : Store ρ
  within : Bool
  left : Option Nat

/-- A part of `prepare_local_store`. -/
abbrev Script (ρ : Type) := Conn ρ → Except Halt Unit × Conn ρ

namespace Script

def done : Script ρ := fun c => (.ok (), c)

def raise (e : StoreError) : Script ρ := fun c => (.error (.raised e), c)

def andThen (p q : Script ρ) : Script ρ := fun c =>
  match p c with
  | (.ok (), c) => q c
  | (.error halt, c) => (.error halt, c)

def look (f : Store ρ → Script ρ) : Script ρ := fun c => f c.live c

def all {α : Type} (f : α → Script ρ) : List α → Script ρ
  | [] => done
  | a :: as => (f a).andThen (all f as)

end Script

open Script

def Conn.write (c : Conn ρ) (st : Statement) (s : Store ρ) : Conn ρ :=
  { disk := if c.within || st.isDml then c.disk else s
    live := s
    within := c.within || st.isDml
    left := c.left.map (· - 1) }

def exec (st : Statement) : Script ρ := fun c =>
  if c.left = some 0 then (.error .interrupted, c)
  else
    match st.apply c.live with
    | .ok s => (.ok (), c.write st s)
    | .error e => (.error (.raised (.sql e)), { c with left := c.left.map (· - 1) })

def execSkipping (st : Statement) : Script ρ := fun c =>
  match exec st c with
  | (.error (.raised (.sql (.duplicateColumn _))), c) => (.ok (), c)
  | outcome => outcome

def commit : Script ρ := fun c =>
  if c.left.isSome then (.error .interrupted, c)
  else (.ok (), { c with disk := c.live, within := false })

/-! ## Opening -/

def readStamp (s : Store ρ) : Option String := if versionTable ∈ s.objects then s.stamp else none

def missingColumns (s : Store ρ) : List String :=
  metadata.flatMap fun t =>
    if s.has t.name = false then [t.name ++ " (entire table)"]
    else (t.columns.filter fun c => Obj.column t.name c ∉ s.objects).map fun c => t.name ++ "." ++ c

def addColumns (columns : List (String × String)) : List Statement :=
  columns.map fun column => .addColumn column.1 column.2

def runForwardStepsIdempotently : Script ρ := all execSkipping (addColumns additive)

/-- What `create_all` issues: the tables that are not there, each with its indexes. -/
def createStatements (s : Store ρ) : List Statement :=
  (metadata.filter fun t => s.has t.name = false).flatMap fun t =>
    .createTable t :: t.indexes.map (.createIndex t.name)

def createAll : Script ρ := look fun s => all exec (createStatements s)

def verifyAndRepair : Script ρ := look fun s =>
  if missingColumns s = [] then done
  else runForwardStepsIdempotently.andThen (createAll.andThen (look fun s =>
    if missingColumns s = [] then done else raise (.damaged (missingColumns s))))

def prepare : Script ρ := look fun s =>
  match readStamp s with
  | none =>
    (if s.has "runs" then runForwardStepsIdempotently else done).andThen
      (createAll.andThen ((exec .createVersionTable).andThen (exec .insertStamp)))
  | some stamp =>
    if stamp = headRevision then verifyAndRepair
    else if stamp ∉ revisionChain then raise (.newer stamp)
    else (all exec (addColumns (stepsFrom stamp))).andThen ((exec .updateStamp).andThen verifyAndRepair)

def ensureFts : Script ρ :=
  (all exec (ftsObjects.map .createAdjunct)).andThen (look fun s =>
    if s.indexed = (s.rows "divergences").length then done else exec .rebuild)

def checkNotNewer : Script ρ := look fun s =>
  match readStamp s with
  | none => done
  | some stamp => if stamp ∈ revisionChain then done else raise (.newer stamp)

def prepareLocalStore : Script ρ :=
  checkNotNewer.andThen (prepare.andThen (ensureFts.andThen commit))

/-- An open of the file: how it ends, and what it leaves.  The fate is the number of statements before
the interruption. -/
def openStore (s : Store ρ) (fate : Option Nat) : Except Halt Unit × Store ρ :=
  let outcome := prepareLocalStore { disk := s, live := s, within := false, left := fate }
  (outcome.1, outcome.2.disk)

/-! ## What an open promises -/

def headObjects : Finset Obj :=
  (metadata.flatMap Table.objects ++ versionTable :: ftsObjects).toFinset

/-- Left by a released revision: nothing but what the models have, under a known stamp or none. -/
structure Released (s : Store ρ) : Prop where
  known : s.objects ⊆ headObjects
  column : ∀ t c, Obj.column t c ∈ s.objects → s.has t = true
  index : ∀ t i, Obj.index t i ∈ s.objects → s.has t = true
  stamp : ∀ revision, readStamp s = some revision → revision ∈ revisionChain

/-- The store is as the models say, and says so. -/
structure Current (s : Store ρ) : Prop where
  objects : s.objects = headObjects
  stamp : s.stamp = some headRevision

def Finishes (s : Store ρ) (fate : Option Nat) : Prop :=
  (openStore s fate).1 = .ok () ∧ Current (openStore s fate).2 ∧ (openStore s fate).2.rows = s.rows

def Atomic (s : Store ρ) (fate : Option Nat) : Prop :=
  Finishes s fate ∨
    (openStore s fate).1 ≠ .ok () ∧ (openStore s fate).2.objects = s.objects ∧
      (openStore s fate).2.stamp = s.stamp ∧ (openStore s fate).2.rows = s.rows

def Migrates (s : Store ρ) : List (Option Nat) → Prop
  | [] => Finishes s none
  | fate :: fates => Atomic s fate ∧ Migrates (openStore s fate).2 fates

/-! ## The condition -/

/-- The steps have what they need, and there is nothing to do that none of them does. -/
structure Upgradable (s : Store ρ) : Prop where
  plain : ∀ t ∈ metadata, s.has t.name = true → ∀ c ∈ t.columns, (t.name, c) ∉ additive →
    .column t.name c ∈ s.objects
  indexed : ∀ t ∈ metadata, s.has t.name = true → ∀ i ∈ t.indexes, .index t.name i ∈ s.objects
  /-- Without a stamp, a store with `runs` has `divergences`, and one without `runs` lacks no column
  that a step adds. -/
  adopted : readStamp s = none →
    if s.has "runs" = true then s.has "divergences" = true
    else ∀ column ∈ additive, s.has column.1 = true → .column column.1 column.2 ∈ s.objects
  steps : ∀ revision, readStamp s = some revision → ∀ column ∈ stepsFrom revision,
    s.has column.1 = true ∧ .column column.1 column.2 ∉ s.objects
  verified : ∀ revision, readStamp s = some revision →
    s.has "runs" = true ∧ s.has "divergences" = true

def agenda (s : Store ρ) : List Statement :=
  match readStamp s with
  | none =>
    (if s.has "runs" then addColumns additive else []) ++ (createStatements s ++ [.createVersionTable])
  | some stamp =>
    if stamp = headRevision then
      (if missingColumns s = [] then [] else addColumns additive ++ createStatements s) ++
        ftsObjects.map .createAdjunct
    else addColumns (stepsFrom stamp)

def Adds (s : Store ρ) (st : Statement) : Prop := ∃ s', st.apply s = .ok s' ∧ s'.objects ≠ s.objects

/-- An interruption before anything was committed. -/
def Harmless (s : Store ρ) (n : Nat) : Prop := ∀ st ∈ (agenda s).take n, ¬Adds s st

/-! ## What is there stays -/

@[simp] theorem Store.add_objects (s : Store ρ) (objects : List Obj) :
    (s.add objects).objects = s.objects ∪ objects.toFinset := rfl

theorem apply_keeps {s s' : Store ρ} {st : Statement} (h : st.apply s = .ok s') :
    s.objects ⊆ s'.objects ∧ s'.rows = s.rows := by
  have hadd : ∀ objects, s.objects ⊆ (s.add objects).objects := fun _ => Finset.subset_union_left
  cases st with
  | addColumn _ _ | createTable _ | createIndex _ _ =>
    simp only [Statement.apply] at h
    split_ifs at h
    exact Except.ok.inj h ▸ ⟨hadd _, rfl⟩
  | createVersionTable => exact Except.ok.inj h ▸ ⟨hadd _, rfl⟩
  | insertStamp | updateStamp =>
    simp only [Statement.apply] at h
    split_ifs at h
    exact Except.ok.inj h ▸ ⟨Finset.Subset.refl _, rfl⟩
  | createAdjunct obj =>
    simp only [Statement.apply] at h
    split_ifs at h
    · exact Except.ok.inj h ▸ ⟨Finset.Subset.refl _, rfl⟩
    · exact Except.ok.inj h ▸ ⟨hadd _, rfl⟩
    · exact Except.ok.inj h ▸ ⟨hadd _, rfl⟩
  | rebuild => exact Except.ok.inj h ▸ ⟨Finset.Subset.refl _, rfl⟩

/-- The script keeps what holds of the connection, however it ends. -/
def Preserves (I : Conn ρ → Prop) (p : Script ρ) : Prop := ∀ c, I c → I (p c).2

namespace Preserves

variable {I : Conn ρ → Prop} {p q : Script ρ}

theorem done : Preserves I done := fun _ h => h

theorem raise (e : StoreError) : Preserves I (raise e) := fun _ h => h

theorem andThen (hp : Preserves I p) (hq : Preserves I q) : Preserves I (p.andThen q) := by
  intro c h
  have hmiddle := hp c h
  unfold Script.andThen
  cases hrun : p c with
  | mk outcome c' =>
    rw [hrun] at hmiddle
    cases outcome with
    | ok => exact hq c' hmiddle
    | error halt => exact hmiddle

theorem look {f : Store ρ → Script ρ} (h : ∀ s, Preserves I (f s)) : Preserves I (look f) :=
  fun c hc => h c.live c hc

theorem all {α : Type} {f : α → Script ρ} (h : ∀ a, Preserves I (f a)) (as : List α) :
    Preserves I (all f as) := by
  induction as with
  | nil => exact done
  | cons a as ih => exact (h a).andThen ih

variable (hexec : ∀ st, Preserves I (exec st))

include hexec

theorem execSkipping (st : Statement) : Preserves I (execSkipping st) := by
  intro c h
  have hrun := hexec st c h
  unfold LocalStore.execSkipping
  split
  case h_1 c' heq => rwa [heq] at hrun
  case h_2 => exact hrun

theorem forward : Preserves I runForwardStepsIdempotently := all (execSkipping hexec) _

theorem createAll : Preserves I createAll := look fun _ => all hexec _

theorem verifyAndRepair : Preserves I verifyAndRepair := by
  refine look fun s => ?_
  split
  case isTrue => exact done
  case isFalse =>
    refine (forward hexec).andThen ((createAll hexec).andThen (look fun s => ?_))
    split
    · exact done
    · exact raise _

theorem prepare : Preserves I prepare := by
  refine look fun s => ?_
  split
  case h_1 =>
    refine andThen ?_ ((createAll hexec).andThen ((hexec _).andThen (hexec _)))
    split
    · exact forward hexec
    · exact done
  case h_2 =>
    split
    · exact verifyAndRepair hexec
    split
    · exact raise _
    · exact (all hexec _).andThen ((hexec _).andThen (verifyAndRepair hexec))

theorem ensureFts : Preserves I ensureFts := by
  refine (all hexec _).andThen (look fun s => ?_)
  split
  · exact done
  · exact hexec _

theorem prepareLocalStore (hcommit : Preserves I commit) : Preserves I prepareLocalStore := by
  refine andThen (look fun s => ?_) ((prepare hexec).andThen ((ensureFts hexec).andThen hcommit))
  split
  · exact done
  · split
    · exact done
    · exact raise _

end Preserves

structure Above (b : Store ρ) (c : Conn ρ) : Prop where
  disk : b.objects ⊆ c.disk.objects
  live : b.objects ⊆ c.live.objects
  diskRows : c.disk.rows = b.rows
  liveRows : c.live.rows = b.rows

theorem above_exec (b : Store ρ) (st : Statement) : Preserves (Above b) (exec st) := by
  intro c h
  unfold exec
  split
  case isTrue => exact h
  case isFalse =>
    cases hrun : st.apply c.live with
    | error e => exact ⟨h.disk, h.live, h.diskRows, h.liveRows⟩
    | ok s =>
      obtain ⟨hobjects, hrows⟩ := apply_keeps hrun
      have hlive : b.objects ⊆ s.objects := h.live.trans hobjects
      have hliveRows : s.rows = b.rows := hrows.trans h.liveRows
      simp only [Conn.write]
      constructor
      case disk => split; exacts [h.disk, hlive]
      case live => exact hlive
      case diskRows => split; exacts [h.diskRows, hliveRows]
      case liveRows => exact hliveRows

theorem above_commit (b : Store ρ) : Preserves (Above b) commit := by
  intro c h
  unfold commit
  split
  case isTrue => exact h
  case isFalse => exact ⟨h.live, h.live, h.liveRows, h.liveRows⟩

theorem openStore_keeps (s : Store ρ) (fate : Option Nat) :
    s.objects ⊆ (openStore s fate).2.objects ∧ (openStore s fate).2.rows = s.rows := by
  have h := Preserves.prepareLocalStore (above_exec s) (above_commit s) ⟨s, s, false, fate⟩
    ⟨Finset.Subset.refl _, Finset.Subset.refl _, rfl, rfl⟩
  exact ⟨h.disk, h.diskRows⟩

/-- A transaction is open that will not come to its end. -/
structure Pending (disk : Store ρ) (c : Conn ρ) : Prop where
  within : c.within = true
  left : c.left.isSome = true
  disk : c.disk = disk

theorem pending_exec (d : Store ρ) (st : Statement) : Preserves (Pending d) (exec st) := by
  intro c h
  have hleft : (c.left.map (· - 1)).isSome = true := by rw [Option.isSome_map, h.left]
  unfold exec
  split
  case isTrue => exact h
  case isFalse =>
    cases st.apply c.live with
    | error e => exact ⟨h.within, hleft, h.disk⟩
    | ok s => exact ⟨by simp [Conn.write, h.within], hleft, by simp [Conn.write, h.within, h.disk]⟩

theorem pending_commit (d : Store ρ) : Preserves (Pending d) commit := by
  intro c h
  unfold commit
  rw [if_pos h.left]
  exact h

/-! ## Scripts in a row -/

section Rows

variable {p q r : Script ρ} {c c' : Conn ρ} {halt : Halt}

theorem andThen_ok (h : p c = (.ok (), c')) : (p.andThen q) c = q c' := by
  simp only [Script.andThen, h]

theorem andThen_error (h : p c = (.error halt, c')) : (p.andThen q) c = (.error halt, c') := by
  simp only [Script.andThen, h]

theorem andThen_assoc : (p.andThen q).andThen r = p.andThen (q.andThen r) := by
  funext c
  cases hrun : p c with
  | mk outcome c' =>
    cases outcome with
    | ok => rw [andThen_ok hrun, Script.andThen, andThen_ok hrun, Script.andThen]
    | error halt => rw [andThen_error hrun, andThen_error (andThen_error hrun)]

theorem done_andThen : done.andThen q = q := rfl

end Rows

/-! ## Up to the interruption -/

/-- Nothing was done yet, and so many statements are left. -/
def fresh (s : Store ρ) (n : Nat) : Conn ρ := ⟨s, s, false, some n⟩

structure Smooth (f : Statement → Script ρ) (s : Store ρ) (st : Statement) : Prop where
  stop : f st (fresh s 0) = (.error .interrupted, fresh s 0)
  pass : ¬Adds s st → ∀ n, f st (fresh s (n + 1)) = (.ok (), fresh s n)
  add : Adds s st → ∃ s', s'.objects ≠ s.objects ∧ s.objects ⊆ s'.objects ∧
    ∀ n, f st (fresh s (n + 1)) = (.ok (), fresh s' n)

/-- So is every statement up to the first that is committed. -/
def SmoothUntil (f : Statement → Script ρ) (s : Store ρ) : List Statement → Prop
  | [] => True
  | st :: sts => Smooth f s st ∧ (¬Adds s st → SmoothUntil f s sts)

theorem SmoothUntil.of_forall {f : Statement → Script ρ} {s : Store ρ} :
    ∀ {sts : List Statement}, (∀ st ∈ sts, Smooth f s st) → SmoothUntil f s sts
  | [], _ => trivial
  | _ :: _, h => ⟨(List.forall_mem_cons.mp h).1, fun _ => .of_forall (List.forall_mem_cons.mp h).2⟩

section Phase

variable {f : Statement → Script ρ} {s : Store ρ} {q : Script ρ}

/-- Statements that add nothing are passed over. -/
theorem phase_pass {sts : List Statement} (hsts : SmoothUntil f s sts) {n : Nat}
    (hnone : ∀ st ∈ sts.take n, ¬Adds s st) :
    ((all f sts).andThen q) (fresh s n) =
      if n < sts.length then (.error .interrupted, fresh s 0) else q (fresh s (n - sts.length)) := by
  induction sts generalizing n with
  | nil => rfl
  | cons st sts ih =>
    obtain ⟨hst, hrest⟩ := hsts
    rw [all, andThen_assoc]
    cases n with
    | zero => exact andThen_error hst.stop
    | succ n =>
      rw [List.take_succ_cons, List.forall_mem_cons] at hnone
      rw [andThen_ok (hst.pass hnone.1 n), ih (hrest hnone.1) hnone.2]
      simp only [List.length_cons, Nat.add_lt_add_iff_right, Nat.add_sub_add_right]

theorem phase_none (hf : ∀ b st, Preserves (Above b) (f st)) (hq : ∀ b, Preserves (Above b) q)
    {sts : List Statement} (hsts : SmoothUntil f s sts) {n : Nat}
    (hsame : (((all f sts).andThen q) (fresh s n)).2.disk.objects = s.objects) :
    ∀ st ∈ sts.take n, ¬Adds s st := by
  induction sts generalizing n with
  | nil => simp
  | cons st sts ih =>
    obtain ⟨hst, hrest⟩ := hsts
    rw [all, andThen_assoc] at hsame
    cases n with
    | zero => simp
    | succ n =>
      have hnone : ¬Adds s st := by
        intro hadds
        obtain ⟨s', hne, hsub, hrun⟩ := hst.add hadds
        rw [andThen_ok (hrun n)] at hsame
        have habove : Above s' (((all f sts).andThen q) (fresh s' n)).2 :=
          Preserves.andThen (.all (hf s') sts) (hq s') _
            ⟨Finset.Subset.refl _, Finset.Subset.refl _, rfl, rfl⟩
        exact hne (Finset.Subset.antisymm (hsame ▸ habove.disk) hsub)
      rw [andThen_ok (hst.pass hnone n)] at hsame
      rw [List.take_succ_cons]
      exact List.forall_mem_cons.mpr ⟨hnone, ih (hrest hnone) hsame⟩

/-- A phase leaves the file as it is, in some sense `K`, exactly when nothing is added in it and the
rest does. -/
theorem phase_iff {K : Store ρ → Prop} (hself : K s) (hK : ∀ d, K d → d.objects = s.objects)
    (hf : ∀ b st, Preserves (Above b) (f st)) (hq : ∀ b, Preserves (Above b) q)
    {sts : List Statement} (hsts : SmoothUntil f s sts) {n : Nat} {rest : Prop}
    (hrest : (∀ st ∈ sts, ¬Adds s st) → sts.length ≤ n →
      (K (q (fresh s (n - sts.length))).2.disk ↔ rest))
    (hshort : n < sts.length → rest) :
    K (((all f sts).andThen q) (fresh s n)).2.disk ↔ (∀ st ∈ sts.take n, ¬Adds s st) ∧ rest := by
  by_cases hnone : ∀ st ∈ sts.take n, ¬Adds s st
  · rw [phase_pass hsts hnone, and_iff_right hnone]
    by_cases hlt : n < sts.length
    · rw [if_pos hlt]
      exact iff_of_true hself (hshort hlt)
    · rw [if_neg hlt]
      have hle : sts.length ≤ n := Nat.le_of_not_lt hlt
      exact hrest (by rwa [List.take_of_length_le hle] at hnone) hle
  · exact iff_of_false (fun hsame => hnone (phase_none hf hq hsts (hK _ hsame))) fun h => hnone h.1

end Phase

theorem smooth_exec {s s' : Store ρ} {st : Statement} (hddl : st.isDml = false)
    (happly : st.apply s = .ok s') (hsame : s'.objects = s.objects → s' = s) : Smooth exec s st where
  stop := rfl
  pass := by
    intro hnone n
    have hs' : s' = s := hsame (by_contra fun hne => hnone ⟨s', happly, hne⟩)
    simp only [exec, fresh, happly, hs', Conn.write, hddl]
    rfl
  add := by
    rintro ⟨s₁, h₁, hne⟩
    obtain rfl := Except.ok.inj (happly.symm.trans h₁)
    refine ⟨s', hne, (apply_keeps happly).1, fun n => ?_⟩
    simp only [exec, fresh, happly, Conn.write, hddl]
    rfl

theorem smooth_execSkipping {s : Store ρ} {column : String × String} (htable : s.has column.1 = true) :
    Smooth execSkipping s (.addColumn column.1 column.2) := by
  have htable' : ¬s.has column.1 = false := Bool.not_eq_false _ ▸ htable
  by_cases hthere : .column column.1 column.2 ∈ s.objects
  · have happly : (Statement.addColumn column.1 column.2).apply s =
        .error (.duplicateColumn column.2) := by
      simp only [Statement.apply, if_neg htable', if_pos hthere]
    refine ⟨rfl, fun _ n => ?_, ?_⟩
    · simp only [execSkipping, exec, fresh, happly]
      rfl
    · rintro ⟨s', h, -⟩
      cases happly.symm.trans h
  · have happly : (Statement.addColumn column.1 column.2).apply s =
        .ok (s.add [.column column.1 column.2]) := by
      simp only [Statement.apply, if_neg htable', if_neg hthere]
    have hne : (s.add [.column column.1 column.2]).objects ≠ s.objects := by
      intro heq
      exact hthere (heq ▸ by simp)
    have hexec : Smooth exec s (.addColumn column.1 column.2) :=
      smooth_exec rfl happly fun heq => absurd heq hne
    refine ⟨rfl, fun hnone => absurd ⟨_, happly, hne⟩ hnone, fun hadds => ?_⟩
    obtain ⟨s', hne', hsub, hrun⟩ := hexec.add hadds
    exact ⟨s', hne', hsub, fun n => by simp only [execSkipping, hrun n]⟩

/-! ## The phases of an open -/

section Phases

variable {s : Store ρ}

theorem smoothUntil_forward (hruns : s.has "runs" = true) (hdivergences : s.has "divergences" = true) :
    SmoothUntil execSkipping s (addColumns additive) := by
  refine .of_forall fun st hst => ?_
  obtain ⟨column, hcolumn, rfl⟩ := List.mem_map.mp hst
  refine smooth_execSkipping ?_
  have htables : ∀ column ∈ additive, column.1 = "runs" ∨ column.1 = "divergences" := by decide
  rcases htables column hcolumn with h | h
  · rw [h, hruns]
  · rw [h, hdivergences]

theorem smoothUntil_steps {columns : List (String × String)}
    (h : ∀ column ∈ columns, s.has column.1 = true ∧ .column column.1 column.2 ∉ s.objects) :
    SmoothUntil exec s (addColumns columns) := by
  refine .of_forall fun st hst => ?_
  obtain ⟨column, hcolumn, rfl⟩ := List.mem_map.mp hst
  obtain ⟨htable, hnew⟩ := h column hcolumn
  have happly : (Statement.addColumn column.1 column.2).apply s =
      .ok (s.add [.column column.1 column.2]) := by
    simp only [Statement.apply, htable, Bool.true_eq_false, if_false, if_neg hnew]
  exact smooth_exec rfl happly fun heq => absurd (heq ▸ by simp) hnew

theorem apply_createTable {t : Table} (h : s.has t.name = false) :
    (Statement.createTable t).apply s =
      .ok (s.add (.table t.name :: t.columns.map (.column t.name))) := by
  simp only [Statement.apply, h, Bool.false_eq_true, if_false]

theorem createTable_ne {t : Table} (h : s.has t.name = false) :
    (s.add (.table t.name :: t.columns.map (.column t.name))).objects ≠ s.objects := by
  intro heq
  have hmem : Obj.table t.name ∈ s.objects := heq ▸ by simp
  rw [Store.has, decide_eq_false_iff_not] at h
  exact h hmem

theorem smoothUntil_createStatements : SmoothUntil exec s (createStatements s) := by
  unfold createStatements
  cases hmissing : metadata.filter fun t => s.has t.name = false with
  | nil => trivial
  | cons t ts =>
    have ht : t ∈ metadata.filter fun t => s.has t.name = false := hmissing ▸ List.mem_cons_self
    have habsent : s.has t.name = false := of_decide_eq_true (List.mem_filter.mp ht).2
    rw [List.flatMap_cons]
    -- the first table is committed, and no statement behind it matters
    refine ⟨smooth_exec rfl (apply_createTable habsent) fun heq => ?_, fun hnone => ?_⟩
    · exact absurd heq (createTable_ne habsent)
    · exact absurd ⟨_, apply_createTable habsent, createTable_ne habsent⟩ hnone

theorem smoothUntil_version : SmoothUntil exec s [.createVersionTable] := by
  refine .of_forall fun st hst => ?_
  obtain rfl := List.mem_singleton.mp hst
  have happly : Statement.apply s .createVersionTable = .ok (s.add [versionTable]) := rfl
  exact smooth_exec rfl happly fun heq => congrArg (fun objects => { s with objects := objects }) heq

theorem smoothUntil_fts (hdivergences : s.has "divergences" = true) :
    SmoothUntil exec s (ftsObjects.map .createAdjunct) := by
  refine .of_forall fun st hst => ?_
  obtain ⟨obj, -, rfl⟩ := List.mem_map.mp hst
  by_cases hthere : obj ∈ s.objects
  · have happly : (Statement.createAdjunct obj).apply s = .ok s := by
      simp only [Statement.apply, if_pos hthere]
    exact smooth_exec rfl happly fun _ => rfl
  · have hne : (s.add [obj]).objects ≠ s.objects := fun heq => hthere (heq ▸ by simp)
    by_cases htable : obj = ftsTable
    · have happly : (Statement.createAdjunct obj).apply s = .ok { s.add [obj] with indexed := 0 } := by
        simp only [Statement.apply, if_neg hthere, hdivergences, Bool.true_eq_false, if_false,
          if_pos htable]
      exact smooth_exec rfl happly fun heq => absurd heq hne
    · have happly : (Statement.createAdjunct obj).apply s = .ok (s.add [obj]) := by
        simp only [Statement.apply, if_neg hthere, hdivergences, Bool.true_eq_false, if_false,
          if_neg htable]
      exact smooth_exec rfl happly fun heq => absurd heq hne

/-- Behind a statement that opens a transaction, nothing is committed. -/
theorem dml_disk {st : Statement} (hdml : st.isDml = true) {q : Script ρ}
    (hq : ∀ d, Preserves (Pending d) q) (n : Nat) :
    (((exec st).andThen q) (fresh s n)).2.disk = s := by
  cases n with
  | zero => rfl
  | succ n =>
    cases happly : st.apply s with
    | error e =>
      have hrun : exec st (fresh s (n + 1)) = (.error (.raised (.sql e)), fresh s n) := by
        simp only [exec, fresh, happly]
        rfl
      rw [andThen_error hrun]
      rfl
    | ok s' =>
      have hrun : exec st (fresh s (n + 1)) = (.ok (), ⟨s, s', true, some n⟩) := by
        simp only [exec, fresh, happly, Conn.write, hdml]
        rfl
      rw [andThen_ok hrun]
      exact (hq s _ ⟨rfl, rfl, rfl⟩).disk

end Phases

section Interrupted

variable {s : Store ρ} {p p' q : Script ρ} {c : Conn ρ}

theorem andThen_congr (h : p c = p' c) : (p.andThen q) c = (p'.andThen q) c := by
  simp only [Script.andThen, h]

theorem prepareLocalStore_eq
    (h : ∀ revision, readStamp c.live = some revision → revision ∈ revisionChain) :
    prepareLocalStore c = (prepare.andThen (ensureFts.andThen commit)) c := by
  have hcheck : checkNotNewer c = (.ok (), c) := by
    cases hstamp : readStamp c.live with
    | none =>
      simp only [checkNotNewer, look, hstamp]
      rfl
    | some stamp =>
      simp only [checkNotNewer, look, hstamp, if_pos (h stamp hstamp)]
      rfl
  rw [prepareLocalStore, andThen_ok hcheck]

/-- The part behind the stamp of an adopted or upgraded store. -/
theorem preserves_tail {I : Conn ρ → Prop} (hexec : ∀ st, Preserves I (exec st))
    (hcommit : Preserves I commit) :
    Preserves I (ensureFts.andThen commit) :=
  (Preserves.ensureFts hexec).andThen hcommit

theorem forall_take_append {α : Type} {P : α → Prop} {as bs : List α} {n : Nat} :
    (∀ a ∈ (as ++ bs).take n, P a) ↔ (∀ a ∈ as.take n, P a) ∧ ∀ a ∈ bs.take (n - as.length), P a := by
  rw [List.take_append, List.forall_mem_append]

theorem forall_take_zero {α : Type} {P : α → Prop} {as : List α} {n k : Nat} (h : n < k) :
    ∀ a ∈ as.take (n - k), P a := by
  rw [Nat.sub_eq_zero_of_le (Nat.le_of_lt h), List.take_zero]
  exact List.forall_mem_nil P

variable {K : Store ρ → Prop}

theorem createAll_iff (hself : K s) (hK : ∀ d, K d → d.objects = s.objects)
    (hq : ∀ b, Preserves (Above b) q) {n : Nat} {sts : List Statement}
    (hrest : (∀ st ∈ createStatements s, ¬Adds s st) → ∀ m,
      (K (q (fresh s m)).2.disk ↔ ∀ st ∈ sts.take m, ¬Adds s st)) :
    K ((createAll.andThen q) (fresh s n)).2.disk ↔
      ∀ st ∈ (createStatements s ++ sts).take n, ¬Adds s st := by
  have hlook : (createAll.andThen q) (fresh s n) =
      ((all exec (createStatements s)).andThen q) (fresh s n) :=
    andThen_congr rfl
  rw [hlook, forall_take_append]
  exact phase_iff hself hK above_exec hq smoothUntil_createStatements (fun hnone _ => hrest hnone _)
    forall_take_zero

/-- The steps that were not taken yet, and the rest behind them. -/
theorem forward_iff (hself : K s) (hK : ∀ d, K d → d.objects = s.objects)
    (hq : ∀ b, Preserves (Above b) q) {n : Nat} {sts : List Statement} (hruns : s.has "runs" = true)
    (hdivergences : s.has "divergences" = true)
    (hrest : (∀ st ∈ addColumns additive, ¬Adds s st) → ∀ m,
      (K (q (fresh s m)).2.disk ↔ ∀ st ∈ sts.take m, ¬Adds s st)) :
    K ((runForwardStepsIdempotently.andThen q) (fresh s n)).2.disk ↔
      ∀ st ∈ (addColumns additive ++ sts).take n, ¬Adds s st := by
  rw [forall_take_append]
  exact phase_iff hself hK (fun b => Preserves.execSkipping (above_exec b)) hq
    (smoothUntil_forward hruns hdivergences) (fun hnone _ => hrest hnone _) forall_take_zero

theorem stamp_iff (hself : K s) (hK : ∀ d, K d → d.objects = s.objects)
    (hq : ∀ b, Preserves (Above b) q) (hpending : ∀ d, Preserves (Pending d) q) (n : Nat) :
    K ((((exec .createVersionTable).andThen (exec .insertStamp)).andThen q) (fresh s n)).2.disk ↔
      ∀ st ∈ [Statement.createVersionTable].take n, ¬Adds s st := by
  have hrow : ((exec .createVersionTable).andThen (exec .insertStamp)).andThen q =
      (all exec [.createVersionTable]).andThen ((exec .insertStamp).andThen q) := by
    rw [all, all, andThen_assoc, andThen_assoc, done_andThen]
  have hinsert : ∀ m, K (((exec .insertStamp).andThen q) (fresh s m)).2.disk := by
    intro m
    rw [dml_disk rfl hpending]
    exact hself
  rw [hrow, phase_iff hself hK above_exec (fun b => (above_exec b _).andThen (hq b)) smoothUntil_version
    (fun _ _ => iff_true_intro (hinsert _)) fun _ => trivial, and_true]

theorem agenda_none (h : readStamp s = none) :
    agenda s = (if s.has "runs" then addColumns additive else []) ++
      (createStatements s ++ [.createVersionTable]) := by
  simp only [agenda, h]

theorem adopt_iff (hself : K s) (hK : ∀ d, K d → d.objects = s.objects) (hu : Upgradable s)
    (hstamp : readStamp s = none) (n : Nat) :
    K ((prepare.andThen (ensureFts.andThen commit)) (fresh s n)).2.disk ↔ Harmless s n := by
  have habove : ∀ b, Preserves (Above b) (ensureFts.andThen commit (ρ := ρ)) :=
    fun b => preserves_tail (above_exec b) (above_commit b)
  have hpending : ∀ d, Preserves (Pending d) (ensureFts.andThen commit (ρ := ρ)) :=
    fun d => preserves_tail (pending_exec d) (pending_commit d)
  have hprepare : prepare (fresh s n) =
      ((if s.has "runs" then runForwardStepsIdempotently else done).andThen
      (createAll.andThen ((exec .createVersionTable).andThen (exec .insertStamp)))) (fresh s n) := by
    have hlive : readStamp (fresh s n).live = none := hstamp
    simp only [prepare, look, hlive]
    rfl
  have hcreate : ∀ m, K ((createAll.andThen (((exec .createVersionTable).andThen
      (exec .insertStamp)).andThen (ensureFts.andThen commit))) (fresh s m)).2.disk ↔
        ∀ st ∈ (createStatements s ++ [Statement.createVersionTable]).take m, ¬Adds s st := fun m =>
    createAll_iff hself hK (fun b => ((above_exec b _).andThen (above_exec b _)).andThen (habove b))
      fun _ m => stamp_iff hself hK habove hpending m
  rw [andThen_congr hprepare, andThen_assoc, andThen_assoc, Harmless, agenda_none hstamp]
  have hadopted := hu.adopted hstamp
  cases hruns : s.has "runs" with
  | false =>
    simp only [Bool.false_eq_true, if_false, done_andThen, List.nil_append]
    exact hcreate n
  | true =>
    simp only [hruns, if_true] at hadopted ⊢
    refine forward_iff hself hK (fun b => ?_) hruns hadopted fun _ m => hcreate m
    exact (Preserves.createAll (above_exec b)).andThen
      (((above_exec b _).andThen (above_exec b _)).andThen (habove b))

theorem missingColumns_eq_nil_iff : missingColumns s = [] ↔
    ∀ t ∈ metadata, s.has t.name = true ∧ ∀ c ∈ t.columns, .column t.name c ∈ s.objects := by
  rw [missingColumns, List.flatMap_eq_nil_iff]
  refine forall₂_congr fun t _ => ?_
  cases s.has t.name with
  | false | true => simp

theorem divergences_mem : ∃ t ∈ metadata, t.name = "divergences" := by simp [metadata]

/-- Where no step and no table is missing, and a store lacks only what they add, it lacks nothing. -/
theorem missingColumns_eq_nil (hu : Upgradable s) (hsteps : ∀ st ∈ addColumns additive, ¬Adds s st)
    (htables : ∀ st ∈ createStatements s, ¬Adds s st) : missingColumns s = [] := by
  rw [missingColumns_eq_nil_iff]
  intro t ht
  have hhas : s.has t.name = true := by
    by_contra habsent
    rw [Bool.not_eq_true] at habsent
    have hmem : Statement.createTable t ∈ createStatements s :=
      List.mem_flatMap.mpr ⟨t, List.mem_filter.mpr ⟨ht, decide_eq_true habsent⟩, List.mem_cons_self⟩
    exact htables _ hmem ⟨_, apply_createTable habsent, createTable_ne habsent⟩
  refine ⟨hhas, fun c hc => ?_⟩
  by_cases hadditive : (t.name, c) ∈ additive
  · by_contra hnew
    have hmem : Statement.addColumn t.name c ∈ addColumns additive :=
      List.mem_map.mpr ⟨_, hadditive, rfl⟩
    refine hsteps _ hmem ⟨s.add [.column t.name c], ?_, fun heq => hnew (heq ▸ by simp)⟩
    simp only [Statement.apply, hhas, Bool.true_eq_false, if_false, if_neg hnew]
  · exact hu.plain t ht hhas c hc hadditive

theorem fts_iff (hself : K s) (hK : ∀ d, K d → d.objects = s.objects)
    (hdivergences : s.has "divergences" = true) (n : Nat) :
    K ((ensureFts.andThen commit) (fresh s n)).2.disk ↔
      ∀ st ∈ (ftsObjects.map Statement.createAdjunct).take n, ¬Adds s st := by
  let index : Script ρ := look fun s =>
    if s.indexed = (s.rows "divergences").length then done else exec .rebuild
  have hindex : ∀ b, Preserves (Above b) index := by
    refine fun b => .look fun s => ?_
    split
    · exact .done
    · exact above_exec b _
  have hrest : ∀ m, K ((index.andThen commit) (fresh s m)).2.disk := by
    intro m
    by_cases hcount : s.indexed = (s.rows "divergences").length
    · have hdone : index (fresh s m) = done (fresh s m) := by
        have hlive : (fresh s m).live.indexed = ((fresh s m).live.rows "divergences").length := hcount
        simp only [index, look, if_pos hlive]
      rw [andThen_congr hdone]
      exact hself
    · have hrebuild : index (fresh s m) = exec .rebuild (fresh s m) := by
        have hlive : ¬(fresh s m).live.indexed = ((fresh s m).live.rows "divergences").length := hcount
        simp only [index, look, if_neg hlive]
      rw [andThen_congr hrebuild, dml_disk rfl pending_commit]
      exact hself
  have heq : ensureFts.andThen commit =
      (all exec (ftsObjects.map .createAdjunct)).andThen (index.andThen commit) :=
    andThen_assoc
  rw [heq, phase_iff hself hK above_exec (fun b => (hindex b).andThen (above_commit b))
    (smoothUntil_fts hdivergences) (fun _ _ => iff_true_intro (hrest _)) fun _ => trivial, and_true]

theorem verify_iff (hself : K s) (hK : ∀ d, K d → d.objects = s.objects) (hu : Upgradable s)
    (hstamp : readStamp s = some headRevision) (n : Nat) :
    K ((prepare.andThen (ensureFts.andThen commit)) (fresh s n)).2.disk ↔ Harmless s n := by
  have hprepare : prepare (fresh s n) = verifyAndRepair (fresh s n) := by
    have hlive : readStamp (fresh s n).live = some headRevision := hstamp
    simp only [prepare, look, hlive, if_true]
  have htail : ∀ b, Preserves (Above b) (ensureFts.andThen commit (ρ := ρ)) :=
    fun b => preserves_tail (above_exec b) (above_commit b)
  rw [andThen_congr hprepare, Harmless]
  simp only [agenda, hstamp, if_true]
  by_cases hmissing : missingColumns s = []
  · have hverify : verifyAndRepair (fresh s n) = done (fresh s n) := by
      have hlive : missingColumns (fresh s n).live = [] := hmissing
      simp only [verifyAndRepair, look, if_pos hlive]
    have hdivergences : s.has "divergences" = true := by
      obtain ⟨t, ht, hname⟩ := divergences_mem
      exact hname ▸ (missingColumns_eq_nil_iff.mp hmissing t ht).1
    rw [andThen_congr hverify, done_andThen, if_pos hmissing, List.nil_append]
    exact fts_iff hself hK hdivergences n
  · obtain ⟨hruns, hdivergences⟩ := hu.verified _ hstamp
    let check : Script ρ := look fun s =>
      if missingColumns s = [] then done else raise (.damaged (missingColumns s))
    have hverify : verifyAndRepair (fresh s n) =
        (runForwardStepsIdempotently.andThen (createAll.andThen check)) (fresh s n) := by
      have hlive : missingColumns (fresh s n).live ≠ [] := hmissing
      simp only [verifyAndRepair, look, if_neg hlive]
      rfl
    have hcheck : ∀ b, Preserves (Above b) check := by
      refine fun b => .look fun s => ?_
      split
      · exact .done
      · exact .raise _
    rw [andThen_congr hverify, andThen_assoc, andThen_assoc, if_neg hmissing, List.append_assoc]
    refine forward_iff hself hK (fun b => ?_) hruns hdivergences fun hsteps m => ?_
    · exact (Preserves.createAll (above_exec b)).andThen ((hcheck b).andThen (htail b))
    · refine createAll_iff hself hK (fun b => (hcheck b).andThen (htail b)) fun htables m => ?_
      exact absurd (missingColumns_eq_nil hu hsteps htables) hmissing

theorem upgrade_iff (hself : K s) (hK : ∀ d, K d → d.objects = s.objects) (hu : Upgradable s)
    {revision : String} (hstamp : readStamp s = some revision) (hknown : revision ∈ revisionChain)
    (hold : revision ≠ headRevision) (n : Nat) :
    K ((prepare.andThen (ensureFts.andThen commit)) (fresh s n)).2.disk ↔ Harmless s n := by
  have hprepare : prepare (fresh s n) = ((all exec (addColumns (stepsFrom revision))).andThen
      ((exec .updateStamp).andThen verifyAndRepair)) (fresh s n) := by
    have hlive : readStamp (fresh s n).live = some revision := hstamp
    simp only [prepare, look, hlive, if_neg hold, if_neg (not_not_intro hknown)]
  have hrest : ∀ {I : Conn ρ → Prop}, (∀ st, Preserves I (exec st)) → Preserves I commit →
      Preserves I (verifyAndRepair.andThen (ensureFts.andThen commit)) :=
    fun hexec hcommit => (Preserves.verifyAndRepair hexec).andThen (preserves_tail hexec hcommit)
  have hupdate : ∀ m, K (((exec .updateStamp).andThen
      (verifyAndRepair.andThen (ensureFts.andThen commit))) (fresh s m)).2.disk := by
    intro m
    rw [dml_disk rfl fun d => hrest (pending_exec d) (pending_commit d)]
    exact hself
  rw [andThen_congr hprepare, andThen_assoc, andThen_assoc, Harmless]
  simp only [agenda, hstamp, if_neg hold]
  rw [phase_iff hself hK above_exec
    (fun b => (above_exec b _).andThen (hrest (above_exec b) (above_commit b)))
    (smoothUntil_steps (hu.steps revision hstamp))
    (fun _ _ => iff_true_intro (hupdate _)) fun _ => trivial,
    and_true]

/-- An interruption leaves the file as it is exactly when it is harmless. -/
theorem openStore_iff (hself : K s) (hK : ∀ d, K d → d.objects = s.objects) (hr : Released s)
    (hu : Upgradable s) (n : Nat) : K (openStore s (some n)).2 ↔ Harmless s n := by
  have heq : (openStore s (some n)).2 =
      ((prepare.andThen (ensureFts.andThen commit)) (fresh s n)).2.disk :=
    congrArg (fun outcome => outcome.2.disk) (prepareLocalStore_eq (c := fresh s n) hr.stamp)
  rw [heq]
  cases hstamp : readStamp s with
  | none => exact adopt_iff hself hK hu hstamp n
  | some revision =>
    by_cases hhead : revision = headRevision
    · subst hhead
      exact verify_iff hself hK hu hstamp n
    · exact upgrade_iff hself hK hu hstamp (hr.stamp revision hstamp) hhead n

end Interrupted

end LocalStore
end Tempest
