import Tempest.Agent.TurnLog
import Tempest.Inference.Cost
import Tempest.Process.Routine

/-!
# Shadow — the world of a task and its shadow worktree (`agent/shadow.py`)

A task runs on its turn log, the disk state of its shadow and the ledger.  Every operation first
takes one from the process's life, so that a process can be killed before any of them; what the
operation reads of the outside is asked at the clock.

A worktree is known by the number of rows the log had when `git worktree add` built it.
-/

namespace Tempest

open Python

/-! ## The world -/

/-- Why a process ended before its task did. -/
inductive Stop where
  | killed
  /-- `TaskAlreadyFinished`, with the recorded answer. -/
  | alreadyFinished (verdict : Option Verdict) (bundleId : PyStr)
  /-- The `ShadowError` of `create` over a live shadow. -/
  | shadowExists
  /-- The `ShadowError` of a commit git does not have. -/
  | noCommit (sha : Sha)
  /-- `ProveCancelled`, from a call of the model. -/
  | cancelledCall
  /-- The `ValueError` of a charge that has no decimal text. -/
  | unprintable
  | raised (message : PyStr)

structure Disk where
  worktree : Option Nat
  metadata : Option Sha

/-- What a task does that its log and its disk do not show. -/
inductive Event where
  | began (resume : Bool)
  | built
  /-- Untracked files went into the baseline. -/
  | carried
  /-- `complete()` is called. -/
  | called
  /-- `complete()` returns. -/
  | returned (answer : Completion)
  /-- `spend` is asked on a ledger. -/
  | spent (before : Ledger) (charge : Charge)
  | refused (error : CostError)
  | replayed (row : Nat) (worktree : Option Nat) (baseline : Sha)
  | repairing (number : Nat)
  | judged (number : Nat) (before : Proven) (contract : PyStr)

structure World where
  log : TurnLog
  disk : Disk
  ledger : Ledger
  clock : Nat
  life : Nat
  trace : List Event

abbrev Task := Routine Stop World

/-- One operation: the process is killed before it, or it happens. -/
def op {α : Type} (f : World → Except Stop α × World) : Task α := fun w =>
  match w.life with
  | 0 => (.error .killed, w)
  | life + 1 => f { w with life := life, clock := w.clock + 1 }

/-- An operation that leaves log, disk and ledger alone. -/
def ask {α : Type} (answer : Nat → Except Stop α) : Task α := op fun w => (answer w.clock, w)

def look {α : Type} (read : World → α) : Task α := op fun w => (.ok (read w), w)

def note (e : Event) : Task Unit := Routine.modify fun w => { w with trace := e :: w.trace }

/-- `TurnLog.checkpoint`; the write can fail. -/
def checkpoint (writes : Nat → Except Stop Unit) (row : LogRow) : Task Unit := op fun w =>
  match writes w.clock with
  | .error e => (.error e, w)
  | .ok () => (.ok (), { w with log := w.log ++ [row] })

/-! ## The shadow -/

/-- What git and the user's tree answer while a shadow is built. -/
structure Repository where
  /-- `git rev-parse sha^{commit}` finds the commit. -/
  hasCommit : Nat → Sha → Bool
  /-- `_baseline_commit`. -/
  visible : Nat → Except Stop Sha
  /-- `git worktree add`. -/
  addWorktree : Nat → Except Stop Unit
  /-- The untracked files outside `.tempest`, copied into the worktree. -/
  untracked : Nat → Except Stop (List PyStr)
  carryOver : Nat → Except Stop Sha
  writeMeta : Nat → Except Stop Unit

/-- The shadow of the task; its path and its branch follow from the task's id. -/
structure Shadow where
  baseline : Sha

def attach : Task (Option Shadow) := op fun w =>
  match w.disk.metadata, w.disk.worktree with
  | some baseline, some _ => (.ok (some ⟨baseline⟩), w)
  | _, _ => (.ok none, w)

def clearWreckage : Task Unit := op fun w =>
  if w.disk.worktree.isSome && w.disk.metadata.isSome then
    (.error .shadowExists, w)
  else (.ok (), { w with disk := { w.disk with worktree := none } })

def startingCommit (repo : Repository) (baseline : Option Sha) : Task Sha :=
  match baseline with
  | none => ask repo.visible
  | some sha => ask fun t =>
    if repo.hasCommit t sha then .ok sha else .error (.noCommit sha)

def addWorktree (repo : Repository) : Task Unit := op fun w =>
  match repo.addWorktree w.clock with
  | .error e => (.error e, w)
  | .ok () =>
    (.ok (),
      { w with
        disk := { w.disk with worktree := some w.log.length }
        trace := .built :: w.trace })

/-- The carried files are committed: the commit is the baseline then. -/
def carryOver (repo : Repository) (sha : Sha) : Task Sha := do
  let files ← ask repo.untracked
  if files = [] then pure sha
  else do
    note .carried
    ask repo.carryOver

def writeMeta (repo : Repository) (baseline : Sha) : Task Unit := op fun w =>
  match repo.writeMeta w.clock with
  | .error e => (.error e, w)
  | .ok () => (.ok (), { w with disk := { w.disk with metadata := some baseline } })

def create (repo : Repository) (baseline : Option Sha) : Task Shadow := do
  clearWreckage
  let sha ← startingCommit repo baseline
  addWorktree repo
  let sha ← carryOver repo sha
  writeMeta repo sha
  pure ⟨sha⟩

/-- The shadow a run works in, and whether it is the one the log describes. -/
structure Staging where
  shadow : Shadow
  continuesTheRecord : Bool

def shadowFor (repo : Repository) (plan : ResumePlan) : Task Staging := do
  let existing ← attach
  match existing, plan.consultedTheLog with
  | some shadow, true => pure ⟨shadow, plan.resuming⟩
  | _, _ => do
    let rebuilt ← create repo plan.baseline
    pure ⟨rebuilt, !plan.resuming⟩

/-! ## How far an operation moves the world -/

structure Grows (rowOk : LogRow → Prop) (eventOk : Event → Prop) (w w' : World) : Prop where
  log : ∃ rows, w'.log = w.log ++ rows ∧ ∀ row ∈ rows, rowOk row
  trace : ∃ events, w'.trace = events ++ w.trace ∧ ∀ e ∈ events, eventOk e

section Grows

variable {rowOk : LogRow → Prop} {eventOk : Event → Prop}

/-- A world that an operation only looks at is grown by nothing. -/
theorem Grows.of_eq {w w' : World} (hlog : w'.log = w.log) (htrace : w'.trace = w.trace) :
    Grows rowOk eventOk w w' :=
  ⟨⟨[], by simp [hlog]⟩, ⟨[], by simp [htrace]⟩⟩

theorem Grows.of_event {w w' : World} {e : Event} (hlog : w'.log = w.log)
    (htrace : w'.trace = e :: w.trace) (h : eventOk e) : Grows rowOk eventOk w w' :=
  ⟨⟨[], by simp [hlog]⟩, ⟨[e], by simpa using htrace, by simpa using h⟩⟩

theorem Grows.of_row {w w' : World} {row : LogRow} (hlog : w'.log = w.log ++ [row])
    (htrace : w'.trace = w.trace) (h : rowOk row) : Grows rowOk eventOk w w' :=
  ⟨⟨[row], hlog, by simpa using h⟩, ⟨[], by simp [htrace]⟩⟩

end Grows

end Tempest
