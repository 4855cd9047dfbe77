import Tempest.Agent.Files

/-!
# Journal — the record of reversible actions (`agent/journal.py`)

The log holds actions and undos, and is only appended to; what an action would restore is kept under
its id.  `record` takes the pre-images, runs a body and takes it back when it raises; `undo` restores
one entry, and the newest first.
-/

namespace Tempest

open Python

/-! ## The log -/

inductive JournalRecord where
  | action (id : PyStr) (seq : Nat) (kind summary : PyStr) (files : List FilePath)
  | undo (id : PyStr)

structure JournalEntry where
  id : PyStr
  seq : Nat
  kind : PyStr
  summary : PyStr
  files : List FilePath
  undone : Bool

/-- The repository and the journal's own files: the log, the `existed` and the pre-images of each
entry. -/
structure JournalWorld where
  tree : FileTree
  records : List JournalRecord := []
  existed : PyStr → FilePath → Bool := fun _ _ => false
  pre : PyStr → FilePath → Option Bytes := fun _ _ => none

inductive JournalError where
  | unknown (id : PyStr)
  | newer (id : PyStr) (count : Nat)
  | broken

def JournalError.message (printable : CodePoint → Bool) : JournalError → PyStr
  | .unknown id => lit "no journal entry " ++ reprStr printable id
  | .newer id count => lit "entry " ++ id ++ lit " has " ++ natText count ++
      lit " newer action(s) still applied; undo those first — restoring an older pre-image over newer content would lose it"
  | .broken => []

namespace JournalWorld

variable (w : JournalWorld)

def undoneIds : List PyStr :=
  w.records.filterMap fun
    | .action _ _ _ _ _ => none
    | .undo id => some id

/-- `entries`, the oldest first. -/
def entries : List JournalEntry :=
  w.records.filterMap fun
    | .action id seq kind summary files => some ⟨id, seq, kind, summary, files, decide (id ∈ w.undoneIds)⟩
    | .undo _ => none

def pending : List JournalEntry := w.entries.filter fun e => !e.undone

def append (record : JournalRecord) : JournalWorld := { w with records := w.records ++ [record] }

/-! ## Restoring -/

/-- The loop of `_restore`: the tree that is left, and whether it came to its end. -/
def restoreFiles (existed : FilePath → Bool) (pre : FilePath → Option Bytes) :
    List FilePath → FileTree → FileTree × Bool
  | [], t => (t, true)
  | rel :: rels, t =>
    if existed rel then
      match pre rel with
      | none => (t, false)
      | some bytes =>
        match t.put rel bytes with
        | (t', true) => restoreFiles existed pre rels t'
        | (t', false) => (t', false)
    else if t.present rel then
      match t.unlink rel with
      | some t' => restoreFiles existed pre rels t'
      | none => (t, false)
    else restoreFiles existed pre rels t

def restore (id : PyStr) (files : List FilePath) : JournalWorld × Bool :=
  let (t, done) := restoreFiles (w.existed id) (w.pre id) files w.tree
  ({ w with tree := t }, done)

/-! ## Recording -/

def capture (id kind summary : PyStr) (files : List FilePath) : JournalWorld :=
  { w with
    existed := Function.update w.existed id fun rel => decide (rel ∈ files) && w.tree.isFile rel
    pre := Function.update w.pre id fun rel =>
      if rel ∈ files ∧ w.tree.isFile rel = true then w.tree.fileAt rel else w.pre id rel
    records := w.records ++ [.action id w.entries.length kind summary files] }

/-- `record` around a body: the tree it leaves, and whether it came to its end. -/
def record (id kind summary : PyStr) (files : List FilePath) (body : FileTree → FileTree × Bool) :
    JournalWorld × Bool :=
  let captured := w.capture id kind summary files
  match body captured.tree with
  | (t, true) => ({ captured with tree := t }, true)
  | (t, false) =>
    match { captured with tree := t }.restore id files with
    | (restored, true) => (restored.append (.undo id), false)
    | (broken, false) => (broken, false)

/-! ## Undoing -/

def undo (id : PyStr) : Except JournalError JournalEntry × JournalWorld :=
  match w.entries.find? fun e => e.id = id with
  | none => (.error (.unknown id), w)
  | some found =>
    if found.undone then (.ok found, w)
    else
      let newer := w.pending.filter fun e => found.seq < e.seq
      if newer ≠ [] then (.error (.newer id newer.length), w)
      else match w.restore found.id found.files with
        | (restored, true) => (.ok found, restored.append (.undo id))
        | (broken, false) => (.error .broken, broken)

def undoLast : Except JournalError (Option JournalEntry) × JournalWorld :=
  match w.pending.getLast? with
  | none => (.ok none, w)
  | some newest =>
    match w.undo newest.id with
    | (.ok e, w') => (.ok (some e), w')
    | (.error e, w') => (.error e, w')

end JournalWorld

/-! ## Actions -/

inductive FileOp where
  | write (path : FilePath) (bytes : Bytes)
  | delete (path : FilePath)

def FileOp.path : FileOp → FilePath
  | .write path _ => path
  | .delete path => path

def FileOp.apply : FileOp → FileTree → FileTree × Bool
  | .write path bytes, t =>
    match t.mkdirs path.dropLast with
    | none => (t, false)
    | some t' =>
      match t'.write path bytes with
      | none => (t', false)
      | some t'' => (t'', true)
  | .delete path, t =>
    match t.unlink path with
    | none => (t, false)
    | some t' => (t', true)

/-- The operations of a body, up to one that fails. -/
def applyOps : List FileOp → FileTree → FileTree × Bool
  | [], t => (t, true)
  | op :: ops, t =>
    match op.apply t with
    | (t', true) => applyOps ops t'
    | (t', false) => (t', false)

structure Action where
  files : List FilePath
  body : List FileOp
  raises : Bool
  within : ∀ op ∈ body, op.path ∈ files

def Action.run (a : Action) (t : FileTree) : FileTree × Bool :=
  let (t', done) := applyOps a.body t
  (t', done && !a.raises)

inductive JournalCall where
  | act (id kind summary : PyStr) (action : Action)
  | undo (id : PyStr)
  | undoLast

def JournalCall.apply (w : JournalWorld) : JournalCall → JournalWorld
  | .act id kind summary action => (w.record id kind summary action.files action.run).1
  | .undo id => (w.undo id).2
  | .undoLast => w.undoLast.2

def journalRun (t : FileTree) (calls : List JournalCall) : JournalWorld :=
  calls.foldl JournalCall.apply { tree := t }

end Tempest
