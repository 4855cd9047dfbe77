import Tempest.Process.Reachable
import Tempest.Python.Dict
import Tempest.Python.Lines

/-!
# BundleStore — the content-addressed bundles (`bundlestore.py`)

A put writes a temporary file and renames it to the digest of its bytes; the row that names the digest
is committed later, and a collector removes blobs that no committed row names.  Any number of requests
do this at once on one directory and one database, every access to a file or to the database is a step,
and the process may be killed between any two.
-/

namespace Tempest
namespace BundleStore

open Python

/-! ## The directory and the database -/

/-- A file: its bytes and when they were written last. -/
structure File where
  content : Bytes := []
  mtime : Nat := 0

abbrev Row := Nat × PyStr

/-- What a collection has done so far, with the ages of the blobs it left for being young.  No step reads
it but for whether it is a full one. -/
structure Sweep where
  full : Bool
  listed : List PyStr := []
  removed : List PyStr := []
  young : List (PyStr × Nat) := []
  gone : List PyStr := []
  failed : Bool := false
  deriving DecidableEq

/-- Where a request is: inside `put`, with its row not committed, or collecting. -/
inductive Thread where
  | idle
  | absent (run : Nat) (data : Bytes)
  | opened (run : Nat) (data : Bytes) (inode : Nat)
  | written (run : Nat) (data : Bytes) (inode : Nat)
  | stored (run : Nat) (digest : PyStr)
  | pruned (run : Nat) (digest : PyStr) (victims : List Row)
  | committed (candidates : Option (List PyStr))
  | referencing (referenced : List PyStr) (candidates : Option (List PyStr))
  | collecting (referenced todo : List PyStr) (sweep : Sweep)
  | condemned (referenced : List PyStr) (digest : PyStr) (todo : List PyStr) (sweep : Sweep)
  deriving DecidableEq

/-- The names of the blobs and of the temporary files, by digest, with the files they stand for, the
committed rows, the clock and the requests.  `sweeps` is the full collections that came to an end. -/
structure Store where
  blobs : Dict PyStr Nat
  tmps : Dict PyStr Nat
  files : Nat → File
  fresh : Nat
  rows : List Row
  now : Nat
  threads : Nat → Thread
  sweeps : List Sweep

inductive Action where
  | put (w run : Nat) (data : Bytes)
  | openTmp (w : Nat)
  | write (w : Nat)
  | replace (w : Nat)
  | prune (w : Nat) (budget : Option Nat)
  | commit (w : Nat)
  | collectAll (w : Nat)
  | readRows (w : Nat)
  | list (w : Nat)
  | look (w : Nat)
  | unlink (w : Nat)
  | leave (w : Nat)
  | tick
  | crash
  deriving DecidableEq

def gcGraceS : Nat := 15 * 60

namespace Store

def setThread (s : Store) (w : Nat) (thread : Thread) : Store :=
  { s with threads := fun i => if i = w then thread else s.threads i }

def setFile (s : Store) (inode : Nat) (file : File) : Store :=
  { s with files := fun i => if i = inode then file else s.files i }

/-! ## `put` -/

variable (hexdigest : Bytes → PyStr)

def put (s : Store) (w run : Nat) (data : Bytes) : Option Store :=
  match s.threads w with
  | .idle =>
    if s.blobs.contains (hexdigest data) then some (s.setThread w (.stored run (hexdigest data)))
    else some (s.setThread w (.absent run data))
  | _ => none

/-- `tmp.write_bytes` opens the file: an old one of that name is emptied. -/
def openTmp (s : Store) (w : Nat) : Option Store :=
  match s.threads w with
  | .absent run data =>
    match s.tmps.get? (hexdigest data) with
    | some inode =>
      some ((s.setFile inode ⟨[], s.now⟩).setThread w (.opened run data inode))
    | none =>
      some { (s.setFile s.fresh ⟨[], s.now⟩).setThread w (.opened run data s.fresh) with
        tmps := s.tmps.set (hexdigest data) s.fresh
        fresh := s.fresh + 1 }
  | _ => none

def write (s : Store) (w : Nat) : Option Store :=
  match s.threads w with
  | .opened run data inode =>
    some ((s.setFile inode ⟨data, s.now⟩).setThread w (.written run data inode))
  | _ => none

/-- `tmp.replace(blob)`, which raises when the temporary name is gone. -/
def replace (s : Store) (w : Nat) : Option Store :=
  match s.threads w with
  | .written run data _ =>
    let digest := hexdigest data
    match s.tmps.get? digest with
    | some inode =>
      some { s.setThread w (.stored run digest) with
        blobs := s.blobs.set digest inode
        tmps := s.tmps.filterKeys (· ≠ digest) }
    | none => some (s.setThread w .idle)
  | _ => none

/-! ## Pruning -/

def size (s : Store) (digest : PyStr) : Nat :=
  match s.blobs.get? digest with
  | some inode => (s.files inode).content.length
  | none => 0

def weight (s : Store) (rows : List Row) : Nat := ((rows.map Prod.snd).dedup.map s.size).sum

/-- The loop of `prune_over_budget`, over the rows that are left, the oldest first. -/
def pruneLoop (s : Store) (budget protect : Nat) : Nat → List Row → List Row
  | 0, _ => []
  | fuel + 1, rows =>
    if 1 < rows.length ∧ budget < s.weight rows then
      match rows.dropLast.find? fun row => row.1 ≠ protect with
      | some row => row :: s.pruneLoop budget protect fuel (rows.filter fun r => r.1 ≠ row.1)
      | none => []
    else []

/-- `prune_over_budget`: the committed rows with the one of this transaction. -/
def pruneOverBudget (s : Store) (budget : Option Nat) (run : Nat) (digest : PyStr) : List Row :=
  match budget with
  | none => []
  | some budget =>
    let rows := (s.rows ++ [(run, digest)]).insertionSort fun a b => a.1 ≤ b.1
    s.pruneLoop budget run rows.length rows

def prune (s : Store) (w : Nat) (budget : Option Nat) : Option Store :=
  match s.threads w with
  | .stored run digest =>
    some (s.setThread w (.pruned run digest (s.pruneOverBudget budget run digest)))
  | _ => none

def commit (s : Store) (w : Nat) : Option Store :=
  match s.threads w with
  | .pruned run digest victims =>
    some { s.setThread w (.committed (some (victims.map Prod.snd))) with
      rows := (s.rows.filter fun row => row.1 ≠ run ∧ row.1 ∉ victims.map Prod.fst) ++
        [(run, digest)] }
  | _ => none

/-! ## Collecting -/

def collectAll (s : Store) (w : Nat) : Option Store :=
  match s.threads w with
  | .idle => some (s.setThread w (.committed none))
  | _ => none

def readRows (s : Store) (w : Nat) : Option Store :=
  match s.threads w with
  | .committed candidates =>
    some (s.setThread w (.referencing (s.rows.map Prod.snd) candidates))
  | _ => none

def list (s : Store) (w : Nat) : Option Store :=
  match s.threads w with
  | .referencing referenced (some candidates) =>
    some (s.setThread w (.collecting referenced candidates { full := false }))
  | .referencing referenced none =>
    let listed := (s.blobs.keys.filter (· ∉ referenced)).insertionSort (· ≤ ·)
    some (s.setThread w (.collecting referenced listed { full := true, listed := listed }))
  | _ => none

def look (s : Store) (w : Nat) : Option Store :=
  match s.threads w with
  | .collecting _ [] sweep =>
    some { s.setThread w .idle with
      sweeps := if sweep.full then s.sweeps ++ [sweep] else s.sweeps }
  | .collecting referenced (digest :: todo) sweep =>
    if sweep.full then
      match s.blobs.get? digest with
      | some inode =>
        if s.now - (s.files inode).mtime < gcGraceS then
          some (s.setThread w (.collecting referenced todo
            { sweep with young := sweep.young ++ [(digest, s.now - (s.files inode).mtime)] }))
        else some (s.setThread w (.condemned referenced digest todo sweep))
      -- raced by another unlink
      | none =>
        some (s.setThread w (.collecting referenced todo
          { sweep with gone := sweep.gone ++ [digest] }))
    else if digest ∉ referenced ∧ s.blobs.contains digest then
      some (s.setThread w (.condemned referenced digest todo sweep))
    else some (s.setThread w (.collecting referenced todo sweep))
  | _ => none

def unlink (s : Store) (w : Nat) : Option Store :=
  match s.threads w with
  | .condemned referenced digest todo sweep =>
    if s.blobs.contains digest then
      some { s.setThread w (.collecting referenced todo
          { sweep with removed := sweep.removed ++ [digest] }) with
        blobs := s.blobs.filterKeys (· ≠ digest) }
    else
      some { s.setThread w .idle with
        sweeps := if sweep.full then s.sweeps ++ [{ sweep with failed := true }] else s.sweeps }
  | _ => none

def step (s : Store) : Action → Option Store
  | .put w run data => s.put hexdigest w run data
  | .openTmp w => s.openTmp hexdigest w
  | .write w => s.write w
  | .replace w => s.replace hexdigest w
  | .prune w budget => s.prune w budget
  | .commit w => s.commit w
  | .collectAll w => s.collectAll w
  | .readRows w => s.readRows w
  | .list w => s.list w
  | .look w => s.look w
  | .unlink w => s.unlink w
  -- an exception, or a put that no row is committed for
  | .leave w => some (s.setThread w .idle)
  | .tick => some { s with now := s.now + 1 }
  | .crash => some { s with threads := fun _ => .idle }

def empty : Store where
  blobs := Dict.empty
  tmps := Dict.empty
  files := fun _ => {}
  fresh := 0
  rows := []
  now := 0
  threads := fun _ => .idle
  sweeps := []

/-! ## Evidence that is kept -/

structure Sweep.Complete (sweep : Sweep) : Prop where
  ended : sweep.failed = false
  every : ∀ digest ∈ sweep.listed,
    digest ∈ sweep.removed ∨ (∃ age, (digest, age) ∈ sweep.young ∧ age < gcGraceS) ∨
      digest ∈ sweep.gone

/-- Every committed row has its blob, every blob has the bytes its name says, and every full collection
removed what was old. -/
structure Kept (s : Store) : Prop where
  referenced : ∀ row ∈ s.rows, s.blobs.contains row.2 = true
  genuine : ∀ digest inode, s.blobs.get? digest = some inode →
    hexdigest (s.files inode).content = digest
  swept : ∀ sweep ∈ s.sweeps, Sweep.Complete sweep

end Store

/-- The digest whose temporary file a request has open or has written. -/
def Thread.fills (hexdigest : Bytes → PyStr) : Thread → Option PyStr
  | .opened _ data _ | .written _ data _ => some (hexdigest data)
  | _ => none

/-- The digest of a request whose row is still to be committed. -/
def Thread.holds : Thread → Option PyStr
  | .stored _ digest | .pruned _ digest _ => some digest
  | _ => none

namespace Store

variable (hexdigest : Bytes → PyStr)

/-- No other request has the temporary file of a digest when it is opened, and a blob is unlinked when
it is still there, no committed row names it and no request is about to commit one. -/
def Admits (s : Store) : Action → Prop
  | .openTmp w => ∀ run data, s.threads w = .absent run data →
      ∀ w', (s.threads w').fills hexdigest ≠ some (hexdigest data)
  | .unlink w => ∀ referenced digest todo sweep,
      s.threads w = .condemned referenced digest todo sweep →
        s.blobs.contains digest = true ∧ (∀ row ∈ s.rows, row.2 ≠ digest) ∧
          ∀ w', (s.threads w').holds ≠ some digest
  | _ => True

/-! ## The invariant -/

def Sweep.Settled (sweep : Sweep) (digest : PyStr) : Prop :=
  digest ∈ sweep.removed ∨ (∃ age, (digest, age) ∈ sweep.young ∧ age < gcGraceS) ∨
    digest ∈ sweep.gone

def ThreadInv (s : Store) : Thread → Prop
  | .opened _ data inode => s.tmps.get? (hexdigest data) = some inode
  | .written _ data inode =>
    s.tmps.get? (hexdigest data) = some inode ∧ (s.files inode).content = data
  | .stored _ digest | .pruned _ digest _ => s.blobs.contains digest = true
  | .collecting _ todo sweep =>
    sweep.failed = false ∧ (sweep.full = true →
      ∀ digest ∈ sweep.listed, digest ∈ todo ∨ Sweep.Settled sweep digest)
  | .condemned _ digest todo sweep =>
    sweep.failed = false ∧ (sweep.full = true →
      ∀ other ∈ sweep.listed, other = digest ∨ other ∈ todo ∨ Sweep.Settled sweep other)
  | _ => True

structure Inv (s : Store) : Prop extends s.Kept hexdigest where
  threads : ∀ w, s.ThreadInv hexdigest (s.threads w)
  alone : ∀ w w' digest, (s.threads w).fills hexdigest = some digest →
    (s.threads w').fills hexdigest = some digest → w = w'
  apart : ∀ digest digest' inode, s.tmps.get? digest = some inode →
    s.blobs.get? digest' ≠ some inode
  single : ∀ digest digest' inode, s.tmps.get? digest = some inode →
    s.tmps.get? digest' = some inode → digest = digest'
  freshTmp : ∀ digest inode, s.tmps.get? digest = some inode → inode < s.fresh
  freshBlob : ∀ digest inode, s.blobs.get? digest = some inode → inode < s.fresh

section Steps

variable {hexdigest : Bytes → PyStr} {s s' : Store} {w : Nat}

theorem inv_empty : empty.Inv hexdigest where
  referenced _ hrow := by cases hrow
  genuine _ _ hget := by cases hget
  swept _ hsweep := by cases hsweep
  threads _ := trivial
  alone _ _ _ hfills := by cases hfills
  apart _ _ _ hget := by cases hget
  single _ _ _ hget := by cases hget
  freshTmp _ _ hget := by cases hget
  freshBlob _ _ hget := by cases hget

/-- A request moves on, and the directory and the rows stay as they are. -/
theorem Inv.of_thread (h : s.Inv hexdigest) {thread : Thread} {sweeps : List Sweep}
    (hthread : s.ThreadInv hexdigest thread) (hfills : thread.fills hexdigest = none)
    (hsweeps : ∀ sweep ∈ sweeps, Sweep.Complete sweep) :
    Inv hexdigest { s.setThread w thread with sweeps := sweeps } where
  referenced := h.referenced
  genuine := h.genuine
  swept := hsweeps
  threads w' := by
    change s.ThreadInv hexdigest (if w' = w then thread else s.threads w')
    split
    · exact hthread
    · exact h.threads w'
  alone w₁ w₂ digest h₁ h₂ := by
    change (if w₁ = w then thread else s.threads w₁).fills hexdigest = _ at h₁
    change (if w₂ = w then thread else s.threads w₂).fills hexdigest = _ at h₂
    split at h₁
    · rw [hfills] at h₁
      cases h₁
    split at h₂
    · rw [hfills] at h₂
      cases h₂
    exact h.alone w₁ w₂ digest h₁ h₂
  apart := h.apart
  single := h.single
  freshTmp := h.freshTmp
  freshBlob := h.freshBlob

theorem Inv.goto (h : s.Inv hexdigest) {thread : Thread}
    (hthread : s.ThreadInv hexdigest thread) (hfills : thread.fills hexdigest = none) :
    (s.setThread w thread).Inv hexdigest :=
  h.of_thread hthread hfills h.swept

/-! ## Putting -/

theorem put_inv {run : Nat} {data : Bytes} (h : s.Inv hexdigest)
    (hstep : s.put hexdigest w run data = some s') : s'.Inv hexdigest := by
  rw [put] at hstep
  split at hstep
  · split at hstep
    · rename_i hblob
      cases hstep
      exact h.goto hblob rfl
    · cases hstep
      exact h.goto trivial rfl
  · cases hstep

/-- The other requests keep what they have while the file behind one temporary name changes. -/
theorem Inv.of_file (h : s.Inv hexdigest) {thread : Thread} {digest : PyStr} {inode : Nat}
    {file : File} (htmp : s.tmps.get? digest = some inode)
    (hfills : thread.fills hexdigest = some digest)
    (hother : ∀ w', (s.threads w').fills hexdigest = some digest → w' = w)
    (hthread : ((s.setFile inode file).setThread w thread).ThreadInv hexdigest thread) :
    ((s.setFile inode file).setThread w thread).Inv hexdigest := by
  have hkept : ∀ i, i ≠ inode → (s.setFile inode file).files i = s.files i :=
    fun i hi => if_neg hi
  constructor
  case toKept =>
    refine ⟨h.referenced, fun name i hget => ?_, h.swept⟩
    have hi : i ≠ inode := fun heq => h.apart digest name inode htmp (heq ▸ hget)
    change hexdigest ((s.setFile inode file).files i).content = name
    rw [hkept i hi]
    exact h.genuine name i hget
  case threads =>
    intro w'
    change ThreadInv hexdigest _ (if w' = w then thread else s.threads w')
    split
    · exact hthread
    · rename_i hw
      have hbefore := h.threads w'
      have hnot : (s.threads w').fills hexdigest ≠ some digest := fun heq => hw (hother w' heq)
      cases hplace : s.threads w' with
      | written run data i =>
        rw [hplace] at hbefore hnot
        obtain ⟨hname, hcontent⟩ := hbefore
        have hi : i ≠ inode := by
          rintro rfl
          exact hnot (congrArg some (h.single _ digest i hname htmp))
        exact ⟨hname, by
          change ((s.setFile inode file).files i).content = data
          rw [hkept i hi, hcontent]⟩
      | opened _ _ _ | stored _ _ | pruned _ _ _ | collecting _ _ _ | condemned _ _ _ _ =>
        rw [hplace] at hbefore; exact hbefore
      | idle | absent _ _ | committed _ | referencing _ _ => trivial
  case alone =>
    intro w₁ w₂ name h₁ h₂
    change (if w₁ = w then thread else s.threads w₁).fills hexdigest = _ at h₁
    change (if w₂ = w then thread else s.threads w₂).fills hexdigest = _ at h₂
    split at h₁
    · rename_i hw₁
      rw [hfills] at h₁
      cases h₁
      split at h₂
      · rename_i hw₂
        rw [hw₁, hw₂]
      · rw [hw₁, hother w₂ h₂]
    · split at h₂
      · rename_i hw₂
        rw [hfills] at h₂
        cases h₂
        rw [hw₂, hother w₁ h₁]
      · exact h.alone w₁ w₂ name h₁ h₂
  case apart => exact h.apart
  case single => exact h.single
  case freshTmp => exact h.freshTmp
  case freshBlob => exact h.freshBlob

theorem newTmp_inv (h : s.Inv hexdigest) {digest : PyStr} (hnone : s.tmps.get? digest = none) :
    Inv hexdigest { s with tmps := s.tmps.set digest s.fresh, fresh := s.fresh + 1 } := by
  have hset : ∀ name i, (s.tmps.set digest s.fresh).get? name = some i →
      name = digest ∧ i = s.fresh ∨ name ≠ digest ∧ s.tmps.get? name = some i := by
    intro name i hget
    rw [Dict.get?_set] at hget
    split at hget
    · rename_i hname
      cases hget
      exact Or.inl ⟨hname, rfl⟩
    · rename_i hname
      exact Or.inr ⟨hname, hget⟩
  have hold : ∀ name i, s.tmps.get? name = some i →
      (s.tmps.set digest s.fresh).get? name = some i := by
    intro name i hget
    rw [Dict.get?_set, if_neg]
    · exact hget
    · rintro rfl
      rw [hnone] at hget
      cases hget
  constructor
  case toKept => exact ⟨h.referenced, h.genuine, h.swept⟩
  case threads =>
    intro w'
    have hbefore := h.threads w'
    change ThreadInv hexdigest _ (s.threads w')
    cases hplace : s.threads w' with
    | opened run data i => rw [hplace] at hbefore; exact hold _ i hbefore
    | written run data i =>
      rw [hplace] at hbefore
      exact ⟨hold _ i hbefore.1, hbefore.2⟩
    | stored _ _ | pruned _ _ _ | collecting _ _ _ | condemned _ _ _ _ =>
      rw [hplace] at hbefore; exact hbefore
    | idle | absent _ _ | committed _ | referencing _ _ => trivial
  case alone => exact h.alone
  case apart =>
    intro name name' i hget hblob
    rcases hset name i hget with ⟨-, rfl⟩ | ⟨-, hbefore⟩
    · exact Nat.lt_irrefl _ (h.freshBlob name' _ hblob)
    · exact h.apart name name' i hbefore hblob
  case single =>
    intro name name' i hget hget'
    rcases hset name i hget with ⟨rfl, rfl⟩ | ⟨-, hbefore⟩
    · rcases hset name' _ hget' with ⟨rfl, -⟩ | ⟨-, hbefore'⟩
      · rfl
      · exact absurd (h.freshTmp name' _ hbefore') (Nat.lt_irrefl _)
    · rcases hset name' i hget' with ⟨-, rfl⟩ | ⟨-, hbefore'⟩
      · exact absurd (h.freshTmp name _ hbefore) (Nat.lt_irrefl _)
      · exact h.single name name' i hbefore hbefore'
  case freshTmp =>
    intro name i hget
    rcases hset name i hget with ⟨-, rfl⟩ | ⟨-, hbefore⟩
    · exact Nat.lt_succ_self _
    · exact Nat.lt_succ_of_lt (h.freshTmp name i hbefore)
  case freshBlob => exact fun name i hget => Nat.lt_succ_of_lt (h.freshBlob name i hget)

theorem openTmp_inv (h : s.Inv hexdigest) (hok : s.Admits hexdigest (.openTmp w))
    (hstep : s.openTmp hexdigest w = some s') : s'.Inv hexdigest := by
  rw [openTmp] at hstep
  split at hstep
  · rename_i run data hplace
    have hnone := hok run data hplace
    have hother : ∀ w', (s.threads w').fills hexdigest = some (hexdigest data) → w' = w :=
      fun w' hfills => absurd hfills (hnone w')
    split at hstep
    · rename_i inode htmp
      cases hstep
      exact h.of_file htmp rfl hother htmp
    · rename_i htmp
      cases hstep
      have hnew := newTmp_inv h htmp
      have hget : (s.tmps.set (hexdigest data) s.fresh).get? (hexdigest data) = some s.fresh := by
        rw [Dict.get?_set, if_pos rfl]
      exact hnew.of_file hget rfl hother hget
  · cases hstep

theorem write_inv (h : s.Inv hexdigest) (hstep : s.write w = some s') : s'.Inv hexdigest := by
  rw [write] at hstep
  split at hstep
  · rename_i run data inode hplace
    cases hstep
    have hbefore := h.threads w
    rw [hplace] at hbefore
    have hmine : (s.threads w).fills hexdigest = some (hexdigest data) := by rw [hplace]; rfl
    exact h.of_file hbefore rfl (fun w' hfills => h.alone w' w _ hfills hmine)
      ⟨hbefore, by simp [setFile, setThread]⟩
  · cases hstep

theorem contains_set {d : Dict PyStr Nat} {name digest : PyStr} {inode : Nat}
    (h : d.contains name = true) : (d.set digest inode).contains name = true := by
  rw [Dict.contains, Dict.get?_set]
  split
  · rfl
  · exact h

/-- The blob gets the file of the temporary name, which has the bytes of the put. -/
theorem replace_inv (h : s.Inv hexdigest) (hstep : s.replace hexdigest w = some s') :
    s'.Inv hexdigest := by
  rw [replace] at hstep
  split at hstep
  · rename_i run data handle hplace
    have hbefore := h.threads w
    rw [hplace] at hbefore
    obtain ⟨htmp, hcontent⟩ := hbefore
    have hmine : (s.threads w).fills hexdigest = some (hexdigest data) := by rw [hplace]; rfl
    simp only [htmp] at hstep
    cases hstep
    have hget : ∀ name i, (s.blobs.set (hexdigest data) handle).get? name = some i →
        name = hexdigest data ∧ i = handle ∨ name ≠ hexdigest data ∧ s.blobs.get? name = some i := by
      intro name i hname
      rw [Dict.get?_set] at hname
      split at hname
      · rename_i heq
        cases hname
        exact Or.inl ⟨heq, rfl⟩
      · rename_i hne
        exact Or.inr ⟨hne, hname⟩
    have htmps : ∀ name i, (s.tmps.filterKeys (· ≠ hexdigest data)).get? name = some i ↔
        s.tmps.get? name = some i ∧ name ≠ hexdigest data := by
      intro name i
      rw [Dict.get?_filterKeys, decide_eq_true_iff]
    constructor
    case toKept =>
      refine ⟨fun row hrow => contains_set (h.referenced row hrow), fun name i hname => ?_, h.swept⟩
      rcases hget name i hname with ⟨rfl, rfl⟩ | ⟨-, hold⟩
      · exact congrArg hexdigest hcontent
      · exact h.genuine name i hold
    case threads =>
      intro w'
      change ThreadInv hexdigest _ (if w' = w then _ else s.threads w')
      split
      · change (s.blobs.set (hexdigest data) handle).contains (hexdigest data) = true
        rw [Dict.contains, Dict.get?_set, if_pos rfl]
        rfl
      · rename_i hw
        have hbefore := h.threads w'
        have hnot : (s.threads w').fills hexdigest ≠ some (hexdigest data) :=
          fun heq => hw (h.alone w' w _ heq hmine)
        cases hplace' : s.threads w' with
        | opened run' data' i =>
          rw [hplace'] at hbefore hnot
          exact (htmps _ i).2 ⟨hbefore, fun heq => hnot (congrArg some heq)⟩
        | written run' data' i =>
          rw [hplace'] at hbefore hnot
          exact ⟨(htmps _ i).2 ⟨hbefore.1, fun heq => hnot (congrArg some heq)⟩, hbefore.2⟩
        | stored _ _ | pruned _ _ _ => rw [hplace'] at hbefore; exact contains_set hbefore
        | collecting _ _ _ | condemned _ _ _ _ => rw [hplace'] at hbefore; exact hbefore
        | idle | absent _ _ | committed _ | referencing _ _ => trivial
    case alone =>
      intro w₁ w₂ name h₁ h₂
      change (if w₁ = w then Thread.stored run (hexdigest data) else s.threads w₁).fills hexdigest =
        some name at h₁
      change (if w₂ = w then Thread.stored run (hexdigest data) else s.threads w₂).fills hexdigest =
        some name at h₂
      split at h₁
      · cases h₁
      split at h₂
      · cases h₂
      exact h.alone w₁ w₂ name h₁ h₂
    case apart =>
      intro name name' i hname hblob
      obtain ⟨hold, hne⟩ := (htmps name i).1 hname
      rcases hget name' i hblob with ⟨-, rfl⟩ | ⟨-, hbefore⟩
      · exact hne (h.single name _ _ hold htmp)
      · exact h.apart name name' i hold hbefore
    case single =>
      intro name name' i hname hname'
      exact h.single name name' i ((htmps name i).1 hname).1 ((htmps name' i).1 hname').1
    case freshTmp => exact fun name i hname => h.freshTmp name i ((htmps name i).1 hname).1
    case freshBlob =>
      intro name i hname
      rcases hget name i hname with ⟨-, rfl⟩ | ⟨-, hold⟩
      · exact h.freshTmp _ _ htmp
      · exact h.freshBlob name i hold
  · cases hstep

/-! ## Committing -/

theorem prune_inv {budget : Option Nat} (h : s.Inv hexdigest) (hstep : s.prune w budget = some s') :
    s'.Inv hexdigest := by
  rw [prune] at hstep
  split at hstep
  · rename_i run digest hplace
    have hbefore := h.threads w
    rw [hplace] at hbefore
    cases hstep
    exact h.goto hbefore rfl
  · cases hstep

theorem commit_inv (h : s.Inv hexdigest) (hstep : s.commit w = some s') : s'.Inv hexdigest := by
  rw [commit] at hstep
  split at hstep
  · rename_i run digest victims hplace
    have hbefore := h.threads w
    rw [hplace] at hbefore
    cases hstep
    have hgoto : (s.setThread w (.committed (some (victims.map Prod.snd)))).Inv hexdigest :=
      h.goto trivial rfl
    exact {
      hgoto with
      referenced := by
        intro row hrow
        rcases List.mem_append.1 hrow with hold | hnew
        · exact h.referenced row (List.mem_of_mem_filter hold)
        · rw [List.mem_singleton.1 hnew]
          exact hbefore
      genuine := h.genuine
      swept := h.swept }
  · cases hstep

/-! ## Collecting -/

theorem collectAll_inv (h : s.Inv hexdigest) (hstep : s.collectAll w = some s') :
    s'.Inv hexdigest := by
  rw [collectAll] at hstep
  split at hstep
  · cases hstep
    exact h.goto trivial rfl
  · cases hstep

theorem readRows_inv (h : s.Inv hexdigest) (hstep : s.readRows w = some s') : s'.Inv hexdigest := by
  rw [readRows] at hstep
  split at hstep
  · cases hstep
    exact h.goto trivial rfl
  · cases hstep

theorem list_inv (h : s.Inv hexdigest) (hstep : s.list w = some s') : s'.Inv hexdigest := by
  rw [list] at hstep
  split at hstep
  · cases hstep
    exact h.goto ⟨rfl, fun hfull => by cases hfull⟩ rfl
  · cases hstep
    exact h.goto ⟨rfl, fun _ _ hlisted => Or.inl hlisted⟩ rfl
  · cases hstep

/-- Every digest that a full collection looks at is settled or stays on the list. -/
theorem look_inv (h : s.Inv hexdigest) (hstep : s.look w = some s') : s'.Inv hexdigest := by
  have hbefore := h.threads w
  rw [look] at hstep
  split at hstep
  · rename_i referenced sweep hplace
    rw [hplace] at hbefore
    obtain ⟨hfailed, hlisted⟩ := hbefore
    cases hstep
    refine h.of_thread trivial rfl fun other hother => ?_
    split at hother
    · rename_i hfull
      rcases List.mem_append.1 hother with hold | hnew
      · exact h.swept other hold
      · rw [List.mem_singleton.1 hnew]
        exact ⟨hfailed, fun digest hdigest =>
          (hlisted hfull digest hdigest).resolve_left List.not_mem_nil⟩
    · exact h.swept other hother
  · rename_i referenced digest todo sweep hplace
    rw [hplace] at hbefore
    obtain ⟨hfailed, hlisted⟩ := hbefore
    have hcases : sweep.full = true → ∀ other ∈ sweep.listed,
        other = digest ∨ other ∈ todo ∨ Sweep.Settled sweep other := by
      intro hfull other hother
      rcases hlisted hfull other hother with htodo | hsettled
      · exact (List.mem_cons.1 htodo).imp id Or.inl
      · exact Or.inr (Or.inr hsettled)
    split at hstep
    · rename_i hfull
      split at hstep
      · split at hstep
        · -- the blob is young
          rename_i inode hblob hyoung
          cases hstep
          refine h.goto ⟨hfailed, fun _ other hother => ?_⟩ rfl
          rcases hcases hfull other hother with rfl | htodo | hremoved | ⟨age, hage, hlt⟩ | hgone
          · exact Or.inr (Or.inr (Or.inl
              ⟨_, List.mem_append_right _ (List.mem_singleton_self _), hyoung⟩))
          · exact Or.inl htodo
          · exact Or.inr (Or.inl hremoved)
          · exact Or.inr (Or.inr (Or.inl ⟨age, List.mem_append_left _ hage, hlt⟩))
          · exact Or.inr (Or.inr (Or.inr hgone))
        · cases hstep
          exact h.goto ⟨hfailed, hcases⟩ rfl
      · -- the blob is gone
        cases hstep
        refine h.goto ⟨hfailed, fun _ other hother => ?_⟩ rfl
        rcases hcases hfull other hother with rfl | htodo | hremoved | hyoung | hgone
        · exact Or.inr (Or.inr (Or.inr (List.mem_append_right _ (List.mem_singleton_self _))))
        · exact Or.inl htodo
        · exact Or.inr (Or.inl hremoved)
        · exact Or.inr (Or.inr (Or.inl hyoung))
        · exact Or.inr (Or.inr (Or.inr (List.mem_append_left _ hgone)))
    · rename_i hpartial
      split at hstep
      · cases hstep
        exact h.goto ⟨hfailed, hcases⟩ rfl
      · cases hstep
        exact h.goto ⟨hfailed, fun hfull => absurd hfull hpartial⟩ rfl
  · cases hstep

/-- Nothing that is needed loses its blob. -/
theorem unlink_inv (h : s.Inv hexdigest) (hok : s.Admits hexdigest (.unlink w))
    (hstep : s.unlink w = some s') : s'.Inv hexdigest := by
  rw [unlink] at hstep
  split at hstep
  · rename_i referenced digest todo sweep hplace
    obtain ⟨hblob, hrows, hholds⟩ := hok referenced digest todo sweep hplace
    have hbefore := h.threads w
    rw [hplace] at hbefore
    obtain ⟨hfailed, hlisted⟩ := hbefore
    rw [if_pos hblob] at hstep
    cases hstep
    have hget : ∀ name i, (s.blobs.filterKeys (· ≠ digest)).get? name = some i →
        s.blobs.get? name = some i :=
      fun name i hname => (Dict.get?_filterKeys.1 hname).1
    have hcontains : ∀ name, name ≠ digest → s.blobs.contains name = true →
        (s.blobs.filterKeys (· ≠ digest)).contains name = true := by
      intro name hne hname
      obtain ⟨i, hi⟩ := Option.isSome_iff_exists.1 hname
      exact Option.isSome_iff_exists.2 ⟨i, Dict.get?_filterKeys.2 ⟨hi, decide_eq_true hne⟩⟩
    constructor
    case toKept =>
      exact ⟨fun row hrow => hcontains row.2 (hrows row hrow) (h.referenced row hrow),
        fun name i hname => h.genuine name i (hget name i hname), h.swept⟩
    case threads =>
      intro w'
      change ThreadInv hexdigest _ (if w' = w then _ else s.threads w')
      split
      · refine ⟨hfailed, fun hfull other hother => ?_⟩
        rcases hlisted hfull other hother with rfl | htodo | hremoved | hyoung | hgone
        · exact Or.inr (Or.inl (List.mem_append_right _ (List.mem_singleton_self _)))
        · exact Or.inl htodo
        · exact Or.inr (Or.inl (List.mem_append_left _ hremoved))
        · exact Or.inr (Or.inr (Or.inl hyoung))
        · exact Or.inr (Or.inr (Or.inr hgone))
      · have hother := h.threads w'
        have hfree := hholds w'
        cases hplace' : s.threads w' with
        | stored _ name | pruned _ name _ =>
          rw [hplace'] at hother hfree
          exact hcontains name (fun heq => hfree (congrArg some heq)) hother
        | opened _ _ _ | written _ _ _ | collecting _ _ _ | condemned _ _ _ _ =>
          rw [hplace'] at hother; exact hother
        | idle | absent _ _ | committed _ | referencing _ _ => trivial
    case alone =>
      intro w₁ w₂ name h₁ h₂
      change (if w₁ = w then Thread.collecting referenced todo _ else s.threads w₁).fills hexdigest =
        some name at h₁
      change (if w₂ = w then Thread.collecting referenced todo _ else s.threads w₂).fills hexdigest =
        some name at h₂
      split at h₁
      · cases h₁
      split at h₂
      · cases h₂
      exact h.alone w₁ w₂ name h₁ h₂
    case apart => exact fun name name' i htmp hname => h.apart name name' i htmp (hget name' i hname)
    case single => exact h.single
    case freshTmp => exact h.freshTmp
    case freshBlob => exact fun name i hname => h.freshBlob name i (hget name i hname)
  · cases hstep

/-! ## Every run -/

theorem tick_inv (h : s.Inv hexdigest) : Inv hexdigest { s with now := s.now + 1 } where
  referenced := h.referenced
  genuine := h.genuine
  swept := h.swept
  threads w' := by
    have hbefore := h.threads w'
    change ThreadInv hexdigest _ (s.threads w')
    cases hplace : s.threads w' <;> rw [hplace] at hbefore <;> exact hbefore
  alone := h.alone
  apart := h.apart
  single := h.single
  freshTmp := h.freshTmp
  freshBlob := h.freshBlob

theorem crash_inv (h : s.Inv hexdigest) : Inv hexdigest { s with threads := fun _ => .idle } where
  referenced := h.referenced
  genuine := h.genuine
  swept := h.swept
  threads _ := trivial
  alone _ _ _ hfills := by cases hfills
  apart := h.apart
  single := h.single
  freshTmp := h.freshTmp
  freshBlob := h.freshBlob

theorem step_inv {action : Action} (h : s.Inv hexdigest) (hok : s.Admits hexdigest action)
    (hstep : s.step hexdigest action = some s') : s'.Inv hexdigest := by
  cases action with
  | put w run data => exact put_inv h hstep
  | openTmp w => exact openTmp_inv h hok hstep
  | write w => exact write_inv h hstep
  | replace w => exact replace_inv h hstep
  | prune w budget => exact prune_inv h hstep
  | commit w => exact commit_inv h hstep
  | collectAll w => exact collectAll_inv h hstep
  | readRows w => exact readRows_inv h hstep
  | list w => exact list_inv h hstep
  | look w => exact look_inv h hstep
  | unlink w => exact unlink_inv h hok hstep
  | leave w =>
    cases hstep
    exact h.goto trivial rfl
  | tick =>
    cases hstep
    exact tick_inv h
  | crash =>
    cases hstep
    exact crash_inv h

end Steps
end Store

/-- Whatever the order of puts, commits, prunings, collections and deaths, what a committed row names is
there, every blob is what its name says, and a full collection removes what is old. -/
theorem evidence_kept {hexdigest : Bytes → PyStr} {s : Store}
    (h : Reachable (Store.step hexdigest) (Store.Admits hexdigest) (· = Store.empty) s) :
    s.Kept hexdigest :=
  (h.invariant (fun _ hstart => hstart ▸ Store.inv_empty)
    fun _ _ _ hinv hok hstep => Store.step_inv hinv hok hstep).toKept

/-! ## Two uploads -/

def knownDigest (data : Bytes) : PyStr :=
  if data = [] then lit "e3b0c44298fc1c149afbf4c8996fb92427ae41e4649b934ca495991b7852b855"
  else if data = [0x50, 0x4B] then
    lit "fcab7fcc2b4cffd9bb45003bfc2e468a04ef6f77ca8200a7341f027631584d25"
  else []

def ingestRun (w run : Nat) (data : Bytes) (budget : Option Nat) : List Action :=
  [.put w run data, .openTmp w, .write w, .replace w, .prune w budget, .commit w]

theorem evidence_kept_ingested :
    ∃ s : Store, s.rows = [(7, knownDigest [0x50, 0x4B])] ∧ s.Kept knownDigest := by
  have hempty : Reachable (Store.step knownDigest) (Store.Admits knownDigest) (· = Store.empty)
      Store.empty := .start rfl
  have hput := hempty.of_always [.put 0 7 [0x50, 0x4B]] (by simp [Store.Admits]) rfl
  have hopen := hput.step (a := .openTmp 0) (by
    intro run data _ w'
    change (if w' = 0 then Thread.absent 7 [0x50, 0x4B] else .idle).fills knownDigest ≠ _
    split <;> exact fun hfills => (by cases hfills)) rfl
  have hdone := hopen.of_always
    [.write 0, .replace 0, .prune 0 none, .commit 0, .readRows 0, .list 0, .look 0]
    (by simp [Store.Admits]) rfl
  exact ⟨_, rfl, evidence_kept hdone⟩

/-- A run is pruned for the budget, and its blob condemned; the same bytes are uploaded again before the
unlink. -/
def condemnedRun : List Action :=
  ingestRun 0 0 [0x50, 0x4B] none ++ ingestRun 1 1 [] (some 0) ++
    ([.readRows 1, .list 1, .look 1, .put 2 2 [0x50, 0x4B], .unlink 1, .prune 2 none, .commit 2] :
      List Action)

theorem collected_while_stored :
    ∃ s : Store, Reachable (Store.step knownDigest) (fun _ _ => True) (· = Store.empty) s ∧
      (2, knownDigest [0x50, 0x4B]) ∈ s.rows ∧
      s.blobs.contains (knownDigest [0x50, 0x4B]) = false ∧ ¬ s.Kept knownDigest := by
  obtain ⟨s, hs, htest⟩ := Reachable.exists_of_foldlM condemnedRun
    (fun s => (2, knownDigest [0x50, 0x4B]) ∈ s.rows ∧
      s.blobs.contains (knownDigest [0x50, 0x4B]) = false)
    (.start rfl : Reachable (Store.step knownDigest) (fun _ _ => True) (· = Store.empty) Store.empty)
    (by decide)
  obtain ⟨hrow, hnone⟩ := of_decide_eq_true htest
  refine ⟨s, hs, hrow, hnone, fun hkept => ?_⟩
  have hblob := hkept.referenced _ hrow
  rw [hnone] at hblob
  cases hblob

/-- Two uploads of the same bytes share the temporary file: one empties it before the other renames it. -/
def sharedRun : List Action :=
  [.put 0 0 [0x50, 0x4B], .put 1 1 [0x50, 0x4B], .openTmp 0, .write 0, .openTmp 1, .replace 0, .crash]

theorem emptied_while_renamed :
    ∃ s : Store, Reachable (Store.step knownDigest) (fun _ _ => True) (· = Store.empty) s ∧
      s.blobs.get? (knownDigest [0x50, 0x4B]) = some 0 ∧ (s.files 0).content = [] ∧
      ¬ s.Kept knownDigest := by
  obtain ⟨s, hs, htest⟩ := Reachable.exists_of_foldlM sharedRun
    (fun s => s.blobs.get? (knownDigest [0x50, 0x4B]) = some 0 ∧ (s.files 0).content = [])
    (.start rfl : Reachable (Store.step knownDigest) (fun _ _ => True) (· = Store.empty) Store.empty)
    (by decide)
  obtain ⟨hblob, hempty⟩ := of_decide_eq_true htest
  refine ⟨s, hs, hblob, hempty, fun hkept => ?_⟩
  have hgenuine := hkept.genuine _ _ hblob
  rw [hempty] at hgenuine
  exact absurd hgenuine (by decide)

/-- A blob is collected that the put of a row to come has found, and a blob is renamed from a temporary
file that another put has emptied. -/
theorem evidence_lost :
    (∃ s : Store, Reachable (Store.step knownDigest) (fun _ _ => True) (· = Store.empty) s ∧
      (2, knownDigest [0x50, 0x4B]) ∈ s.rows ∧
      s.blobs.contains (knownDigest [0x50, 0x4B]) = false ∧ ¬ s.Kept knownDigest) ∧
    ∃ s : Store, Reachable (Store.step knownDigest) (fun _ _ => True) (· = Store.empty) s ∧
      s.blobs.get? (knownDigest [0x50, 0x4B]) = some 0 ∧ (s.files 0).content = [] ∧
      ¬ s.Kept knownDigest :=
  ⟨collected_while_stored, emptied_while_renamed⟩

end BundleStore
end Tempest
