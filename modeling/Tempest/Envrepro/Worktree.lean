import Tempest.Process.Reachable
import Mathlib.Logic.Function.Basic
import Mathlib.Tactic.SplitIfs

/-!
# Worktree — processes that materialize one revision (`envrepro/worktree.py`)

The state is one entry of the cache: the lock file, the ready marker, what is at the path of the
working tree, the clocks, and where each process is in `materialize`.  A step is one file-system
step of one process, the death of a process or time going by.
-/

namespace Tempest
namespace Worktree

/-! ## The files -/

/-- What is at the path: nothing, something that is no directory, a directory that `git` has not
finished or that is half removed, or the checkout of the revision. -/
inductive Tree where
  | absent | other | unfinished | complete
  deriving DecidableEq

/-- `is_dir()`. -/
def Tree.isDir : Tree → Bool
  | .absent | .other => false
  | .unfinished | .complete => true

def Tree.shrink : Tree → Tree
  | .complete => .unfinished
  | t => t

structure Files where
  ready : Bool
  tree : Tree
  deriving DecidableEq

/-- The lock file: who created it, and its modification time in milliseconds. -/
structure Lock where
  owner : Nat
  mtime : Nat
  deriving DecidableEq

/-- `_LOCK_STALE_S`, in milliseconds. -/
def lockStale : Nat := 300000

/-- `_LOCK_WAIT_S`, in milliseconds. -/
def lockWait : Nat := 120000

/-- `_lock_is_stale`; a lock that is gone is not. -/
def lockIsStale (wall : Nat) : Option Lock → Bool
  | some lock => decide (lock.mtime + lockStale < wall)
  | none => false

/-! ## Where a process is -/

/-- Before the lock is taken.  `_is_complete` looks twice, for the marker and for the directory;
`deadline` is that of `_rebuild`.  A process in `reclaim` has given up on the lock and goes to unlink
it: `judged`, which no step reads, is the lock that was there when it did. -/
inductive Waiting where
  | isReady
  | isDir
  | rebuild
  | acquire (deadline : Nat)
  | waitReady (deadline : Nat)
  | waitDir (deadline : Nat)
  | isStale (deadline : Nat)
  | isLate (deadline : Nat)
  | reclaim (deadline : Nat) (judged : Option Lock)
  deriving DecidableEq

/-- Between `os.open` and the `unlink` of the `finally`.  `removePath` comes twice in
`_discard_incomplete`, before and after `git worktree prune`. -/
inductive Holding where
  | opened
  | isReady
  | isDir
  | treeExists
  | readyExists
  | gitRemove
  | removePath (pruned : Bool)
  | prune
  | unmark
  | add
  | adding
  | mark
  | release (raised : Bool)
  deriving DecidableEq

inductive Pc where
  | waiting (w : Waiting)
  | holding (h : Holding)
  | done (raised : Bool)
  deriving DecidableEq

/-- How a call to the system ends: well, with an error, or not yet and with some of its work done. -/
inductive Outcome where
  | ok | fails | goesOn
  deriving DecidableEq

/-! ## What a process does under the lock -/

/-- The body of the inner `try` of `_rebuild`, from the second `_is_complete` to the marker. -/
def Files.work (f : Files) : Holding → Outcome → Option (Files × Holding)
  | .isReady, .ok => some (f, if f.ready then .isDir else .treeExists)
  | .isDir, .ok => some (f, if f.tree.isDir then .release false else .treeExists)
  | .treeExists, .ok => some (f, if f.tree = .absent then .readyExists else .gitRemove)
  | .readyExists, .ok => some (f, if f.ready then .gitRemove else .add)
  -- `_discard_incomplete`, where every step may leave something behind
  | .gitRemove, .goesOn => some ({ f with tree := f.tree.shrink }, .gitRemove)
  | .gitRemove, .ok => some ({ f with tree := .absent }, .prune)
  | .gitRemove, .fails => some (f, .removePath false)
  | .removePath pruned, .goesOn => some ({ f with tree := f.tree.shrink }, .removePath pruned)
  | .removePath pruned, .ok => some ({ f with tree := .absent }, if pruned then .unmark else .prune)
  | .removePath pruned, .fails =>
    -- `rmtree` ignores errors, `unlink` does not
    some (f, if f.tree = .other then .release true else if pruned then .unmark else .prune)
  | .prune, .ok => some (f, .removePath true)
  | .unmark, .ok => some ({ f with ready := false }, .add)
  | .unmark, .fails => some (f, .release true)
  -- `git worktree add` makes the directory first and fills it then
  | .add, .ok => some ({ f with tree := .unfinished }, .adding)
  | .add, .fails => some (f, .release true)
  | .adding, .ok => some ({ f with tree := .complete }, .mark)
  | .adding, .fails => some (f, .release true)
  | .mark, .ok => some ({ f with ready := true }, .release false)
  | .mark, .fails => some (f, .release true)
  | _, _ => none

/-! ## The system -/

structure State where
  lock : Option Lock
  files : Files
  mono : Nat
  wall : Nat
  pc : Nat → Pc
  alive : Nat → Bool

inductive Action where
  | run (process : Nat) (outcome : Outcome)
  | die (process : Nat)
  | pass (mono wall : Nat)
  deriving DecidableEq

namespace State

def goto (s : State) (p : Nat) (pc : Pc) : State := { s with pc := Function.update s.pc p pc }

/-- `materialize` and the loop of `_rebuild` up to the lock. -/
def wait (s : State) (p : Nat) : Waiting → Outcome → Option State
  | .isReady, .ok => some (s.goto p (.waiting (if s.files.ready then .isDir else .rebuild)))
  | .isDir, .ok => some (s.goto p (if s.files.tree.isDir then .done false else .waiting .rebuild))
  | .rebuild, .ok => some (s.goto p (.waiting (.acquire (s.mono + lockWait))))
  | .acquire deadline, .ok =>
    match s.lock with
    | some _ => some (s.goto p (.waiting (.waitReady deadline)))
    | none => some { s.goto p (.holding .opened) with lock := some ⟨p, s.wall⟩ }
  | .acquire _, .fails => some (s.goto p (.done true))
  | .waitReady deadline, .ok =>
    some (s.goto p (.waiting (if s.files.ready then .waitDir deadline else .isStale deadline)))
  | .waitDir deadline, .ok =>
    some (s.goto p (if s.files.tree.isDir then .done false else .waiting (.isStale deadline)))
  | .isStale deadline, .ok =>
    some (s.goto p (.waiting
      (if lockIsStale s.wall s.lock then .reclaim deadline s.lock else .isLate deadline)))
  | .isLate deadline, .ok =>
    some (s.goto p (.waiting
      (if deadline < s.mono then .reclaim deadline s.lock else .acquire deadline)))
  | .reclaim deadline _, .ok =>
    -- whichever lock is there by now
    some { s.goto p (.waiting (.acquire deadline)) with lock := none }
  | .reclaim _ _, .fails => some (s.goto p (.done true))
  | _, _ => none

/-- The process id is written to the file that this process made, which a lock of another is not. -/
def touch (s : State) (p : Nat) : State :=
  { s with lock := s.lock.map fun l => if l.owner = p then { l with mtime := s.wall } else l }

def hold (s : State) (p : Nat) : Holding → Outcome → Option State
  | .opened, .ok => some ((s.touch p).goto p (.holding .isReady))
  | .opened, .fails => some (s.goto p (.done true))  -- the inner `try` is not entered yet
  | .release raised, .ok => some { s.goto p (.done raised) with lock := none }
  | .release _, .fails => some (s.goto p (.done true))
  | h, o => (s.files.work h o).map fun r => { s.goto p (.holding r.2) with files := r.1 }

/-- One step; a process that is done may call `materialize` again. -/
def step (s : State) : Action → Option State
  | .run p o =>
    if s.alive p then
      match s.pc p with
      | .waiting w => s.wait p w o
      | .holding h => s.hold p h o
      | .done _ => if o = .ok then some (s.goto p (.waiting .isReady)) else none
    else none
  | .die p => some { s with alive := Function.update s.alive p false }
  | .pass mono wall => some { s with mono := s.mono + mono, wall := wall }

end State

/-! ## What the lock is for -/

def Pc.holds : Pc → Bool
  | .holding _ => true
  | _ => false

@[grind =]
def Pc.judged : Pc → Option Lock
  | .waiting (.reclaim _ judged) => judged
  | _ => none

def State.Holds (s : State) (p : Nat) : Prop := s.alive p ∧ (s.pc p).holds

/-- No two live processes are between taking the lock and releasing it. -/
def State.Exclusive (s : State) : Prop := ∀ p q, s.Holds p → s.Holds q → p = q

/-- A lock that a step takes away is that of the process that runs, or its holder is dead. -/
def State.Rightful (s : State) (a : Action) (s' : State) : Prop :=
  ∀ l, s.lock = some l → s'.lock.map Lock.owner ≠ some l.owner →
    (∃ o, a = .run l.owner o) ∨ s.alive l.owner = false

/-- A directory under the marker is the complete checkout. -/
def Files.Sound (f : Files) : Prop := f.ready → f.tree.isDir → f.tree = .complete

/-- Every process that is alive is about to call `materialize`, and what earlier ones left behind,
which may be a lock, is sound. -/
structure State.Start (s : State) : Prop where
  calls : ∀ p, s.alive p → s.pc p = .waiting .isReady
  sound : s.files.Sound

/-- The lock that is there is nobody's that is alive, other than `p` itself. -/
def State.Free (s : State) (p : Nat) : Prop :=
  ∀ l ∈ s.lock, l.owner = p ∨ s.alive l.owner = false

/-- A process does not give up on a live holder, by the age of the lock or by its own deadline, and
unlinks the lock that it gave up on or none. -/
def Pc.Patient (s : State) (p : Nat) : Pc → Prop
  | .waiting (.isStale _) => lockIsStale s.wall s.lock → s.Free p
  | .waiting (.isLate deadline) => deadline < s.mono → s.Free p
  | .waiting (.reclaim _ judged) => s.lock = none ∨ s.lock = judged
  | _ => True

def State.Patient (s : State) : Action → Prop
  | .run p _ => (s.pc p).Patient s p
  | _ => True

instance (s : State) (p : Nat) : Decidable (s.Free p) :=
  inferInstanceAs (Decidable (∀ l ∈ s.lock, l.owner = p ∨ s.alive l.owner = false))

instance (s : State) (p : Nat) : (pc : Pc) → Decidable (pc.Patient s p)
  | .waiting (.isStale _) => inferInstanceAs (Decidable (lockIsStale s.wall s.lock → s.Free p))
  | .waiting (.isLate deadline) => inferInstanceAs (Decidable (deadline < s.mono → s.Free p))
  | .waiting (.reclaim _ judged) => inferInstanceAs (Decidable (s.lock = none ∨ s.lock = judged))
  | .waiting .isReady | .waiting .isDir | .waiting .rebuild | .waiting (.acquire _)
  | .waiting (.waitReady _) | .waiting (.waitDir _) | .holding _ | .done _ => isTrue trivial

instance (s : State) : (a : Action) → Decidable (s.Patient a)
  | .run p _ => inferInstanceAs (Decidable ((s.pc p).Patient s p))
  | .die _ | .pass _ _ => isTrue trivial

/-! ## The files under the lock -/

def Holding.Knows (f : Files) : Holding → Prop
  | .opened | .isReady | .release _ => True
  | .isDir => f.ready
  | .treeExists | .gitRemove | .removePath _ | .prune | .unmark => ¬(f.ready ∧ f.tree.isDir)
  | .readyExists => f.tree = .absent
  | .add | .adding => f.ready = false
  | .mark => f.tree = .complete

theorem Tree.isDir_shrink (t : Tree) : t.shrink.isDir = t.isDir := by cases t <;> rfl

theorem Files.sound_of_not {f : Files} (h : ¬(f.ready ∧ f.tree.isDir)) : f.Sound :=
  fun hready hdir => absurd ⟨hready, hdir⟩ h

theorem Files.work_knows {f f' : Files} {h h' : Holding} {o : Outcome} (hs : f.Sound)
    (hk : h.Knows f) (hw : f.work h o = some (f', h')) : f'.Sound ∧ h'.Knows f' := by
  -- an outcome that the step does not have leaves nothing to show
  cases h with
  | opened | release _ => cases o <;> cases hw
  | isReady =>
    cases o <;> cases hw
    refine ⟨hs, ?_⟩
    split_ifs with hready
    · exact hready
    · exact fun h => hready h.1
  | isDir =>
    cases o <;> cases hw
    refine ⟨hs, ?_⟩
    split_ifs with hdir
    · trivial
    · exact fun h => hdir h.2
  | treeExists =>
    cases o <;> cases hw
    refine ⟨hs, ?_⟩
    split_ifs with habsent
    · exact habsent
    · exact hk
  | readyExists =>
    cases o <;> cases hw
    refine ⟨hs, ?_⟩
    have habsent : f.tree = .absent := hk
    split_ifs with hready
    · simp [Holding.Knows, habsent, Tree.isDir]
    · simpa [Holding.Knows] using hready
  | gitRemove =>
    cases o with
    | ok =>
      cases hw
      exact ⟨sound_of_not (by simp [Tree.isDir]), by simp [Holding.Knows, Tree.isDir]⟩
    | fails =>
      cases hw
      exact ⟨hs, hk⟩
    | goesOn =>
      cases hw
      have hnot : ¬(f.ready ∧ f.tree.shrink.isDir) := by rwa [Tree.isDir_shrink]
      exact ⟨sound_of_not hnot, hnot⟩
  | removePath pruned =>
    cases o with
    | ok =>
      cases hw
      have hnot : ¬(f.ready ∧ Tree.absent.isDir) := by simp [Tree.isDir]
      exact ⟨sound_of_not hnot, by cases pruned <;> exact hnot⟩
    | fails =>
      cases hw
      refine ⟨hs, ?_⟩
      split_ifs
      · trivial
      · exact hk
      · exact hk
    | goesOn =>
      cases hw
      have hnot : ¬(f.ready ∧ f.tree.shrink.isDir) := by rwa [Tree.isDir_shrink]
      exact ⟨sound_of_not hnot, hnot⟩
  | prune =>
    cases o <;> cases hw
    exact ⟨hs, hk⟩
  | unmark =>
    cases o <;> cases hw
    · exact ⟨sound_of_not (by simp), rfl⟩
    · exact ⟨hs, trivial⟩
  | add =>
    have hready : f.ready = false := hk
    cases o <;> cases hw
    · exact ⟨sound_of_not (by simp [hready]), hready⟩
    · exact ⟨hs, trivial⟩
  | adding =>
    have hready : f.ready = false := hk
    cases o <;> cases hw
    · exact ⟨sound_of_not (by simp [hready]), rfl⟩
    · exact ⟨hs, trivial⟩
  | mark =>
    have htree : f.tree = .complete := hk
    cases o <;> cases hw
    · exact ⟨fun _ _ => htree, trivial⟩
    · exact ⟨hs, trivial⟩

/-! ## The invariant -/

/-- A live process under the lock is the owner of the lock that is there and knows about the files
what its place says; a lock that a live process has given up on is nobody's. -/
structure State.Inv (s : State) : Prop where
  owns : ∀ p, s.Holds p → ∃ l, s.lock = some l ∧ l.owner = p
  knows : ∀ p h, s.alive p → s.pc p = .holding h → h.Knows s.files
  judged : ∀ p, s.alive p → ∀ l ∈ (s.pc p).judged, l.owner = p ∨ s.alive l.owner = false
  sound : s.files.Sound

namespace State

variable {s s' : State} {p : Nat}

theorem Start.inv (h : s.Start) : s.Inv where
  owns p hp := by simpa [h.calls p hp.1, Pc.holds] using hp.2
  knows p _ hp hpc := by simp [h.calls p hp] at hpc
  judged p hp l hl := by simp [h.calls p hp, Pc.judged] at hl
  sound := h.sound

theorem Inv.exclusive (h : s.Inv) : s.Exclusive := by
  intro p q hp hq
  obtain ⟨l, hl, rfl⟩ := h.owns p hp
  obtain ⟨l', hl', rfl⟩ := h.owns q hq
  rw [hl] at hl'
  rw [Option.some.inj hl']

theorem Holds.holds (h : s.alive p) {x : Holding} (hpc : s.pc p = .holding x) : s.Holds p :=
  ⟨h, by rw [hpc]; rfl⟩

/-! ## Steps that keep the invariant -/

theorem Inv.held_alone (h : s.Inv) (hp : s.Holds p) : ∀ q, s.Holds q → q = p :=
  fun q hq => h.exclusive q p hq hp

/-- A lock that is nobody's, other than the process itself, is held by no other. -/
theorem Inv.free_alone (h : s.Inv) (hfree : s.Free p) : ∀ q, s.Holds q → q = p := by
  intro q hq
  obtain ⟨l, hl, rfl⟩ := h.owns q hq
  rcases hfree l hl with hown | hdead
  · exact hown
  · simp [hq.1] at hdead

/-- A process moves.  It changes the lock and the files only where no other holds the lock. -/
theorem Inv.move (h : s.Inv) {pc : Pc} {lock : Option Lock} {files : Files}
    (hlock : lock.map Lock.owner = s.lock.map Lock.owner ∨ ∀ q, s.Holds q → q = p)
    (hfiles : files = s.files ∨ ∀ q, s.Holds q → q = p)
    (howns : pc.holds → ∃ l, lock = some l ∧ l.owner = p)
    (hknows : ∀ x, pc = .holding x → x.Knows files)
    (hjudged : ∀ l ∈ pc.judged, l.owner = p ∨ s.alive l.owner = false)
    (hsound : files.Sound) : State.Inv { s.goto p pc with lock := lock, files := files } where
  owns q hq := by
    obtain ⟨hlive, hholds⟩ := hq
    by_cases hqp : q = p
    · subst hqp
      exact howns (by simpa [State.goto] using hholds)
    · have hq : s.Holds q := ⟨hlive, by simpa [State.goto, hqp] using hholds⟩
      rcases hlock with hsame | halone
      · obtain ⟨l, hl, hown⟩ := h.owns q hq
        rw [hl, Option.map_some, Option.map_eq_some_iff] at hsame
        obtain ⟨l', hl', hsame⟩ := hsame
        exact ⟨l', hl', hsame.trans hown⟩
      · exact absurd (halone q hq) hqp
  knows q x hlive hq := by
    by_cases hqp : q = p
    · subst hqp
      exact hknows x (by simpa [State.goto] using hq)
    · have hpc : s.pc q = .holding x := by simpa [State.goto, hqp] using hq
      rcases hfiles with rfl | halone
      · exact h.knows q x hlive hpc
      · exact absurd (halone q (Holds.holds hlive hpc)) hqp
  judged q hlive l hl := by
    by_cases hqp : q = p
    · subst hqp
      exact hjudged l (by simpa [State.goto] using hl)
    · exact h.judged q hlive l (by simpa [State.goto, hqp] using hl)
  sound := hsound

/-- A process goes on without the lock. -/
theorem Inv.walk (h : s.Inv) {pc : Pc} (hpc : pc.holds = false)
    (hjudged : ∀ l ∈ pc.judged, l.owner = p ∨ s.alive l.owner = false) : (s.goto p pc).Inv :=
  h.move (.inl rfl) (.inl rfl) (by simp [hpc]) (fun x hx => by simp [hx, Pc.holds] at hpc) hjudged
    h.sound

/-- A process takes away the lock that no other holds. -/
theorem Inv.unlock (h : s.Inv) {pc : Pc} (hpc : pc.holds = false) (hjudged : pc.judged = none)
    (halone : ∀ q, s.Holds q → q = p) : State.Inv { s.goto p pc with lock := none } :=
  h.move (.inr halone) (.inl rfl) (by simp [hpc]) (fun x hx => by simp [hx, Pc.holds] at hpc)
    (by simp [hjudged]) h.sound

/-- What a patient process unlinks is nobody's, other than its own. -/
theorem Inv.reclaim_free (h : s.Inv) (hp : s.alive p) {deadline : Nat} {judged : Option Lock}
    (hpc : s.pc p = .waiting (.reclaim deadline judged)) (hlock : s.lock = none ∨ s.lock = judged) :
    s.Free p := by
  intro l hl
  rcases hlock with hnone | hsame
  · simp [hnone] at hl
  · refine h.judged p hp l ?_
    rw [hpc, Pc.judged, ← hsame]
    exact hl

theorem wait_inv {w : Waiting} {o : Outcome} (h : s.Inv) (hp : s.alive p)
    (hpc : s.pc p = .waiting w) (hok : s.Patient (.run p o)) (hw : s.wait p w o = some s') :
    s'.Inv := by
  simp only [Patient, hpc] at hok
  cases w with
  | isReady | isDir =>
    cases o <;> cases hw
    split_ifs
    all_goals exact h.walk rfl (by simp [Pc.judged])
  | rebuild =>
    cases o <;> cases hw
    exact h.walk rfl (by simp [Pc.judged])
  | acquire deadline =>
    cases o with
    | goesOn => cases hw
    | fails =>
      cases hw
      exact h.walk rfl (by simp [Pc.judged])
    | ok =>
      cases hlock : s.lock with
      | some l =>
        rw [wait, hlock] at hw
        cases hw
        exact h.walk rfl (by simp [Pc.judged])
      | none =>
        -- with no lock there is no holder
        rw [wait, hlock] at hw
        cases hw
        have hfree : s.Free p := by simp [Free, hlock]
        exact h.move (.inr (h.free_alone hfree)) (.inl rfl) (fun _ => ⟨_, rfl, rfl⟩)
          (fun x hx => by cases hx; trivial) (by simp [Pc.judged]) h.sound
  | waitReady _ | waitDir _ =>
    cases o <;> cases hw
    split_ifs
    all_goals exact h.walk rfl (by simp [Pc.judged])
  | isStale deadline =>
    cases o <;> cases hw
    split_ifs with hstale
    · exact h.walk rfl (hok hstale)
    · exact h.walk rfl (by simp [Pc.judged])
  | isLate deadline =>
    cases o <;> cases hw
    split_ifs with hlate
    · exact h.walk rfl (hok hlate)
    · exact h.walk rfl (by simp [Pc.judged])
  | reclaim deadline judged =>
    cases o with
    | goesOn => cases hw
    | fails =>
      cases hw
      exact h.walk rfl (by simp [Pc.judged])
    | ok =>
      cases hw
      exact h.unlock rfl rfl (h.free_alone (h.reclaim_free hp hpc hok))

theorem touch_owned {l : Lock} (hl : s.lock = some l) :
    (s.touch l.owner).lock = some { l with mtime := s.wall } := by
  rw [touch, hl, Option.map_some, if_pos rfl]

theorem hold_inv {x : Holding} {o : Outcome} (h : s.Inv) (hp : s.alive p)
    (hpc : s.pc p = .holding x) (hw : s.hold p x o = some s') : s'.Inv := by
  have halone := h.held_alone (Holds.holds hp hpc)
  obtain ⟨l, hl, rfl⟩ := h.owns p (Holds.holds hp hpc)
  have hwork : (s.files.work x o).map
      (fun r => ({ s.goto l.owner (.holding r.2) with files := r.1 } : State)) = some s' → s'.Inv := by
    intro hmap
    obtain ⟨⟨f, y⟩, hr, rfl⟩ := Option.map_eq_some_iff.1 hmap
    obtain ⟨hsound, hknows⟩ := Files.work_knows h.sound (h.knows l.owner x hp hpc) hr
    exact h.move (.inl rfl) (.inr halone) (fun _ => ⟨l, hl, rfl⟩)
      (fun z hz => by cases hz; exact hknows) (by simp [Pc.judged]) hsound
  cases x with
  | opened =>
    cases o with
    | goesOn => cases hw
    | fails =>
      cases hw
      exact h.walk rfl (by simp [Pc.judged])
    | ok =>
      cases hw
      exact h.move (.inr halone) (.inl rfl) (fun _ => ⟨_, touch_owned hl, rfl⟩)
        (fun y hy => by cases hy; trivial) (by simp [Pc.judged]) h.sound
  | release raised =>
    cases o with
    | goesOn => cases hw
    | fails =>
      cases hw
      exact h.walk rfl (by simp [Pc.judged])
    | ok =>
      cases hw
      exact h.unlock rfl rfl halone
  | _ => exact hwork hw

/-- A process that dies holds no lock, and no one else's changes hands. -/
theorem Inv.die (h : s.Inv) (p : Nat) :
    State.Inv { s with alive := Function.update s.alive p false } := by
  have hlive : ∀ q, Function.update s.alive p false q → s.alive q := by
    intro q hq
    by_cases hqp : q = p
    · simp [hqp] at hq
    · simpa [hqp] using hq
  have hdead : ∀ q, s.alive q = false → Function.update s.alive p false q = false := by
    intro q hq
    by_cases hqp : q = p
    · simp [hqp]
    · simpa [hqp] using hq
  exact {
    owns := fun q hq => h.owns q ⟨hlive q hq.1, hq.2⟩
    knows := fun q x hq hpc => h.knows q x (hlive q hq) hpc
    judged := fun q hq l hl => (h.judged q (hlive q hq) l hl).imp_right (hdead l.owner)
    sound := h.sound }

theorem step_run {o : Outcome} (h : s.step (.run p o) = some s') :
    s.alive p ∧
      ((∃ w, s.pc p = .waiting w ∧ s.wait p w o = some s') ∨
        (∃ x, s.pc p = .holding x ∧ s.hold p x o = some s') ∨
        ∃ raised, s.pc p = .done raised ∧ s' = s.goto p (.waiting .isReady)) := by
  by_cases hp : s.alive p
  · refine ⟨hp, ?_⟩
    rw [step, if_pos hp] at h
    cases hpc : s.pc p with
    | waiting w => exact .inl ⟨w, rfl, by rwa [hpc] at h⟩
    | holding x => exact .inr (.inl ⟨x, rfl, by rwa [hpc] at h⟩)
    | done raised =>
      rw [hpc] at h
      cases o <;> cases h
      exact .inr (.inr ⟨raised, rfl, rfl⟩)
  · rw [step, if_neg hp] at h
    cases h

theorem step_inv {a : Action} (h : s.Inv) (hok : s.Patient a) (hstep : s.step a = some s') :
    s'.Inv := by
  cases a with
  | die p =>
    cases hstep
    exact h.die p
  | pass mono wall =>
    cases hstep
    exact ⟨h.owns, h.knows, h.judged, h.sound⟩
  | run p o =>
    obtain ⟨hp, ⟨w, hpc, hw⟩ | ⟨x, hpc, hx⟩ | ⟨raised, hpc, rfl⟩⟩ := step_run hstep
    · exact wait_inv h hp hpc hok hw
    · exact hold_inv h hp hpc hx
    · exact h.walk rfl (by simp [Pc.judged])

/-! ## Which locks a step takes away -/

/-- A step that takes the lock of another away is the `unlink` of one that waits, or of one that
holds. -/
theorem wait_keeps {w : Waiting} {o : Outcome} {l : Lock} (hl : s.lock = some l)
    (hw : s.wait p w o = some s') :
    s'.lock = some l ∨ ∃ deadline judged, w = .reclaim deadline judged := by
  cases w with
  | reclaim deadline judged => exact .inr ⟨deadline, judged, rfl⟩
  | acquire deadline =>
    left
    cases o with
    | goesOn => cases hw
    | fails =>
      cases hw
      exact hl
    | ok =>
      rw [wait, hl] at hw
      cases hw
      exact hl
  | _ =>
    left
    cases o <;> cases hw
    exact hl

theorem rightful {a : Action} (h : s.Inv) (hok : s.Patient a) (hstep : s.step a = some s') :
    s.Rightful a s' := by
  intro l hl hgone
  cases a with
  | die _ | pass _ _ =>
    cases hstep
    exact absurd (by rw [hl]; rfl) hgone
  | run p o =>
    obtain ⟨hp, ⟨w, hpc, hw⟩ | ⟨x, hpc, hx⟩ | ⟨raised, hpc, rfl⟩⟩ := step_run hstep
    · rcases wait_keeps hl hw with hsame | ⟨deadline, judged, rfl⟩
      · exact absurd (by rw [hsame]; rfl) hgone
      · simp only [Patient, hpc] at hok
        rcases h.reclaim_free hp hpc hok l hl with rfl | hdead
        · exact .inl ⟨o, rfl⟩
        · exact .inr hdead
    · -- a holder has no lock but its own to take away
      obtain ⟨l', hl', rfl⟩ := h.owns p (Holds.holds hp hpc)
      rw [hl] at hl'
      cases hl'
      exact .inl ⟨o, rfl⟩
    · exact absurd (by simp only [goto, hl, Option.map_some]) hgone

end State

/-! ## Every run -/

/-- In a run whose steps are patient no two live processes hold the lock, no process takes away a lock
that is neither its own nor a dead one's, and a directory under the marker is complete. -/
theorem materialize_exclusive {s : State} (h : Reachable State.step State.Patient State.Start s) :
    s.Exclusive ∧ s.files.Sound ∧
      ∀ a s', s.Patient a → s.step a = some s' → s.Rightful a s' := by
  have hstart : ∀ s, State.Start s → s.Inv := fun _ hs => hs.inv
  have hstep : ∀ s a s', State.Inv s → s.Patient a → s.step a = some s' → s'.Inv :=
    fun _ _ _ hs hok hrun => State.step_inv hs hok hrun
  have hinv := Reachable.invariant hstart hstep h
  exact ⟨hinv.exclusive, hinv.sound, fun a s' hok hrun => State.rightful hinv hok hrun⟩

/-- Nothing is there but the lock of process 9, which died ten minutes ago. -/
def State.abandoned : State where
  lock := some ⟨9, 0⟩
  files := ⟨false, .absent⟩
  mono := 0
  wall := 600000
  pc := fun _ => .waiting .isReady
  alive := fun p => p != 9

theorem State.abandoned_start : State.abandoned.Start :=
  ⟨fun _ _ => rfl, fun h => by cases h⟩

/-- The steps of a process, all of which end well. -/
def goes (p n : Nat) : List Action := List.replicate n (.run p .ok)

/-- Process 0 reclaims the lock and is checking the revision out, process 1 waits for it. -/
theorem materialize_exclusive_reclaimed :
    ∃ s : State, s.Holds 0 ∧ s.files.tree = .unfinished ∧ (s.pc 1).holds = false ∧
      s.Exclusive ∧ s.files.Sound ∧
      ∀ a s', s.Patient a → s.step a = some s' → s.Rightful a s' := by
  let test (s : State) : Bool := decide (s.alive 0 ∧ (s.pc 0).holds ∧ s.files.tree = .unfinished ∧
    s.pc 1 = .waiting (.acquire lockWait))
  have hrun : ∃ s, Reachable State.step State.Patient State.Start s ∧ test s :=
    Reachable.exists_of_foldlM (goes 0 12 ++ goes 1 6) test (.start State.abandoned_start)
      (by decide)
  obtain ⟨s, hs, htest⟩ := hrun
  obtain ⟨hlive, hholds, htree, hwaits⟩ := of_decide_eq_true htest
  exact ⟨s, ⟨hlive, hholds⟩, htree, by rw [hwaits]; rfl, materialize_exclusive hs⟩

def State.untouched : State where
  lock := none
  files := ⟨false, .absent⟩
  mono := 0
  wall := 0
  pc := fun _ => .waiting .isReady
  alive := fun _ => true

theorem State.untouched_start : State.untouched.Start :=
  ⟨fun _ _ => rfl, fun h => by cases h⟩

/-- A checkout that takes longer than two minutes: process 1 takes the lock of process 0, which writes
the marker while process 1 removes the tree. -/
def slowHolder : List Action :=
  goes 0 8 ++ goes 1 5 ++ [.pass 120001 120001] ++ goes 1 6 ++ goes 0 2 ++ [.run 1 .goesOn]

/-- Processes 0 and 1 give up on the lock of a dead process, and process 0 reclaims it. -/
def twoReclaimers : List Action := goes 0 5 ++ goes 1 5 ++ goes 0 2

/-- Two live processes hold the lock and a marked tree is not complete; the lock of a live process is
taken away by another. -/
theorem slow_holder_loses_lock :
    (∃ s, Reachable State.step (fun _ _ => True) State.Start s ∧ ¬s.Exclusive ∧ ¬s.files.Sound) ∧
      ∃ s a s', Reachable State.step (fun _ _ => True) State.Start s ∧ s.step a = some s' ∧
        ¬s.Rightful a s' := by
  constructor
  · let test (s : State) : Bool := decide (s.alive 0 ∧ s.alive 1 ∧ (s.pc 0).holds ∧ (s.pc 1).holds ∧
      s.files = ⟨true, .unfinished⟩)
    have hrun : ∃ s, Reachable State.step (fun _ _ => True) State.Start s ∧ test s :=
      Reachable.exists_of_foldlM slowHolder test (.start State.untouched_start) (by decide)
    obtain ⟨s, hs, htest⟩ := hrun
    obtain ⟨hlive, hlive', hholds, hholds', hfiles⟩ := of_decide_eq_true htest
    refine ⟨s, hs, fun h => ?_, fun h => ?_⟩
    · exact absurd (h 0 1 ⟨hlive, hholds⟩ ⟨hlive', hholds'⟩) (by decide)
    · rw [hfiles] at h
      exact absurd (h rfl rfl) (by decide)
  · let test (s : State) : Bool := decide (s.alive 0 ∧ s.lock = some ⟨0, 600000⟩) &&
      (s.step (.run 1 .ok)).any fun s' => s'.lock = none
    have hrun : ∃ s, Reachable State.step (fun _ _ => True) State.Start s ∧ test s :=
      Reachable.exists_of_foldlM twoReclaimers test (.start State.abandoned_start) (by decide)
    obtain ⟨s, hs, htest⟩ := hrun
    rw [Bool.and_eq_true, Option.any_eq_true] at htest
    obtain ⟨hbefore, s', hs', hafter⟩ := htest
    obtain ⟨hlive, hlock⟩ := of_decide_eq_true hbefore
    refine ⟨s, .run 1 .ok, s', hs, hs', fun h => ?_⟩
    rcases h _ hlock (by rw [of_decide_eq_true hafter]; simp) with ⟨o, ho⟩ | hdead
    · cases ho
    · rw [hlive] at hdead
      cases hdead

end Worktree
end Tempest
