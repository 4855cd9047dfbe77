import Tempest.Process.Custody
import Tempest.Process.Reachable

/-!
# Supervisor — the sidecar of the shell (`supervisor.rs`)

The threads that run `start`, `monitor_loop` and `shutdown` by their steps: every use of `live` under
its lock, the reads of `shutting_down`, the spawn of the process and what `spawn_child` does after it.
`start` holds the lock while it spawns and the monitor does not.  Process groups are numbered as they
come; a group can outlive the child that leads it.

`no_orphan` is about the runs in which a process is spawned, stored and taken by `shutdown` only while
no other thread has a live one, none is spawned after `shutdown` has begun, and `spawn_child` does not
fail with the process left running.
-/

namespace Tempest
namespace Supervise

/-- Where a thread is.  The thread of a `start` stands for the monitor it leaves. -/
inductive Phase where
  | new
  /-- `start`, with the lock, in `spawn_child`. -/
  | starting (child : Nat)
  /-- `start`, in `wait_healthy`. -/
  | settling
  | polling
  | looking
  | rechecking
  | backoff
  /-- The monitor, in `spawn_child`. -/
  | preparing (child : Nat)
  | publishing (child : Nat)
  | verifying
  | taking
  | sweeping (child : Nat)
  | waiting
  /-- `shutdown`, after it has set the flag. -/
  | flagged
  | stopping (child : Nat)
  | returned
  | over
  deriving DecidableEq

def Phase.child : Phase → Option Nat
  | .starting child | .preparing child | .publishing child | .sweeping child | .stopping child =>
    some child
  | .new | .settling | .polling | .looking | .rechecking | .backoff | .verifying | .taking | .waiting
  | .flagged | .returned | .over => none

/-- How `spawn_child` ends once the process runs. -/
inductive Outcome where
  | live
  | swept
  | leaked
  deriving DecidableEq

/-- `Supervisor`, its threads, the `start` that has the lock, the groups that are alive and the children
that have exited.  No step reads whether a `shutdown` has returned and what was spawned after that. -/
structure Supervisor where
  slot : Option Nat
  lock : Option Nat
  shuttingDown : Bool
  threads : Nat → Phase
  next : Nat
  alive : Finset Nat
  exited : Finset Nat
  down : Bool
  late : List Nat

inductive Action where
  | start (i : Nat) (succeeds : Bool)
  | prepared (i : Nat) (outcome : Outcome)
  | settle (i : Nat) (succeeds : Bool)
  | check (i : Nat)
  | look (i : Nat)
  | recheck (i : Nat)
  | respawn (i : Nat) (succeeds : Bool)
  | ready (i : Nat) (outcome : Outcome)
  | store (i : Nat)
  | verify (i : Nat)
  | take (i : Nat)
  | sweep (i : Nat)
  | resume (i : Nat)
  | flag (i : Nat)
  | takeDown (i : Nat)
  | kill (i : Nat)
  | callFails
  | exit (child : Nat)
  | dies (child : Nat)

namespace Supervisor

def goto (s : Supervisor) (i : Nat) (phase : Phase) : Supervisor :=
  { s with threads := fun k => if k = i then phase else s.threads k }

def killGroup (s : Supervisor) (child : Nat) : Supervisor := { s with alive := s.alive.erase child }

/-- `command.spawn()` in a thread. -/
def spawn (s : Supervisor) (i : Nat) (phase : Nat → Phase) : Supervisor :=
  { s.goto i (phase s.next) with
    next := s.next + 1
    alive := insert s.next s.alive
    late := if s.down then s.late ++ [s.next] else s.late }

/-! ## `start` -/

def start (s : Supervisor) (i : Nat) (succeeds : Bool) : Option Supervisor :=
  if s.threads i = .new ∧ s.lock = none then
    match s.slot with
    | some _ => some (s.goto i .settling)
    | none =>
      if succeeds then some { s.spawn i .starting with lock := some i }
      else some (s.goto i .over)
  else none

def prepared (s : Supervisor) (i : Nat) (outcome : Outcome) : Option Supervisor :=
  match s.threads i with
  | .starting child =>
    match outcome with
    | .live => some { s.goto i .settling with slot := some child, lock := none }
    | .swept => some { (s.killGroup child).goto i .over with lock := none }
    | .leaked => some { s.goto i .over with lock := none }
  | _ => none

/-- `wait_healthy` and the thread of the monitor. -/
def settle (s : Supervisor) (i : Nat) (succeeds : Bool) : Option Supervisor :=
  match s.threads i with
  | .settling => some (s.goto i (if succeeds then .polling else .over))
  | _ => none

/-! ## `monitor_loop` -/

def check (s : Supervisor) (i : Nat) : Option Supervisor :=
  match s.threads i with
  | .polling => some (s.goto i (if s.shuttingDown then .over else .looking))
  | _ => none

/-- `try_wait` under the lock; a child that has exited is taken and its group swept. -/
def look (s : Supervisor) (i : Nat) : Option Supervisor :=
  if s.threads i = .looking ∧ s.lock = none then
    match s.slot with
    | none => some (s.goto i .rechecking)
    | some child =>
      if child ∈ s.exited then some { (s.killGroup child).goto i .rechecking with slot := none }
      else some (s.goto i .polling)
  else none

def recheck (s : Supervisor) (i : Nat) : Option Supervisor :=
  match s.threads i with
  | .rechecking => some (s.goto i (if s.shuttingDown then .over else .backoff))
  | _ => none

def respawn (s : Supervisor) (i : Nat) (succeeds : Bool) : Option Supervisor :=
  match s.threads i with
  | .backoff => some (if succeeds then s.spawn i .preparing else s.goto i .polling)
  | _ => none

def ready (s : Supervisor) (i : Nat) (outcome : Outcome) : Option Supervisor :=
  match s.threads i with
  | .preparing child =>
    match outcome with
    | .live => some (s.goto i (.publishing child))
    | .swept => some ((s.killGroup child).goto i .polling)
    | .leaked => some (s.goto i .polling)
  | _ => none

def store (s : Supervisor) (i : Nat) : Option Supervisor :=
  match s.threads i with
  | .publishing child =>
    if s.lock = none then some { s.goto i .verifying with slot := some child } else none
  | _ => none

def verify (s : Supervisor) (i : Nat) : Option Supervisor :=
  match s.threads i with
  | .verifying => some (s.goto i (if s.shuttingDown then .taking else .waiting))
  | _ => none

def take (s : Supervisor) (i : Nat) : Option Supervisor :=
  if s.threads i = .taking ∧ s.lock = none then
    match s.slot with
    | some child => some { s.goto i (.sweeping child) with slot := none }
    | none => some (s.goto i .over)
  else none

def sweep (s : Supervisor) (i : Nat) : Option Supervisor :=
  match s.threads i with
  | .sweeping child => some ((s.killGroup child).goto i .over)
  | _ => none

/-- `wait_healthy` returns. -/
def resume (s : Supervisor) (i : Nat) : Option Supervisor :=
  match s.threads i with
  | .waiting => some (s.goto i .polling)
  | _ => none

/-! ## `shutdown`, and what happens by itself -/

def flag (s : Supervisor) (i : Nat) : Option Supervisor :=
  match s.threads i with
  | .new => some { s.goto i .flagged with shuttingDown := true }
  | _ => none

def takeDown (s : Supervisor) (i : Nat) : Option Supervisor :=
  if s.threads i = .flagged ∧ s.lock = none then
    match s.slot with
    | some child => some { s.goto i (.stopping child) with slot := none }
    | none => some { s.goto i .returned with down := true }
  else none

def kill (s : Supervisor) (i : Nat) : Option Supervisor :=
  match s.threads i with
  | .stopping child => some { (s.killGroup child).goto i .returned with down := true }
  | _ => none

def callFails (s : Supervisor) : Option Supervisor :=
  if s.lock = none then
    match s.slot with
    | some child => some { s.killGroup child with slot := none }
    | none => none
  else none

def step (s : Supervisor) : Action → Option Supervisor
  | .start i succeeds => s.start i succeeds
  | .prepared i outcome => s.prepared i outcome
  | .settle i succeeds => s.settle i succeeds
  | .check i => s.check i
  | .look i => s.look i
  | .recheck i => s.recheck i
  | .respawn i succeeds => s.respawn i succeeds
  | .ready i outcome => s.ready i outcome
  | .store i => s.store i
  | .verify i => s.verify i
  | .take i => s.take i
  | .sweep i => s.sweep i
  | .resume i => s.resume i
  | .flag i => s.flag i
  | .takeDown i => s.takeDown i
  | .kill i => s.kill i
  | .callFails => s.callFails
  | .exit child => some { s with exited := insert child s.exited }
  | .dies child => if child ∈ s.exited then some (s.killGroup child) else none

def idle : Supervisor where
  slot := none
  lock := none
  shuttingDown := false
  threads := fun _ => .new
  next := 0
  alive := ∅
  exited := ∅
  down := false
  late := []

/-! ## The property -/

/-- One group, and none after `shutdown`. -/
structure Swept (s : Supervisor) : Prop where
  single : ∀ c ∈ s.alive, ∀ c' ∈ s.alive, c = c'
  none : ∀ i, s.threads i = .returned → s.alive = ∅
  notLate : s.late = []

inductive Holder where
  | slot
  | thread (i : Nat)
  deriving DecidableEq

def held (s : Supervisor) : Holder → Option Nat
  | .slot => s.slot
  | .thread i => (s.threads i).child

/-- No thread and no slot has a live group, and no `shutdown` has begun. -/
def Spare (s : Supervisor) : Prop :=
  s.shuttingDown = false ∧ ∀ x c, s.held x = some c → c ∉ s.alive

def Orderly (s : Supervisor) : Action → Prop
  | .start _ succeeds => succeeds = true → s.slot = none → s.Spare
  | .respawn _ succeeds => succeeds = true → s.Spare
  | .prepared _ outcome | .ready _ outcome => outcome ≠ .leaked
  | .store _ => ∀ c, s.slot = some c → c ∉ s.alive
  | .takeDown _ => ∀ i c, (s.threads i).child = some c → c ∉ s.alive
  | _ => True

/-! ## The invariant -/

@[grind =]
def PhaseInv (s : Supervisor) (i : Nat) : Phase → Prop
  | .starting _ => s.lock = some i ∧ s.slot = none
  | .flagged => s.shuttingDown = true
  | .stopping child => s.shuttingDown = true ∧ s.alive ⊆ {child}
  | .returned => s.shuttingDown = true ∧ s.alive = ∅
  | _ => True

structure Inv (s : Supervisor) : Prop where
  custody : Custody s.held s.alive
  threads : ∀ i, s.PhaseInv i (s.threads i)
  down : s.down = true → s.shuttingDown = true
  notLate : s.late = []

variable {s s' : Supervisor} {i child : Nat} {phase : Phase}

theorem Inv.swept (h : s.Inv) : s.Swept where
  single := h.custody.single
  none := by
    intro i hreturned
    have hinv : s.shuttingDown = true ∧ s.alive = ∅ := by
      simpa [PhaseInv, hreturned] using h.threads i
    exact hinv.2
  notLate := h.notLate

theorem inv_idle : idle.Inv where
  custody := Custody.of_empty
  threads := fun _ => trivial
  down := fun h => by cases h
  notLate := rfl

/-- The flag stays set, groups end, and the slot is another thread's to change. -/
theorem PhaseInv.shrinks {k : Nat} (h : s.PhaseInv k phase)
    (hlock : s.lock = some k → s'.lock = some k ∧ s'.slot = s.slot)
    (hflag : s.shuttingDown = true → s'.shuttingDown = true) (hsub : s'.alive ⊆ s.alive) :
    s'.PhaseInv k phase := by
  cases phase
  case starting child =>
    obtain ⟨hk, hslot⟩ := hlock h.1
    exact ⟨hk, hslot.trans h.2⟩
  case flagged => exact hflag h
  case stopping child => exact ⟨hflag h.1, hsub.trans h.2⟩
  case returned => exact ⟨hflag h.1, Finset.subset_empty.1 (h.2 ▸ hsub)⟩
  all_goals trivial

/-- What a step that starts nothing has to show. -/
theorem Inv.frame (h : s.Inv) (hcustody : Custody s'.held s'.alive)
    (hothers : ∀ k, k ≠ i → s'.threads k = s.threads k) (hi : s'.PhaseInv i (s'.threads i))
    (hlock : ∀ k, k ≠ i → s.lock = some k → s'.lock = some k ∧ s'.slot = s.slot)
    (hflag : s.shuttingDown = true → s'.shuttingDown = true) (hsub : s'.alive ⊆ s.alive)
    (hdown : s'.down = true → s'.shuttingDown = true) (hlate : s'.late = s.late) : s'.Inv where
  custody := hcustody
  threads := by
    intro k
    by_cases hk : k = i
    · exact hk ▸ hi
    · rw [hothers k hk]
      exact (h.threads k).shrinks (hlock k hk) hflag hsub
  down := hdown
  notLate := hlate.trans h.notLate

@[simp] theorem goto_self (s : Supervisor) (i : Nat) (phase : Phase) :
    (s.goto i phase).threads i = phase := if_pos rfl

theorem goto_other {k : Nat} (hk : k ≠ i) : (s.goto i phase).threads k = s.threads k := if_neg hk

theorem held_goto {x : Holder} (hx : x ≠ .thread i) : (s.goto i phase).held x = s.held x := by
  cases x with
  | slot => rfl
  | thread k =>
    have hk : k ≠ i := fun heq => hx (heq ▸ rfl)
    exact congrArg Phase.child (goto_other hk)

theorem held_self : (s.goto i phase).held (.thread i) = phase.child :=
  congrArg Phase.child (goto_self s i phase)

/-- The thread goes on with the process that it had, or with none. -/
theorem Inv.goto (h : s.Inv) (phase : Phase) (hchild : phase.child = (s.threads i).child)
    (hphase : s.PhaseInv i phase) : (s.goto i phase).Inv := by
  have hheld : (s.goto i phase).held = s.held := by
    funext x
    by_cases hx : x = .thread i
    · subst hx
      exact held_self.trans hchild
    · exact held_goto hx
  refine h.frame (i := i) ?_ (fun k hk => goto_other hk) ?_ (fun _ _ hk => ⟨hk, rfl⟩) id
    (Finset.Subset.refl _) h.down rfl
  · rw [hheld]
    exact h.custody
  · rw [goto_self]
    exact hphase.shrinks (fun hi => ⟨hi, rfl⟩) id (Finset.Subset.refl _)

theorem Inv.killed (h : s.Inv) (phase : Phase) (lock : Option Nat) (down : Bool)
    (hchild : (s.threads i).child = some child)
    (hphase : ∀ s' : Supervisor, s'.shuttingDown = s.shuttingDown → s'.alive = s.alive.erase child →
      s'.PhaseInv i phase) (hlock : lock = s.lock ∨ s.lock = some i)
    (hdown : down = true → s.shuttingDown = true) :
    ({ (s.killGroup child).goto i phase with lock := lock, down := down } : Supervisor).Inv := by
  refine h.frame (i := i) ?_ (fun k hk => goto_other hk) ?_ ?_ id (Finset.erase_subset child s.alive)
    hdown rfl
  · exact h.custody.kill (x := .thread i) hchild fun x hx => held_goto (s := s.killGroup child) hx
  · show Supervisor.PhaseInv _ i (((s.killGroup child).goto i phase).threads i)
    rw [goto_self]
    exact hphase _ rfl rfl
  · intro k hk hlocked
    refine ⟨?_, rfl⟩
    rcases hlock with hsame | hmine
    · exact hsame.trans hlocked
    · exact absurd (Option.some.inj (hlocked.symm.trans hmine)) hk

/-- A process is spawned where nobody has a live one. -/
theorem Inv.spawned (h : s.Inv) (make : Nat → Phase) (lock : Option Nat) (hspare : s.Spare)
    (hchild : ∀ c, (make c).child = some c)
    (hphase : ∀ s' : Supervisor, s'.lock = lock → s'.slot = s.slot → s'.PhaseInv i (make s.next))
    (hlock : lock = s.lock ∨ s.lock = none) :
    ({ s.spawn i make with lock := lock } : Supervisor).Inv := by
  obtain ⟨hflag, hdead⟩ := hspare
  have hdown : s.down = false := by
    cases hdown : s.down with
    | false => rfl
    | true => exact absurd (hflag.symm.trans (h.down hdown)) Bool.false_ne_true
  refine ⟨?_, ?_, ?_, ?_⟩
  · have hheld : (s.goto i (make s.next)).held (.thread i) = some s.next :=
      held_self.trans (hchild s.next)
    have hspawned : Custody (s.goto i (make s.next)).held (insert s.next s.alive) :=
      Custody.spawn (h.custody.empty hdead) hheld
    exact hspawned
  · intro k
    show Supervisor.PhaseInv _ k ((s.goto i (make s.next)).threads k)
    by_cases hk : k = i
    · subst hk
      rw [goto_self]
      exact hphase _ rfl rfl
    · rw [goto_other hk]
      -- no thread is in `shutdown`
      have hinv := h.threads k
      cases hp : s.threads k <;> rw [hp] at hinv
      case starting c =>
        have hsame := hlock.resolve_right (by simp [hinv.1])
        exact ⟨hsame.trans hinv.1, hinv.2⟩
      case flagged => exact absurd (hflag.symm.trans hinv) Bool.false_ne_true
      case stopping c => exact absurd (hflag.symm.trans hinv.1) Bool.false_ne_true
      case returned => exact absurd (hflag.symm.trans hinv.1) Bool.false_ne_true
      all_goals trivial
  · exact h.down
  · exact (if_neg (by simp [hdown])).trans h.notLate

theorem Inv.stored (h : s.Inv) (phase : Phase) (hchild : (s.threads i).child = some child)
    (hslot : ∀ c, s.slot = some c → c ∉ s.alive) (hphase : ∀ s' : Supervisor, s'.PhaseInv i phase)
    (hlock : s.lock = none ∨ s.lock = some i) :
    ({ s.goto i phase with slot := some child, lock := none } : Supervisor).Inv := by
  refine h.frame (i := i) ?_ (fun k hk => goto_other hk) ?_ ?_ id (Finset.Subset.refl _) h.down rfl
  · refine h.custody.handOver (x := .thread i) (y := .slot) ?_ ?_ ?_
    · exact fun p hp => hchild.symm.trans hp
    · exact fun p hp => Or.inl (hslot p hp)
    · intro x hx hx'
      cases x with
      | slot => exact absurd rfl hx'
      | thread k => exact held_goto hx
  · show Supervisor.PhaseInv _ i ((s.goto i phase).threads i)
    rw [goto_self]
    exact hphase _
  · intro k hk hlocked
    rcases hlock with hfree | hmine
    · rw [hfree] at hlocked
      cases hlocked
    · exact absurd (Option.some.inj (hlocked.symm.trans hmine)) hk

theorem Inv.taken (h : s.Inv) (phase : Phase) (hslot : s.slot = some child)
    (hnone : (s.threads i).child = none) (hchild : phase.child = some child)
    (hphase : ∀ s' : Supervisor, s'.shuttingDown = s.shuttingDown → s'.alive = s.alive →
      s'.PhaseInv i phase) (hlock : s.lock = none) :
    ({ s.goto i phase with slot := none } : Supervisor).Inv := by
  refine h.frame (i := i) ?_ (fun k hk => goto_other hk) ?_ ?_ id (Finset.Subset.refl _) h.down rfl
  · have hheld : (s.goto i phase).held (.thread i) = some child := held_self.trans hchild
    refine h.custody.handOver (x := .slot) (y := .thread i) ?_ ?_ ?_
    · exact fun p hp => hheld.trans (hslot.symm.trans hp)
    · intro p hp
      have hgone : (s.threads i).child = some p := hp
      rw [hnone] at hgone
      cases hgone
    · intro x hx hx'
      cases x with
      | slot => exact absurd rfl hx
      | thread k => exact held_goto hx'
  · show Supervisor.PhaseInv _ i ((s.goto i phase).threads i)
    rw [goto_self]
    exact hphase _ rfl rfl
  · intro k hk hlocked
    rw [hlock] at hlocked
    cases hlocked

theorem Inv.dropped (h : s.Inv) (hslot : s.slot = some child) (hlock : s.lock = none) :
    ({ s.killGroup child with slot := none } : Supervisor).Inv := by
  refine ⟨?_, ?_, h.down, h.notLate⟩
  · refine h.custody.kill (x := .slot) hslot ?_
    intro x hx
    cases x with
    | slot => exact absurd rfl hx
    | thread k => rfl
  · intro k
    refine (h.threads k).shrinks ?_ id (Finset.erase_subset child s.alive)
    intro hlocked
    rw [hlock] at hlocked
    cases hlocked

/-! ## Steps -/

theorem start_inv {succeeds : Bool} (h : s.Inv) (hok : s.Orderly (.start i succeeds))
    (hstep : s.start i succeeds = some s') : s'.Inv := by
  unfold start at hstep
  by_cases hguard : s.threads i = .new ∧ s.lock = none
  · rw [if_pos hguard] at hstep
    split at hstep
    case h_1 =>
      cases hstep
      exact h.goto .settling (by rw [hguard.1]; rfl) trivial
    case h_2 hslot =>
      cases succeeds with
      | true =>
        cases hstep
        exact h.spawned .starting (some i) (hok rfl hslot) (fun _ => rfl)
          (fun _ hlock hsame => ⟨hlock, hsame.trans hslot⟩) (Or.inr hguard.2)
      | false =>
        cases hstep
        exact h.goto .over (by rw [hguard.1]; rfl) trivial
  · rw [if_neg hguard] at hstep
    cases hstep

theorem prepared_inv {outcome : Outcome} (h : s.Inv) (hok : s.Orderly (.prepared i outcome))
    (hstep : s.prepared i outcome = some s') : s'.Inv := by
  unfold prepared at hstep
  split at hstep
  case h_1 child hi =>
    have hinv : s.lock = some i ∧ s.slot = none := by simpa [PhaseInv, hi] using h.threads i
    obtain ⟨hlock, hslot⟩ := hinv
    have hchild : (s.threads i).child = some child := congrArg Phase.child hi
    cases outcome with
    | live =>
      cases hstep
      refine h.stored .settling hchild ?_ (fun _ => trivial) (Or.inr hlock)
      intro c hc
      rw [hslot] at hc
      cases hc
    | swept =>
      cases hstep
      exact h.killed .over none s.down hchild (fun _ _ _ => trivial) (Or.inr hlock) h.down
    | leaked => exact absurd rfl hok
  case h_2 => cases hstep

theorem settle_inv {succeeds : Bool} (h : s.Inv) (hstep : s.settle i succeeds = some s') : s'.Inv := by
  unfold settle at hstep
  split at hstep
  case h_1 hi =>
    cases hstep
    cases succeeds with
    | true => exact h.goto .polling (by rw [hi]; rfl) trivial
    | false => exact h.goto .over (by rw [hi]; rfl) trivial
  case h_2 => cases hstep

theorem check_inv (h : s.Inv) (hstep : s.check i = some s') : s'.Inv := by
  unfold check at hstep
  split at hstep
  case h_1 hi =>
    cases hstep
    cases s.shuttingDown with
    | true => exact h.goto .over (by rw [hi]; rfl) trivial
    | false => exact h.goto .looking (by rw [hi]; rfl) trivial
  case h_2 => cases hstep

theorem look_inv (h : s.Inv) (hstep : s.look i = some s') : s'.Inv := by
  unfold look at hstep
  by_cases hguard : s.threads i = .looking ∧ s.lock = none
  · rw [if_pos hguard] at hstep
    split at hstep
    case h_1 =>
      cases hstep
      exact h.goto .rechecking (by rw [hguard.1]; rfl) trivial
    case h_2 child hslot =>
      by_cases hexited : child ∈ s.exited
      · rw [if_pos hexited] at hstep
        cases hstep
        exact (h.dropped hslot hguard.2).goto .rechecking (congrArg Phase.child hguard.1).symm trivial
      · rw [if_neg hexited] at hstep
        cases hstep
        exact h.goto .polling (by rw [hguard.1]; rfl) trivial
  · rw [if_neg hguard] at hstep
    cases hstep

theorem recheck_inv (h : s.Inv) (hstep : s.recheck i = some s') : s'.Inv := by
  unfold recheck at hstep
  split at hstep
  case h_1 hi =>
    cases hstep
    cases s.shuttingDown with
    | true => exact h.goto .over (by rw [hi]; rfl) trivial
    | false => exact h.goto .backoff (by rw [hi]; rfl) trivial
  case h_2 => cases hstep

theorem respawn_inv {succeeds : Bool} (h : s.Inv) (hok : s.Orderly (.respawn i succeeds))
    (hstep : s.respawn i succeeds = some s') : s'.Inv := by
  unfold respawn at hstep
  split at hstep
  case h_1 hi =>
    cases hstep
    cases succeeds with
    | true =>
      exact h.spawned .preparing s.lock (hok rfl) (fun _ => rfl) (fun _ _ _ => trivial) (Or.inl rfl)
    | false => exact h.goto .polling (by rw [hi]; rfl) trivial
  case h_2 => cases hstep

theorem ready_inv {outcome : Outcome} (h : s.Inv) (hok : s.Orderly (.ready i outcome))
    (hstep : s.ready i outcome = some s') : s'.Inv := by
  unfold ready at hstep
  split at hstep
  case h_1 child hi =>
    cases outcome with
    | live =>
      cases hstep
      exact h.goto (.publishing child) (by rw [hi]; rfl) trivial
    | swept =>
      cases hstep
      exact h.killed .polling s.lock s.down (congrArg Phase.child hi) (fun _ _ _ => trivial)
        (Or.inl rfl) h.down
    | leaked => exact absurd rfl hok
  case h_2 => cases hstep

theorem store_inv (h : s.Inv) (hok : s.Orderly (.store i)) (hstep : s.store i = some s') : s'.Inv := by
  unfold store at hstep
  split at hstep
  case h_1 child hi =>
    split_ifs at hstep with hlock
    cases hstep
    have hstored := h.stored .verifying (congrArg Phase.child hi) hok (fun _ => trivial) (Or.inl hlock)
    rw [← hlock] at hstored
    exact hstored
  case h_2 => cases hstep

theorem verify_inv (h : s.Inv) (hstep : s.verify i = some s') : s'.Inv := by
  unfold verify at hstep
  split at hstep
  case h_1 hi =>
    cases hstep
    cases s.shuttingDown with
    | true => exact h.goto .taking (by rw [hi]; rfl) trivial
    | false => exact h.goto .waiting (by rw [hi]; rfl) trivial
  case h_2 => cases hstep

theorem take_inv (h : s.Inv) (hstep : s.take i = some s') : s'.Inv := by
  unfold take at hstep
  by_cases hguard : s.threads i = .taking ∧ s.lock = none
  · rw [if_pos hguard] at hstep
    split at hstep
    case h_1 child hslot =>
      cases hstep
      exact h.taken (.sweeping child) hslot (congrArg Phase.child hguard.1) rfl
        (fun _ _ _ => trivial) hguard.2
    case h_2 =>
      cases hstep
      exact h.goto .over (by rw [hguard.1]; rfl) trivial
  · rw [if_neg hguard] at hstep
    cases hstep

theorem sweep_inv (h : s.Inv) (hstep : s.sweep i = some s') : s'.Inv := by
  unfold sweep at hstep
  split at hstep
  case h_1 child hi =>
    cases hstep
    exact h.killed .over s.lock s.down (congrArg Phase.child hi) (fun _ _ _ => trivial) (Or.inl rfl)
      h.down
  case h_2 => cases hstep

theorem resume_inv (h : s.Inv) (hstep : s.resume i = some s') : s'.Inv := by
  unfold resume at hstep
  split at hstep
  case h_1 hi =>
    cases hstep
    exact h.goto .polling (by rw [hi]; rfl) trivial
  case h_2 => cases hstep

theorem flag_inv (h : s.Inv) (hstep : s.flag i = some s') : s'.Inv := by
  unfold flag at hstep
  split at hstep
  case h_1 hi =>
    cases hstep
    have hmoved := h.goto .over (by rw [hi]; rfl) trivial
    refine hmoved.frame (i := i) ?_ (fun k hk => ?_) ?_ (fun k _ hk => ⟨hk, rfl⟩) (fun _ => rfl)
      (Finset.Subset.refl _) (fun _ => rfl) rfl
    · refine hmoved.custody.pass (Finset.Subset.refl _) fun x p _ hx => ⟨x, ?_⟩
      by_cases hxi : x = .thread i
      · subst hxi
        rw [held_self] at hx
        cases hx
      · exact (held_goto hxi).trans ((held_goto hxi).symm.trans hx)
    · exact (goto_other hk).trans (goto_other hk).symm
    · show Supervisor.PhaseInv _ i ((s.goto i .flagged).threads i)
      rw [goto_self]
      rfl
  case h_2 => cases hstep

/-- What is alive is in the slot, and `shutdown` takes it or there is nothing. -/
theorem takeDown_inv (h : s.Inv) (hok : s.Orderly (.takeDown i)) (hstep : s.takeDown i = some s') :
    s'.Inv := by
  unfold takeDown at hstep
  by_cases hguard : s.threads i = .flagged ∧ s.lock = none
  · rw [if_pos hguard] at hstep
    have hflag : s.shuttingDown = true := by simpa [PhaseInv, hguard.1] using h.threads i
    have hinSlot : ∀ c ∈ s.alive, s.slot = some c := by
      intro c hc
      obtain ⟨x, hx⟩ := h.custody.owned c hc
      cases x with
      | slot => exact hx
      | thread k => exact absurd hc (hok k c hx)
    split at hstep
    case h_1 child hslot =>
      cases hstep
      refine h.taken (.stopping child) hslot (congrArg Phase.child hguard.1) rfl ?_ hguard.2
      intro s' hsame halive
      refine ⟨hsame.trans hflag, fun c hc => ?_⟩
      have hc' := hinSlot c (halive ▸ hc)
      exact Finset.mem_singleton.2 (Option.some.inj (hc'.symm.trans hslot))
    case h_2 hslot =>
      cases hstep
      have hempty : s.alive = ∅ := by
        rw [Finset.eq_empty_iff_forall_notMem]
        intro c hc
        rw [hinSlot c hc] at hslot
        cases hslot
      have hmoved := h.goto .returned (by rw [hguard.1]; rfl) ⟨hflag, hempty⟩
      exact ⟨hmoved.custody, hmoved.threads, fun _ => hflag, hmoved.notLate⟩
  · rw [if_neg hguard] at hstep
    cases hstep

theorem kill_inv (h : s.Inv) (hstep : s.kill i = some s') : s'.Inv := by
  unfold kill at hstep
  split at hstep
  case h_1 child hi =>
    cases hstep
    have hinv : s.shuttingDown = true ∧ s.alive ⊆ {child} := by simpa [PhaseInv, hi] using h.threads i
    obtain ⟨hflag, hsub⟩ := hinv
    refine h.killed .returned s.lock true (congrArg Phase.child hi) ?_ (Or.inl rfl) fun _ => hflag
    intro s' hsame halive
    refine ⟨hsame.trans hflag, ?_⟩
    rw [halive, Finset.erase_eq_empty_iff]
    exact Finset.subset_singleton_iff.1 hsub
  case h_2 => cases hstep

theorem callFails_inv (h : s.Inv) (hstep : s.callFails = some s') : s'.Inv := by
  unfold callFails at hstep
  by_cases hlock : s.lock = none
  · rw [if_pos hlock] at hstep
    split at hstep
    case h_1 child hslot =>
      cases hstep
      exact h.dropped hslot hlock
    case h_2 => cases hstep
  · rw [if_neg hlock] at hstep
    cases hstep

/-- Groups end and children exit by themselves. -/
theorem Inv.ends (h : s.Inv) {alive exited : Finset Nat} (hsub : alive ⊆ s.alive) :
    ({ s with alive := alive, exited := exited } : Supervisor).Inv where
  custody := h.custody.pass hsub fun x _ _ hx => ⟨x, by cases x <;> exact hx⟩
  threads := fun k => (h.threads k).shrinks (fun hk => ⟨hk, rfl⟩) id hsub
  down := h.down
  notLate := h.notLate

theorem step_inv {a : Action} (h : s.Inv) (hok : s.Orderly a) (hstep : s.step a = some s') :
    s'.Inv := by
  cases a with
  | start i succeeds => exact start_inv h hok hstep
  | prepared i outcome => exact prepared_inv h hok hstep
  | settle i succeeds => exact settle_inv h hstep
  | check i => exact check_inv h hstep
  | look i => exact look_inv h hstep
  | recheck i => exact recheck_inv h hstep
  | respawn i succeeds => exact respawn_inv h hok hstep
  | ready i outcome => exact ready_inv h hok hstep
  | store i => exact store_inv h hok hstep
  | verify i => exact verify_inv h hstep
  | take i => exact take_inv h hstep
  | sweep i => exact sweep_inv h hstep
  | resume i => exact resume_inv h hstep
  | flag i => exact flag_inv h hstep
  | takeDown i => exact takeDown_inv h hok hstep
  | kill i => exact kill_inv h hstep
  | callFails => exact callFails_inv h hstep
  | exit child => exact Option.some.inj hstep ▸ h.ends (Finset.Subset.refl _)
  | dies child =>
    have hdies : (if child ∈ s.exited then some (s.killGroup child) else none) = some s' := hstep
    split_ifs at hdies
    exact Option.some.inj hdies ▸ h.ends (Finset.erase_subset _ _)

end Supervisor

/-- In every run in which nothing is spawned, stored or shut down while another thread has a live group,
and no spawn comes after `shutdown` or leaks its process, one group is alive at most and none is after
`shutdown`. -/
theorem no_orphan {s : Supervisor}
    (h : Reachable Supervisor.step Supervisor.Orderly (· = Supervisor.idle) s) : s.Swept :=
  (h.invariant (fun _ hidle => hidle ▸ Supervisor.inv_idle)
    fun _ _ _ hinv hok hstep => Supervisor.step_inv hinv hok hstep).swept

theorem no_orphan_stopped :
    ∃ s : Supervisor, s.next = 1 ∧ s.threads 1 = .returned ∧ s.Swept := by
  have hidle : Reachable Supervisor.step Supervisor.Orderly (· = Supervisor.idle) Supervisor.idle :=
    .start rfl
  have hspare : Supervisor.idle.Orderly (.start 0 true) := by
    refine fun _ _ => ⟨rfl, fun x c hx => ?_⟩
    cases x <;> cases hx
  have hstarted := hidle.step hspare rfl
  have hlive := hstarted.step (a := .prepared 0 .live) (by exact Outcome.noConfusion) rfl
  have hflagged := hlive.of_always [.settle 0 true, .check 0, .flag 1]
    (by simp [Supervisor.Orderly]) rfl
  have htaken := hflagged.step (a := .takeDown 1) (by
    intro k c hc
    by_cases hk : k = 1
    · subst hk
      cases hc
    · by_cases hk' : k = 0
      · subst hk'
        cases hc
      · simp [Supervisor.goto, Supervisor.spawn, Supervisor.idle, Phase.child, hk, hk'] at hc) rfl
  exact ⟨_, rfl, rfl, no_orphan (htaken.of_always [.kill 1] (by simp [Supervisor.Orderly]) rfl)⟩

/-- The child dies, and `shutdown` comes and goes while the monitor sleeps. -/
def respawned : List Action :=
  [.start 0 true, .prepared 0 .live, .settle 0 true, .exit 0, .dies 0, .check 0, .look 0, .recheck 0,
    .flag 1, .takeDown 1, .respawn 0 true]

/-- `spawn_child` cannot create the thread that reads from its child. -/
def leaked : List Action := [.start 0 true, .prepared 0 .leaked, .flag 1, .takeDown 1]

/-- The monitor spawns after `shutdown` has returned, and a failed `start` leaves a process. -/
theorem spawned_after_shutdown :
    (∃ s, Reachable Supervisor.step (fun _ _ => True) (· = Supervisor.idle) s ∧
        s.threads 1 = .returned ∧ s.late = [1] ∧ 1 ∈ s.alive ∧ ¬ s.Swept) ∧
      ∃ s, Reachable Supervisor.step (fun _ _ => True) (· = Supervisor.idle) s ∧
        s.threads 1 = .returned ∧ s.slot = none ∧ 0 ∈ s.alive ∧ ¬ s.Swept := by
  have hidle : Reachable Supervisor.step (fun _ _ => True) (· = Supervisor.idle) Supervisor.idle :=
    .start rfl
  refine ⟨?_, ?_⟩
  · obtain ⟨s, hs, htest⟩ := hidle.exists_of_foldlM respawned
      (fun s => s.threads 1 = .returned ∧ s.late = [1] ∧ 1 ∈ s.alive) (by decide)
    obtain ⟨hreturned, hlate, halive⟩ := of_decide_eq_true htest
    refine ⟨s, hs, hreturned, hlate, halive, fun hswept => ?_⟩
    rw [hswept.none 1 hreturned] at halive
    exact Finset.notMem_empty 1 halive
  · obtain ⟨s, hs, htest⟩ := hidle.exists_of_foldlM leaked
      (fun s => s.threads 1 = .returned ∧ s.slot = none ∧ 0 ∈ s.alive) (by decide)
    obtain ⟨hreturned, hslot, halive⟩ := of_decide_eq_true htest
    refine ⟨s, hs, hreturned, hslot, halive, fun hswept => ?_⟩
    rw [hswept.none 1 hreturned] at halive
    exact Finset.notMem_empty 0 halive

end Supervise
end Tempest
