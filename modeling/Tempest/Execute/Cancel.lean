import Mathlib.Logic.Function.Basic
import Tempest.Process.Reachable
import Tempest.Python.Dict

/-!
# CancelScope — no worker outlives its scope (`execute/cancel.py`, `_spawn` and `_kill`)

Threads spawn, wait for and kill the children of one scope while others cancel it.  Their steps are those on
the flag, those under the lock and those on a child; the kills of a sweep run outside the lock.  The system
hands a pid out again once its child is reaped.
-/

namespace Tempest
namespace CancelScope

open Python (Dict)

/-! ## Children and threads -/

inductive Life where
  | running
  | exited
  | reaped
deriving DecidableEq

/-- A child for the system and for its `Popen`, and what was done to it; `late` when its spawner began to
check the scope after the flag was set. -/
structure Child where
  spawner : Nat
  pid : Nat
  life : Life
  returncode : Bool
  registered : Bool
  killed : Bool
  late : Bool

/-- What a thread does behind a kill: `register` returns, `cancel` sweeps on, `_kill` waits. -/
inductive After where
  | register
  | sweep (rest : List Nat)
  | reap

inductive Task where
  | idle
  | checking (late : Bool)
  | checked (late : Bool)
  | started (c : Nat)
  | judging (c : Nat) (next : After)
  /-- Behind the check of `returncode`, with what it was. -/
  | signalling (c : Nat) (reaped : Bool) (next : After)
  | waiting (c : Nat) (unregisters : Bool)
  /-- The system has reaped the child, and `returncode` is not assigned yet. -/
  | reaped (c : Nat) (unregisters : Bool)
  | unregistering (c : Nat)
  | cancelling

structure State where
  flag : Bool
  lock : Option Nat
  procs : Dict Nat Nat
  child : Nat → Child
  count : Nat
  task : Nat → Task
  /-- Some `cancel()` has returned. -/
  returned : Bool
  /-- The children whose groups were signalled, with their `returncode` at the check. -/
  signals : List (Nat × Bool)

inductive Op where
  | spawn
  | wait (c : Nat)
  | kill (c : Nat)
  | cancel

inductive Action where
  | begin (i : Nat) (op : Op)
  | popen (i pid : Nat)
  | go (i : Nat)
  | exit (c : Nat)

/-! ## Steps -/

def State.goto (s : State) (i : Nat) (t : Task) : State := { s with task := Function.update s.task i t }

def State.change (s : State) (c : Nat) (new : Child) : State :=
  { s with child := Function.update s.child c new }

def State.sweep (s : State) (i : Nat) : List Nat → State
  | [] => ({ s with returned := true }).goto i .idle
  | c :: rest => s.goto i (.judging c (.sweep rest))

def State.proceed (s : State) (i c : Nat) : After → State
  | .register => ({ s with lock := none }).goto i .idle
  | .sweep rest => s.sweep i rest
  | .reap => s.goto i (.waiting c true)

/-- `killpg` reaches whoever holds the pid. -/
def State.signal (s : State) (c : Nat) (reaped : Bool) : State :=
  { s with
    child := fun d =>
      if (s.child d).pid = (s.child c).pid ∧ (s.child d).life ≠ .reaped then
        { s.child d with killed := true }
      else s.child d
    signals := (c, reaped) :: s.signals }

/-- The polls of the snapshot. -/
def State.poll (s : State) : State :=
  { s with child := fun d =>
      if s.procs.get? (s.child d).pid = some d ∧ (s.child d).life = .exited then
        { s.child d with life := .reaped, returncode := true }
      else s.child d }

def State.live (s : State) : List Nat :=
  (s.procs.items.map Prod.snd).filter fun c => !(s.child c).returncode

def State.begin (s : State) (i : Nat) : Op → Option State
  | .spawn => some (s.goto i (.checking s.flag))
  | .wait c => if (s.child c).registered then some (s.goto i (.waiting c false)) else none
  | .kill c => if (s.child c).registered then some (s.goto i (.judging c .reap)) else none
  | .cancel => some (({ s with flag := true }).goto i .cancelling)

def State.register (s : State) (i c : Nat) : State :=
  let t := { s.change c { s.child c with registered := true } with procs := s.procs.set (s.child c).pid c }
  if s.flag then ({ t with lock := some i }).goto i (.judging c .register) else t.goto i .idle

/-- Behind a `wait` that has set `returncode`. -/
def State.waited (s : State) (i c : Nat) (unregisters : Bool) : State :=
  s.goto i (if unregisters then .unregistering c else .idle)

def State.go (s : State) (i : Nat) : Option State :=
  match s.task i with
  | .idle | .checked _ => none
  | .checking late => some (s.goto i (if s.flag then .idle else .checked late))
  | .started c => if s.lock = none then some (s.register i c) else none
  | .judging c next =>
    some (if (s.child c).returncode then s.proceed i c next
      else s.goto i (.signalling c (s.child c).returncode next))
  | .signalling c reaped next => some ((s.signal c reaped).proceed i c next)
  | .waiting c unregisters =>
    match (s.child c).life with
    | .running => none
    | .exited => some ((s.change c { s.child c with life := .reaped }).goto i (.reaped c unregisters))
    | .reaped => if (s.child c).returncode then some (s.waited i c unregisters) else none
  | .reaped c unregisters =>
    some ((s.change c { s.child c with returncode := true }).waited i c unregisters)
  | .unregistering c =>
    if s.lock = none then
      some (({ s with procs := s.procs.filterKeys fun pid => decide (pid ≠ (s.child c).pid) }).goto i .idle)
    else none
  | .cancelling => if s.lock = none then some (s.poll.sweep i s.poll.live) else none

def step (s : State) : Action → Option State
  | .begin i op =>
    match s.task i with
    | .idle => s.begin i op
    | _ => none
  | .popen i pid =>
    match s.task i with
    | .checked late =>
      if ∀ d < s.count, (s.child d).life ≠ .reaped → (s.child d).pid ≠ pid then
        some (({ s.change s.count ⟨i, pid, .running, false, false, false, late⟩ with
          count := s.count + 1 }).goto i (.started s.count))
      else none
    | _ => none
  | .go i => s.go i
  | .exit c =>
    if (s.child c).life = .running then some (s.change c { s.child c with life := .exited }) else none

def State.Started (s : State) : Prop :=
  s = ⟨false, none, Dict.empty, fun _ => ⟨0, 0, .reaped, false, false, false, false⟩, 0, fun _ => .idle,
    false, []⟩

/-- `unregister` takes its own child out, or none. -/
def Owns (s : State) (a : Action) : Prop :=
  ∀ i c, a = .go i → s.task i = .unregistering c → ∀ d, s.procs.get? (s.child c).pid = some d → d = c

/-! ## What a cancelled scope leaves behind -/

/-- The thread is in the locked part of `register` for the child. -/
def Task.Registers (t : Task) (c : Nat) : Prop :=
  t = .judging c .register ∨ ∃ reaped, t = .signalling c reaped .register

def State.Gone (s : State) (c : Nat) : Prop := (s.child c).life = .reaped ∨ (s.child c).killed = true

structure State.Holds (s : State) : Prop where
  killed : s.returned = true → ∀ c, (s.child c).registered = true →
    (∀ i, ¬ (s.task i).Registers c) → s.Gone c
  refused : ∀ c, (s.child c).late = false
  spared : ∀ p ∈ s.signals, p.2 = false

/-- The flag is set, and who is still to be killed is in the list. -/
def State.Covered (s : State) (rest : List Nat) : Prop :=
  s.flag = true ∧ ∀ c, (s.child c).registered = true →
    (∀ i, ¬ (s.task i).Registers c) → s.Gone c ∨ c ∈ rest

def State.NextOk (s : State) (c : Nat) : After → Prop
  | .register => True
  | .sweep rest => s.Covered (c :: rest)
  | .reap => (s.child c).registered = true

def State.TaskOk (s : State) (i : Nat) : Task → Prop
  | .idle => True
  | .checking late => late = true → s.flag = true
  | .checked late => late = false
  | .started c =>
    (s.child c).registered = false ∧ (s.child c).life ≠ .reaped ∧ (s.child c).spawner = i
  | .judging c next => s.NextOk c next
  | .signalling c reaped next => reaped = false ∧ s.NextOk c next
  | .waiting c _ => (s.child c).registered = true
  | .reaped c _ | .unregistering c => (s.child c).registered = true ∧ (s.child c).life = .reaped
  | .cancelling => s.flag = true

structure ChildInv (child : Nat → Child) (count : Nat) (procs : Dict Nat Nat) : Prop where
  pids : ∀ c d, (child c).life ≠ .reaped → (child d).life ≠ .reaped →
    (child c).pid = (child d).pid → c = d
  bound : ∀ c, (child c).life ≠ .reaped ∨ (child c).registered = true → c < count
  stored : ∀ c, (child c).registered = true → (child c).life ≠ .reaped →
    procs.get? (child c).pid = some c
  procs : ∀ pid c, procs.get? pid = some c → (child c).registered = true
  coded : ∀ c, (child c).returncode = true → (child c).life = .reaped
  refused : ∀ c, (child c).late = false

structure State.Inv (s : State) : Prop where
  children : ChildInv s.child s.count s.procs
  tasks : ∀ i, s.TaskOk i (s.task i)
  returned : s.returned = true → s.Covered []
  spared : ∀ p ∈ s.signals, p.2 = false

/-! ## What a step keeps -/

/-- What a step of a thread leaves to the other threads. -/
structure Later (s s' : State) (i : Nat) : Prop where
  flag : s.flag = true → s'.flag = true
  kept : ∀ c, (s.child c).registered = true → (s'.child c).registered = true ∧
    ((s.child c).life = .reaped → (s'.child c).life = .reaped) ∧ (s.Gone c → s'.Gone c)
  waits : ∀ c, (s.child c).registered = false → (s.child c).life ≠ .reaped → (s.child c).spawner ≠ i →
    (s'.child c).registered = false ∧ (s'.child c).life ≠ .reaped ∧
      (s'.child c).spawner = (s.child c).spawner
  fresh : s.flag = true → ∀ c, (s'.child c).registered = true → (∀ j, ¬ (s'.task j).Registers c) →
    s'.Gone c ∨ (s.child c).registered = true ∧ ∀ j, ¬ (s.task j).Registers c

variable {s s' : State} {i : Nat} {t : Task}

theorem Later.covered (h : Later s s' i) {rest : List Nat} (hcovered : s.Covered rest) :
    s'.Covered rest := by
  refine ⟨h.flag hcovered.1, fun c hc hno => ?_⟩
  rcases h.fresh hcovered.1 c hc hno with hgone | ⟨hold, hnone⟩
  · exact .inl hgone
  · exact (hcovered.2 c hold hnone).imp_left (h.kept c hold).2.2

theorem Later.nextOk (h : Later s s' i) {c : Nat} {next : After} (hnext : s.NextOk c next) :
    s'.NextOk c next := by
  cases next with
  | register => trivial
  | sweep rest => exact h.covered hnext
  | reap => exact (h.kept c hnext).1

theorem Later.taskOk (h : Later s s' i) {j : Nat} (hj : j ≠ i) (ht : s.TaskOk j t) : s'.TaskOk j t := by
  cases t with
  | idle => trivial
  | checking late => exact fun hlate => h.flag (ht hlate)
  | checked late => exact ht
  | started c =>
    obtain ⟨hregistered, hlife, rfl⟩ := ht
    exact h.waits c hregistered hlife hj
  | judging c next => exact h.nextOk ht
  | signalling c reaped next => exact ⟨ht.1, h.nextOk ht.2⟩
  | waiting c unregisters => exact (h.kept c ht).1
  | reaped c _ | unregistering c => exact ⟨(h.kept c ht.1).1, (h.kept c ht.1).2.1 ht.2⟩
  | cancelling => exact h.flag ht

theorem State.Inv.act (h : s.Inv) (hchild : ChildInv s'.child s'.count s'.procs) (hlater : Later s s' i)
    (htask : s'.task = Function.update s.task i t) (ht : s'.TaskOk i t)
    (hreturned : s'.returned = true → s.returned = true ∨ s'.Covered [])
    (hsignals : ∀ p ∈ s'.signals, p ∈ s.signals ∨ p.2 = false) : s'.Inv where
  children := hchild
  tasks := by
    intro j
    rw [htask, Function.update_apply]
    split
    · rename_i hj
      exact hj ▸ ht
    · rename_i hj
      exact hlater.taskOk hj (h.tasks j)
  returned := fun hback => (hreturned hback).elim (fun hold => hlater.covered (h.returned hold)) id
  spared := fun p hp => (hsignals p hp).elim (h.spared p) id

/-- A child gets older: its pid and its spawner stay, and what was done to it is not undone. -/
structure Ages (a b : Child) : Prop where
  same : b.pid = a.pid ∧ b.registered = a.registered ∧ b.late = a.late ∧ b.spawner = a.spawner
  life : a.life = .reaped → b.life = .reaped
  unregistered : a.registered = false → b.life = .reaped → a.life = .reaped
  killed : a.killed = true → b.killed = true
  coded : b.returncode = true → a.returncode = true ∨ b.life = .reaped

theorem Ages.refl (a : Child) : Ages a a := ⟨⟨rfl, rfl, rfl, rfl⟩, id, fun _ => id, id, .inl⟩

/-- A step of thread `i` that only makes children older. -/
structure Aged (s s' : State) (i : Nat) (t : Task) : Prop where
  flag : s.flag = true → s'.flag = true
  ages : ∀ c, Ages (s.child c) (s'.child c)
  task : s'.task = Function.update s.task i t
  registers : ∀ c, (s.task i).Registers c → t.Registers c ∨ s'.Gone c

theorem Aged.later (ha : Aged s s' i t) : Later s s' i where
  flag := ha.flag
  kept := fun c hc => ⟨(ha.ages c).same.2.1.trans hc, (ha.ages c).life,
    fun hgone => hgone.imp (ha.ages c).life (ha.ages c).killed⟩
  waits := fun c hc hlife _ => ⟨(ha.ages c).same.2.1.trans hc,
    fun hreaped => hlife ((ha.ages c).unregistered hc hreaped), (ha.ages c).same.2.2.2⟩
  fresh := fun _ c hc hno => by
    by_cases hregisters : (s.task i).Registers c
    · refine .inl ((ha.registers c hregisters).resolve_left fun hnew => hno i ?_)
      rwa [ha.task, Function.update_self]
    · refine .inr ⟨(ha.ages c).same.2.1 ▸ hc, fun j hj => ?_⟩
      by_cases hji : j = i
      · exact hregisters (hji ▸ hj)
      · apply hno j
        rwa [ha.task, Function.update_of_ne hji]

/-- Children grow older, and nothing else changes but the lock and the signals. -/
structure Grown (s r : State) : Prop where
  same : r.flag = s.flag ∧ r.count = s.count ∧ r.procs = s.procs ∧ r.task = s.task ∧
    r.returned = s.returned
  ages : ∀ c, Ages (s.child c) (r.child c)
  signals : ∀ p ∈ r.signals, p ∈ s.signals ∨ p.2 = false

theorem Grown.refl (s : State) : Grown s s :=
  ⟨⟨rfl, rfl, rfl, rfl, rfl⟩, fun _ => .refl _, fun _ => .inl⟩

theorem Grown.childInv {r : State} (hg : Grown s r) (h : ChildInv s.child s.count s.procs) :
    ChildInv r.child r.count r.procs where
  pids := fun c d hc hd hpid => by
    rw [(hg.ages c).same.1, (hg.ages d).same.1] at hpid
    exact h.pids c d (fun hold => hc ((hg.ages c).life hold))
      (fun hold => hd ((hg.ages d).life hold)) hpid
  bound := fun c hc => by
    rw [hg.same.2.1]
    exact h.bound c (hc.imp (fun hlife hold => hlife ((hg.ages c).life hold))
      ((hg.ages c).same.2.1.symm.trans ·))
  stored := fun c hc hlife => by
    rw [hg.same.2.2.1, (hg.ages c).same.1]
    exact h.stored c ((hg.ages c).same.2.1.symm.trans hc) fun hold => hlife ((hg.ages c).life hold)
  procs := fun pid c hget => by
    rw [(hg.ages c).same.2.1]
    exact h.procs pid c (hg.same.2.2.1 ▸ hget)
  coded := fun c hc => ((hg.ages c).coded hc).elim (fun hold => (hg.ages c).life (h.coded c hold)) id
  refused := fun c => (hg.ages c).same.2.2.1.trans (h.refused c)

theorem Grown.aged {r : State} (hg : Grown s r)
    (hregisters : ∀ c, (s.task i).Registers c → t.Registers c ∨ r.Gone c) : Aged s (r.goto i t) i t where
  flag := fun hflag => hg.same.1.trans hflag
  ages := hg.ages
  task := by rw [State.goto, hg.same.2.2.2.1]
  registers := hregisters

section Grown

variable {r : State} (h : s.Inv) (hg : Grown s r)
include h hg

/-- A thread goes on to its next place. -/
theorem inv_goto (hregisters : ∀ c, (s.task i).Registers c → t.Registers c ∨ r.Gone c)
    (ht : (r.goto i t).TaskOk i t) : (r.goto i t).Inv :=
  h.act (hg.childInv h.children) (hg.aged hregisters).later (hg.aged hregisters).task ht
    (fun hback => .inl (hg.same.2.2.2.2.symm.trans hback)) hg.signals

/-- A sweep goes on, or `cancel` returns. -/
theorem inv_sweep (hregisters : ∀ c, (s.task i).Registers c → r.Gone c) (hflag : s.flag = true)
    (rest : List Nat) (hcovered : ∀ c, (s.child c).registered = true →
      (∀ j, ¬ (s.task j).Registers c) → r.Gone c ∨ c ∈ rest) : (r.sweep i rest).Inv := by
  have hcovers : ∀ {x : State} {t : Task}, Aged s x i t → x.child = r.child → x.Covered rest := by
    intro x t ha hsame
    have hgone : ∀ c, r.Gone c → x.Gone c := by
      intro c hc
      rwa [State.Gone, hsame]
    refine ⟨ha.flag hflag, fun c hc hno => ?_⟩
    rcases ha.later.fresh hflag c hc hno with hc | ⟨hc, hno⟩
    · exact .inl hc
    · exact (hcovered c hc hno).imp_left (hgone c)
  cases rest with
  | nil =>
    have ha : Aged s (({ r with returned := true } : State).goto i .idle) i .idle :=
      ⟨fun _ => hg.same.1.trans hflag, hg.ages, (hg.aged fun c hc => .inr (hregisters c hc)).task,
        fun c hc => .inr (hregisters c hc)⟩
    exact h.act (hg.childInv h.children) ha.later ha.task trivial (fun _ => .inr (hcovers ha rfl))
      hg.signals
  | cons c rest =>
    exact inv_goto h hg (fun c hc => .inr (hregisters c hc))
      (hcovers (hg.aged fun c hc => .inr (hregisters c hc)) rfl)

/-- Behind a kill: the child is reaped or was signalled. -/
theorem inv_proceed {c : Nat} {next : After} (hregisters : ∀ d, (s.task i).Registers d → d = c)
    (hgone : r.Gone c) (hnext : s.NextOk c next) : (r.proceed i c next).Inv := by
  have hall : ∀ d, (s.task i).Registers d → r.Gone d := fun d hd => hregisters d hd ▸ hgone
  cases next with
  | register =>
    have hfree : Grown s { r with lock := none } := ⟨hg.same, hg.ages, hg.signals⟩
    exact inv_goto h hfree (fun d hd => .inr (hall d hd)) trivial
  | sweep rest =>
    refine inv_sweep h hg hall hnext.1 rest fun d hd hno => ?_
    rcases hnext.2 d hd hno with hd | hd
    · exact .inl (hd.imp (hg.ages d).life (hg.ages d).killed)
    · exact (List.mem_cons.1 hd).imp (fun heq : d = c => heq ▸ hgone) id
  | reap => exact inv_goto h hg (fun d hd => .inr (hall d hd)) ((hg.ages c).same.2.1.trans hnext)

end Grown

/-! ## Every step -/

theorem inv_begin (h : s.Inv) (hidle : s.task i = .idle) {op : Op} (hstep : s.begin i op = some s') :
    s'.Inv := by
  have hno : ∀ c, ¬ (s.task i).Registers c := by
    intro c
    rw [hidle]
    simp [Task.Registers]
  cases op with
  | spawn =>
    cases hstep
    exact inv_goto h (.refl s) (fun c hc => absurd hc (hno c)) id
  | wait c | kill c =>
    simp only [State.begin] at hstep
    split at hstep
    · rename_i hregistered
      cases hstep
      exact inv_goto h (.refl s) (fun c hc => absurd hc (hno c)) hregistered
    · cases hstep
  | cancel =>
    cases hstep
    have ha : Aged s (({ s with flag := true } : State).goto i .cancelling) i .cancelling :=
      ⟨fun _ => rfl, fun _ => .refl _, rfl, fun c hc => absurd hc (hno c)⟩
    exact h.act h.children ha.later rfl rfl .inl fun _ => .inl

/-- A new child has a pid that no child holds, and the check that let it start came before the flag. -/
theorem inv_popen (h : s.Inv) {pid : Nat} {late : Bool} (htask : s.task i = .checked late)
    (hfree : ∀ d < s.count, (s.child d).life ≠ .reaped → (s.child d).pid ≠ pid) :
    State.Inv (({ s.change s.count ⟨i, pid, .running, false, false, false, late⟩ with
      count := s.count + 1 }).goto i (.started s.count)) := by
  have hlate : late = false := by
    have hi := h.tasks i
    rwa [htask] at hi
  obtain ⟨hpids, hbound, hstored, hprocs, hcoded, hrefused⟩ := h.children
  have hnew : (s.child s.count).life = .reaped ∧ (s.child s.count).registered = false := by
    have := hbound s.count
    grind
  refine h.act (i := i) ?_ ?_ rfl ?_ .inl fun _ => .inl
  · constructor <;> simp only [State.change, State.goto, Function.update_apply] <;> grind
  · constructor <;>
      simp only [State.change, State.goto, Function.update_apply, State.Gone, Task.Registers] <;> grind
  · simp [State.TaskOk, State.change, State.goto]

theorem inv_register (h : s.Inv) {c : Nat} (htask : s.task i = .started c) : (s.register i c).Inv := by
  obtain ⟨hregistered, hlife, hspawner⟩ : (s.child c).registered = false ∧
      (s.child c).life ≠ .reaped ∧ (s.child c).spawner = i := by
    have hi := h.tasks i
    rwa [htask] at hi
  obtain ⟨hpids, hbound, hstored, hprocs, hcoded, hrefused⟩ := h.children
  unfold State.register
  split
  · refine h.act (i := i) ?_ ?_ rfl trivial .inl fun _ => .inl
    · constructor <;> simp only [State.change, State.goto, Function.update_apply, Dict.get?_set] <;> grind
    · constructor <;>
        simp only [State.change, State.goto, Function.update_apply, State.Gone, Task.Registers] <;> grind
  · refine h.act (i := i) ?_ ?_ rfl trivial .inl fun _ => .inl
    · constructor <;> simp only [State.change, State.goto, Function.update_apply, Dict.get?_set] <;> grind
    · constructor <;>
        simp only [State.change, State.goto, Function.update_apply, State.Gone, Task.Registers] <;> grind

/-- Taking a reaped child out of the registry loses no other child where the entry is its own. -/
theorem inv_unregister (h : s.Inv) {c : Nat} (htask : s.task i = .unregistering c)
    (hown : ∀ d, s.procs.get? (s.child c).pid = some d → d = c) :
    State.Inv (({ s with procs := s.procs.filterKeys fun pid => decide (pid ≠ (s.child c).pid) }).goto i
      .idle) := by
  obtain ⟨hregistered, hlife⟩ : (s.child c).registered = true ∧ (s.child c).life = .reaped := by
    have hi := h.tasks i
    rwa [htask] at hi
  obtain ⟨hpids, hbound, hstored, hprocs, hcoded, hrefused⟩ := h.children
  refine h.act (i := i) ?_ ?_ rfl trivial .inl fun _ => .inl
  · constructor <;> simp only [State.goto, Dict.get?_filterKeys, decide_eq_true_eq] <;> grind
  · constructor <;> simp only [State.goto, Function.update_apply, State.Gone, Task.Registers] <;> grind

theorem grown_signal (s : State) (c : Nat) : Grown s (s.signal c false) := by
  refine ⟨⟨rfl, rfl, rfl, rfl, rfl⟩, fun d => ?_, fun p hp => (List.mem_cons.1 hp).symm.imp_right ?_⟩
  · constructor <;> simp only [State.signal] <;> grind
  · rintro rfl
    rfl

theorem grown_poll (h : s.Inv) : Grown s s.poll := by
  refine ⟨⟨rfl, rfl, rfl, rfl, rfl⟩, fun d => ?_, fun _ => .inl⟩
  have hprocs := h.children.procs (s.child d).pid d
  constructor <;> simp only [State.poll] <;> grind

theorem grown_change {c : Nat} {new : Child} (hnew : Ages (s.child c) new) :
    Grown s (s.change c new) := by
  refine ⟨⟨rfl, rfl, rfl, rfl, rfl⟩, fun d => ?_, fun _ => .inl⟩
  simp only [State.change, Function.update_apply]
  split
  · rename_i hd
    exact hd ▸ hnew
  · exact .refl _

theorem inv_exit (h : s.Inv) {c : Nat} (hlife : (s.child c).life = .running) :
    (s.change c { s.child c with life := .exited }).Inv := by
  have hg : Grown s (s.change c { s.child c with life := .exited }) := by
    have hcoded := h.children.coded c
    refine grown_change ⟨⟨rfl, rfl, rfl, rfl⟩, ?_, ?_, id, ?_⟩ <;> grind
  have hlater : ∀ i, Later s (s.change c { s.child c with life := .exited }) i := fun i =>
    Aged.later (t := s.task i) ⟨id, hg.ages, (Function.update_eq_self i s.task).symm, fun _ => .inl⟩
  exact ⟨hg.childInv h.children, fun i => (hlater (i + 1)).taskOk (Nat.lt_succ_self i).ne (h.tasks i),
    fun hback => (hlater 0).covered (h.returned hback), h.spared⟩

theorem inv_go (h : s.Inv) (hown : ∀ c, s.task i = .unregistering c →
    ∀ d, s.procs.get? (s.child c).pid = some d → d = c) (hstep : s.go i = some s') : s'.Inv := by
  have hi := h.tasks i
  have hcoded := h.children.coded
  unfold State.go at hstep
  cases htask : s.task i with
  | idle | checked late =>
    rw [htask] at hstep
    cases hstep
  | checking late =>
    rw [htask] at hstep hi
    cases hstep
    refine inv_goto h (.refl s) (by simp [htask, Task.Registers]) ?_
    cases hflag : s.flag
    · exact Bool.eq_false_iff.2 fun hlate => by simp [hi hlate] at hflag
    · trivial
  | started c =>
    simp only [htask] at hstep
    split at hstep
    · cases hstep
      exact inv_register h htask
    · cases hstep
  | judging c next =>
    rw [htask] at hstep hi
    cases hstep
    have hregisters : ∀ d, (s.task i).Registers d → d = c := by simp [htask, Task.Registers]
    split
    · rename_i hreturncode
      exact inv_proceed h (.refl s) hregisters (.inl (hcoded c hreturncode)) hi
    · rename_i hreturncode
      have hg := Grown.refl s
      have hstill : ∀ d, (s.task i).Registers d →
          (Task.signalling c (s.child c).returncode next).Registers d ∨ s.Gone d := by
        simp +contextual [htask, Task.Registers]
      exact inv_goto h hg hstill ⟨Bool.eq_false_iff.2 hreturncode, (hg.aged hstill).later.nextOk hi⟩
  | signalling c reaped next =>
    rw [htask] at hstep hi
    obtain ⟨rfl, hnext⟩ := hi
    cases hstep
    refine inv_proceed h (grown_signal s c) (by simp [htask, Task.Registers]) ?_ hnext
    by_cases hlife : (s.child c).life = .reaped <;> simp [State.Gone, State.signal, hlife]
  | waiting c unregisters =>
    rw [htask] at hi
    simp only [htask] at hstep
    have hno : ∀ d, ¬ (s.task i).Registers d := by simp [htask, Task.Registers]
    split at hstep
    · cases hstep
    · cases hstep
      have hg : Grown s (s.change c { s.child c with life := .reaped }) := by
        refine grown_change ⟨⟨rfl, rfl, rfl, rfl⟩, ?_, ?_, id, ?_⟩ <;> grind [State.TaskOk]
      refine inv_goto h hg (fun d hd => absurd hd (hno d)) ?_
      simpa [State.TaskOk, State.goto, State.change] using hi
    · rename_i hlife
      split at hstep
      · cases hstep
        refine inv_goto h (.refl s) (fun d hd => absurd hd (hno d)) ?_
        split
        · exact ⟨hi, hlife⟩
        · trivial
      · cases hstep
  | reaped c unregisters =>
    rw [htask] at hstep hi
    cases hstep
    have hno : ∀ d, ¬ (s.task i).Registers d := by simp [htask, Task.Registers]
    have hg : Grown s (s.change c { s.child c with returncode := true }) := by
      refine grown_change ⟨⟨rfl, rfl, rfl, rfl⟩, id, fun _ => id, id, fun _ => .inr hi.2⟩
    refine inv_goto h hg (fun d hd => absurd hd (hno d)) ?_
    split
    · simpa [State.TaskOk, State.goto, State.change] using hi
    · trivial
  | unregistering c =>
    simp only [htask] at hstep
    split at hstep
    · cases hstep
      exact inv_unregister h htask (hown c htask)
    · cases hstep
  | cancelling =>
    rw [htask] at hi
    simp only [htask] at hstep
    split at hstep
    · cases hstep
      refine inv_sweep h (grown_poll h) (by simp [htask, Task.Registers]) hi _ fun c hc _ => ?_
      by_cases hlife : (s.poll.child c).life = .reaped
      · exact .inl (.inl hlife)
      · -- a child that the polls did not reap is in the registry, and without a return code
        have hg := grown_poll h
        have hstored := (hg.childInv h.children).stored c ((hg.ages c).same.2.1.trans hc) hlife
        have hnone : (s.poll.child c).returncode = false :=
          Bool.eq_false_iff.2 fun hcode => hlife ((hg.childInv h.children).coded c hcode)
        exact .inr (List.mem_filter.2
          ⟨List.mem_map_of_mem (f := Prod.snd) (Dict.get?_eq_some_iff.1 hstored), by simp [hnone]⟩)
    · cases hstep

theorem inv_step {a : Action} (h : s.Inv) (hown : Owns s a) (hstep : step s a = some s') : s'.Inv := by
  cases a with
  | begin i op =>
    simp only [step] at hstep
    split at hstep
    · exact inv_begin h ‹_› hstep
    · cases hstep
  | popen i pid =>
    simp only [step] at hstep
    split at hstep
    · rename_i late htask
      split at hstep
      · cases hstep
        exact inv_popen h htask ‹_›
      · cases hstep
    · cases hstep
  | go i => exact inv_go h (fun c => hown i c rfl) hstep
  | exit c =>
    simp only [step] at hstep
    split at hstep
    · cases hstep
      exact inv_exit h ‹_›
    · cases hstep

theorem inv_start (h : s.Started) : s.Inv := by
  subst h
  refine ⟨⟨?_, ?_, ?_, ?_, ?_, ?_⟩, fun _ => trivial, nofun, nofun⟩ <;>
    simp [Dict.get?, Dict.find, Dict.empty]

/-- Where `unregister` only takes out its own child, a cancelled scope leaves no worker behind. -/
theorem cancel_leaves_none (h : Reachable step Owns State.Started s) : s.Holds := by
  have hinv : s.Inv :=
    h.invariant (fun _ => inv_start) fun _ _ _ hinv hown hstep => inv_step hinv hown hstep
  refine ⟨fun hback c hc hno => ?_, hinv.children.refused, hinv.spared⟩
  exact ((hinv.returned hback).2 c hc hno).resolve_right List.not_mem_nil

theorem cancel_leaves_none_swept :
    ∃ s : State, s.returned = true ∧ (s.child 0).killed = true ∧ s.Holds := by
  have hgo : ∀ {s : State} {i : Nat}, (∀ c, s.task i ≠ .unregistering c) → Owns s (.go i) := by
    rintro s i hno _ c ⟨⟩ htask
    exact absurd htask (hno c)
  have hreached : Reachable step Owns State.Started _ :=
    .step (.step (.step (.step (.step (.step (.step (.step (.start rfl)
      (a := .begin 0 .spawn) nofun rfl) (a := .go 0) (hgo nofun) rfl) (a := .popen 0 7) nofun rfl)
      (a := .go 0) (hgo nofun) rfl) (a := .begin 1 .cancel) nofun rfl) (a := .go 1) (hgo nofun) rfl)
      (a := .go 1) (hgo nofun) rfl) (a := .go 1) (hgo nofun) rfl
  exact ⟨_, rfl, rfl, cancel_leaves_none hreached⟩

/-- A thread unregisters a child whose pid has gone to a newer one, and the sweep does not see the newer. -/
theorem recycled_pid : ¬ ∀ s : State, Reachable step (fun _ _ => True) State.Started s → s.Holds := by
  intro h
  have hreached : Reachable step (fun _ _ => True) State.Started _ :=
    .of_always (.start rfl) ([.begin 0 .spawn, .go 0, .popen 0 7, .go 0, .exit 0,
      .begin 0 (.wait 0), .go 0, .go 0, .begin 1 .spawn, .go 1, .popen 1 7, .go 1, .begin 0 (.kill 0), .go 0, .go 0, .go 0,
      .begin 2 .cancel, .go 2] : List Action) (fun _ _ _ => trivial) rfl
  have hidle : ¬ Task.idle.Registers 1 := by simp [Task.Registers]
  have hgone := (h _ hreached).killed rfl 1 rfl fun
    | 0 | 1 | 2 | _ + 3 => hidle
  revert hgone
  unfold State.Gone
  decide

end CancelScope
end Tempest
