import Tempest.Api.Runs

/-!
# Watcher — the run watcher of the desktop (`watcher.rs`)

One thread polls the engine for the runs that are tracked and emits an event for every answer; it parks
while none is tracked.  It waits on a condition variable with the lock on `stopped`, but the runs are
behind a lock of their own, which `track` gives back before it notifies.

Every access to one of the two locks, every call of the engine and every event is a step, and any number
of threads call `track` and `shutdown`.
-/

namespace Tempest
namespace Watcher

open Runs (RunStatus)

/-! ## The thread and its callers -/

/-- What of `getRun` is read. -/
structure RunProbe where
  status : RunStatus
  verdict : Option Verdict
  deriving DecidableEq

structure RunProgress extends RunProbe where
  runId : Int32
  deriving DecidableEq

def RunProgress.terminal (p : RunProgress) : Bool := p.status ≠ .pending

/-- What a call of `getRun` ends with: the engine is down, its answer is no `RunProbe`, or it is one. -/
inductive Answer where
  | down
  | unreadable
  | probe (probe : RunProbe)
  deriving DecidableEq

/-- Where `watch_loop` is.  In `testing` and in `parking` it holds the lock on `stopped`; `woken` is
whether a notification has reached it where it waits. -/
inductive Loop where
  | top
  | testing
  | parking
  | parked (woken : Bool)
  | listing
  | probing (ids : List Int32)
  | emitting (progress : RunProgress) (ids : List Int32)
  | removing (runId : Int32) (ids : List Int32)
  | ticking (woken : Bool)
  | ended
  deriving DecidableEq

namespace Loop

/-- The lock on `stopped` is taken. -/
def holds : Loop → Bool
  | testing | parking => true
  | top | parked _ | listing | probing _ | emitting _ _ | removing _ _ | ticking _ | ended => false

/-- `notify_all` reaches who waits, and nobody else. -/
def notify : Loop → Loop
  | parked _ => parked true
  | ticking _ => ticking true
  | loop => loop

/-- The loop is between its look at `stopped` and the wait of its tick, with the lock given back. -/
def inRound : Loop → Bool
  | listing | probing _ | emitting _ _ | removing _ _ => true
  | top | testing | parking | parked _ | ticking _ | ended => false

end Loop

inductive Entry where
  | track (runId : Int32)
  | event (progress : RunProgress)
  deriving DecidableEq

/-- `Shared` and the thread, with the calls of `track` and of `shutdown` that have yet to notify, whether
a `shutdown` has returned, and the log of what happened, the newest first. -/
structure State where
  tracked : Finset Int32 := ∅
  stopped : Bool := false
  loop : Loop := .top
  tracking : Nat := 0
  stopping : Nat := 0
  closed : Bool := false
  log : List Entry := []
  deriving DecidableEq

def start : State := {}

inductive Action where
  | track (runId : Int32)
  | trackNotify
  | shutdown
  | shutdownNotify
  | look
  | test
  | park
  | wake
  | list (ids : List Int32)
  | answer (answer : Answer)
  | emit
  | remove
  | tick
  deriving DecidableEq

namespace State

/-- `track`, as far as the insertion. -/
def track (s : State) (runId : Int32) : State :=
  { s with
    tracked := insert runId s.tracked
    tracking := s.tracking + 1
    log := .track runId :: s.log }

def trackNotify (s : State) : Option State :=
  if 0 < s.tracking then some { s with tracking := s.tracking - 1, loop := s.loop.notify } else none

/-- `shutdown`, as far as the flag, once it gets the lock. -/
def shutdown (s : State) : Option State :=
  if s.loop.holds then none else some { s with stopped := true, stopping := s.stopping + 1 }

def shutdownNotify (s : State) : Option State :=
  if 0 < s.stopping then
    some { s with stopping := s.stopping - 1, loop := s.loop.notify, closed := true }
  else none

/-- `if *stopped`, at the top and after a wait. -/
def look (s : State) (next : Loop) : State := { s with loop := if s.stopped then .ended else next }

def test (s : State) : State := { s with loop := if s.tracked.Nonempty then .listing else .parking }

def probed (s : State) (runId : Int32) (ids : List Int32) : Answer → State
  | .down | .unreadable => { s with loop := .probing ids }
  | .probe probe => { s with loop := .emitting { probe with runId := runId } ids }

def emitted (s : State) (progress : RunProgress) (ids : List Int32) : State :=
  { s with
    log := .event progress :: s.log
    loop := if progress.terminal then .removing progress.runId ids else .probing ids }

/-- It wakes by a notification, when the time is up or for no reason at all. -/
def wake (s : State) : Option State :=
  match s.loop with
  | .parked _ => some (s.look .testing)
  | .ticking _ => some (s.look .top)
  | _ => none

/-- A `HashMap` lists its keys in any order. -/
def list (s : State) (ids : List Int32) : Option State :=
  if s.loop = .listing ∧ ids.Nodup ∧ ids.toFinset = s.tracked then some { s with loop := .probing ids }
  else none

def answer (s : State) (answer : Answer) : Option State :=
  match s.loop with
  | .probing (runId :: ids) => some (s.probed runId ids answer)
  | _ => none

def emit (s : State) : Option State :=
  match s.loop with
  | .emitting progress ids => some (s.emitted progress ids)
  | _ => none

def remove (s : State) : Option State :=
  match s.loop with
  | .removing runId ids => some { s with tracked := s.tracked.erase runId, loop := .probing ids }
  | _ => none

@[grind =]
def step (s : State) : Action → Option State
  | .track runId => some (s.track runId)
  | .trackNotify => s.trackNotify
  | .shutdown => s.shutdown
  | .shutdownNotify => s.shutdownNotify
  | .look => if s.loop = .top then some (s.look .testing) else none
  | .test => if s.loop = .testing then some s.test else none
  | .park => if s.loop = .parking then some { s with loop := .parked false } else none
  | .wake => s.wake
  | .list ids => s.list ids
  | .answer answer => s.answer answer
  | .emit => s.emit
  | .remove => s.remove
  | .tick => if s.loop = .probing [] then some { s with loop := .ticking false } else none

end State

/-! ## What is expected of it -/

/-- `Keeps` is what the callers rely on: a run that was tracked stays so until an event has said that it
ended; nothing follows that event unless the run is tracked again; the thread does not wait for a
notification that nobody will send while there are runs, nor once a `shutdown` has returned. -/
structure Keeps (s : State) : Prop where
  stays : ∀ later earlier runId, s.log = later ++ .track runId :: earlier →
    (∀ p, .event p ∈ later → p.runId = runId → p.status = .pending) → runId ∈ s.tracked
  last : ∀ later between earlier p q,
    s.log = later ++ .event q :: (between ++ .event p :: earlier) → p.status ≠ .pending →
    q.runId = p.runId → .track p.runId ∈ between
  awake : s.loop = .parked false → s.tracked.Nonempty → 0 < s.tracking + s.stopping
  quits : s.closed → s.loop ≠ .parked false

/-- The run whose terminal event is out, as long as it has not been removed. -/
def Loop.removed : Loop → Option Int32
  | removing runId _ => some runId
  | top | testing | parking | parked _ | listing | probing _ | emitting _ _ | ticking _ | ended => none

/-- A run is not tracked between its terminal event and its removal; and when the thread has seen no run
and does not wait yet, a call that has added one leaves its notification to another. -/
def Timely (s : State) : Action → Prop
  | .track runId => s.loop.removed ≠ some runId
  | .trackNotify => ¬ (s.loop = .parking ∧ s.tracked.Nonempty ∧ s.tracking = 1)
  | .shutdown | .shutdownNotify | .look | .test | .park | .wake | .list _ | .answer _ | .emit | .remove
  | .tick => True

instance Timely.decidable (s : State) : (a : Action) → Decidable (Timely s a)
  | .track runId => inferInstanceAs (Decidable (s.loop.removed ≠ some runId))
  | .trackNotify =>
    inferInstanceAs (Decidable (¬ (s.loop = .parking ∧ s.tracked.Nonempty ∧ s.tracking = 1)))
  | .shutdown | .shutdownNotify | .look | .test | .park | .wake | .list _ | .answer _ | .emit | .remove
  | .tick => isTrue trivial

/-- The flag is not set in the middle of a round of probes. -/
def Prompt (s : State) : Action → Prop
  | .shutdown => s.loop.inRound = false
  | .track _ | .trackNotify | .shutdownNotify | .look | .test | .park | .wake | .list _ | .answer _
  | .emit | .remove | .tick => True

/-! ## The log -/

/-- It has been tracked, and no event since has said that it ended. -/
def Due (runId : Int32) : List Entry → Prop
  | [] => False
  | .track id :: log => id = runId ∨ Due runId log
  | .event p :: log => ¬ (p.runId = runId ∧ p.terminal) ∧ Due runId log

def Orderly : List Entry → Prop
  | [] => True
  | .track _ :: log => Orderly log
  | .event p :: log => Due p.runId log ∧ Orderly log

section Log

variable {runId : Int32} {later between earlier : List Entry} {p q : RunProgress}

theorem terminal_iff : p.terminal ↔ p.status ≠ .pending := by
  simp only [RunProgress.terminal, ne_eq, decide_not, Bool.not_eq_true', decide_eq_false_iff_not]

theorem due_of_track (h : ∀ p, .event p ∈ later → p.runId = runId → p.status = .pending) :
    Due runId (later ++ .track runId :: earlier) := by
  induction later with
  | nil => exact Or.inl rfl
  | cons entry later ih =>
    have hrest : Due runId (later ++ .track runId :: earlier) :=
      ih fun p hp => h p (List.mem_cons_of_mem _ hp)
    cases entry with
    | track id => exact Or.inr hrest
    | event p =>
      refine ⟨?_, hrest⟩
      intro hp
      exact terminal_iff.mp hp.2 (h p List.mem_cons_self hp.1)

theorem track_of_due (hdue : Due p.runId (between ++ .event p :: earlier)) (hp : p.terminal) :
    .track p.runId ∈ between := by
  induction between with
  | nil => exact absurd ⟨rfl, hp⟩ hdue.1
  | cons entry between ih =>
    cases entry with
    | track id =>
      cases hdue with
      | inl hid => exact hid ▸ List.mem_cons_self
      | inr hrest => exact List.mem_cons_of_mem _ (ih hrest)
    | event q => exact List.mem_cons_of_mem _ (ih hdue.2)

theorem Orderly.due (h : Orderly (later ++ .event q :: earlier)) : Due q.runId earlier := by
  induction later with
  | nil => exact h.1
  | cons entry later ih =>
    cases entry with
    | track id => exact ih h
    | event p => exact ih h.2

end Log

/-! ## The invariant -/

namespace Loop

def round : Loop → List Int32
  | probing ids | removing _ ids => ids
  | emitting progress ids => progress.runId :: ids
  | top | testing | parking | parked _ | listing | ticking _ | ended => []

/-- The thread has seen no run, and nothing has woken it since. -/
def asleep : Loop → Bool
  | parking | parked false => true
  | parked true | top | testing | listing | probing _ | emitting _ _ | removing _ _ | ticking _
  | ended => false

variable (loop : Loop)

@[simp] theorem removed_notify : loop.notify.removed = loop.removed := by
  cases loop <;> rfl

@[simp] theorem round_notify : loop.notify.round = loop.round := by
  cases loop <;> rfl

@[simp] theorem holds_notify : loop.notify.holds = loop.holds := by
  cases loop <;> rfl

theorem asleep_notify {loop : Loop} (h : loop.notify.asleep) : loop = .parking := by
  cases loop with
  | parking => rfl
  | _ => cases h

end Loop

/-- `tracked` is where the set and the log agree, `wait` why no notification is lost. -/
structure Inv (s : State) : Prop where
  tracked : ∀ runId, runId ∈ s.tracked ↔ Due runId s.log ∨ s.loop.removed = some runId
  round : s.loop.round.Nodup ∧ ∀ runId ∈ s.loop.round, Due runId s.log
  removed : ∀ runId, s.loop.removed = some runId → ¬ Due runId s.log
  orderly : Orderly s.log
  lock : s.loop.holds → s.stopped = false
  flag : 0 < s.stopping ∨ s.closed → s.stopped
  wait : s.loop.asleep → (s.tracked.Nonempty → 0 < s.tracking) ∧ s.closed = false

theorem inv_start : Inv start where
  tracked runId := by simp only [start, Finset.notMem_empty, Due, Loop.removed, reduceCtorEq, or_self]
  round := ⟨List.nodup_nil, fun _ h => by cases h⟩
  removed _ h := by cases h
  orderly := trivial
  lock _ := rfl
  flag h := by simp only [start, lt_irrefl, Bool.false_eq_true, or_self] at h
  wait h := by cases h

theorem Inv.keeps {s : State} (h : Inv s) : Keeps s where
  stays later earlier runId hlog hpending := by
    refine (h.tracked runId).mpr (Or.inl ?_)
    rw [hlog]
    exact due_of_track hpending
  last later between earlier p q hlog hp hq := by
    have horderly : Orderly (later ++ .event q :: (between ++ .event p :: earlier)) := hlog ▸ h.orderly
    exact track_of_due (hq ▸ horderly.due) (terminal_iff.mpr hp)
  awake hloop hruns := by
    have hwait := h.wait (by rw [hloop]; rfl)
    exact Nat.add_pos_left (hwait.1 hruns) _
  quits hclosed hloop := by
    have hwait := h.wait (by rw [hloop]; rfl)
    exact absurd (hwait.2 ▸ hclosed) Bool.false_ne_true

/-! ## Steps -/

section Steps

variable {s s' : State} {runId : Int32} {ids : List Int32} {loop : Loop}

theorem Inv.goto (h : Inv s) (hfrom : s.loop.removed = none) (hto : loop.removed = none)
    (hround : loop.round.Nodup ∧ ∀ runId ∈ loop.round, Due runId s.log)
    (hlock : loop.holds → s.stopped = false)
    (hwait : loop.asleep → (s.tracked.Nonempty → 0 < s.tracking) ∧ s.closed = false) :
    Inv { s with loop := loop } where
  tracked runId := by
    rw [h.tracked runId, hfrom]
    simp only [hto]
  round := hround
  removed runId hrem := by rw [hto] at hrem; cases hrem
  orderly := h.orderly
  lock := hlock
  flag := h.flag
  wait := hwait

theorem Inv.track (h : Inv s) (hok : Timely s (.track runId)) : Inv (s.track runId) where
  tracked id := by
    have hid := h.tracked id
    simp only [State.track, Finset.mem_insert, hid, Due, eq_comm (a := id), or_assoc]
  round := ⟨h.round.1, fun id hid => Or.inr (h.round.2 id hid)⟩
  removed id hid := by
    intro hdue
    cases hdue with
    | inl heq => exact hok (heq ▸ hid)
    | inr hdue => exact h.removed id hid hdue
  orderly := h.orderly
  lock := h.lock
  flag := h.flag
  wait hasleep := ⟨fun _ => Nat.succ_pos _, (h.wait hasleep).2⟩

/-- A notification wakes the thread unless it is about to wait. -/
theorem Inv.trackNotify (h : Inv s) (hok : Timely s .trackNotify) (hstep : s.trackNotify = some s') :
    Inv s' := by
  simp only [State.trackNotify] at hstep
  split_ifs at hstep with hpos
  cases hstep
  refine ⟨?_, ?_, ?_, h.orderly, ?_, h.flag, ?_⟩
  · simpa only [Loop.removed_notify] using h.tracked
  · simpa only [Loop.round_notify] using h.round
  · simpa only [Loop.removed_notify] using h.removed
  · simpa only [Loop.holds_notify] using h.lock
  · -- whoever waits is awake now, so that only a thread about to wait is left
    intro hasleep
    have hparking : s.loop = .parking := Loop.asleep_notify hasleep
    have hwait := h.wait (by rw [hparking]; rfl)
    refine ⟨?_, hwait.2⟩
    intro hruns
    have hone : s.tracking ≠ 1 := fun hone => hok ⟨hparking, hruns, hone⟩
    exact Nat.sub_pos_of_lt (Nat.lt_of_le_of_ne hpos (Ne.symm hone))

theorem Inv.shutdown (h : Inv s) (hstep : s.shutdown = some s') : Inv s' := by
  simp only [State.shutdown] at hstep
  split_ifs at hstep with hlock
  cases hstep
  exact {
    tracked := h.tracked
    round := h.round
    removed := h.removed
    orderly := h.orderly
    lock := fun hheld => absurd hheld hlock
    flag := fun _ => rfl
    wait := h.wait }

/-- Once the flag is set the thread does not hold the lock, so that the notification finds it waiting or
on its way to read the flag. -/
theorem Inv.shutdownNotify (h : Inv s) (hstep : s.shutdownNotify = some s') : Inv s' := by
  simp only [State.shutdownNotify] at hstep
  split_ifs at hstep with hpos
  cases hstep
  have hstopped : s.stopped = true := h.flag (Or.inl hpos)
  refine ⟨?_, ?_, ?_, h.orderly, ?_, fun _ => hstopped, ?_⟩
  · simpa only [Loop.removed_notify] using h.tracked
  · simpa only [Loop.round_notify] using h.round
  · simpa only [Loop.removed_notify] using h.removed
  · simpa only [Loop.holds_notify] using h.lock
  · intro hasleep
    have hparking : s.loop = .parking := Loop.asleep_notify hasleep
    have hfree : s.stopped = false := h.lock (by rw [hparking]; rfl)
    rw [hstopped] at hfree
    cases hfree

theorem Inv.look (h : Inv s) (hfrom : s.loop.removed = none) (hto : loop.removed = none)
    (hround : loop.round = []) (hasleep : loop.asleep = false) : Inv (s.look loop) := by
  simp only [State.look]
  by_cases hstopped : s.stopped = true
  · rw [if_pos hstopped]
    exact h.goto hfrom rfl ⟨List.nodup_nil, fun _ h => by cases h⟩ (fun h => by cases h)
      (fun h => by cases h)
  · rw [if_neg hstopped]
    refine h.goto hfrom hto ?_ (fun _ => Bool.eq_false_iff.mpr hstopped) ?_
    · rw [hround]
      exact ⟨List.nodup_nil, fun _ h => by cases h⟩
    · rw [hasleep]
      exact fun h => by cases h

theorem Inv.test (h : Inv s) (hloop : s.loop = .testing) : Inv s.test := by
  have hfrom : s.loop.removed = none := by rw [hloop]; rfl
  have hopen : s.stopped = false := h.lock (by rw [hloop]; rfl)
  have hnone : (∀ runId ∈ ([] : List Int32), Due runId s.log) := fun _ h => by cases h
  simp only [State.test]
  by_cases hruns : s.tracked.Nonempty
  · rw [if_pos hruns]
    exact h.goto hfrom rfl ⟨List.nodup_nil, hnone⟩ (fun _ => hopen) (fun h => by cases h)
  · rw [if_neg hruns]
    refine h.goto hfrom rfl ⟨List.nodup_nil, hnone⟩ (fun _ => hopen) fun _ =>
      ⟨fun hr => absurd hr hruns, ?_⟩
    by_contra hclosed
    have hstopped := h.flag (Or.inr (Bool.eq_true_of_not_eq_false hclosed))
    rw [hopen] at hstopped
    cases hstopped

theorem Inv.list (h : Inv s) (hloop : s.loop = .listing) (hids : ids.Nodup)
    (hall : ids.toFinset = s.tracked) : Inv { s with loop := .probing ids } := by
  have hfrom : s.loop.removed = none := by rw [hloop]; rfl
  refine h.goto hfrom rfl ⟨hids, ?_⟩ (fun h => by cases h) (fun h => by cases h)
  intro runId hid
  have hmem : runId ∈ s.tracked := hall ▸ List.mem_toFinset.mpr hid
  have hdue := (h.tracked runId).mp hmem
  rw [hfrom] at hdue
  exact hdue.resolve_right (by rintro ⟨⟩)

theorem Inv.probed (h : Inv s) (hloop : s.loop = .probing (runId :: ids)) (answer : Answer) :
    Inv (s.probed runId ids answer) := by
  have hfrom : s.loop.removed = none := by rw [hloop]; rfl
  have hround : (runId :: ids).Nodup ∧ ∀ id ∈ runId :: ids, Due id s.log := by
    have hround := h.round
    rw [hloop] at hround
    exact hround
  have hrest : ids.Nodup ∧ ∀ id ∈ ids, Due id s.log :=
    ⟨(List.nodup_cons.mp hround.1).2, fun id hid => hround.2 id (List.mem_cons_of_mem _ hid)⟩
  cases answer with
  | down | unreadable => exact h.goto hfrom rfl hrest (fun h => by cases h) (fun h => by cases h)
  | probe probe => exact h.goto hfrom rfl hround (fun h => by cases h) (fun h => by cases h)

/-- A terminal event makes its run the one to remove; any other leaves it due. -/
theorem Inv.emitted {progress : RunProgress} (h : Inv s) (hloop : s.loop = .emitting progress ids) :
    Inv (s.emitted progress ids) := by
  have hround : (progress.runId :: ids).Nodup ∧ ∀ id ∈ progress.runId :: ids, Due id s.log := by
    have hround := h.round
    rw [hloop] at hround
    exact hround
  have hdue : Due progress.runId s.log := hround.2 _ List.mem_cons_self
  have hids := List.nodup_cons.mp hround.1
  have hkeep : ∀ id ∈ ids, Due id (.event progress :: s.log) := by
    intro id hid
    refine ⟨?_, hround.2 id (List.mem_cons_of_mem _ hid)⟩
    rintro ⟨heq, -⟩
    exact hids.1 (heq ▸ hid)
  have htracked : ∀ id, id ∈ s.tracked ↔ Due id s.log := by
    intro id
    have hid := h.tracked id
    rw [hloop] at hid
    simpa only [Loop.removed, reduceCtorEq, or_false] using hid
  have hlogged : ∀ id, Due id (.event progress :: s.log) ↔
      ¬ (progress.runId = id ∧ progress.terminal) ∧ Due id s.log := fun _ => Iff.rfl
  -- a terminal event leaves its run in the set, for `remove` to take out
  cases hterminal : progress.terminal with
  | true =>
    have hshape : s.emitted progress ids =
        { s with log := .event progress :: s.log, loop := .removing progress.runId ids } := by
      simp only [State.emitted, hterminal, if_true]
    rw [hshape]
    refine ⟨?_, ⟨hids.2, hkeep⟩, ?_, ⟨hdue, h.orderly⟩, (fun h => by cases h), h.flag,
      (fun h => by cases h)⟩
    · intro id
      rw [htracked id]
      simp only [hlogged, hterminal, and_true, Loop.removed, Option.some.injEq]
      by_cases heq : progress.runId = id
      · subst heq
        simp only [hdue, not_true_eq_false, false_and, or_true]
      · simp only [heq, not_false_eq_true, true_and, or_false]
    · intro id hid hnow
      cases hid
      exact hnow.1 ⟨rfl, hterminal⟩
  | false =>
    have hshape : s.emitted progress ids =
        { s with log := .event progress :: s.log, loop := .probing ids } := by
      simp only [State.emitted, hterminal, Bool.false_eq_true, if_false]
    rw [hshape]
    refine ⟨?_, ⟨hids.2, hkeep⟩, (fun _ h => by cases h), ⟨hdue, h.orderly⟩, (fun h => by cases h),
      h.flag, (fun h => by cases h)⟩
    intro id
    rw [htracked id]
    simp only [hlogged, hterminal, Bool.false_eq_true, and_false, not_false_eq_true, true_and,
      Loop.removed, reduceCtorEq, or_false]

theorem Inv.remove (h : Inv s) (hloop : s.loop = .removing runId ids) :
    Inv { s with tracked := s.tracked.erase runId, loop := .probing ids } where
  tracked id := by
    have hid := h.tracked id
    have hgone := h.removed runId (by rw [hloop]; rfl)
    rw [hloop] at hid
    simp only [Loop.removed, Option.some.injEq] at hid
    simp only [Finset.mem_erase, hid, Loop.removed, reduceCtorEq, or_false]
    by_cases heq : id = runId
    · subst heq
      simp only [ne_eq, not_true_eq_false, false_and, hgone]
    · simp only [ne_eq, heq, not_false_eq_true, true_and, Ne.symm heq, or_false]
  round := by
    have hround := h.round
    rw [hloop] at hround
    exact hround
  removed _ h := by cases h
  orderly := h.orderly
  lock h := by cases h
  flag := h.flag
  wait h := by cases h

end Steps

theorem inv_step {s s' : State} {a : Action} (h : Inv s) (hok : Timely s a)
    (hstep : s.step a = some s') : Inv s' := by
  have hnone : ∀ runId ∈ ([] : List Int32), Due runId s.log := fun _ h => by cases h
  cases a with
  | track runId => exact Option.some.inj hstep ▸ h.track hok
  | trackNotify => exact h.trackNotify hok hstep
  | shutdown => exact h.shutdown hstep
  | shutdownNotify => exact h.shutdownNotify hstep
  | look =>
    simp only [State.step] at hstep
    split_ifs at hstep with hloop
    exact Option.some.inj hstep ▸ h.look (by rw [hloop]; rfl) rfl rfl rfl
  | test =>
    simp only [State.step] at hstep
    split_ifs at hstep with hloop
    exact Option.some.inj hstep ▸ h.test hloop
  | park =>
    simp only [State.step] at hstep
    split_ifs at hstep with hloop
    have hwait := h.wait (by rw [hloop]; rfl)
    exact Option.some.inj hstep ▸
      h.goto (by rw [hloop]; rfl) rfl ⟨List.nodup_nil, hnone⟩ (fun h => by cases h) fun _ => hwait
  | wake =>
    simp only [State.step, State.wake] at hstep
    split at hstep
    next hloop => exact Option.some.inj hstep ▸ h.look (by rw [hloop]; rfl) rfl rfl rfl
    next hloop => exact Option.some.inj hstep ▸ h.look (by rw [hloop]; rfl) rfl rfl rfl
    next => cases hstep
  | list ids =>
    simp only [State.step, State.list] at hstep
    split_ifs at hstep with hids
    exact Option.some.inj hstep ▸ h.list hids.1 hids.2.1 hids.2.2
  | answer answer =>
    simp only [State.step, State.answer] at hstep
    split at hstep
    next hloop => exact Option.some.inj hstep ▸ h.probed hloop answer
    next => cases hstep
  | emit =>
    simp only [State.step, State.emit] at hstep
    split at hstep
    next hloop => exact Option.some.inj hstep ▸ h.emitted hloop
    next => cases hstep
  | remove =>
    simp only [State.step, State.remove] at hstep
    split at hstep
    next hloop => exact Option.some.inj hstep ▸ h.remove hloop
    next => cases hstep
  | tick =>
    simp only [State.step] at hstep
    split_ifs at hstep with hloop
    exact Option.some.inj hstep ▸
      h.goto (by rw [hloop]; rfl) rfl ⟨List.nodup_nil, hnone⟩ (fun h => by cases h)
        (fun h => by cases h)

theorem inv_of_reachable {s : State} (h : Reachable State.step Timely (· = start) s) : Inv s :=
  h.invariant (fun _ hs => hs ▸ inv_start) fun _ _ _ hinv hok hstep => inv_step hinv hok hstep

/-! ## What a step that is not timely does -/

section Untimely

variable {s s' : State} {runId : Int32}

/-- The removal that follows takes the run out although it was tracked anew. -/
theorem lost_run (hloop : s.loop.removed = some runId) :
    ∃ s', (s.track runId).step .remove = some s' ∧ ¬ Keeps s' := by
  have hids : ∃ ids, s.loop = .removing runId ids := by
    cases h : s.loop with
    | removing id ids =>
      rw [h] at hloop
      exact ⟨ids, by rw [Option.some.inj hloop]⟩
    | _ =>
      rw [h] at hloop
      cases hloop
  obtain ⟨ids, hids⟩ := hids
  refine ⟨{ s.track runId with
    tracked := (s.track runId).tracked.erase runId, loop := .probing ids }, ?_, ?_⟩
  · simp only [State.step, State.remove, State.track, hids]
  · intro hkeeps
    have hstays := hkeeps.stays [] s.log runId rfl fun _ h => by cases h
    exact Finset.notMem_erase _ _ hstays

/-- The thread is not waiting yet when it is notified, and then waits with a run to watch. -/
theorem lost_wake (h : Inv s) (hloop : s.loop = .parking) (hruns : s.tracked.Nonempty)
    (hone : s.tracking = 1) (hstep : s.trackNotify = some s') :
    ∃ s'', s'.step .park = some s'' ∧ ¬ Keeps s'' := by
  simp only [State.trackNotify, hone, zero_lt_one, if_true, Option.some.injEq] at hstep
  refine ⟨{ s' with loop := .parked false }, ?_, ?_⟩
  · simp only [State.step, ← hstep, hloop, Loop.notify, if_true]
  · intro hkeeps
    have hopen : s.stopped = false := h.lock (by rw [hloop]; rfl)
    have hawake := hkeeps.awake rfl (hstep ▸ hruns)
    have hstopping : 0 < s.stopping := by
      simpa only [← hstep, Nat.sub_self, zero_add] using hawake
    have hstopped := h.flag (Or.inl hstopping)
    rw [hopen] at hstopped
    cases hstopped

theorem untimely_breaks {a : Action} (h : Inv s) (hnot : ¬ Timely s a) (hstep : s.step a = some s') :
    ∃ b s'', s'.step b = some s'' ∧ ¬ Keeps s'' := by
  cases a with
  | track runId =>
    have hloop : s.loop.removed = some runId := not_not.mp hnot
    exact ⟨.remove, Option.some.inj hstep ▸ lost_run hloop⟩
  | trackNotify =>
    have hlost := not_not.mp hnot
    exact ⟨.park, lost_wake h hlost.1 hlost.2.1 hlost.2.2 hstep⟩
  | _ => exact absurd trivial hnot

end Untimely

/-! ## The wait of the tick -/

/-- No round is under way once the flag is set, and the tick is not slept through once a `shutdown` has
returned. -/
structure Alert (s : State) : Prop where
  round : s.loop.inRound → s.stopped = false
  tick : s.loop = .ticking false → s.closed = false

section Alert

variable {s s' : State} {loop : Loop}

theorem Alert.notify (h : Alert s) :
    (s.loop.notify.inRound → s.stopped = false) ∧ s.loop.notify ≠ .ticking false := by
  have hround := h.round
  cases hloop : s.loop <;> rw [hloop] at hround <;> exact ⟨hround, by rintro ⟨⟩⟩

theorem Alert.look (hto : loop.inRound = false) (htick : loop ≠ .ticking false) :
    Alert (s.look loop) := by
  simp only [State.look]
  by_cases hstopped : s.stopped = true
  · rw [if_pos hstopped]
    exact ⟨(fun h => by cases h), (fun h => by cases h)⟩
  · rw [if_neg hstopped]
    exact ⟨fun h => absurd (hto ▸ h) Bool.false_ne_true, fun h => absurd h htick⟩

theorem alert_step {a : Action} (hinv : Inv s) (h : Alert s) (hok : Prompt s a)
    (hstep : s.step a = some s') : Alert s' := by
  cases a with
  | track runId => exact Option.some.inj hstep ▸ ⟨h.round, h.tick⟩
  | trackNotify =>
    simp only [State.step, State.trackNotify] at hstep
    split_ifs at hstep
    exact Option.some.inj hstep ▸ ⟨h.notify.1, fun htick => absurd htick h.notify.2⟩
  | shutdown =>
    simp only [State.step, State.shutdown] at hstep
    split_ifs at hstep
    exact Option.some.inj hstep ▸ ⟨fun hround => absurd (hok ▸ hround) Bool.false_ne_true, h.tick⟩
  | shutdownNotify =>
    simp only [State.step, State.shutdownNotify] at hstep
    split_ifs at hstep
    exact Option.some.inj hstep ▸ ⟨h.notify.1, fun htick => absurd htick h.notify.2⟩
  | look =>
    simp only [State.step] at hstep
    split_ifs at hstep
    exact Option.some.inj hstep ▸ Alert.look rfl (by rintro ⟨⟩)
  | test =>
    simp only [State.step] at hstep
    split_ifs at hstep with hloop
    have hopen : s.stopped = false := hinv.lock (by rw [hloop]; rfl)
    refine Option.some.inj hstep ▸ ⟨fun _ => hopen, ?_⟩
    simp only [State.test]
    split_ifs <;> exact fun h => by cases h
  | park =>
    simp only [State.step] at hstep
    split_ifs at hstep
    exact Option.some.inj hstep ▸ ⟨(fun h => by cases h), (fun h => by cases h)⟩
  | wake =>
    simp only [State.step, State.wake] at hstep
    split at hstep
    next => exact Option.some.inj hstep ▸ Alert.look rfl (by rintro ⟨⟩)
    next => exact Option.some.inj hstep ▸ Alert.look rfl (by rintro ⟨⟩)
    next => cases hstep
  | list ids =>
    simp only [State.step, State.list] at hstep
    split_ifs at hstep with hids
    have hopen : s.stopped = false := h.round (by rw [hids.1]; rfl)
    exact Option.some.inj hstep ▸ ⟨fun _ => hopen, (fun h => by cases h)⟩
  | answer answer =>
    simp only [State.step, State.answer] at hstep
    split at hstep
    next hloop =>
      have hopen : s.stopped = false := h.round (by rw [hloop]; rfl)
      refine Option.some.inj hstep ▸ ?_
      cases answer <;> exact ⟨fun _ => hopen, (fun h => by cases h)⟩
    next => cases hstep
  | emit =>
    simp only [State.step, State.emit] at hstep
    split at hstep
    next hloop =>
      have hopen : s.stopped = false := h.round (by rw [hloop]; rfl)
      refine Option.some.inj hstep ▸ ⟨fun _ => hopen, ?_⟩
      simp only [State.emitted]
      split_ifs <;> exact fun h => by cases h
    next => cases hstep
  | remove =>
    simp only [State.step, State.remove] at hstep
    split at hstep
    next hloop =>
      have hopen : s.stopped = false := h.round (by rw [hloop]; rfl)
      exact Option.some.inj hstep ▸ ⟨fun _ => hopen, (fun h => by cases h)⟩
    next => cases hstep
  | tick =>
    simp only [State.step] at hstep
    split_ifs at hstep with hloop
    have hopen : s.stopped = false := h.round (by rw [hloop]; rfl)
    refine Option.some.inj hstep ▸ ⟨(fun h => by cases h), fun _ => ?_⟩
    by_contra hclosed
    have hstopped := hinv.flag (Or.inr (Bool.eq_true_of_not_eq_false hclosed))
    rw [hopen] at hstopped
    cases hstopped

end Alert

/-! ## Runs -/

theorem alert_start : Alert start where
  round h := by cases h
  tick h := by cases h

/-- In every run whose steps are timely the watcher keeps what its callers rely on, and a step that is
not is followed by one that breaks it.  Where no `shutdown` comes in the middle of a round, the thread
waits nowhere once it has returned. -/
theorem forgets_none {s : State} (h : Reachable State.step Timely (· = start) s) :
    Keeps s ∧
      (∀ a s', ¬ Timely s a → s.step a = some s' → ∃ b s'', s'.step b = some s'' ∧ ¬ Keeps s'') ∧
      ∀ s, Reachable State.step (fun s a => Timely s a ∧ Prompt s a) (· = start) s → s.closed →
        s.loop ≠ .parked false ∧ s.loop ≠ .ticking false := by
  have hinv : Inv s := inv_of_reachable h
  refine ⟨hinv.keeps, fun a s' hnot hstep => untimely_breaks hinv hnot hstep, ?_⟩
  intro t ht hclosed
  have hboth : Inv t ∧ Alert t := by
    refine @Reachable.invariant State Action _ _ _ (fun s => Inv s ∧ Alert s) ?_ ?_ t ht
    · rintro _ rfl
      exact ⟨inv_start, alert_start⟩
    · intro s a s' hinv hok hstep
      exact ⟨inv_step hinv.1 hok.1 hstep, alert_step hinv.1 hinv.2 hok.2 hstep⟩
  refine ⟨hboth.1.keeps.quits hclosed, ?_⟩
  intro htick
  rw [hboth.2.tick htick] at hclosed
  cases hclosed

/-- A run that is tracked while the thread waits, watched to its end and taken out. -/
def watched : State where
  loop := .ticking false
  log := [.event { runId := 7, status := .complete, verdict := none }, .track 7]

theorem watched_reachable : Reachable State.step Timely (· = start) watched := by
  have hrun : [.look, .test, .park, .track 7, .trackNotify, .wake, .test, .list [7],
      .answer (.probe ⟨.complete, none⟩), .emit, .remove, .tick].foldlM
      (fun s a => if Timely s a then State.step s a else none) start = some watched := by decide
  have hstart : Reachable State.step Timely (· = start) start := .start rfl
  exact hstart.of_foldlM hrun

theorem forgets_none_watched :
    Keeps watched ∧
      (∀ a s', ¬ Timely watched a → watched.step a = some s' →
        ∃ b s'', s'.step b = some s'' ∧ ¬ Keeps s'') ∧
      ∀ s, Reachable State.step (fun s a => Timely s a ∧ Prompt s a) (· = start) s → s.closed →
        s.loop ≠ .parked false ∧ s.loop ≠ .ticking false :=
  forgets_none watched_reachable

/-- A run that is tracked when the thread has seen none and does not wait yet: the thread then sleeps. -/
theorem run_slept_through :
    ¬ ∀ s, Reachable State.step (fun _ _ => True) (· = start) s → Keeps s := by
  intro hkeeps
  obtain ⟨s, hs, htest⟩ := (Reachable.start rfl :
      Reachable State.step (fun _ _ => True) (· = start) start).exists_of_foldlM
    [.look, .test, .track 7, .trackNotify, .park]
    (fun s => s.loop = .parked false ∧ s.tracked = {7} ∧ s.tracking + s.stopping = 0) (by decide)
  simp only [decide_eq_true_eq] at htest
  have hawake := (hkeeps s hs).awake htest.1 (htest.2.1 ▸ Finset.singleton_nonempty _)
  rw [htest.2.2] at hawake
  exact lt_irrefl 0 hawake

end Watcher
end Tempest
