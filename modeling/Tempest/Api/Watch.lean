import Mathlib.Data.Finset.Basic
import Tempest.Process.Reachable

/-!
# Watch — the watch loops of one store (`watchsession.py`)

`start` replaces the stop flag and the pause scope of the session and begins a loop; a loop reads the
flag and the scope off the session whenever it comes to them.  `Session` has the loops by the number of
the start that began each, the calls of `stop` by their steps, the proves that are running, and what
was attempted.  Commits are numbered as they come.
-/

namespace Tempest
namespace Watch

inductive Phase where
  | exited
  /-- `while not self._stop.is_set()`. -/
  | check
  | entering
  /-- In `wait_while_paused`, with the scope it was given. -/
  | pausing (scope : Nat)
  | reading
  | comparing (head : Nat)
  | creating (base head : Nat)
  | publishing (run head : Nat)
  | queueing (run : Nat)
  | proving (run : Nat)
  | clearing
  | sleeping
  | leaving
  /-- The steps of `_fail`, from which the loop returns or goes on. -/
  | failing (returns : Bool)
  | failingSet (returns : Bool)
  | failingHold (returns : Bool)
  deriving DecidableEq

/-- Past the last look at the flag and the scope, and its prove is not registered. -/
def Phase.inWindow : Phase → Bool
  | reading | comparing _ | creating _ _ | publishing _ _ | queueing _ => true
  | _ => false

/-- Where a call of `stop` is, with the run it has read, and the last start before it. -/
inductive StopCall where
  | new
  | setting (gen : Nat) (active : Option Nat)
  | holding (gen : Nat) (active : Option Nat)
  | cancelling (gen : Nat) (active : Option Nat)
  | answering (gen : Nat)
  | returned
  deriving DecidableEq

/-- The flags and scopes are numbered by the start that made them.  No step reads the attempts, whether
a stop has returned since the last start, and the runs created or queued after that. -/
structure Session where
  gen : Nat
  stopped : Finset Nat
  cancelled : Finset Nat
  watching : Bool
  lastSha : Option Nat
  active : Option Nat
  loops : Nat → Phase
  calls : Nat → StopCall
  head : Nat
  nextRun : Nat
  running : Finset Nat
  unwinding : Finset Nat
  attempts : List (Nat × Nat)
  silent : Bool
  late : List Nat

inductive Action where
  | start (sha : Nat)
  | enter (g : Nat)
  | pause (g : Nat)
  | resume (g : Nat)
  | drop (g : Nat)
  | read (g : Nat) (succeeds : Bool)
  | compare (g : Nat)
  | create (g : Nat) (succeeds : Bool)
  | publish (g : Nat)
  | queue (g : Nat) (succeeds : Bool)
  | settle (g : Nat)
  | clear (g : Nat)
  | wake (g : Nat)
  | leave (g : Nat)
  | fail (g : Nat)
  | callRead (i : Nat)
  | callSet (i : Nat)
  | callHold (i : Nat)
  | callCancel (i : Nat) (ownStore : Bool)
  | callReturn (i : Nat)
  | status
  | commit
  | proveEnds (run : Nat)
  | cancelRun (run : Nat)

namespace Session

def setLoop (s : Session) (g : Nat) (phase : Phase) : Session :=
  { s with loops := fun i => if i = g then phase else s.loops i }

def setCall (s : Session) (i : Nat) (call : StopCall) : Session :=
  { s with calls := fun j => if j = i then call else s.calls j }

def isProveActive (s : Session) (run : Nat) : Bool := run ∈ s.running || run ∈ s.unwinding

/-- `request_cancel`, in the store of the session. -/
def requestCancel (s : Session) (run : Nat) : Session :=
  if run ∈ s.running then
    { s with running := s.running.erase run, unwinding := insert run s.unwinding }
  else s

/-- `start`; HEAD was read before. -/
def start (s : Session) (sha : Nat) : Option Session :=
  if s.watching = false ∧ sha ≤ s.head then
    some { s.setLoop (s.gen + 1) .check with
      gen := s.gen + 1
      watching := true
      lastSha := some sha
      active := none
      silent := false }
  else none

/-! ## The loop -/

def enter (s : Session) (g : Nat) : Option Session :=
  match s.loops g with
  | .check => some (s.setLoop g (if s.gen ∈ s.stopped then .leaving else .entering))
  | _ => none

def pause (s : Session) (g : Nat) : Option Session :=
  match s.loops g with
  | .entering => some (s.setLoop g (.pausing s.gen))
  | _ => none

/-- `wait_while_paused` returns. -/
def resume (s : Session) (g : Nat) : Option Session :=
  match s.loops g with
  | .pausing scope => if scope ∈ s.cancelled then none else some (s.setLoop g .reading)
  | _ => none

/-- It raises `ProveCancelled`. -/
def drop (s : Session) (g : Nat) : Option Session :=
  match s.loops g with
  | .pausing scope => if scope ∈ s.cancelled then some (s.setLoop g .leaving) else none
  | _ => none

/-- `head_sha`. -/
def read (s : Session) (g : Nat) (succeeds : Bool) : Option Session :=
  match s.loops g with
  | .reading => some (s.setLoop g (if succeeds then .comparing s.head else .failing true))
  | _ => none

def compare (s : Session) (g : Nat) : Option Session :=
  match s.loops g with
  | .comparing head =>
    match s.lastSha with
    | some last => some (s.setLoop g (if head = last then .sleeping else .creating last head))
    | none => some (s.setLoop g .sleeping)
  | _ => none

/-- `create_watch_run`. -/
def create (s : Session) (g : Nat) (succeeds : Bool) : Option Session :=
  match s.loops g with
  | .creating base head =>
    if succeeds then
      some { s.setLoop g (.publishing s.nextRun head) with
        nextRun := s.nextRun + 1
        attempts := s.attempts ++ [(base, head)]
        late := if s.silent then s.late ++ [s.nextRun] else s.late }
    else some { s.setLoop g (.failing false) with attempts := s.attempts ++ [(base, head)] }
  | _ => none

def publish (s : Session) (g : Nat) : Option Session :=
  match s.loops g with
  | .publishing run head =>
    some { s.setLoop g (.queueing run) with lastSha := some head, active := some run }
  | _ => none

/-- `spawn_prove_thread`; what it raises ends the loop. -/
def queue (s : Session) (g : Nat) (succeeds : Bool) : Option Session :=
  match s.loops g with
  | .queueing run =>
    if s.isProveActive run then some (s.setLoop g (.proving run))
    else if succeeds then
      some { s.setLoop g (.proving run) with
        running := insert run s.running
        late := if s.silent then s.late ++ [run] else s.late }
    else some (s.setLoop g .exited)
  | _ => none

def settle (s : Session) (g : Nat) : Option Session :=
  match s.loops g with
  | .proving run =>
    if s.isProveActive run = false ∨ s.gen ∈ s.stopped then some (s.setLoop g .clearing) else none
  | _ => none

def clear (s : Session) (g : Nat) : Option Session :=
  match s.loops g with
  | .clearing => some { s.setLoop g .sleeping with active := none }
  | _ => none

def wake (s : Session) (g : Nat) : Option Session :=
  match s.loops g with
  | .sleeping => some (s.setLoop g .check)
  | _ => none

def leave (s : Session) (g : Nat) : Option Session :=
  match s.loops g with
  | .leaving => some { s.setLoop g .exited with watching := false, active := none }
  | _ => none

/-- `_fail`: the state, the flag, the scope. -/
def fail (s : Session) (g : Nat) : Option Session :=
  match s.loops g with
  | .failing returns =>
    some { s.setLoop g (.failingSet returns) with watching := false, active := none }
  | .failingSet returns =>
    some { s.setLoop g (.failingHold returns) with stopped := insert s.gen s.stopped }
  | .failingHold returns =>
    some { s.setLoop g (if returns then .exited else .sleeping) with
      cancelled := insert s.gen s.cancelled }
  | _ => none

/-! ## The calls of `stop` -/

def callRead (s : Session) (i : Nat) : Option Session :=
  match s.calls i with
  | .new => some { s.setCall i (.setting s.gen s.active) with watching := false }
  | _ => none

def callSet (s : Session) (i : Nat) : Option Session :=
  match s.calls i with
  | .setting gen active =>
    some { s.setCall i (.holding gen active) with stopped := insert s.gen s.stopped }
  | _ => none

def callHold (s : Session) (i : Nat) : Option Session :=
  match s.calls i with
  | .holding gen active =>
    some { s.setCall i (.cancelling gen active) with cancelled := insert s.gen s.cancelled }
  | _ => none

/-- `request_cancel` looks in the store that the process has open. -/
def callCancel (s : Session) (i : Nat) (ownStore : Bool) : Option Session :=
  match s.calls i with
  | .cancelling gen (some run) =>
    some ((if ownStore then s.requestCancel run else s).setCall i (.answering gen))
  | .cancelling gen none => some (s.setCall i (.answering gen))
  | _ => none

def callReturn (s : Session) (i : Nat) : Option Session :=
  match s.calls i with
  | .answering gen => some { s.setCall i .returned with silent := s.silent || gen = s.gen }
  | _ => none

def step (s : Session) : Action → Option Session
  | .start sha => s.start sha
  | .enter g => s.enter g
  | .pause g => s.pause g
  | .resume g => s.resume g
  | .drop g => s.drop g
  | .read g succeeds => s.read g succeeds
  | .compare g => s.compare g
  | .create g succeeds => s.create g succeeds
  | .publish g => s.publish g
  | .queue g succeeds => s.queue g succeeds
  | .settle g => s.settle g
  | .clear g => s.clear g
  | .wake g => s.wake g
  | .leave g => s.leave g
  | .fail g => s.fail g
  | .callRead i => s.callRead i
  | .callSet i => s.callSet i
  | .callHold i => s.callHold i
  | .callCancel i ownStore => s.callCancel i ownStore
  | .callReturn i => s.callReturn i
  | .status => some s
  | .commit => some { s with head := s.head + 1 }
  | .proveEnds run =>
    some { s with running := s.running.erase run, unwinding := s.unwinding.erase run }
  | .cancelRun run => some (s.requestCancel run)

def idle : Session where
  gen := 0
  stopped := ∅
  cancelled := ∅
  watching := false
  lastSha := none
  active := none
  loops := fun _ => .exited
  calls := fun _ => .new
  head := 0
  nextRun := 0
  running := ∅
  unwinding := ∅
  attempts := []
  silent := false
  late := []

/-! ## The property -/

/-- One loop, every commit once and in order, and silence after `stop`. -/
structure Watched (s : Session) : Prop where
  single : ∀ g g', s.loops g ≠ .exited → s.loops g' ≠ .exited → g = g'
  ordered : (s.attempts.map Prod.snd).Pairwise (· < ·)
  notLate : s.late = []
  quiet : s.silent = true → s.running = ∅

/-- A start finds every loop exited and begins at a commit that is not behind the attempted ones; when
`stop` cancels the pause no loop is between its look at the flag and its registered prove, and only the
run that `stop` has read is proving; that run is looked up in the session's own store. -/
def Orderly (s : Session) : Action → Prop
  | .start sha => (∀ g, s.loops g = .exited) ∧ ∀ a ∈ s.attempts, a.2 ≤ sha
  | .callHold i => ∀ active, s.calls i = .holding s.gen active →
      (∀ g, (s.loops g).inWindow = false) ∧ ∀ run ∈ s.running, active = some run
  | .callCancel i ownStore => ∀ run, s.calls i = .cancelling s.gen (some run) → run ∈ s.running →
      ownStore = true
  | _ => True

/-! ## The invariant -/

/-- No loop can get to a run any more. -/
structure Quiet (s : Session) : Prop where
  stopped : s.gen ∈ s.stopped
  cancelled : s.gen ∈ s.cancelled
  outside : (s.loops s.gen).inWindow = false

def Behind (s : Session) : Prop := ∀ a ∈ s.attempts, ∀ last, s.lastSha = some last → a.2 ≤ last

@[grind =]
def PhaseInv (s : Session) : Phase → Prop
  | .pausing scope => scope = s.gen ∧ s.Behind
  | .check | .sleeping => s.Behind ∨ s.gen ∈ s.stopped
  | .comparing head => s.Behind ∧ head ≤ s.head ∧ ∀ last, s.lastSha = some last → last ≤ head
  | .creating _ head => head ≤ s.head ∧ ∀ a ∈ s.attempts, a.2 < head
  | .publishing _ head => head ≤ s.head ∧ ∀ a ∈ s.attempts, a.2 ≤ head
  | .entering | .reading | .queueing _ | .proving _ | .clearing => s.Behind
  | .failingHold _ => s.gen ∈ s.stopped
  | .exited | .leaving | .failing _ | .failingSet _ => True

/-- What holds where a call of `stop` is, as long as nothing was started since. -/
def CallInv (s : Session) : StopCall → Prop
  | .setting gen _ => gen ≤ s.gen
  | .holding gen _ => gen ≤ s.gen ∧ (gen = s.gen → s.gen ∈ s.stopped)
  | .cancelling gen active =>
    gen ≤ s.gen ∧ (gen = s.gen → s.Quiet ∧ ∀ run ∈ s.running, active = some run)
  | .answering gen => gen ≤ s.gen ∧ (gen = s.gen → s.Quiet ∧ s.running = ∅)
  | .new | .returned => True

structure Inv (s : Session) : Prop where
  single : ∀ g, g ≠ s.gen → s.loops g = .exited
  phase : s.PhaseInv (s.loops s.gen)
  known : ∀ last, s.lastSha = some last → last ≤ s.head
  ordered : (s.attempts.map Prod.snd).Pairwise (· < ·)
  past : ∀ a ∈ s.attempts, a.2 ≤ s.head
  calls : ∀ i, s.CallInv (s.calls i)
  silent : s.silent = true → s.Quiet ∧ s.running = ∅
  notLate : s.late = []

variable {s s' : Session} {g i : Nat} {phase : Phase}

theorem Inv.watched (h : s.Inv) : s.Watched where
  single := by
    intro g g' hg hg'
    have hgen : g = s.gen := by_contra fun hne => hg (h.single g hne)
    have hgen' : g' = s.gen := by_contra fun hne => hg' (h.single g' hne)
    exact hgen.trans hgen'.symm
  ordered := h.ordered
  notLate := h.notLate
  quiet := fun hsilent => (h.silent hsilent).2

theorem inv_idle : idle.Inv where
  single := fun _ _ => rfl
  phase := trivial
  known := fun _ h => by cases h
  ordered := List.Pairwise.nil
  past := fun _ h => by cases h
  calls := fun _ => trivial
  silent := fun h => by cases h
  notLate := rfl

/-- The loop that is doing something is the one started last. -/
theorem Inv.current (h : s.Inv) (hg : s.loops g = phase) (hlive : phase ≠ .exited) : g = s.gen :=
  by_contra fun hne => hlive (hg.symm.trans (h.single g hne))

@[simp] theorem setLoop_loops (s : Session) (g : Nat) (phase : Phase) :
    (s.setLoop g phase).loops g = phase := if_pos rfl

theorem setLoop_other {g' : Nat} (hne : g' ≠ g) : (s.setLoop g phase).loops g' = s.loops g' :=
  if_neg hne

/-- A call sees more flags set, more scopes cancelled and fewer proves running. -/
theorem CallInv.grows {call : StopCall} (h : s.CallInv call) (hgen : s'.gen = s.gen)
    (hstopped : s.stopped ⊆ s'.stopped) (hquiet : s.Quiet → s'.Quiet)
    (hrunning : s.Quiet → s'.running ⊆ s.running) : s'.CallInv call := by
  cases call with
  | new | returned => trivial
  | setting gen active =>
    have hle : gen ≤ s.gen := h
    exact hle.trans_eq hgen.symm
  | holding gen active =>
    refine ⟨h.1.trans_eq hgen.symm, fun heq => ?_⟩
    rw [hgen] at heq ⊢
    exact hstopped (h.2 heq)
  | cancelling gen active =>
    refine ⟨h.1.trans_eq hgen.symm, fun heq => ?_⟩
    obtain ⟨hq, hrun⟩ := h.2 (heq.trans hgen)
    exact ⟨hquiet hq, fun run hmem => hrun run (hrunning hq hmem)⟩
  | answering gen =>
    refine ⟨h.1.trans_eq hgen.symm, fun heq => ?_⟩
    obtain ⟨hq, hrun⟩ := h.2 (heq.trans hgen)
    exact ⟨hquiet hq, Finset.subset_empty.1 (hrun ▸ hrunning hq)⟩

/-- A step of the session that keeps what the calls rely on. -/
theorem Inv.grow (h : s.Inv) (hgen : s'.gen = s.gen) (hstopped : s.stopped ⊆ s'.stopped)
    (hquiet : s.Quiet → s'.Quiet) (hrunning : s.Quiet → s'.running ⊆ s.running)
    (hsilent : s'.silent = s.silent) :
    (∀ i, s'.CallInv (s.calls i)) ∧ (s'.silent = true → s'.Quiet ∧ s'.running = ∅) := by
  refine ⟨fun i => (h.calls i).grows hgen hstopped hquiet hrunning, ?_⟩
  intro hs
  obtain ⟨hq, hrun⟩ := h.silent (hsilent ▸ hs)
  exact ⟨hquiet hq, Finset.subset_empty.1 (hrun ▸ hrunning hq)⟩

/-! ## Steps of the loop -/

theorem Inv.act (h : s.Inv) (hgen : s'.gen = s.gen)
    (hloops : ∀ g, g ≠ s.gen → s'.loops g = s.loops g) (hphase : s'.PhaseInv (s'.loops s'.gen))
    (hknown : ∀ last, s'.lastSha = some last → last ≤ s'.head)
    (hordered : (s'.attempts.map Prod.snd).Pairwise (· < ·))
    (hpast : ∀ a ∈ s'.attempts, a.2 ≤ s'.head) (hcalls : s'.calls = s.calls)
    (hstopped : s.stopped ⊆ s'.stopped) (hquiet : s.Quiet → s'.Quiet)
    (hrunning : s.Quiet → s'.running ⊆ s.running) (hsilent : s'.silent = s.silent)
    (hlate : s'.late = []) : s'.Inv := by
  have hgrow := h.grow hgen hstopped hquiet hrunning hsilent
  refine ⟨?_, hphase, hknown, hordered, hpast, ?_, hgrow.2, hlate⟩
  · intro g hne
    rw [hgen] at hne
    exact (hloops g hne).trans (h.single g hne)
  · intro i
    rw [hcalls]
    exact hgrow.1 i

/-- The loop goes on to another place, and what it publishes about itself changes. -/
theorem Inv.move (h : s.Inv) (phase : Phase) (hphase : s.PhaseInv phase)
    (hwindow : s.Quiet → phase.inWindow = false) (watching : Bool) (active : Option Nat) :
    ({ s.setLoop s.gen phase with watching := watching, active := active } : Session).Inv := by
  have hloop : (s.setLoop s.gen phase).loops s.gen = phase := setLoop_loops s s.gen phase
  refine h.act rfl (fun g hne => setLoop_other hne) ?_ h.known h.ordered h.past rfl
    (Finset.Subset.refl _) ?_ (fun _ => Finset.Subset.refl _) rfl h.notLate
  · have hsame : ∀ p, s.PhaseInv p →
        ({ s.setLoop s.gen phase with watching := watching, active := active } : Session).PhaseInv p := by
      intro p hp
      cases p <;> exact hp
    show Session.PhaseInv _ ((s.setLoop s.gen phase).loops s.gen)
    rw [hloop]
    exact hsame phase hphase
  · exact fun hq => ⟨hq.stopped, hq.cancelled, (congrArg Phase.inWindow hloop).trans (hwindow hq)⟩

theorem Inv.busy (h : s.Inv) (hp : s.loops s.gen = phase) (hwindow : phase.inWindow = true) :
    ¬ s.Quiet ∧ s.silent = false := by
  have hnot : ¬ s.Quiet := by
    intro hq
    have houtside := hq.outside
    rw [hp, hwindow] at houtside
    cases houtside
  refine ⟨hnot, ?_⟩
  cases hsilent : s.silent with
  | false => rfl
  | true => exact absurd (h.silent hsilent).1 hnot

theorem enter_inv (h : s.Inv) (hstep : s.enter g = some s') : s'.Inv := by
  unfold enter at hstep
  split at hstep
  case h_1 hloop =>
    cases hstep
    obtain rfl := h.current hloop (by simp)
    have hphase : s.Behind ∨ s.gen ∈ s.stopped := by simpa [PhaseInv, hloop] using h.phase
    by_cases hstopped : s.gen ∈ s.stopped
    · rw [if_pos hstopped]
      exact h.move .leaving trivial (fun _ => rfl) s.watching s.active
    · rw [if_neg hstopped]
      have hbehind := hphase.resolve_right hstopped
      exact h.move .entering hbehind (fun _ => rfl) s.watching s.active
  case h_2 => cases hstep

theorem pause_inv (h : s.Inv) (hstep : s.pause g = some s') : s'.Inv := by
  unfold pause at hstep
  split at hstep
  case h_1 hloop =>
    cases hstep
    obtain rfl := h.current hloop (by simp)
    have hbehind : s.Behind := by simpa [PhaseInv, hloop] using h.phase
    exact h.move (.pausing s.gen) ⟨rfl, hbehind⟩ (fun _ => rfl) s.watching s.active
  case h_2 => cases hstep

theorem resume_inv (h : s.Inv) (hstep : s.resume g = some s') : s'.Inv := by
  unfold resume at hstep
  split at hstep
  case h_1 scope hloop =>
    by_cases hcancelled : scope ∈ s.cancelled
    · rw [if_pos hcancelled] at hstep
      cases hstep
    · rw [if_neg hcancelled] at hstep
      cases hstep
      obtain rfl := h.current hloop (by simp)
      have hphase : scope = s.gen ∧ s.Behind := by simpa [PhaseInv, hloop] using h.phase
      obtain ⟨rfl, hbehind⟩ := hphase
      -- a scope that is not cancelled belongs to a session that is not quiet
      exact h.move .reading hbehind (fun hq => absurd hq.cancelled hcancelled) s.watching
        s.active
  case h_2 => cases hstep

theorem drop_inv (h : s.Inv) (hstep : s.drop g = some s') : s'.Inv := by
  unfold drop at hstep
  split at hstep
  case h_1 scope hloop =>
    by_cases hcancelled : scope ∈ s.cancelled
    · rw [if_pos hcancelled] at hstep
      cases hstep
      obtain rfl := h.current hloop (by simp)
      exact h.move .leaving trivial (fun _ => rfl) s.watching s.active
    · rw [if_neg hcancelled] at hstep
      cases hstep
  case h_2 => cases hstep

theorem read_inv {succeeds : Bool} (h : s.Inv) (hstep : s.read g succeeds = some s') : s'.Inv := by
  unfold read at hstep
  split at hstep
  case h_1 hloop =>
    cases hstep
    obtain rfl := h.current hloop (by simp)
    have hbehind : s.Behind := by simpa [PhaseInv, hloop] using h.phase
    have hbusy := (h.busy hloop rfl).1
    cases succeeds with
    | true =>
      exact h.move (.comparing s.head) ⟨hbehind, le_rfl, h.known⟩
        (fun hq => absurd hq hbusy) s.watching s.active
    | false => exact h.move (.failing true) trivial (fun _ => rfl) s.watching s.active
  case h_2 => cases hstep

theorem compare_inv (h : s.Inv) (hstep : s.compare g = some s') : s'.Inv := by
  unfold compare at hstep
  split at hstep
  case h_1 head hloop =>
    have hcurrent := h.current hloop (by simp)
    subst hcurrent
    have hphase : s.Behind ∧ head ≤ s.head ∧ ∀ last, s.lastSha = some last → last ≤ head := by
      simpa [PhaseInv, hloop] using h.phase
    obtain ⟨hbehind, hle, hlast⟩ := hphase
    have hbusy := (h.busy hloop rfl).1
    split at hstep
    case h_1 last hsha =>
      cases hstep
      by_cases hsame : head = last
      · rw [if_pos hsame]
        exact h.move .sleeping (Or.inl hbehind) (fun _ => rfl) s.watching s.active
      · rw [if_neg hsame]
        refine h.move (.creating last head) ⟨hle, ?_⟩ (fun hq => absurd hq hbusy) s.watching
          s.active
        -- what was attempted is at most the last commit, and this one is past it
        intro a ha
        exact (hbehind a ha last hsha).trans_lt (lt_of_le_of_ne (hlast last hsha) (Ne.symm hsame))
    case h_2 =>
      cases hstep
      exact h.move .sleeping (Or.inl hbehind) (fun _ => rfl) s.watching s.active
  case h_2 => cases hstep

/-- One more attempt, at a commit past the earlier ones. -/
theorem Inv.attempt (h : s.Inv) (base : Nat) {head : Nat} (hle : head ≤ s.head)
    (hpast : ∀ a ∈ s.attempts, a.2 < head) :
    ((s.attempts ++ [(base, head)]).map Prod.snd).Pairwise (· < ·) ∧
      (∀ a ∈ s.attempts ++ [(base, head)], a.2 ≤ s.head) ∧
        ∀ a ∈ s.attempts ++ [(base, head)], a.2 ≤ head := by
  refine ⟨?_, ?_, ?_⟩
  · rw [List.map_append, List.pairwise_append]
    refine ⟨h.ordered, List.pairwise_singleton _ _, ?_⟩
    intro a ha b hb
    obtain ⟨p, hp, rfl⟩ := List.mem_map.1 ha
    rw [List.mem_singleton.1 hb]
    exact hpast p hp
  · intro a ha
    rcases List.mem_append.1 ha with hold | hnew
    · exact h.past a hold
    · exact List.mem_singleton.1 hnew ▸ hle
  · intro a ha
    rcases List.mem_append.1 ha with hold | hnew
    · exact (hpast a hold).le
    · exact List.mem_singleton.1 hnew ▸ le_rfl

theorem create_inv {succeeds : Bool} (h : s.Inv) (hstep : s.create g succeeds = some s') : s'.Inv := by
  unfold create at hstep
  split at hstep
  case h_1 base head hloop =>
    have hcurrent := h.current hloop (by simp)
    subst hcurrent
    have hphase : head ≤ s.head ∧ ∀ a ∈ s.attempts, a.2 < head := by
      simpa [PhaseInv, hloop] using h.phase
    obtain ⟨hordered, hpast, hbelow⟩ := h.attempt base hphase.1 hphase.2
    obtain ⟨hbusy, hsilent⟩ := h.busy hloop rfl
    cases succeeds with
    | true =>
      cases hstep
      refine h.act rfl (fun g hne => setLoop_other hne) ?_ h.known hordered hpast rfl
        (Finset.Subset.refl _) (fun hq => absurd hq hbusy) (fun _ => Finset.Subset.refl _) rfl ?_
      · show Session.PhaseInv _ ((s.setLoop s.gen _).loops s.gen)
        rw [setLoop_loops]
        exact ⟨hphase.1, hbelow⟩
      · exact (if_neg (by simp [hsilent])).trans h.notLate
    | false =>
      cases hstep
      refine h.act rfl (fun g hne => setLoop_other hne) ?_ h.known hordered hpast rfl
        (Finset.Subset.refl _) (fun hq => absurd hq hbusy) (fun _ => Finset.Subset.refl _) rfl
        h.notLate
      show Session.PhaseInv _ ((s.setLoop s.gen _).loops s.gen)
      rw [setLoop_loops]
      trivial
  case h_2 => cases hstep

theorem publish_inv (h : s.Inv) (hstep : s.publish g = some s') : s'.Inv := by
  unfold publish at hstep
  split at hstep
  case h_1 run head hloop =>
    cases hstep
    have hcurrent := h.current hloop (by simp)
    subst hcurrent
    have hphase : head ≤ s.head ∧ ∀ a ∈ s.attempts, a.2 ≤ head := by
      simpa [PhaseInv, hloop] using h.phase
    have hbusy := (h.busy hloop rfl).1
    refine h.act rfl (fun g hne => setLoop_other hne) ?_ ?_ h.ordered h.past rfl
      (Finset.Subset.refl _) (fun hq => absurd hq hbusy) (fun _ => Finset.Subset.refl _) rfl h.notLate
    · show Session.PhaseInv _ ((s.setLoop s.gen _).loops s.gen)
      rw [setLoop_loops]
      intro a ha last hlast
      exact Option.some.inj hlast ▸ hphase.2 a ha
    · intro last hlast
      exact Option.some.inj hlast ▸ hphase.1
  case h_2 => cases hstep

theorem queue_inv {succeeds : Bool} (h : s.Inv) (hstep : s.queue g succeeds = some s') : s'.Inv := by
  unfold queue at hstep
  split at hstep
  case h_1 run hloop =>
    have hcurrent := h.current hloop (by simp)
    subst hcurrent
    have hbehind : s.Behind := by simpa [PhaseInv, hloop] using h.phase
    obtain ⟨hbusy, hsilent⟩ := h.busy hloop rfl
    cases hactive : s.isProveActive run with
    | true =>
      rw [hactive, if_pos rfl] at hstep
      cases hstep
      exact h.move (.proving run) hbehind (fun _ => rfl) s.watching s.active
    | false =>
      rw [hactive, if_neg Bool.false_ne_true] at hstep
      cases succeeds with
      | true =>
        cases hstep
        refine h.act rfl (fun g hne => setLoop_other hne) ?_ h.known h.ordered h.past rfl
          (Finset.Subset.refl _) (fun hq => absurd hq hbusy) (fun hq => absurd hq hbusy) rfl ?_
        · show Session.PhaseInv _ ((s.setLoop s.gen _).loops s.gen)
          rw [setLoop_loops]
          exact hbehind
        · exact (if_neg (by simp [hsilent])).trans h.notLate
      | false =>
        cases hstep
        exact h.move .exited trivial (fun _ => rfl) s.watching s.active
  case h_2 => cases hstep

theorem settle_inv (h : s.Inv) (hstep : s.settle g = some s') : s'.Inv := by
  unfold settle at hstep
  split at hstep
  case h_1 run hloop =>
    split_ifs at hstep with hends
    cases hstep
    obtain rfl := h.current hloop (by simp)
    have hbehind : s.Behind := by simpa [PhaseInv, hloop] using h.phase
    exact h.move .clearing hbehind (fun _ => rfl) s.watching s.active
  case h_2 => cases hstep

theorem clear_inv (h : s.Inv) (hstep : s.clear g = some s') : s'.Inv := by
  unfold clear at hstep
  split at hstep
  case h_1 hloop =>
    cases hstep
    obtain rfl := h.current hloop (by simp)
    have hbehind : s.Behind := by simpa [PhaseInv, hloop] using h.phase
    exact h.move .sleeping (Or.inl hbehind) (fun _ => rfl) s.watching none
  case h_2 => cases hstep

theorem wake_inv (h : s.Inv) (hstep : s.wake g = some s') : s'.Inv := by
  unfold wake at hstep
  split at hstep
  case h_1 hloop =>
    cases hstep
    obtain rfl := h.current hloop (by simp)
    have hphase : s.Behind ∨ s.gen ∈ s.stopped := by simpa [PhaseInv, hloop] using h.phase
    exact h.move .check hphase (fun _ => rfl) s.watching s.active
  case h_2 => cases hstep

theorem leave_inv (h : s.Inv) (hstep : s.leave g = some s') : s'.Inv := by
  unfold leave at hstep
  split at hstep
  case h_1 hloop =>
    cases hstep
    obtain rfl := h.current hloop (by simp)
    exact h.move .exited trivial (fun _ => rfl) false none
  case h_2 => cases hstep

theorem fail_inv (h : s.Inv) (hstep : s.fail g = some s') : s'.Inv := by
  unfold fail at hstep
  split at hstep
  case h_1 returns hloop =>
    cases hstep
    obtain rfl := h.current hloop (by simp)
    exact h.move (.failingSet returns) trivial (fun _ => rfl) false none
  case h_2 returns hloop =>
    cases hstep
    have hcurrent := h.current hloop (by simp)
    subst hcurrent
    refine h.act rfl (fun g hne => setLoop_other hne) ?_ h.known h.ordered h.past rfl
      (Finset.subset_insert _ _) ?_ (fun _ => Finset.Subset.refl _) rfl h.notLate
    · show Session.PhaseInv _ ((s.setLoop s.gen _).loops s.gen)
      rw [setLoop_loops]
      exact Finset.mem_insert_self _ _
    · intro hq
      refine ⟨Finset.mem_insert_self _ _, hq.cancelled, ?_⟩
      exact congrArg Phase.inWindow (setLoop_loops s s.gen _)
  case h_3 returns hloop =>
    cases hstep
    have hcurrent := h.current hloop (by simp)
    subst hcurrent
    have hstopped : s.gen ∈ s.stopped := by simpa [PhaseInv, hloop] using h.phase
    refine h.act rfl (fun g hne => setLoop_other hne) ?_ h.known h.ordered h.past rfl
      (Finset.Subset.refl _) ?_ (fun _ => Finset.Subset.refl _) rfl h.notLate
    · show Session.PhaseInv _ ((s.setLoop s.gen _).loops s.gen)
      rw [setLoop_loops]
      cases returns with
      | true => trivial
      | false => exact Or.inr hstopped
    · intro hq
      refine ⟨hq.stopped, Finset.mem_insert_self _ _, ?_⟩
      refine (congrArg Phase.inWindow (setLoop_loops s s.gen _)).trans ?_
      cases returns <;> rfl
  case h_4 => cases hstep

/-! ## Starts, stops and the surroundings -/

/-- A new loop where every earlier one has exited. -/
theorem start_inv {sha : Nat} (h : s.Inv) (hok : s.Orderly (.start sha))
    (hstep : s.start sha = some s') : s'.Inv := by
  unfold start at hstep
  split_ifs at hstep with hguard
  cases hstep
  obtain ⟨hexited, hattempts⟩ := hok
  refine ⟨?_, ?_, ?_, h.ordered, h.past, ?_, ?_, h.notLate⟩
  · intro g hne
    exact (setLoop_other hne).trans (hexited g)
  · show Session.PhaseInv _ ((s.setLoop (s.gen + 1) .check).loops (s.gen + 1))
    rw [setLoop_loops]
    refine Or.inl ?_
    intro a ha last hlast
    exact Option.some.inj hlast ▸ hattempts a ha
  · intro last hlast
    exact Option.some.inj hlast ▸ hguard.2
  · -- what a call has read is about an earlier start
    intro i
    have hcall := h.calls i
    show Session.CallInv _ (s.calls i)
    cases hi : s.calls i with
    | new | returned => trivial
    | setting gen active =>
      rw [hi] at hcall
      exact Nat.le_succ_of_le hcall
    | holding _ _ | cancelling _ _ | answering _ =>
      rw [hi] at hcall
      exact ⟨Nat.le_succ_of_le hcall.1, fun heq => absurd heq (Nat.lt_succ_of_le hcall.1).ne⟩
  · intro hsilent
    cases hsilent

/-- A step of a call, which may set flags and cancel scopes and proves. -/
theorem Inv.call (h : s.Inv) {call : StopCall} (hgen : s'.gen = s.gen) (hloops : s'.loops = s.loops)
    (hsha : s'.lastSha = s.lastSha) (hhead : s'.head = s.head) (hattempts : s'.attempts = s.attempts)
    (hstopped : s.stopped ⊆ s'.stopped) (hcancelled : s.cancelled ⊆ s'.cancelled)
    (hrunning : s'.running ⊆ s.running) (hlate : s'.late = s.late)
    (hcalls : ∀ j, j ≠ i → s'.calls j = s.calls j) (hi : s'.calls i = call) (hcall : s'.CallInv call)
    (hsilent : s'.silent = true → s.silent = true ∨ s'.Quiet ∧ s'.running = ∅) : s'.Inv := by
  have hquiet : s.Quiet → s'.Quiet := by
    intro hq
    refine ⟨hgen ▸ hstopped hq.stopped, hgen ▸ hcancelled hq.cancelled, ?_⟩
    rw [hgen, hloops]
    exact hq.outside
  refine ⟨?_, ?_, ?_, ?_, ?_, ?_, ?_, ?_⟩
  · intro g hne
    rw [hgen] at hne
    rw [hloops]
    exact h.single g hne
  · rw [hgen, hloops]
    have hphase := h.phase
    -- a flag that is set stays set
    cases hp : s.loops s.gen <;> rw [hp] at hphase <;>
      simp only [PhaseInv, Behind, hgen, hsha, hhead, hattempts] at hphase ⊢
    all_goals first
      | exact hphase
      | exact hphase.imp_right fun hs => hstopped hs
      | exact hstopped hphase
  · rw [hsha, hhead]
    exact h.known
  · rw [hattempts]
    exact h.ordered
  · rw [hattempts, hhead]
    exact h.past
  · intro j
    by_cases hj : j = i
    · subst hj
      exact hi ▸ hcall
    · rw [hcalls j hj]
      exact (h.calls j).grows hgen hstopped hquiet fun _ => hrunning
  · intro hs
    rcases hsilent hs with hbefore | hnow
    · obtain ⟨hq, hrun⟩ := h.silent hbefore
      exact ⟨hquiet hq, Finset.subset_empty.1 (hrun ▸ hrunning)⟩
    · exact hnow
  · rw [hlate]
    exact h.notLate

theorem setCall_self (s : Session) (i : Nat) (call : StopCall) : (s.setCall i call).calls i = call :=
  if_pos rfl

theorem setCall_other {j : Nat} {call : StopCall} (hne : j ≠ i) :
    (s.setCall i call).calls j = s.calls j := if_neg hne

theorem callRead_inv (h : s.Inv) (hstep : s.callRead i = some s') : s'.Inv := by
  unfold callRead at hstep
  split at hstep
  case h_1 =>
    cases hstep
    exact h.call (i := i) rfl rfl rfl rfl rfl (Finset.Subset.refl _) (Finset.Subset.refl _)
      (Finset.Subset.refl _) rfl (fun j hne => setCall_other hne) (setCall_self s i _) le_rfl Or.inl
  case h_2 => cases hstep

theorem callSet_inv (h : s.Inv) (hstep : s.callSet i = some s') : s'.Inv := by
  unfold callSet at hstep
  split at hstep
  case h_1 gen active hi =>
    cases hstep
    have hle : gen ≤ s.gen := by simpa [CallInv, hi] using h.calls i
    exact h.call (i := i) rfl rfl rfl rfl rfl (Finset.subset_insert _ _) (Finset.Subset.refl _)
      (Finset.Subset.refl _) rfl (fun j hne => setCall_other hne) (setCall_self s i _)
      ⟨hle, fun _ => Finset.mem_insert_self _ _⟩ Or.inl
  case h_2 => cases hstep

/-- The last look of the loop is behind it, and its prove is the one the call has read. -/
theorem callHold_inv (h : s.Inv) (hok : s.Orderly (.callHold i)) (hstep : s.callHold i = some s') :
    s'.Inv := by
  unfold callHold at hstep
  split at hstep
  case h_1 gen active hi =>
    cases hstep
    have hcall : gen ≤ s.gen ∧ (gen = s.gen → s.gen ∈ s.stopped) := by
      simpa [CallInv, hi] using h.calls i
    refine h.call (i := i) rfl rfl rfl rfl rfl (Finset.Subset.refl _) (Finset.subset_insert _ _)
      (Finset.Subset.refl _) rfl (fun j hne => setCall_other hne) (setCall_self s i _)
      ⟨hcall.1, fun heq => ?_⟩ Or.inl
    obtain ⟨houtside, hread⟩ := hok active (heq ▸ hi)
    exact ⟨⟨hcall.2 heq, Finset.mem_insert_self _ _, houtside s.gen⟩, hread⟩
  case h_2 => cases hstep

theorem requestCancel_running (s : Session) (run : Nat) :
    (s.requestCancel run).running = s.running.erase run := by
  unfold requestCancel
  split_ifs with hmem
  · rfl
  · exact (Finset.erase_eq_of_notMem hmem).symm

theorem requestCancel_same (s : Session) (run : Nat) :
    ∃ running unwinding,
      s.requestCancel run = { s with running := running, unwinding := unwinding } := by
  unfold requestCancel
  split_ifs
  · exact ⟨_, _, rfl⟩
  · exact ⟨s.running, s.unwinding, rfl⟩

theorem callCancel_inv {ownStore : Bool} (h : s.Inv) (hok : s.Orderly (.callCancel i ownStore))
    (hstep : s.callCancel i ownStore = some s') : s'.Inv := by
  unfold callCancel at hstep
  split at hstep
  case h_1 gen run hi =>
    cases hstep
    have hcall : gen ≤ s.gen ∧ (gen = s.gen → s.Quiet ∧ ∀ r ∈ s.running, some run = some r) := by
      simpa [CallInv, hi] using h.calls i
    have hsub : ((if ownStore then s.requestCancel run else s).running) ⊆ s.running := by
      cases ownStore with
      | true =>
        rw [if_pos rfl, requestCancel_running]
        exact Finset.erase_subset _ _
      | false => exact Finset.Subset.refl _
    obtain ⟨running, unwinding, hcancel⟩ :
        ∃ running unwinding, (if ownStore then s.requestCancel run else s) =
          { s with running := running, unwinding := unwinding } := by
      cases ownStore with
      | true => exact requestCancel_same s run
      | false => exact ⟨s.running, s.unwinding, rfl⟩
    have hempty : gen = s.gen → (if ownStore then s.requestCancel run else s).running = ∅ := by
      intro heq
      rw [Finset.eq_empty_iff_forall_notMem]
      intro r hr
      have hmem := hsub hr
      obtain rfl := Option.some.inj ((hcall.2 heq).2 r hmem)
      have hown := hok run (heq ▸ hi) hmem
      rw [hown, if_pos rfl, requestCancel_running] at hr
      exact Finset.notMem_erase run s.running hr
    rw [hcancel] at hsub hempty ⊢
    refine h.call (i := i) rfl rfl rfl rfl rfl (Finset.Subset.refl _) (Finset.Subset.refl _) hsub rfl
      (fun j hne => setCall_other hne) (setCall_self _ i _) ⟨hcall.1, fun heq => ?_⟩ Or.inl
    have hq := (hcall.2 heq).1
    exact ⟨⟨hq.stopped, hq.cancelled, hq.outside⟩, hempty heq⟩
  case h_2 gen hi =>
    cases hstep
    have hcall : gen ≤ s.gen ∧ (gen = s.gen → s.Quiet ∧ ∀ r ∈ s.running, none = some r) := by
      simpa [CallInv, hi] using h.calls i
    refine h.call (i := i) rfl rfl rfl rfl rfl (Finset.Subset.refl _) (Finset.Subset.refl _)
      (Finset.Subset.refl _) rfl (fun j hne => setCall_other hne) (setCall_self s i _)
      ⟨hcall.1, fun heq => ?_⟩ Or.inl
    obtain ⟨hq, hrun⟩ := hcall.2 heq
    refine ⟨⟨hq.stopped, hq.cancelled, hq.outside⟩, ?_⟩
    rw [Finset.eq_empty_iff_forall_notMem]
    intro r hr
    cases hrun r hr
  case h_3 => cases hstep

theorem callReturn_inv (h : s.Inv) (hstep : s.callReturn i = some s') : s'.Inv := by
  unfold callReturn at hstep
  split at hstep
  case h_1 gen hi =>
    cases hstep
    have hcall : gen ≤ s.gen ∧ (gen = s.gen → s.Quiet ∧ s.running = ∅) := by
      simpa [CallInv, hi] using h.calls i
    refine h.call (i := i) rfl rfl rfl rfl rfl (Finset.Subset.refl _) (Finset.Subset.refl _)
      (Finset.Subset.refl _) rfl (fun j hne => setCall_other hne) (setCall_self s i _) trivial ?_
    intro hsilent
    rcases Bool.or_eq_true_iff.1 hsilent with hbefore | hnow
    · exact Or.inl hbefore
    · obtain ⟨hq, hrun⟩ := hcall.2 (of_decide_eq_true hnow)
      exact Or.inr ⟨⟨hq.stopped, hq.cancelled, hq.outside⟩, hrun⟩
  case h_2 => cases hstep

/-- A prove ends or is cancelled by someone else. -/
theorem Inv.shrink (h : s.Inv) {running unwinding : Finset Nat} (hsub : running ⊆ s.running) :
    ({ s with running := running, unwinding := unwinding } : Session).Inv := by
  have hphase : ({ s with running := running, unwinding := unwinding } : Session).PhaseInv
      (s.loops s.gen) := by
    have hbefore := h.phase
    cases hp : s.loops s.gen <;> rw [hp] at hbefore <;> exact hbefore
  exact h.act rfl (fun _ _ => rfl) hphase h.known h.ordered h.past rfl (Finset.Subset.refl _)
    (fun hq => ⟨hq.stopped, hq.cancelled, hq.outside⟩) (fun _ => hsub) rfl h.notLate

theorem commit_inv (h : s.Inv) : ({ s with head := s.head + 1 } : Session).Inv := by
  have hphase : ({ s with head := s.head + 1 } : Session).PhaseInv (s.loops s.gen) := by
    have hbefore := h.phase
    cases hp : s.loops s.gen <;> rw [hp] at hbefore
    case comparing head => exact ⟨hbefore.1, Nat.le_succ_of_le hbefore.2.1, hbefore.2.2⟩
    case creating base head => exact ⟨Nat.le_succ_of_le hbefore.1, hbefore.2⟩
    case publishing run head => exact ⟨Nat.le_succ_of_le hbefore.1, hbefore.2⟩
    all_goals exact hbefore
  exact h.act rfl (fun _ _ => rfl) hphase (fun last hlast => Nat.le_succ_of_le (h.known last hlast))
    h.ordered (fun a ha => Nat.le_succ_of_le (h.past a ha)) rfl (Finset.Subset.refl _)
    (fun hq => ⟨hq.stopped, hq.cancelled, hq.outside⟩) (fun _ => Finset.Subset.refl _) rfl h.notLate

theorem step_inv {a : Action} (h : s.Inv) (hok : s.Orderly a) (hstep : s.step a = some s') :
    s'.Inv := by
  cases a with
  | start sha => exact start_inv h hok hstep
  | enter g => exact enter_inv h hstep
  | pause g => exact pause_inv h hstep
  | resume g => exact resume_inv h hstep
  | drop g => exact drop_inv h hstep
  | read g succeeds => exact read_inv h hstep
  | compare g => exact compare_inv h hstep
  | create g succeeds => exact create_inv h hstep
  | publish g => exact publish_inv h hstep
  | queue g succeeds => exact queue_inv h hstep
  | settle g => exact settle_inv h hstep
  | clear g => exact clear_inv h hstep
  | wake g => exact wake_inv h hstep
  | leave g => exact leave_inv h hstep
  | fail g => exact fail_inv h hstep
  | callRead i => exact callRead_inv h hstep
  | callSet i => exact callSet_inv h hstep
  | callHold i => exact callHold_inv h hok hstep
  | callCancel i ownStore => exact callCancel_inv h hok hstep
  | callReturn i => exact callReturn_inv h hstep
  | status => exact Option.some.inj hstep ▸ h
  | commit => exact Option.some.inj hstep ▸ commit_inv h
  | proveEnds run => exact Option.some.inj hstep ▸ h.shrink (Finset.erase_subset _ _)
  | cancelRun run =>
    cases hstep
    have hsub : (s.requestCancel run).running ⊆ s.running := by
      rw [requestCancel_running]
      exact Finset.erase_subset _ _
    obtain ⟨running, unwinding, hsame⟩ := requestCancel_same s run
    rw [hsame] at hsub ⊢
    exact h.shrink hsub

end Session

/-- In every run in which each start finds the earlier loops gone and each `stop` finds the loop outside
its window, one loop is live, every commit is attempted once and in order, and nothing goes on after
`stop`. -/
theorem one_watch_loop {s : Session}
    (h : Reachable Session.step Session.Orderly (· = Session.idle) s) : s.Watched :=
  (h.invariant (fun _ hstart => hstart ▸ Session.inv_idle)
    fun _ _ _ hinv hok hstep => Session.step_inv hinv hok hstep).watched

/-- A session that is being stopped while its loop waits for power. -/
def heldSession : Session where
  gen := 1
  stopped := insert 1 ∅
  cancelled := ∅
  watching := false
  lastSha := some 0
  active := none
  loops := fun i => if i = 1 then .pausing 1 else if i = 1 then .entering else
    if i = 1 then .check else .exited
  calls := fun j => if j = 0 then .holding 1 none else if j = 0 then .setting 1 none else .new
  head := 0
  nextRun := 0
  running := ∅
  unwinding := ∅
  attempts := []
  silent := false
  late := []

theorem one_watch_loop_held : ∃ s : Session, s.silent = true ∧ s.Watched := by
  have hidle : Reachable Session.step Session.Orderly (· = Session.idle) Session.idle := .start rfl
  have hstart : Session.idle.Orderly (.start 0) := ⟨fun _ => rfl, fun _ ha => by cases ha⟩
  have hstarted := hidle.step hstart rfl
  have hheld : Reachable Session.step Session.Orderly (· = Session.idle) heldSession :=
    hstarted.of_always [.enter 1, .pause 1, .callRead 0, .callSet 0] (by simp [Session.Orderly]) rfl
  have hhold : heldSession.Orderly (.callHold 0) := by
    intro active _
    refine ⟨fun g => ?_, fun run hrun => absurd hrun (Finset.notMem_empty run)⟩
    by_cases hg : g = 1 <;> simp [heldSession, hg, Phase.inWindow]
  have hstep := hheld.step hhold rfl
  have hcancelled := hstep.step (show Session.Orderly _ (.callCancel 0 true) from fun _ _ _ => rfl) rfl
  have hreturned := hcancelled.of_always [.callReturn 0] (by simp [Session.Orderly]) rfl
  exact ⟨_, rfl, one_watch_loop hreturned⟩

/-! ## Stops that come too early -/

/-- The loop reads a new commit, `stop` comes and goes, and the loop creates the run. -/
def stoppedInWindow : List Action :=
  [.start 0, .commit, .enter 1, .pause 1, .resume 1, .read 1 true, .callRead 0, .callSet 0,
    .callHold 0, .callCancel 0 true, .callReturn 0, .compare 1, .create 1 true]

/-- `stop` and `start` while the first loop sleeps. -/
def restarted : List Action :=
  [.start 0, .enter 1, .pause 1, .resume 1, .read 1 true, .compare 1, .callRead 0, .callSet 0,
    .callHold 0, .callCancel 0 true, .callReturn 0, .start 0, .wake 1, .enter 1, .pause 1, .resume 1,
    .enter 2, .pause 2, .resume 2]

/-- A run is created after `stop` has returned, and a quick restart leaves two loops. -/
theorem stop_outrun :
    (∃ s, Reachable Session.step (fun _ _ => True) (· = Session.idle) s ∧ s.silent = true ∧
        s.late = [0] ∧ ¬ s.Watched) ∧
      ∃ s, Reachable Session.step (fun _ _ => True) (· = Session.idle) s ∧ s.loops 1 = .reading ∧
        s.loops 2 = .reading ∧ ¬ s.Watched := by
  have hidle : Reachable Session.step (fun _ _ => True) (· = Session.idle) Session.idle := .start rfl
  refine ⟨?_, ?_⟩
  · obtain ⟨s, hs, htest⟩ := hidle.exists_of_foldlM stoppedInWindow
      (fun s => s.silent = true ∧ s.late = [0]) (by decide)
    obtain ⟨hsilent, hlate⟩ := of_decide_eq_true htest
    refine ⟨s, hs, hsilent, hlate, fun hwatched => ?_⟩
    have hnone := hwatched.notLate
    rw [hlate] at hnone
    cases hnone
  · obtain ⟨s, hs, htest⟩ := hidle.exists_of_foldlM restarted
      (fun s => s.loops 1 = .reading ∧ s.loops 2 = .reading) (by decide)
    obtain ⟨hone, htwo⟩ := of_decide_eq_true htest
    refine ⟨s, hs, hone, htwo, fun hwatched => ?_⟩
    have hsame := hwatched.single 1 2 (by simp [hone]) (by simp [htwo])
    exact absurd hsame (by decide)

end Watch
end Tempest
