import Tempest.Process.Reachable
import Tempest.Python.Lines

/-!
# Steers — follow-ups for a running turn (`chatturn.py`, `queue_steer`, `cancel_steer`)

The runs of one conversation come one after the other under one stream id.  A follow-up is queued in
the job that a request has looked up, drained by the worker of that job, reclaimed by its client or
handed back once the run is over; looking the job up and doing something to its queue are two steps.
`Steering` is all of it, with what became of every follow-up.
-/

namespace Tempest
namespace Steers

open Python

/-! ## Rows and jobs -/

structure Row where
  steerId : Nat
  clientSteerId : Option PyStr
  text : PyStr
  createdAt : Int
  deriving DecidableEq

/-- What the steering family sees of a `_Job`. -/
structure Job where
  active : Bool := false
  agent : Bool := false
  steers : List Row := []
  deriving DecidableEq

structure SteerBody where
  text : PyStr
  clientSteerId : Option PyStr
  createdAt : Int

structure ReclaimBody where
  steerId : Option Nat
  clientSteerId : Option PyStr

def Row.hasClient (row : Row) (c : PyStr) : Bool := row.clientSteerId = some c

/-- A row that `cancel_steer` is asked to remove. -/
def ReclaimBody.selects (body : ReclaimBody) (row : Row) : Bool :=
  body.steerId = some row.steerId || body.clientSteerId.any row.hasClient

inductive Refusal where
  | noRun
  | unsupported
  | invalid
  deriving DecidableEq

/-- Where a request is: it has the job it was looked up in, or its answer. -/
inductive Thread where
  | new
  | queueing (g : Nat)
  | reclaiming (g : Nat)
  | reporting (g : Nat)
  | refused (reason : Refusal)
  | queued (steerId position : Nat) (replayed : Bool)
  | reclaimed (removed : Bool)
  | told (rows : List Row)
  deriving DecidableEq

/-- The jobs by generation, the one in the registry, and the requests.  No step reads what was
acknowledged, applied to a transcript, removed and returned, each with its generation. -/
structure Steering where
  jobs : Nat → Job
  started : Nat
  registry : Option Nat
  nextId : Nat
  threads : Nat → Thread
  acked : List (Nat × Nat)
  applied : List (Nat × Row)
  removed : List (Nat × Row)
  returned : List (Nat × Row)

inductive Action where
  | start
  | startFails
  | arm (g : Nat)
  | drain (g : Nat)
  | finish (g : Nat)
  | evict
  | seek (r : Nat)
  | queue (r : Nat) (body : SteerBody)
  | seekReclaim (r : Nat)
  | reclaim (r : Nat) (body : ReclaimBody)
  | seekReport (r : Nat) (cancels : Bool)
  | report (r : Nat)

namespace Steering

def setJob (s : Steering) (g : Nat) (job : Job) : Steering :=
  { s with jobs := fun i => if i = g then job else s.jobs i }

def setThread (s : Steering) (r : Nat) (thread : Thread) : Steering :=
  { s with threads := fun i => if i = r then thread else s.threads i }

/-! ## The runs -/

/-- `start_turn` reserves the registry slot. -/
def start (s : Steering) : Option Steering :=
  if s.registry.any fun g => (s.jobs g).active then none
  else some { s.setJob s.started { active := true } with
    registry := some s.started
    started := s.started + 1 }

def startFails (s : Steering) : Option Steering :=
  match s.registry with
  | some g =>
    if (s.jobs g).active ∧ (s.jobs g).agent = false then some { s with registry := none } else none
  | none => none

/-- `job.kind = "agent"`. -/
def arm (s : Steering) (g : Nat) : Option Steering :=
  if s.registry = some g ∧ (s.jobs g).active then
    some (s.setJob g { s.jobs g with agent := true })
  else none

/-- `steer_source`, whose rows go to the transcript of the run. -/
def drain (s : Steering) (g : Nat) : Option Steering :=
  if (s.jobs g).active then
    some { s.setJob g { s.jobs g with steers := [] } with
      applied := s.applied ++ (s.jobs g).steers.map (g, ·) }
  else none

def finish (s : Steering) (g : Nat) : Option Steering :=
  if (s.jobs g).active then some (s.setJob g { s.jobs g with active := false }) else none

def evict (s : Steering) : Option Steering :=
  match s.registry with
  | some g => if (s.jobs g).active then none else some { s with registry := none }
  | none => none

/-! ## The requests -/

/-- The head of `queue_steer`. -/
def seek (s : Steering) (r : Nat) : Option Steering :=
  match s.threads r with
  | .new =>
    match s.registry with
    | none => some (s.setThread r (.refused .noRun))
    | some g =>
      if (s.jobs g).active = false then some (s.setThread r (.refused .noRun))
      else if (s.jobs g).agent = false then some (s.setThread r (.refused .unsupported))
      else some (s.setThread r (.queueing g))
  | _ => none

def positionOf (c : PyStr) (rows : List Row) : Option (Nat × Row) :=
  (rows.zipIdx.find? fun p => p.1.hasClient c).map fun p => (p.2 + 1, p.1)

/-- The locked part of `queue_steer`. -/
def queue (s : Steering) (r : Nat) (body : SteerBody) : Option Steering :=
  match s.threads r with
  | .queueing g =>
    let job := s.jobs g
    if strip body.text = [] then some (s.setThread r (.refused .invalid))
    else
      match body.clientSteerId.bind fun c => positionOf c job.steers with
      | some (position, row) =>
        some { s.setThread r (.queued row.steerId position true) with
          acked := s.acked ++ [(g, row.steerId)] }
      | none =>
        let row : Row := ⟨s.nextId, body.clientSteerId, strip body.text, body.createdAt⟩
        some { (s.setJob g { job with steers := job.steers ++ [row] }).setThread r
            (.queued s.nextId (job.steers.length + 1) false) with
          nextId := s.nextId + 1
          acked := s.acked ++ [(g, s.nextId)] }
  | _ => none

/-- The head of `cancel_steer`. -/
def seekReclaim (s : Steering) (r : Nat) : Option Steering :=
  match s.threads r with
  | .new =>
    match s.registry with
    | some g =>
      if (s.jobs g).active then some (s.setThread r (.reclaiming g))
      else some (s.setThread r (.refused .noRun))
    | none => some (s.setThread r (.refused .noRun))
  | _ => none

def reclaim (s : Steering) (r : Nat) (body : ReclaimBody) : Option Steering :=
  match s.threads r with
  | .reclaiming g =>
    let job := s.jobs g
    let gone := job.steers.filter body.selects
    some { (s.setJob g { job with steers := job.steers.filter fun row => !body.selects row }).setThread
        r (.reclaimed (!gone.isEmpty)) with
      removed := s.removed ++ gone.map (g, ·) }
  | _ => none

/-- The head of `cancel_turn`, and of `status` for a run that is over. -/
def seekReport (s : Steering) (r : Nat) (cancels : Bool) : Option Steering :=
  match s.threads r with
  | .new =>
    match s.registry with
    | some g =>
      if (s.jobs g).active = cancels then some (s.setThread r (.reporting g))
      else some (s.setThread r (.told []))
    | none => some (s.setThread r (.told []))
  | _ => none

/-- `_steer_rows`, for an answer that hands the rows back. -/
def report (s : Steering) (r : Nat) : Option Steering :=
  match s.threads r with
  | .reporting g =>
    some { s.setThread r (.told (s.jobs g).steers) with
      returned := s.returned ++ (s.jobs g).steers.map (g, ·) }
  | _ => none

def step (s : Steering) : Action → Option Steering
  | .start => s.start
  | .startFails => s.startFails
  | .arm g => s.arm g
  | .drain g => s.drain g
  | .finish g => s.finish g
  | .evict => s.evict
  | .seek r => s.seek r
  | .queue r body => s.queue r body
  | .seekReclaim r => s.seekReclaim r
  | .reclaim r body => s.reclaim r body
  | .seekReport r cancels => s.seekReport r cancels
  | .report r => s.report r

def empty : Steering where
  jobs := fun _ => {}
  started := 0
  registry := none
  nextId := 0
  threads := fun _ => .new
  acked := []
  applied := []
  removed := []
  returned := []

/-! ## The property -/

/-- What became of a follow-up: it can still be drained or returned, or it was dealt with. -/
inductive Place where
  | waiting
  | applied
  | removed
  | returned
  deriving DecidableEq

def times (log : List (Nat × Row)) (id : Nat) : Nat := log.countP fun p => p.2.steerId = id

def isWaiting (s : Steering) (g id : Nat) : Bool :=
  s.registry = some g && ((s.jobs g).steers.any fun row => row.steerId = id) &&
    times s.returned id = 0

/-- How often a follow-up of run `g` is in a place. -/
def count (s : Steering) (g id : Nat) : Place → Nat
  | .waiting => if s.isWaiting g id then 1 else 0
  | .applied => times s.applied id
  | .removed => times s.removed id
  | .returned => times s.returned id

/-- Every acknowledged follow-up is in exactly one place, once, and for the run it was acknowledged
for; none of one client id is applied twice. -/
structure Delivered (s : Steering) : Prop where
  once : ∀ g id, (g, id) ∈ s.acked → ∃ place, ∀ p, s.count g id p = if p = place then 1 else 0
  own : ∀ g id, (g, id) ∈ s.acked → ∀ p ∈ s.applied ++ s.removed ++ s.returned,
    p.2.steerId = id → p.1 = g
  single : ∀ c, (s.applied.countP fun p => p.2.hasClient c) ≤ 1

/-- The rows of a job were handed back. -/
def Reported (s : Steering) (g : Nat) : Prop := ∃ p ∈ s.returned, p.1 = g

/-- A follow-up is queued in the registered job, before its rows are handed back and under a client id
that was not applied; rows are reclaimed before they are handed back; they are handed back once, after
the run; a job is replaced or evicted only when its rows were. -/
def Admits (s : Steering) : Action → Prop
  | .start | .evict => ∀ g, s.registry = some g → ∀ row ∈ (s.jobs g).steers, (g, row) ∈ s.returned
  | .queue r body => ∀ g, s.threads r = .queueing g → s.registry = some g ∧ ¬ s.Reported g ∧
      ∀ c, body.clientSteerId = some c → ∀ p ∈ s.applied, p.2.hasClient c = false
  | .reclaim r _ => ∀ g, s.threads r = .reclaiming g → ¬ s.Reported g
  | .report r => ∀ g, s.threads r = .reporting g → (s.jobs g).active = false ∧ ¬ s.Reported g
  | _ => True

/-! ## The invariant -/

def left (s : Steering) : List (Nat × Row) := s.applied ++ s.removed

structure RowInv (s : Steering) : Prop where
  fresh : ∀ g, ∀ row ∈ (s.jobs g).steers, row.steerId < s.nextId
  logged : ∀ p ∈ s.left, p.2.steerId < s.nextId
  rows : ∀ g, ((s.jobs g).steers.map Row.steerId).Nodup
  apart : ∀ g g', ∀ row ∈ (s.jobs g).steers, ∀ row' ∈ (s.jobs g').steers,
    row.steerId = row'.steerId → g = g'
  gone : ∀ g, ∀ row ∈ (s.jobs g).steers, ∀ p ∈ s.left, p.2.steerId ≠ row.steerId
  leftIds : (s.left.map fun p => p.2.steerId).Nodup
  returned : ∀ p ∈ s.returned, p.2 ∈ (s.jobs p.1).steers
  returnedIds : (s.returned.map fun p => p.2.steerId).Nodup
  whole : ∀ g, s.Reported g → ∀ row ∈ (s.jobs g).steers, (g, row) ∈ s.returned
  acked : ∀ g id, (g, id) ∈ s.acked → (∃ row ∈ (s.jobs g).steers, row.steerId = id) ∨
    ∃ p ∈ s.left, p.1 = g ∧ p.2.steerId = id
  clients : ∀ g c, ((s.jobs g).steers.countP fun row => row.hasClient c) ≤ 1
  single : ∀ c, (s.applied.countP fun p => p.2.hasClient c) ≤ 1

structure RunInv (s : Steering) : Prop where
  ended : ∀ p ∈ s.returned, (s.jobs p.1).active = false
  kept : ∀ g, ∀ row ∈ (s.jobs g).steers, s.registry = some g ∨ (g, row) ∈ s.returned
  active : ∀ g, (s.jobs g).active = true → s.registry = some g ∨ (s.jobs g).agent = false
  unarmed : ∀ g, (s.jobs g).agent = false → (s.jobs g).steers = []
  threads : ∀ r g, s.threads r = .queueing g → (s.jobs g).agent = true
  later : ∀ g, s.started ≤ g → s.jobs g = {}
  unused : ∀ g, s.registry = some g → ∀ row ∈ (s.jobs g).steers, ∀ c, row.hasClient c = true →
    ∀ p ∈ s.applied, p.2.hasClient c = false

structure Inv (s : Steering) : Prop extends s.RowInv, s.RunInv

variable {s s' : Steering}

/-- A step that leaves every queue and every log alone. -/
structure SameRows (s s' : Steering) : Prop where
  steers : ∀ g, (s'.jobs g).steers = (s.jobs g).steers
  nextId : s'.nextId = s.nextId
  acked : s'.acked = s.acked
  applied : s'.applied = s.applied
  removed : s'.removed = s.removed
  returned : s'.returned = s.returned

theorem RowInv.same (h : s.RowInv) (hsame : SameRows s s') : s'.RowInv := by
  have hleft : s'.left = s.left := by rw [left, left, hsame.applied, hsame.removed]
  refine ⟨?_, ?_, ?_, ?_, ?_, ?_, ?_, ?_, ?_, ?_, ?_, ?_⟩
  all_goals
    simp only [hsame.steers, hsame.nextId, hsame.acked, hsame.applied, hsame.returned, hleft, Reported]
  exacts [h.fresh, h.logged, h.rows, h.apart, h.gone, h.leftIds, h.returned, h.returnedIds, h.whole,
    h.acked, h.clients, h.single]

/-- A step of the runs that leaves every queue and every log alone. -/
theorem Inv.same (h : s.Inv) (hsame : SameRows s s')
    (hover : ∀ g, (s.jobs g).active = false → s.Reported g → (s'.jobs g).active = false)
    (hkept : ∀ g, s.registry = some g → ∀ row ∈ (s.jobs g).steers,
      s'.registry = some g ∨ (g, row) ∈ s.returned)
    (hactive : ∀ g, (s'.jobs g).active = true → s'.registry = some g ∨ (s'.jobs g).agent = false)
    (hunarmed : ∀ g, (s'.jobs g).agent = false → (s.jobs g).steers = [])
    (hthreads : ∀ r g, s'.threads r = .queueing g → (s'.jobs g).agent = true)
    (hlater : ∀ g, s'.started ≤ g → s'.jobs g = {})
    (hregistry : ∀ g, s'.registry = some g → s.registry = some g ∨ (s.jobs g).steers = []) :
    s'.Inv := by
  refine ⟨h.toRowInv.same hsame, ⟨?_, ?_, hactive, ?_, hthreads, hlater, ?_⟩⟩
  · intro p hp
    rw [hsame.returned] at hp
    exact hover p.1 (h.ended p hp) ⟨p, hp, rfl⟩
  · intro g row hrow
    rw [hsame.steers] at hrow
    rw [hsame.returned]
    rcases h.kept g row hrow with hlive | hback
    · exact hkept g hlive row hrow
    · exact Or.inr hback
  · intro g hagent
    rw [hsame.steers]
    exact hunarmed g hagent
  · intro g hg row hrow c hc
    rw [hsame.steers] at hrow
    rw [hsame.applied]
    rcases hregistry g hg with hlive | hempty
    · exact h.unused g hlive row hrow c hc
    · simp [hempty] at hrow

variable {g i id r : Nat}

theorem Inv.setThread {thread : Thread} (h : s.Inv)
    (hthread : ∀ g, thread = .queueing g → (s.jobs g).agent = true) : (s.setThread r thread).Inv := by
  refine h.same ⟨fun _ => rfl, rfl, rfl, rfl, rfl, rfl⟩ (fun _ hover _ => hover)
    (fun _ hlive _ _ => Or.inl hlive) h.active h.unarmed ?_ h.later fun _ hg => Or.inl hg
  intro r' g hg
  by_cases hr : r' = r
  · subst hr
    exact hthread g ((if_pos rfl).symm.trans hg)
  · exact h.threads r' g ((if_neg hr).symm.trans hg)

/-! ## The runs -/

theorem start_inv (h : s.Inv) (hok : s.Admits .start) (hstep : s.start = some s') : s'.Inv := by
  unfold start at hstep
  split_ifs at hstep with hlive
  cases hstep
  have hnew : s.jobs s.started = {} := h.later s.started le_rfl
  have hjob : ∀ g, g ≠ s.started → (s.setJob s.started { active := true }).jobs g = s.jobs g :=
    fun g hg => if_neg hg
  have hstarted : (s.setJob s.started { active := true }).jobs s.started = { active := true } :=
    if_pos rfl
  refine h.same ⟨fun g => ?_, rfl, rfl, rfl, rfl, rfl⟩ ?_ ?_ ?_ ?_ ?_ ?_ ?_
  · by_cases hg : g = s.started
    · subst hg
      exact (congrArg Job.steers hstarted).trans (congrArg Job.steers hnew).symm
    · exact congrArg Job.steers (hjob g hg)
  · rintro g hover ⟨p, hp, rfl⟩
    have hrow := h.returned p hp
    have hg : p.1 ≠ s.started := by
      intro hg
      rw [hg, hnew] at hrow
      cases hrow
    exact (congrArg Job.active (hjob p.1 hg)).trans hover
  · exact fun g hg row hrow => Or.inr (hok g hg row hrow)
  · intro g hactive
    by_cases hg : g = s.started
    · exact Or.inl (congrArg some hg.symm)
    · rw [show ((s.setJob s.started { active := true }).jobs g).active = _ from
        congrArg Job.active (hjob g hg)] at hactive
      rcases h.active g hactive with hreg | hagent
      · simp [hreg, hactive] at hlive
      · exact Or.inr ((congrArg Job.agent (hjob g hg)).trans hagent)
  · intro g hagent
    by_cases hg : g = s.started
    · rw [hg, hnew]
    · exact h.unarmed g ((congrArg Job.agent (hjob g hg)).symm.trans hagent)
  · intro r g hr
    have hagent := h.threads r g hr
    have hg : g ≠ s.started := by
      rintro rfl
      rw [hnew] at hagent
      cases hagent
    exact (congrArg Job.agent (hjob g hg)).trans hagent
  · intro g hg
    exact (hjob g (Nat.ne_of_gt hg)).trans (h.later g (Nat.le_of_succ_le hg))
  · intro g hg
    refine Or.inr ?_
    cases hg
    rw [hnew]

theorem Inv.leaveSlot (h : s.Inv) (hlive : s.registry = some g)
    (hidle : (s.jobs g).active = true → (s.jobs g).agent = false)
    (hrows : ∀ row ∈ (s.jobs g).steers, (g, row) ∈ s.returned) :
    ({ s with registry := none } : Steering).Inv := by
  refine h.same ⟨fun _ => rfl, rfl, rfl, rfl, rfl, rfl⟩ (fun _ hover _ => hover) ?_ ?_ h.unarmed
    h.threads h.later (fun _ hg => by cases hg)
  · intro g' hg' row hrow
    obtain rfl := Option.some.inj (hlive.symm.trans hg')
    exact Or.inr (hrows row hrow)
  · intro g' hactive
    refine Or.inr ?_
    rcases h.active g' hactive with hreg | hagent
    · obtain rfl := Option.some.inj (hlive.symm.trans hreg)
      exact hidle hactive
    · exact hagent

theorem startFails_inv (h : s.Inv) (hstep : s.startFails = some s') : s'.Inv := by
  unfold startFails at hstep
  split at hstep
  · next g hlive =>
      split_ifs at hstep with hjob
      cases hstep
      refine h.leaveSlot hlive (fun _ => hjob.2) fun row hrow => ?_
      rw [h.unarmed g hjob.2] at hrow
      cases hrow
  · cases hstep

theorem evict_inv (h : s.Inv) (hok : s.Admits .evict) (hstep : s.evict = some s') : s'.Inv := by
  unfold evict at hstep
  split at hstep
  · next g hlive =>
      split_ifs at hstep with hactive
      cases hstep
      exact h.leaveSlot hlive (fun hbusy => absurd hbusy hactive) (hok g hlive)
  · cases hstep

/-- A job changes, but not its queue. -/
theorem Inv.setJob {job : Job} (h : s.Inv) (hsteers : job.steers = (s.jobs g).steers)
    (hbusy : (s.jobs g).active = true) (hagent : (s.jobs g).agent = true → job.agent = true)
    (hslot : job.active = true → s.registry = some g ∨ job.agent = false) : (s.setJob g job).Inv := by
  have hother : ∀ i ≠ g, (s.setJob g job).jobs i = s.jobs i := fun i hi => if_neg hi
  have hself : (s.setJob g job).jobs g = job := if_pos rfl
  refine h.same ⟨fun i => ?_, rfl, rfl, rfl, rfl, rfl⟩ ?_ (fun _ hlive _ _ => Or.inl hlive) ?_ ?_ ?_ ?_
    fun _ hg => Or.inl hg
  · by_cases hi : i = g
    · rw [hi, hself, hsteers]
    · rw [hother i hi]
  · rintro i hover ⟨p, hp, rfl⟩
    have hi : p.1 ≠ g := by
      rintro rfl
      cases hbusy.symm.trans (h.ended p hp)
    rw [hother p.1 hi]
    exact hover
  · intro i hactive
    by_cases hi : i = g
    · subst hi
      rw [hself] at hactive ⊢
      exact hslot hactive
    · rw [hother i hi] at hactive ⊢
      exact h.active i hactive
  · intro i hnone
    by_cases hi : i = g
    · subst hi
      rw [hself] at hnone
      refine h.unarmed i (Bool.eq_false_iff.2 fun hyes => ?_)
      cases (hagent hyes).symm.trans hnone
    · rw [hother i hi] at hnone
      exact h.unarmed i hnone
  · intro r i hr
    have harmed := h.threads r i hr
    by_cases hi : i = g
    · subst hi
      rw [hself]
      exact hagent harmed
    · rw [hother i hi]
      exact harmed
  · intro i hle
    have hi : i ≠ g := by
      rintro rfl
      rw [h.later i hle] at hbusy
      cases hbusy
    rw [hother i hi]
    exact h.later i hle

theorem arm_inv (h : s.Inv) (hstep : s.arm g = some s') : s'.Inv := by
  unfold arm at hstep
  split_ifs at hstep with hjob
  cases hstep
  exact h.setJob rfl hjob.2 (fun _ => rfl) fun _ => Or.inl hjob.1

theorem finish_inv (h : s.Inv) (hstep : s.finish g = some s') : s'.Inv := by
  unfold finish at hstep
  split_ifs at hstep with hbusy
  cases hstep
  exact h.setJob rfl hbusy id fun hactive => by cases hactive

/-! ## The requests -/

theorem seek_inv (h : s.Inv) (hstep : s.seek r = some s') : s'.Inv := by
  unfold seek at hstep
  split at hstep
  · split at hstep
    · cases hstep
      exact h.setThread (by simp)
    · next g hlive =>
        split_ifs at hstep with hover hplain
        · cases hstep
          exact h.setThread (by simp)
        · cases hstep
          exact h.setThread (by simp)
        · cases hstep
          refine h.setThread fun g' hg' => ?_
          obtain rfl := Thread.queueing.inj hg'
          exact Bool.eq_true_of_not_eq_false hplain
  · cases hstep

theorem seekReclaim_inv (h : s.Inv) (hstep : s.seekReclaim r = some s') : s'.Inv := by
  unfold seekReclaim at hstep
  split at hstep
  · split at hstep
    · split_ifs at hstep
      · cases hstep
        exact h.setThread (by simp)
      · cases hstep
        exact h.setThread (by simp)
    · cases hstep
      exact h.setThread (by simp)
  · cases hstep

theorem seekReport_inv {cancels : Bool} (h : s.Inv) (hstep : s.seekReport r cancels = some s') :
    s'.Inv := by
  unfold seekReport at hstep
  split at hstep
  · split at hstep
    · split_ifs at hstep
      · cases hstep
        exact h.setThread (by simp)
      · cases hstep
        exact h.setThread (by simp)
    · cases hstep
      exact h.setThread (by simp)
  · cases hstep

/-- The rows of a run that is over are handed back, for the first time. -/
theorem Inv.report (h : s.Inv) (hover : (s.jobs g).active = false) (hfirst : ¬ s.Reported g) :
    ({ s with returned := s.returned ++ (s.jobs g).steers.map (g, ·) } : Steering).Inv := by
  have hmem : ∀ p, p ∈ s.returned ++ (s.jobs g).steers.map (g, ·) ↔
      p ∈ s.returned ∨ p.1 = g ∧ p.2 ∈ (s.jobs g).steers := by
    intro p
    rw [List.mem_append, List.mem_map]
    refine or_congr_right ⟨?_, ?_⟩
    · rintro ⟨row, hrow, rfl⟩
      exact ⟨rfl, hrow⟩
    · rintro ⟨hg, hrow⟩
      exact ⟨p.2, hrow, by rw [← hg]⟩
  refine ⟨⟨h.fresh, h.logged, h.rows, h.apart, h.gone, h.leftIds, ?_, ?_, ?_, h.acked, h.clients,
    h.single⟩, ⟨?_, ?_, h.active, h.unarmed, h.threads, h.later, h.unused⟩⟩
  · intro p hp
    rcases (hmem p).1 hp with hold | ⟨hg, hrow⟩
    · exact h.returned p hold
    · exact hg ▸ hrow
  · rw [List.map_append, List.map_map]
    refine List.Nodup.append h.returnedIds (h.rows g) fun id hold hnew => ?_
    obtain ⟨p, hp, rfl⟩ := List.mem_map.1 hold
    obtain ⟨row, hrow, hid⟩ := List.mem_map.1 hnew
    exact hfirst ⟨p, hp, (h.apart g p.1 row hrow p.2 (h.returned p hp) hid).symm⟩
  · rintro g' ⟨p, hp, rfl⟩ row hrow
    rw [hmem]
    rcases (hmem p).1 hp with hold | ⟨hg, _⟩
    · exact Or.inl (h.whole p.1 ⟨p, hold, rfl⟩ row hrow)
    · exact Or.inr ⟨hg, hg ▸ hrow⟩
  · intro p hp
    rcases (hmem p).1 hp with hold | ⟨hg, _⟩
    · exact h.ended p hold
    · exact hg.symm ▸ hover
  · intro g' row hrow
    rcases h.kept g' row hrow with hlive | hback
    · exact Or.inl hlive
    · exact Or.inr ((hmem _).2 (Or.inl hback))

theorem report_inv (h : s.Inv) (hok : s.Admits (.report r)) (hstep : s.report r = some s') : s'.Inv := by
  unfold report at hstep
  split at hstep
  · next g hat =>
      cases hstep
      obtain ⟨hover, hfirst⟩ := hok g hat
      exact (h.report hover hfirst).setThread (by simp)
  · cases hstep

/-- Rows leave a queue that was not handed back. -/
structure Takes (s s' : Steering) (g : Nat) (stay out : List Row) : Prop where
  split : (stay ++ out).Perm (s.jobs g).steers
  job : s'.jobs g = { s.jobs g with steers := stay }
  jobs : ∀ i ≠ g, s'.jobs i = s.jobs i
  left : s'.left.Perm (s.left ++ out.map (g, ·))
  same : s'.nextId = s.nextId ∧ s'.acked = s.acked ∧ s'.returned = s.returned ∧
    s'.registry = s.registry ∧ s'.started = s.started ∧ s'.threads = s.threads
  first : ¬ s.Reported g

variable {out stay : List Row}

theorem Takes.mem_left (h : Takes s s' g stay out) {p : Nat × Row} :
    p ∈ s'.left ↔ p ∈ s.left ∨ p.1 = g ∧ p.2 ∈ out := by
  rw [h.left.mem_iff, List.mem_append, List.mem_map]
  refine or_congr_right ⟨?_, ?_⟩
  · rintro ⟨row, hrow, rfl⟩
    exact ⟨rfl, hrow⟩
  · rintro ⟨hg, hrow⟩
    exact ⟨p.2, hrow, by rw [← hg]⟩

theorem Takes.mem_steers (h : Takes s s' g stay out) {row : Row}
    (hrow : row ∈ (s'.jobs i).steers) : row ∈ (s.jobs i).steers := by
  by_cases hi : i = g
  · subst hi
    rw [h.job] at hrow
    exact h.split.subset (List.mem_append_left out hrow)
  · rwa [h.jobs i hi] at hrow

theorem Takes.out_mem (h : Takes s s' g stay out) {row : Row} (hrow : row ∈ out) :
    row ∈ (s.jobs g).steers := h.split.subset (List.mem_append_right stay hrow)

/-- The ids of the queue, of what stays before what leaves. -/
theorem Takes.ids (hinv : s.Inv) (h : Takes s s' g stay out) :
    (stay.map Row.steerId ++ out.map Row.steerId).Nodup := by
  have hperm := h.split.map Row.steerId
  rw [List.map_append] at hperm
  exact hperm.nodup_iff.2 (hinv.rows g)

theorem Takes.rowInv (hinv : s.Inv) (h : Takes s s' g stay out)
    (hsingle : ∀ c, (s'.applied.countP fun p => p.2.hasClient c) ≤ 1) : s'.RowInv := by
  obtain ⟨hnext, hacked, hreturned, -, -, -⟩ := h.same
  have hids := h.ids hinv
  refine ⟨?_, ?_, ?_, ?_, ?_, ?_, ?_, ?_, ?_, ?_, ?_, hsingle⟩
  · intro i row hrow
    rw [hnext]
    exact hinv.fresh i row (h.mem_steers hrow)
  · intro p hp
    rw [hnext]
    rcases h.mem_left.1 hp with hold | ⟨_, hout⟩
    · exact hinv.logged p hold
    · exact hinv.fresh g p.2 (h.out_mem hout)
  · intro i
    by_cases hi : i = g
    · rw [hi, h.job]
      exact (List.nodup_append.1 hids).1
    · rw [h.jobs i hi]
      exact hinv.rows i
  · intro i j row hrow row' hrow' hid
    exact hinv.apart i j row (h.mem_steers hrow) row' (h.mem_steers hrow') hid
  · intro i row hrow p hp hid
    rcases h.mem_left.1 hp with hold | ⟨_, hout⟩
    · exact hinv.gone i row (h.mem_steers hrow) p hold hid
    · -- a row that stays is not one that leaves
      obtain rfl := hinv.apart i g row (h.mem_steers hrow) p.2 (h.out_mem hout) hid.symm
      rw [h.job] at hrow
      exact (List.disjoint_of_nodup_append hids) (List.mem_map_of_mem hrow)
        (hid ▸ List.mem_map_of_mem hout)
  · rw [(h.left.map fun p => p.2.steerId).nodup_iff, List.map_append, List.map_map]
    refine List.Nodup.append hinv.leftIds (List.nodup_append.1 hids).2.1 fun id hold hnew => ?_
    obtain ⟨p, hp, rfl⟩ := List.mem_map.1 hold
    obtain ⟨row, hrow, hid⟩ := List.mem_map.1 hnew
    exact hinv.gone g row (h.out_mem hrow) p hp hid.symm
  · intro p hp
    rw [hreturned] at hp
    have hi : p.1 ≠ g := fun hi => h.first ⟨p, hp, hi⟩
    rw [h.jobs p.1 hi]
    exact hinv.returned p hp
  · rw [hreturned]
    exact hinv.returnedIds
  · intro i hi row hrow
    rw [Reported, hreturned] at hi
    rw [hreturned]
    exact hinv.whole i hi row (h.mem_steers hrow)
  · intro i id hid
    rw [hacked] at hid
    rcases hinv.acked i id hid with ⟨row, hrow, hsame⟩ | ⟨p, hp, hsame⟩
    · by_cases hi : i = g
      · subst hi
        rcases List.mem_append.1 (h.split.mem_iff.2 hrow) with hstay | hout
        · refine Or.inl ⟨row, ?_, hsame⟩
          rw [h.job]
          exact hstay
        · exact Or.inr ⟨(i, row), h.mem_left.2 (Or.inr ⟨rfl, hout⟩), rfl, hsame⟩
      · refine Or.inl ⟨row, ?_, hsame⟩
        rw [h.jobs i hi]
        exact hrow
    · exact Or.inr ⟨p, h.mem_left.2 (Or.inl hp), hsame⟩
  · intro i c
    by_cases hi : i = g
    · rw [hi, h.job]
      have hsplit := h.split.countP_eq fun row => row.hasClient c
      rw [List.countP_append] at hsplit
      have hclients := hinv.clients g c
      dsimp only
      omega
    · rw [h.jobs i hi]
      exact hinv.clients i c

theorem Takes.inv (hinv : s.Inv) (h : Takes s s' g stay out)
    (hsingle : ∀ c, (s'.applied.countP fun p => p.2.hasClient c) ≤ 1)
    (hunused : ∀ i, s.registry = some i → ∀ row ∈ (s'.jobs i).steers, ∀ c, row.hasClient c = true →
      ∀ p ∈ s'.applied, p.2.hasClient c = false) : s'.Inv := by
  obtain ⟨-, -, hreturned, hregistry, hstarted, hthreads⟩ := h.same
  have hactive : ∀ i, (s'.jobs i).active = (s.jobs i).active := by
    intro i
    by_cases hi : i = g
    · rw [hi, h.job]
    · rw [h.jobs i hi]
  have hagent : ∀ i, (s'.jobs i).agent = (s.jobs i).agent := by
    intro i
    by_cases hi : i = g
    · rw [hi, h.job]
    · rw [h.jobs i hi]
  refine ⟨h.rowInv hinv hsingle, ⟨?_, ?_, ?_, ?_, ?_, ?_, ?_⟩⟩
  · intro p hp
    rw [hactive]
    exact hinv.ended p (hreturned ▸ hp)
  · intro i row hrow
    rw [hregistry, hreturned]
    exact hinv.kept i row (h.mem_steers hrow)
  · intro i hi
    rw [hregistry, hagent]
    exact hinv.active i (hactive i ▸ hi)
  · intro i hi
    refine List.eq_nil_iff_forall_not_mem.2 fun row hrow => ?_
    have hempty := hinv.unarmed i (hagent i ▸ hi)
    rw [List.eq_nil_iff_forall_not_mem] at hempty
    exact hempty row (h.mem_steers hrow)
  · intro r i hr
    rw [hagent]
    exact hinv.threads r i (hthreads ▸ hr)
  · intro i hi
    have hlater := hinv.later i (hstarted ▸ hi)
    by_cases hig : i = g
    · subst hig
      have hempty : stay = [] := List.eq_nil_iff_forall_not_mem.2 fun row hrow => by
        have hold := h.split.subset (List.mem_append_left out hrow)
        rw [hlater] at hold
        cases hold
      rw [h.job, hempty, hlater]
    · rw [h.jobs i hig]
      exact hlater
  · intro i hi
    exact hunused i (hregistry ▸ hi)

theorem drain_inv (h : s.Inv) (hstep : s.drain g = some s') : s'.Inv := by
  unfold drain at hstep
  split_ifs at hstep with hactive
  cases hstep
  have hfirst : ¬ s.Reported g := by
    rintro ⟨p, hp, rfl⟩
    cases hactive.symm.trans (h.ended p hp)
  have htakes : Takes s { s.setJob g { s.jobs g with steers := [] } with
      applied := s.applied ++ (s.jobs g).steers.map (g, ·) } g [] (s.jobs g).steers := by
    refine ⟨List.Perm.refl _, if_pos rfl, fun _ hi => if_neg hi, ?_, ⟨rfl, rfl, rfl, rfl, rfl, rfl⟩,
      hfirst⟩
    simp only [left, setJob, List.append_assoc]
    exact List.perm_append_comm.append_left s.applied
  -- an active run is the registered one, or has no rows yet
  have hlive : s.registry = some g ∨ (s.jobs g).steers = [] := by
    rcases h.active g hactive with hreg | hagent
    · exact Or.inl hreg
    · exact Or.inr (h.unarmed g hagent)
  refine htakes.inv h (fun c => ?_) fun i hi row hrow c hc p hp => ?_
  · have hclients := h.clients g c
    have hsingle := h.single c
    have hmap : ((s.jobs g).steers.map (g, ·)).countP (fun p : Nat × Row => p.2.hasClient c) =
        (s.jobs g).steers.countP fun row => row.hasClient c := List.countP_map
    rw [List.countP_append, hmap]
    rcases Nat.eq_zero_or_pos ((s.jobs g).steers.countP fun row => row.hasClient c) with hnone | hsome
    · omega
    · obtain ⟨row, hrow, hc⟩ := List.countP_pos_iff.1 hsome
      have hzero : s.applied.countP (fun p => p.2.hasClient c) = 0 := by
        refine List.countP_eq_zero.2 fun p hp => ?_
        rcases hlive with hreg | hempty
        · simp [h.unused g hreg row hrow c hc p hp]
        · rw [hempty] at hrow
          cases hrow
      omega
  · have hold := htakes.mem_steers hrow
    rcases List.mem_append.1 hp with hbefore | hnew
    · exact h.unused i hi row hold c hc p hbefore
    · obtain ⟨row', hrow', rfl⟩ := List.mem_map.1 hnew
      have hig : i = g := by
        rcases hlive with hreg | hempty
        · exact Option.some.inj (hi.symm.trans hreg)
        · rw [hempty] at hrow'
          cases hrow'
      rw [hig, htakes.job] at hrow
      cases hrow

theorem reclaim_inv {body : ReclaimBody} (h : s.Inv) (hok : s.Admits (.reclaim r body))
    (hstep : s.reclaim r body = some s') : s'.Inv := by
  unfold reclaim at hstep
  split at hstep
  · next g hat =>
      cases hstep
      have htakes : Takes s { s.setJob g { s.jobs g with
            steers := (s.jobs g).steers.filter fun row => !body.selects row } with
          removed := s.removed ++ ((s.jobs g).steers.filter body.selects).map (g, ·) } g
          ((s.jobs g).steers.filter fun row => !body.selects row)
          ((s.jobs g).steers.filter body.selects) := by
        refine ⟨?_, if_pos rfl, fun _ hi => if_neg hi, ?_, ⟨rfl, rfl, rfl, rfl, rfl, rfl⟩, hok g hat⟩
        · exact List.perm_append_comm.trans (List.filter_append_perm body.selects _)
        · simp [left, setJob]
      refine (htakes.inv h h.single fun i hi row hrow => ?_).setThread (by simp)
      exact h.unused i hi row (htakes.mem_steers hrow)
  · cases hstep

theorem positionOf_none {c : PyStr} {rows : List Row} (h : positionOf c rows = none) :
    ∀ row ∈ rows, row.hasClient c = false := by
  intro row hrow
  rw [positionOf, Option.map_eq_none_iff, List.find?_eq_none] at h
  rw [← List.zipIdx_map_fst 0 rows] at hrow
  obtain ⟨p, hp, rfl⟩ := List.mem_map.1 hrow
  exact Bool.eq_false_iff.2 (h p hp)

theorem positionOf_some {c : PyStr} {rows : List Row} {found : Nat × Row}
    (h : positionOf c rows = some found) : found.2 ∈ rows := by
  rw [positionOf, Option.map_eq_some_iff] at h
  obtain ⟨p, hp, rfl⟩ := h
  have hmem : p.1 ∈ rows.zipIdx.map Prod.fst := List.mem_map_of_mem (List.mem_of_find?_eq_some hp)
  rwa [List.zipIdx_map_fst] at hmem

/-- A follow-up that is in a queue is acknowledged. -/
theorem Inv.ack (h : s.Inv) (hrow : ∃ row ∈ (s.jobs g).steers, row.steerId = id) :
    ({ s with acked := s.acked ++ [(g, id)] } : Steering).Inv := by
  refine ⟨⟨h.fresh, h.logged, h.rows, h.apart, h.gone, h.leftIds, h.returned, h.returnedIds,
    h.whole, ?_, h.clients, h.single⟩, ⟨h.ended, h.kept, h.active, h.unarmed, h.threads, h.later,
    h.unused⟩⟩
  intro g' id' hmem
  rcases List.mem_append.1 hmem with hold | hnew
  · exact h.acked g' id' hold
  · obtain ⟨rfl, rfl⟩ := Prod.mk.inj (List.mem_singleton.1 hnew)
    exact Or.inl hrow

def push (s : Steering) (g : Nat) (row : Row) : Steering :=
  { s.setJob g { s.jobs g with steers := (s.jobs g).steers ++ [row] } with nextId := s.nextId + 1 }

theorem push_self (s : Steering) (g : Nat) (row : Row) :
    (s.push g row).jobs g = { s.jobs g with steers := (s.jobs g).steers ++ [row] } := if_pos rfl

theorem push_other (s : Steering) (row : Row) (hi : i ≠ g) :
    (s.push g row).jobs i = s.jobs i := if_neg hi

theorem mem_push {row old : Row} :
    old ∈ ((s.push g row).jobs i).steers ↔ old ∈ (s.jobs i).steers ∨ i = g ∧ old = row := by
  by_cases hi : i = g
  · subst hi
    rw [push_self]
    simp
  · rw [push_other s row hi]
    simp [hi]

theorem push_rowInv {row : Row} (h : s.Inv) (hid : row.steerId = s.nextId) (hfirst : ¬ s.Reported g)
    (hclient : ∀ c, row.hasClient c = true → ∀ old ∈ (s.jobs g).steers, old.hasClient c = false) :
    (s.push g row).RowInv := by
  refine ⟨?_, ?_, ?_, ?_, ?_, h.leftIds, ?_, h.returnedIds, ?_, ?_, ?_, h.single⟩
  · intro i old hold
    rcases mem_push.1 hold with hold | ⟨_, rfl⟩
    · exact Nat.lt_succ_of_lt (h.fresh i old hold)
    · exact hid ▸ Nat.lt_succ_self _
  · exact fun p hp => Nat.lt_succ_of_lt (h.logged p hp)
  · intro i
    by_cases hi : i = g
    · subst hi
      have hfresh : row.steerId ∉ (s.jobs i).steers.map Row.steerId := by
        intro hin
        obtain ⟨old, hold, hsame⟩ := List.mem_map.1 hin
        exact absurd (h.fresh i old hold) (by omega)
      have hnodup := (h.rows i).concat hfresh
      rw [push_self]
      simpa using hnodup
    · rw [push_other s row hi]
      exact h.rows i
  · intro i j old hold old' hold' hsame
    rcases mem_push.1 hold with hin | ⟨hi, hnew⟩
    · rcases mem_push.1 hold' with hin' | ⟨_, hnew'⟩
      · exact h.apart i j old hin old' hin' hsame
      · rw [hnew', hid] at hsame
        exact absurd (h.fresh i old hin) (by omega)
    · rcases mem_push.1 hold' with hin' | ⟨hj, _⟩
      · rw [hnew, hid] at hsame
        exact absurd (h.fresh j old' hin') (by omega)
      · exact hi.trans hj.symm
  · intro i old hold p hp hsame
    rcases mem_push.1 hold with hold | ⟨_, rfl⟩
    · exact h.gone i old hold p hp hsame
    · exact absurd (h.logged p hp) (by omega)
  · intro p hp
    exact mem_push.2 (Or.inl (h.returned p hp))
  · intro i hi old hold
    rcases mem_push.1 hold with hold | ⟨rfl, _⟩
    · exact h.whole i hi old hold
    · exact absurd hi hfirst
  · intro i id hack
    rcases h.acked i id hack with ⟨old, hold, hsame⟩ | hleft
    · exact Or.inl ⟨old, mem_push.2 (Or.inl hold), hsame⟩
    · exact Or.inr hleft
  · intro i c
    by_cases hi : i = g
    · subst hi
      rw [push_self]
      have hclients := h.clients i c
      cases hc : row.hasClient c with
      | false => simpa [hc] using hclients
      | true =>
        have hnone : (s.jobs i).steers.countP (fun old => old.hasClient c) = 0 :=
          List.countP_eq_zero.2 fun old hold => by simp [hclient c hc old hold]
        simp [hnone, hc]
    · rw [push_other s row hi]
      exact h.clients i c

/-- A new row goes behind the queue of the registered job. -/
theorem push_inv {row : Row} (h : s.Inv) (hid : row.steerId = s.nextId) (hlive : s.registry = some g)
    (hagent : (s.jobs g).agent = true) (hfirst : ¬ s.Reported g)
    (hclient : ∀ c, row.hasClient c = true → (∀ old ∈ (s.jobs g).steers, old.hasClient c = false) ∧
      ∀ p ∈ s.applied, p.2.hasClient c = false) : (s.push g row).Inv := by
  have hactive : ∀ i, ((s.push g row).jobs i).active = (s.jobs i).active := by
    intro i
    by_cases hi : i = g
    · rw [hi, push_self]
    · rw [push_other s row hi]
  have hagents : ∀ i, ((s.push g row).jobs i).agent = (s.jobs i).agent := by
    intro i
    by_cases hi : i = g
    · rw [hi, push_self]
    · rw [push_other s row hi]
  refine ⟨push_rowInv h hid hfirst fun c hc => (hclient c hc).1, ⟨?_, ?_, ?_, ?_, ?_, ?_, ?_⟩⟩
  · intro p hp
    rw [hactive]
    exact h.ended p hp
  · intro i old hold
    rcases mem_push.1 hold with hold | ⟨rfl, _⟩
    · exact h.kept i old hold
    · exact Or.inl hlive
  · intro i hi
    rw [hagents]
    exact h.active i (hactive i ▸ hi)
  · intro i hi
    rw [hagents] at hi
    have hig : i ≠ g := by
      rintro rfl
      cases hagent.symm.trans hi
    rw [push_other s row hig]
    exact h.unarmed i hi
  · intro r i hr
    rw [hagents]
    exact h.threads r i hr
  · intro i hi
    have hig : i ≠ g := by
      rintro rfl
      rw [h.later i hi] at hagent
      cases hagent
    rw [push_other s row hig]
    exact h.later i hi
  · intro i hi old hold c hc p hp
    rcases mem_push.1 hold with hold | ⟨_, rfl⟩
    · exact h.unused i hi old hold c hc p hp
    · exact (hclient c hc).2 p hp

theorem queue_inv {body : SteerBody} (h : s.Inv) (hok : s.Admits (.queue r body))
    (hstep : s.queue r body = some s') : s'.Inv := by
  unfold queue at hstep
  split at hstep
  · next g hat =>
      obtain ⟨hlive, hfirst, hunused⟩ := hok g hat
      dsimp only at hstep
      split_ifs at hstep with hblank
      · cases hstep
        exact h.setThread (by simp)
      · split at hstep
        · next position row hfound =>
            cases hstep
            obtain ⟨c, -, hrow⟩ := Option.bind_eq_some_iff.1 hfound
            exact (h.ack ⟨row, positionOf_some hrow, rfl⟩).setThread (by simp)
        · next hnone =>
            cases hstep
            have hclient : ∀ c, body.clientSteerId = some c →
                (∀ old ∈ (s.jobs g).steers, old.hasClient c = false) ∧
                  ∀ p ∈ s.applied, p.2.hasClient c = false := by
              intro c hc
              rw [hc] at hnone
              exact ⟨positionOf_none hnone, hunused c hc⟩
            have hpush : (s.push g ⟨s.nextId, body.clientSteerId, strip body.text,
                body.createdAt⟩).Inv :=
              push_inv h rfl hlive (h.threads r g hat) hfirst
                fun c hc => hclient c (of_decide_eq_true hc)
            have hqueued : ∃ row ∈ ((s.push g ⟨s.nextId, body.clientSteerId, strip body.text,
                body.createdAt⟩).jobs g).steers, row.steerId = s.nextId :=
              ⟨_, mem_push.2 (Or.inr ⟨rfl, rfl⟩), rfl⟩
            exact (hpush.ack hqueued).setThread (by simp)
  · cases hstep

/-! ## Runs -/

theorem step_inv {action : Action} (h : s.Inv) (hok : s.Admits action)
    (hstep : s.step action = some s') : s'.Inv := by
  cases action with
  | start => exact start_inv h hok hstep
  | startFails => exact startFails_inv h hstep
  | arm g => exact arm_inv h hstep
  | drain g => exact drain_inv h hstep
  | finish g => exact finish_inv h hstep
  | evict => exact evict_inv h hok hstep
  | seek r => exact seek_inv h hstep
  | queue r body => exact queue_inv h hok hstep
  | seekReclaim r => exact seekReclaim_inv h hstep
  | reclaim r body => exact reclaim_inv h hok hstep
  | seekReport r cancels => exact seekReport_inv h hstep
  | report r => exact report_inv h hok hstep

theorem inv_empty : empty.Inv := by
  refine ⟨⟨?_, ?_, ?_, ?_, ?_, ?_, ?_, ?_, ?_, ?_, ?_, ?_⟩, ⟨?_, ?_, ?_, ?_, ?_, ?_, ?_⟩⟩ <;>
    simp [empty, left, Reported]

/-! ## Where a follow-up is -/

theorem times_eq_count (log : List (Nat × Row)) (id : Nat) :
    times log id = (log.map fun p => p.2.steerId).count id := by
  rw [times, List.count, List.countP_map]
  rfl

theorem times_eq_zero {log : List (Nat × Row)} (h : ∀ p ∈ log, p.2.steerId ≠ id) :
    times log id = 0 := by
  rw [times, List.countP_eq_zero]
  simpa using h

theorem times_eq_one {log : List (Nat × Row)} {p : Nat × Row}
    (hids : (log.map fun p => p.2.steerId).Nodup) (hp : p ∈ log) : times log p.2.steerId = 1 := by
  rw [times_eq_count]
  exact List.count_eq_one_of_mem hids (List.mem_map_of_mem hp)

theorem mem_of_times {log : List (Nat × Row)} (h : times log id ≠ 0) :
    ∃ p ∈ log, p.2.steerId = id := by
  by_contra hnone
  push Not at hnone
  exact h (times_eq_zero hnone)

/-- A follow-up that is queued waits, or was handed back. -/
theorem Inv.once_queued {row : Row} (h : s.Inv) (hrow : row ∈ (s.jobs g).steers) :
    ∃ place, ∀ p, s.count g row.steerId p = if p = place then 1 else 0 := by
  have happlied : times s.applied row.steerId = 0 :=
    times_eq_zero fun p hp => h.gone g row hrow p (List.mem_append_left _ hp)
  have hremoved : times s.removed row.steerId = 0 :=
    times_eq_zero fun p hp => h.gone g row hrow p (List.mem_append_right _ hp)
  by_cases hback : times s.returned row.steerId = 0
  · have hlive : s.registry = some g := by
      rcases h.kept g row hrow with hlive | hmem
      · exact hlive
      · have hone : times s.returned row.steerId = 1 := times_eq_one h.returnedIds hmem
        omega
    have hwaiting : s.isWaiting g row.steerId = true := by
      have hany : ((s.jobs g).steers.any fun old => old.steerId = row.steerId) = true :=
        List.any_eq_true.2 ⟨row, hrow, decide_eq_true rfl⟩
      simp [isWaiting, hlive, hany, hback]
    refine ⟨.waiting, fun p => ?_⟩
    cases p <;> simp [count, hwaiting, happlied, hremoved, hback]
  · obtain ⟨p, hp, hid⟩ := mem_of_times hback
    have hone : times s.returned row.steerId = 1 := hid ▸ times_eq_one h.returnedIds hp
    have hwaiting : s.isWaiting g row.steerId = false := by simp [isWaiting, hone]
    refine ⟨.returned, fun p => ?_⟩
    cases p <;> simp [count, hwaiting, happlied, hremoved, hone]

/-- A follow-up that left its queue was applied or removed. -/
theorem Inv.once_left {p : Nat × Row} (h : s.Inv) (hp : p ∈ s.left) :
    ∃ place, ∀ q, s.count g p.2.steerId q = if q = place then 1 else 0 := by
  have hreturned : times s.returned p.2.steerId = 0 := by
    refine times_eq_zero fun q hq hid => ?_
    exact h.gone q.1 q.2 (h.returned q hq) p hp hid.symm
  have hwaiting : s.isWaiting g p.2.steerId = false := by
    rw [isWaiting, Bool.and_eq_false_iff, Bool.and_eq_false_iff]
    refine Or.inl (Or.inr (List.any_eq_false.2 fun row hrow => ?_))
    have hne := h.gone g row hrow p hp
    simpa using hne.symm
  have hids := h.leftIds
  rw [left, List.map_append, List.nodup_append] at hids
  obtain ⟨happlied, hremoved, hdisjoint⟩ := hids
  rcases List.mem_append.1 hp with hin | hin
  · have hone := times_eq_one happlied hin
    have hzero : times s.removed p.2.steerId = 0 := by
      refine times_eq_zero fun q hq hid => ?_
      exact hdisjoint _ (List.mem_map_of_mem hin) _ (List.mem_map_of_mem hq) hid.symm
    refine ⟨.applied, fun q => ?_⟩
    cases q <;> simp [count, hwaiting, hone, hzero, hreturned]
  · have hone := times_eq_one hremoved hin
    have hzero : times s.applied p.2.steerId = 0 := by
      refine times_eq_zero fun q hq hid => ?_
      exact hdisjoint _ (List.mem_map_of_mem hq) _ (List.mem_map_of_mem hin) hid
    refine ⟨.removed, fun q => ?_⟩
    cases q <;> simp [count, hwaiting, hone, hzero, hreturned]

theorem Inv.delivered (h : s.Inv) : s.Delivered where
  once := by
    intro g id hack
    rcases h.acked g id hack with ⟨row, hrow, rfl⟩ | ⟨p, hp, -, rfl⟩
    · exact h.once_queued hrow
    · exact h.once_left hp
  own := by
    intro g id hack q hq hid
    rcases h.acked g id hack with ⟨row, hrow, rfl⟩ | ⟨p, hp, hg, rfl⟩
    · rcases List.mem_append.1 hq with hleft | hback
      · exact absurd hid (h.gone g row hrow q hleft)
      · exact h.apart q.1 g q.2 (h.returned q hback) row hrow hid
    · rcases List.mem_append.1 hq with hleft | hback
      · rw [List.inj_on_of_nodup_map h.leftIds hleft hp hid]
        exact hg
      · exact absurd hid.symm (h.gone q.1 q.2 (h.returned q hback) p hp)
  single := h.single

end Steering

/-- Every acknowledged follow-up is delivered once, in every run in which no locked step comes too
late. -/
theorem delivered_once {s : Steering}
    (h : Reachable Steering.step Steering.Admits (· = Steering.empty) s) : s.Delivered :=
  (h.invariant (fun _ hstart => hstart ▸ Steering.inv_empty)
    fun _ _ _ hinv hok hstep => Steering.step_inv hinv hok hstep).delivered

/-! ## A retry -/

def stop : SteerBody := ⟨lit "stop", some (lit "c1"), 0⟩

def soughtRun : Steering where
  jobs := fun i => if i = 0 then { active := true, agent := true } else
    if i = 0 then { active := true } else {}
  started := 1
  registry := some 0
  nextId := 0
  threads := fun i => if i = 0 then .queueing 0 else .new
  acked := []
  applied := []
  removed := []
  returned := []

theorem delivered_once_drained :
    ∃ s : Steering, s.acked = [(0, 0)] ∧ s.applied = [(0, ⟨0, some (lit "c1"), lit "stop", 0⟩)] ∧
      s.Delivered := by
  have hempty : Reachable Steering.step Steering.Admits (· = Steering.empty) Steering.empty :=
    .start rfl
  have hstarted := hempty.step (a := .start) (fun g hg => by cases hg) rfl
  have hsought : Reachable Steering.step Steering.Admits (· = Steering.empty) soughtRun :=
    hstarted.of_always [.arm 0, .seek 0] (by simp [Steering.Admits]) rfl
  have hqueue : soughtRun.Admits (.queue 0 stop) := by
    intro g hg
    obtain rfl := Thread.queueing.inj (show Thread.queueing 0 = Thread.queueing g from hg)
    exact ⟨rfl, by simp [Steering.Reported, soughtRun], by simp [soughtRun]⟩
  have hqueued := hsought.step hqueue rfl
  have hdrained := hqueued.of_always [.drain 0] (by simp [Steering.Admits]) rfl
  exact ⟨_, rfl, rfl, delivered_once hdrained⟩

/-- A client retries its follow-up after the worker has drained it. -/
def retriedRun : List Action :=
  [.start, .arm 0, .seek 0, .queue 0 stop, .drain 0, .seek 1, .queue 1 stop, .drain 0]

/-- It is acknowledged again and applied twice. -/
theorem applied_twice :
    ∃ s : Steering, Reachable Steering.step (fun _ _ => True) (· = Steering.empty) s ∧
      s.acked = [(0, 0), (0, 1)] ∧
      s.applied = [(0, ⟨0, some (lit "c1"), lit "stop", 0⟩),
        (0, ⟨1, some (lit "c1"), lit "stop", 0⟩)] ∧ ¬ s.Delivered := by
  obtain ⟨s, hs, htest⟩ := Reachable.exists_of_foldlM retriedRun
    (fun s => s.acked = [(0, 0), (0, 1)] ∧
      s.applied = [(0, ⟨0, some (lit "c1"), lit "stop", 0⟩),
        (0, ⟨1, some (lit "c1"), lit "stop", 0⟩)])
    (.start rfl : Reachable Steering.step (fun _ _ => True) (· = Steering.empty) Steering.empty)
    (by decide)
  obtain ⟨hacked, happlied⟩ := of_decide_eq_true htest
  refine ⟨s, hs, hacked, happlied, fun hdelivered => ?_⟩
  have hone := hdelivered.single (lit "c1")
  rw [happlied] at hone
  exact absurd hone (by decide)

end Steers
end Tempest
