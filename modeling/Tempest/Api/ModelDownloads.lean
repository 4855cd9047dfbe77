import Mathlib.Data.List.Basic
import Tempest.Process.Reachable

/-!
# ModelDownloads — the download jobs of the sidecar (`modeldownloads.py`)

`start`, `cancel`, `remove` and `status` by their steps, between which the other calls and the workers
take theirs: every use of the job table under its lock, the reads of a job outside it, the start of a
thread, and what `download_entry` and `delete_entry` do to the two files of a model.

`downloads_exclusive` is about the runs in which no job is made for a model while a `remove` of it is
between its look at the table and its last step, and every thread starts.
-/

namespace Tempest
namespace ModelDownloads

inductive State where
  | running | done | failed | cancelled | absent
  deriving DecidableEq

inductive Outcome where
  | done | failed | cancelled
  deriving DecidableEq

def Outcome.state : Outcome → State
  | .done => .done
  | .failed => .failed
  | .cancelled => .cancelled

inductive Final where
  | missing
  | stray
  | recorded
  deriving DecidableEq

inductive Worker where
  | unstarted
  /-- At the checks of `download_entry`. -/
  | looking
  | fetching
  | writing
  /-- `download_entry` is over, the state of the job is not yet written. -/
  | recording (outcome : Outcome)
  | ended
  deriving DecidableEq

def Worker.isLive : Worker → Bool
  | .unstarted | .ended => false
  | .looking | .fetching | .writing | .recording _ => true

/-- `_Job`.  No step reads whether its worker has installed the model. -/
structure Job (M : Type) where
  model : M
  state : State
  cancel : Bool
  worker : Worker
  installed : Bool
  deriving DecidableEq

/-- Where a request is.  A `remove` knows how many jobs there were when it looked, and a `status` which
job was accepted last. -/
inductive Call (M : Type) where
  | new
  /-- `start`, and the model is not installed. -/
  | starting (m : M)
  | spawning (job : Nat)
  | accepted (job : Nat)
  | attached (job : Nat)
  | stopping (found : Option Nat)
  | checking (m : M) (found : Option Nat) (since : Nat)
  | unlinking (m : M) (since : Nat)
  | unlinkingPartial (m : M) (since : Nat)
  | popping (m : M) (since : Nat)
  | showing (m : M) (found last : Option Nat)
  | answered
  | refused

/-- A `remove` of the model that has looked at the table and is not over. -/
def Call.removes {M : Type} [DecidableEq M] (m : M) : Call M → Bool
  | .checking m' _ _ | .unlinking m' _ | .unlinkingPartial m' _ | .popping m' _ => m' = m
  | _ => false

/-- The `start` that made a job. -/
def Call.makes {M : Type} (job : Nat) : Call M → Prop
  | .spawning j | .accepted j => j = job
  | _ => False

/-- The job table, the jobs by number, the files and the requests.  `last` is the last job accepted for
a model, as long as no `remove` that looked after it was made is over. -/
structure Registry (M : Type) where
  jobs : List (Job M)
  table : M → Option Nat
  final : M → Final
  part : M → Bool
  calls : Nat → Call M
  last : M → Option Nat

inductive Action (M : Type) where
  | start (i : Nat) (m : M)
  | insert (i : Nat)
  | spawn (i : Nat) (succeeds : Bool)
  | cancel (i : Nat) (m : M)
  | ask (i : Nat)
  | remove (i : Nat) (m : M)
  | check (i : Nat)
  | unlink (i : Nat)
  | pop (i : Nat)
  | status (i : Nat) (m : M)
  | answer (i : Nat)
  | look (j : Nat)
  | fetch (j : Nat)
  | install (j : Nat)
  | stop (j : Nat) (outcome : Outcome) (keeps : Bool)
  | record (j : Nat)

namespace Registry

variable {M : Type}

section Steps

variable [DecidableEq M]

def setCall (s : Registry M) (i : Nat) (call : Call M) : Registry M :=
  { s with calls := fun k => if k = i then call else s.calls k }

def setJob (s : Registry M) (j : Nat) (job : Job M) : Registry M := { s with jobs := s.jobs.set j job }

def stateOf (s : Registry M) (found : Option Nat) : Option State :=
  (found.bind fun j => s.jobs[j]?).map Job.state

/-! ## The requests -/

/-- `start` as far as `is_installed`. -/
def start (s : Registry M) (i : Nat) (m : M) : Option (Registry M) :=
  match s.calls i with
  | .new => some (s.setCall i (if s.final m = .recorded then .answered else .starting m))
  | _ => none

/-- The locked part of `start`. -/
def insert (s : Registry M) (i : Nat) : Option (Registry M) :=
  match s.calls i with
  | .starting m =>
    match s.table m with
    | some j =>
      if s.stateOf (some j) = some .running then some (s.setCall i (.attached j))
      else some (make m)
    | none => some (make m)
  | _ => none
where
  make (m : M) : Registry M :=
    { s.setCall i (.spawning s.jobs.length) with
      jobs := s.jobs ++ [⟨m, .running, false, .unstarted, false⟩]
      table := fun m' => if m' = m then some s.jobs.length else s.table m'
      last := fun m' => if m' = m then some s.jobs.length else s.last m' }

/-- `job.thread.start()`; what it raises leaves the job as it is. -/
def spawn (s : Registry M) (i : Nat) (succeeds : Bool) : Option (Registry M) :=
  match s.calls i with
  | .spawning j =>
    match s.jobs[j]? with
    | some job =>
      if succeeds then some ((s.setJob j { job with worker := .looking }).setCall i (.accepted j))
      else some (s.setCall i .refused)
    | none => none
  | _ => none

def cancel (s : Registry M) (i : Nat) (m : M) : Option (Registry M) :=
  match s.calls i with
  | .new => some (s.setCall i (.stopping (s.table m)))
  | _ => none

/-- `cancel` after its look. -/
def ask (s : Registry M) (i : Nat) : Option (Registry M) :=
  match s.calls i with
  | .stopping (some j) =>
    match s.jobs[j]? with
    | some job =>
      if job.state = .running then
        some ((s.setJob j { job with cancel := true }).setCall i .answered)
      else some (s.setCall i .refused)
    | none => none
  | .stopping none => some (s.setCall i .refused)
  | _ => none

def remove (s : Registry M) (i : Nat) (m : M) : Option (Registry M) :=
  match s.calls i with
  | .new => some (s.setCall i (.checking m (s.table m) s.jobs.length))
  | _ => none

/-- `remove` refuses while the job it has found is running. -/
def check (s : Registry M) (i : Nat) : Option (Registry M) :=
  match s.calls i with
  | .checking m found since =>
    some (s.setCall i (if s.stateOf found = some .running then .refused else .unlinking m since))
  | _ => none

/-- `delete_entry`, one file after the other. -/
def unlink (s : Registry M) (i : Nat) : Option (Registry M) :=
  match s.calls i with
  | .unlinking m since =>
    some { s.setCall i (.unlinkingPartial m since) with
      final := fun m' => if m' = m then .missing else s.final m' }
  | .unlinkingPartial m since =>
    some { s.setCall i (.popping m since) with
      part := fun m' => if m' = m then false else s.part m' }
  | _ => none

/-- `_jobs.pop(model_id, None)`. -/
def pop (s : Registry M) (i : Nat) : Option (Registry M) :=
  match s.calls i with
  | .popping m since =>
    some { s.setCall i .answered with
      table := fun m' => if m' = m then none else s.table m'
      last := fun m' => if m' = m then (s.last m).filter (since ≤ ·) else s.last m' }
  | _ => none

def status (s : Registry M) (i : Nat) (m : M) : Option (Registry M) :=
  match s.calls i with
  | .new => some (s.setCall i (.showing m (s.table m) (s.last m)))
  | _ => none

/-- What `status` reports when it has found a job, or none. -/
def report (s : Registry M) (m : M) (found : Option Nat) : State :=
  match s.stateOf found with
  | some state => state
  | none => if s.final m = .recorded then .done else .absent

def answer (s : Registry M) (i : Nat) : Option (Registry M) :=
  match s.calls i with
  | .showing _ _ _ => some (s.setCall i .answered)
  | _ => none

/-! ## The workers -/

def work (s : Registry M) (j : Nat) (next : Job M → Option (Registry M)) : Option (Registry M) :=
  s.jobs[j]?.bind next

def look (s : Registry M) (j : Nat) : Option (Registry M) :=
  s.work j fun job =>
    if job.worker = .looking then
      some (s.setJob j { job with
        worker := match s.final job.model with
          | .stray => .recording .failed
          | .recorded => .recording .done
          | .missing => .fetching })
    else none

def fetch (s : Registry M) (j : Nat) : Option (Registry M) :=
  s.work j fun job =>
    if job.worker = .fetching then
      some { s.setJob j { job with worker := .writing } with
        part := fun m => if m = job.model then true else s.part m }
    else none

/-- The partial is complete and its checksum is right: it is renamed, where it is there. -/
def install (s : Registry M) (j : Nat) : Option (Registry M) :=
  s.work j fun job =>
    if job.worker = .writing then
      if s.part job.model then
        some { s.setJob j { job with worker := .recording .done, installed := true } with
          final := fun m => if m = job.model then .recorded else s.final m
          part := fun m => if m = job.model then false else s.part m }
      else some (s.setJob j { job with worker := .recording .failed })
    else none

/-- `download_entry` raises; a partial with another checksum is removed. -/
def stop (s : Registry M) (j : Nat) (outcome : Outcome) (keeps : Bool) : Option (Registry M) :=
  s.work j fun job =>
    if (job.worker = .fetching ∨ job.worker = .writing) ∧
        (outcome = .failed ∨ outcome = .cancelled ∧ job.cancel = true) then
      some { s.setJob j { job with worker := .recording outcome } with
        part := fun m => if m = job.model then s.part m && keeps else s.part m }
    else none

/-- `job.state` is written, and the thread is over. -/
def record (s : Registry M) (j : Nat) : Option (Registry M) :=
  s.work j fun job =>
    match job.worker with
    | .recording outcome => some (s.setJob j { job with state := outcome.state, worker := .ended })
    | _ => none

def step (s : Registry M) : Action M → Option (Registry M)
  | .start i m => s.start i m
  | .insert i => s.insert i
  | .spawn i succeeds => s.spawn i succeeds
  | .cancel i m => s.cancel i m
  | .ask i => s.ask i
  | .remove i m => s.remove i m
  | .check i => s.check i
  | .unlink i => s.unlink i
  | .pop i => s.pop i
  | .status i m => s.status i m
  | .answer i => s.answer i
  | .look j => s.look j
  | .fetch j => s.fetch j
  | .install j => s.install j
  | .stop j outcome keeps => s.stop j outcome keeps
  | .record j => s.record j

end Steps

/-- No job was ever made; the files are what an earlier process has left. -/
def Fresh (s : Registry M) : Prop :=
  s.jobs = [] ∧ (∀ m, s.table m = none) ∧ (∀ m, s.last m = none) ∧ ∀ i, s.calls i = .new

/-! ## The property -/

def IsLive (s : Registry M) (j : Nat) (m : M) : Prop :=
  ∃ job, s.jobs[j]? = some job ∧ job.model = m ∧ job.worker.isLive = true

/-- One worker for a model, deletions that take nothing from one, a worker for every accepted start,
and the state of the last accepted job for every question. -/
structure Exclusive (s : Registry M) : Prop where
  single : ∀ m j j', s.IsLive j m → s.IsLive j' m → j = j'
  untouched : ∀ i m since,
    s.calls i = .unlinking m since ∨ s.calls i = .unlinkingPartial m since →
      ∀ j job, s.jobs[j]? = some job → job.model = m →
        job.worker.isLive = false ∧ (since ≤ j → job.installed = false)
  accepted : ∀ i j, s.calls i = .accepted j →
    (∃ job, s.jobs[j]? = some job ∧ job.worker ≠ .unstarted) ∧
      ∀ i', s.calls i' = .accepted j → i' = i
  served : ∀ j job, s.jobs[j]? = some job → job.state = .running →
    job.worker.isLive = true ∨ ∃ i, s.calls i = .spawning j
  reported : ∀ i m found j, s.calls i = .showing m found (some j) →
    some (s.report m found) = s.stateOf (some j)

/-- No job is made while a `remove` of its model goes on, and a thread that is started starts. -/
def Orderly [DecidableEq M] (s : Registry M) : Action M → Prop
  | .insert i => ∀ m, s.calls i = .starting m → s.stateOf (s.table m) ≠ some .running →
      ∀ k, (s.calls k).removes m = false
  | .spawn _ succeeds => succeeds = true
  | _ => True

/-! ## The invariant -/

def Past (s : Registry M) (m : M) (since : Nat) : Prop :=
  ∀ j job, s.jobs[j]? = some job → job.model = m → j < since

def Idle (s : Registry M) (m : M) : Prop :=
  ∀ j job, s.table m = some j → s.jobs[j]? = some job → job.state ≠ .running

@[grind =]
def CallInv (s : Registry M) : Call M → Prop
  | .spawning j => ∃ job, s.jobs[j]? = some job ∧ job.worker = .unstarted ∧ job.state = .running ∧
      s.table job.model = some j
  | .accepted j => ∃ job, s.jobs[j]? = some job ∧ job.worker ≠ .unstarted
  | .checking m found since => s.Past m since ∧ (s.table m = found ∨ s.table m = none)
  | .unlinking m since | .unlinkingPartial m since | .popping m since => s.Past m since ∧ s.Idle m
  | .showing _ found last => found = last ∧ ∀ j, last = some j → ∃ job, s.jobs[j]? = some job
  | .new | .starting _ | .attached _ | .stopping _ | .answered | .refused => True

structure Inv (s : Registry M) : Prop where
  table : ∀ m j, s.table m = some j → ∃ job, s.jobs[j]? = some job ∧ job.model = m
  live : ∀ j job, s.jobs[j]? = some job → job.worker.isLive = true →
    s.table job.model = some j ∧ job.state = .running
  served : ∀ j job, s.jobs[j]? = some job → job.state = .running →
    job.worker.isLive = true ∨ ∃ i, s.calls i = .spawning j
  calls : ∀ i, s.CallInv (s.calls i)
  own : ∀ i i' j, (s.calls i).makes j → (s.calls i').makes j → i = i'
  last : ∀ m, s.last m = s.table m

variable {s s' : Registry M} {i j : Nat} {m : M} {job : Job M}

theorem Inv.exclusive (h : s.Inv) : s.Exclusive where
  single := by
    rintro m j j' ⟨job, hjob, rfl, hlive⟩ ⟨job', hjob', hmodel, hlive'⟩
    have hj := (h.live j job hjob hlive).1
    have hj' := (h.live j' job' hjob' hlive').1
    rw [hmodel] at hj'
    exact Option.some.inj (hj.symm.trans hj')
  untouched := by
    intro i m since hcall j job hjob hmodel
    have hinv : s.Past m since ∧ s.Idle m := by
      rcases hcall with hcall | hcall
      · simpa [CallInv, hcall] using h.calls i
      · simpa [CallInv, hcall] using h.calls i
    obtain ⟨hpast, hidle⟩ := hinv
    refine ⟨?_, fun hsince => absurd (hpast j job hjob hmodel) (Nat.not_lt.2 hsince)⟩
    rw [Bool.eq_false_iff]
    intro hlive
    obtain ⟨htable, hstate⟩ := h.live j job hjob hlive
    exact hidle j job (hmodel ▸ htable) hjob hstate
  accepted := by
    intro i j hcall
    refine ⟨by simpa [CallInv, hcall] using h.calls i, fun i' hcall' => ?_⟩
    exact h.own i' i j (by simp [Call.makes, hcall']) (by simp [Call.makes, hcall])
  served := h.served
  reported := by
    intro i m found j hcall
    have hinv : found = some j ∧ ∀ j', some j = some j' → ∃ job, s.jobs[j']? = some job := by
      simpa [CallInv, hcall] using h.calls i
    obtain ⟨rfl, hknown⟩ := hinv
    obtain ⟨job, hjob⟩ := hknown j rfl
    have hstate : s.stateOf (some j) = some job.state := by simp [stateOf, hjob]
    rw [report, hstate]

theorem Fresh.inv (h : s.Fresh) : s.Inv := by
  obtain ⟨hjobs, htable, hlast, hcalls⟩ := h
  refine ⟨?_, ?_, ?_, ?_, ?_, fun m => (hlast m).trans (htable m).symm⟩
  · intro m j hj
    rw [htable m] at hj
    cases hj
  · intro j job hjob
    rw [hjobs] at hjob
    cases hjob
  · intro j job hjob
    rw [hjobs] at hjob
    cases hjob
  · intro i
    rw [hcalls i]
    trivial
  · intro i i' j hmakes
    rw [hcalls i] at hmakes
    exact hmakes.elim

/-! ## Steps of the requests -/

@[simp] theorem setCall_self (s : Registry M) (i : Nat) (call : Call M) :
    (s.setCall i call).calls i = call := if_pos rfl

theorem setCall_other {k : Nat} {call : Call M} (hne : k ≠ i) :
    (s.setCall i call).calls k = s.calls k := if_neg hne

/-- A request goes on, and the jobs and the table stay. -/
theorem Inv.call (h : s.Inv) {call : Call M} (hjobs : s'.jobs = s.jobs) (htable : s'.table = s.table)
    (hlast : s'.last = s.last) (hi : s'.calls i = call) (hcalls : ∀ k, k ≠ i → s'.calls k = s.calls k)
    (hinv : s.CallInv call) (hmakes : ∀ j, call.makes j → (s.calls i).makes j)
    (hspawning : ∀ j, s.calls i ≠ .spawning j) : s'.Inv := by
  have hsame : ∀ c, s.CallInv c → s'.CallInv c := by
    intro c hc
    cases c <;> simp only [CallInv, Past, Idle, hjobs, htable] at hc ⊢ <;> exact hc
  have hkeep : ∀ k j, (s'.calls k).makes j → (s.calls k).makes j := by
    intro k j hk
    by_cases hki : k = i
    · subst hki
      exact hmakes j (hi ▸ hk)
    · exact hcalls k hki ▸ hk
  refine ⟨?_, ?_, ?_, ?_, ?_, ?_⟩
  · rw [htable, hjobs]
    exact h.table
  · rw [htable, hjobs]
    exact h.live
  · intro j job hjob hstate
    rw [hjobs] at hjob
    refine (h.served j job hjob hstate).imp_right ?_
    rintro ⟨k, hk⟩
    -- the request that goes on was not about to start a worker
    have hne : k ≠ i := by
      rintro rfl
      exact hspawning j hk
    exact ⟨k, (hcalls k hne).trans hk⟩
  · intro k
    by_cases hki : k = i
    · subst hki
      rw [hi]
      exact hsame _ hinv
    · rw [hcalls k hki]
      exact hsame _ (h.calls k)
  · exact fun k k' j hk hk' => h.own k k' j (hkeep k j hk) (hkeep k' j hk')
  · rw [hlast, htable]
    exact h.last

theorem Inv.setCall (h : s.Inv) {call : Call M} (hinv : s.CallInv call)
    (hmakes : ∀ j, call.makes j → (s.calls i).makes j) (hspawning : ∀ j, s.calls i ≠ .spawning j) :
    (s.setCall i call).Inv :=
  h.call rfl rfl rfl (setCall_self s i call) (fun _ hne => setCall_other hne) hinv hmakes hspawning

theorem start_inv (h : s.Inv) (hstep : s.start i m = some s') : s'.Inv := by
  unfold start at hstep
  split at hstep
  case h_1 hcall =>
    cases hstep
    refine h.setCall ?_ ?_ ?_
    · split_ifs <;> trivial
    · intro j hmakes
      split_ifs at hmakes <;> exact hmakes.elim
    · simp [hcall]
  case h_2 => cases hstep

theorem Inv.made (h : s.Inv) (hmakes : (s.calls i).makes j) : j < s.jobs.length := by
  have hinv := h.calls i
  cases hcall : s.calls i <;> rw [hcall] at hinv hmakes
  case spawning j' =>
    obtain ⟨job, hjob, -⟩ := hinv
    exact hmakes ▸ (List.getElem?_eq_some_iff.1 hjob).1
  case accepted j' =>
    obtain ⟨job, hjob, -⟩ := hinv
    exact hmakes ▸ (List.getElem?_eq_some_iff.1 hjob).1
  all_goals exact hmakes.elim

/-- A new job of the model, which no `remove` is on the way to delete. -/
theorem make_inv [DecidableEq M] (h : s.Inv) (hcall : s.calls i = .starting m)
    (hguard : s.stateOf (s.table m) ≠ some .running)
    (hnone : ∀ k, (s.calls k).removes m = false) : (insert.make s i m).Inv := by
  have hold : ∀ {j : Nat} {job : Job M}, (insert.make s i m).jobs[j]? = some job →
      s.jobs[j]? = some job ∨ j = s.jobs.length ∧ job = ⟨m, .running, false, .unstarted, false⟩ := by
    intro j job hjob
    simp only [insert.make, List.getElem?_append, List.getElem?_singleton] at hjob
    split_ifs at hjob with hlt hzero
    · exact Or.inl hjob
    · exact Or.inr ⟨by omega, (Option.some.inj hjob).symm⟩
  have hkeep : ∀ {j : Nat} {job : Job M}, s.jobs[j]? = some job →
      (insert.make s i m).jobs[j]? = some job := by
    intro j job hjob
    have hlt := (List.getElem?_eq_some_iff.1 hjob).1
    exact (List.getElem?_append_left hlt).trans hjob
  have hnew : (insert.make s i m).jobs[s.jobs.length]? =
      some ⟨m, .running, false, .unstarted, false⟩ := by simp [insert.make]
  have hself : (insert.make s i m).table m = some s.jobs.length := if_pos rfl
  have hother : ∀ {m' : M}, m' ≠ m → (insert.make s i m).table m' = s.table m' := fun hne => if_neg hne
  have hmade : (insert.make s i m).calls i = .spawning s.jobs.length := if_pos rfl
  have hcalls : ∀ {k : Nat}, k ≠ i → (insert.make s i m).calls k = s.calls k := fun hne => if_neg hne
  -- a job that is in the table and running is another model's
  have hrunning : ∀ {j : Nat} {job : Job M}, s.jobs[j]? = some job → s.table job.model = some j →
      job.state = .running → job.model ≠ m := by
    rintro j job hjob htable hstate rfl
    exact hguard (by simp [htable, stateOf, hjob, hstate])
  have hpast : ∀ {m' : M} {since : Nat}, m' ≠ m → s.Past m' since →
      (insert.make s i m).Past m' since := by
    intro m' since hne hpast j job hjob hmodel
    rcases hold hjob with hjob | ⟨rfl, rfl⟩
    · exact hpast j job hjob hmodel
    · exact absurd hmodel.symm hne
  have hidle : ∀ {m' : M}, m' ≠ m → s.Idle m' → (insert.make s i m).Idle m' := by
    intro m' hne hidle j job htable hjob
    rw [hother hne] at htable
    obtain ⟨job', hjob', -⟩ := h.table m' j htable
    obtain rfl := Option.some.inj ((hkeep hjob').symm.trans hjob)
    exact hidle j job' htable hjob'
  refine ⟨?_, ?_, ?_, ?_, ?_, ?_⟩
  · intro m' j hj
    by_cases hm : m' = m
    · subst hm
      obtain rfl := Option.some.inj (hself.symm.trans hj)
      exact ⟨_, hnew, rfl⟩
    · obtain ⟨job, hjob, hmodel⟩ := h.table m' j ((hother hm).symm.trans hj)
      exact ⟨job, hkeep hjob, hmodel⟩
  · intro j job hjob hlive
    rcases hold hjob with hjob | ⟨rfl, rfl⟩
    · obtain ⟨htable, hstate⟩ := h.live j job hjob hlive
      exact ⟨(hother (hrunning hjob htable hstate)).trans htable, hstate⟩
    · cases hlive
  · intro j job hjob hstate
    rcases hold hjob with hjob | ⟨rfl, rfl⟩
    · refine (h.served j job hjob hstate).imp_right ?_
      rintro ⟨k, hk⟩
      have hne : k ≠ i := by
        rintro rfl
        rw [hcall] at hk
        cases hk
      exact ⟨k, (hcalls hne).trans hk⟩
    · exact Or.inr ⟨i, hmade⟩
  · intro k
    by_cases hk : k = i
    · subst hk
      rw [hmade]
      exact ⟨_, hnew, rfl, rfl, hself⟩
    · rw [hcalls hk]
      have hinv := h.calls k
      have hremoves := hnone k
      cases hck : s.calls k <;> rw [hck] at hinv hremoves
      case spawning j =>
        obtain ⟨job, hjob, hunstarted, hstate, htable⟩ := hinv
        exact ⟨job, hkeep hjob, hunstarted, hstate,
          (hother (hrunning hjob htable hstate)).trans htable⟩
      case accepted j =>
        obtain ⟨job, hjob, hstarted⟩ := hinv
        exact ⟨job, hkeep hjob, hstarted⟩
      case checking m' found since =>
        have hne : m' ≠ m := of_decide_eq_false hremoves
        exact ⟨hpast hne hinv.1, (hother hne).symm ▸ hinv.2⟩
      case unlinking m' since =>
        have hne : m' ≠ m := of_decide_eq_false hremoves
        exact ⟨hpast hne hinv.1, hidle hne hinv.2⟩
      case unlinkingPartial m' since =>
        have hne : m' ≠ m := of_decide_eq_false hremoves
        exact ⟨hpast hne hinv.1, hidle hne hinv.2⟩
      case popping m' since =>
        have hne : m' ≠ m := of_decide_eq_false hremoves
        exact ⟨hpast hne hinv.1, hidle hne hinv.2⟩
      case showing m' found last =>
        refine ⟨hinv.1, fun j hj => ?_⟩
        obtain ⟨job, hjob⟩ := hinv.2 j hj
        exact ⟨job, hkeep hjob⟩
      all_goals trivial
  · -- the number of the new job is no other request's
    have hmakes : ∀ k j, ((insert.make s i m).calls k).makes j →
        k = i ∧ j = s.jobs.length ∨ j < s.jobs.length ∧ (s.calls k).makes j := by
      intro k j hk
      by_cases hki : k = i
      · subst hki
        rw [hmade] at hk
        exact Or.inl ⟨rfl, hk.symm⟩
      · rw [hcalls hki] at hk
        exact Or.inr ⟨h.made hk, hk⟩
    intro k k' j hk hk'
    rcases hmakes k j hk with ⟨rfl, rfl⟩ | ⟨hlt, hk⟩
    · rcases hmakes k' _ hk' with ⟨rfl, -⟩ | ⟨hlt, -⟩
      · rfl
      · exact absurd hlt (Nat.lt_irrefl _)
    · rcases hmakes k' j hk' with ⟨rfl, rfl⟩ | ⟨-, hk'⟩
      · exact absurd hlt (Nat.lt_irrefl _)
      · exact h.own k k' j hk hk'
  · intro m'
    exact congrArg (fun old => if m' = m then some s.jobs.length else old) (h.last m')

theorem insert_inv [DecidableEq M] (h : s.Inv) (hok : s.Orderly (.insert i))
    (hstep : s.insert i = some s') : s'.Inv := by
  unfold insert at hstep
  split at hstep
  case h_1 m hcall =>
    have hnone := hok m hcall
    split at hstep
    case h_1 j htable =>
      rw [htable] at hnone
      by_cases hrunning : s.stateOf (some j) = some .running
      · rw [if_pos hrunning] at hstep
        cases hstep
        exact h.setCall trivial (fun j hmakes => hmakes.elim) (by simp [hcall])
      · rw [if_neg hrunning] at hstep
        cases hstep
        exact make_inv h hcall (htable ▸ hrunning) (hnone hrunning)
    case h_2 htable =>
      cases hstep
      have hguard : s.stateOf (s.table m) ≠ some .running := by simp [htable, stateOf]
      exact make_inv h hcall hguard (hok m hcall hguard)
  case h_2 => cases hstep

theorem cancel_inv (h : s.Inv) (hstep : s.cancel i m = some s') : s'.Inv := by
  unfold cancel at hstep
  split at hstep
  case h_1 hcall =>
    cases hstep
    exact h.setCall trivial (fun j hmakes => hmakes.elim) (by simp [hcall])
  case h_2 => cases hstep

theorem remove_inv (h : s.Inv) (hstep : s.remove i m = some s') : s'.Inv := by
  unfold remove at hstep
  split at hstep
  case h_1 hcall =>
    cases hstep
    refine h.setCall ?_ (fun j hmakes => hmakes.elim) (by simp [hcall])
    exact ⟨fun j job hjob _ => (List.getElem?_eq_some_iff.1 hjob).1, Or.inl rfl⟩
  case h_2 => cases hstep

/-- The job that the table has is the one that was found. -/
theorem check_inv (h : s.Inv) (hstep : s.check i = some s') : s'.Inv := by
  unfold check at hstep
  split at hstep
  case h_1 m found since hcall =>
    have hinv : s.Past m since ∧ (s.table m = found ∨ s.table m = none) := by
      simpa [CallInv, hcall] using h.calls i
    obtain ⟨hpast, hfound⟩ := hinv
    cases hstep
    refine h.setCall ?_ ?_ (by simp [hcall])
    · split_ifs with hrunning
      · trivial
      · refine ⟨hpast, fun j job htable hjob hstate => ?_⟩
        rcases hfound with hfound | hgone
        · exact hrunning (by simp [← hfound, htable, stateOf, hjob, hstate])
        · rw [hgone] at htable
          cases htable
    · intro j hmakes
      split_ifs at hmakes <;> exact hmakes.elim
  case h_2 => cases hstep

theorem unlink_inv [DecidableEq M] (h : s.Inv) (hstep : s.unlink i = some s') : s'.Inv := by
  unfold unlink at hstep
  split at hstep
  case h_1 m since hcall =>
    cases hstep
    exact h.call rfl rfl rfl (setCall_self s i _) (fun k hne => setCall_other hne)
      (by simpa [CallInv, hcall] using h.calls i) (fun j hmakes => hmakes.elim) (by simp [hcall])
  case h_2 m since hcall =>
    cases hstep
    exact h.call rfl rfl rfl (setCall_self s i _) (fun k hne => setCall_other hne)
      (by simpa [CallInv, hcall] using h.calls i) (fun j hmakes => hmakes.elim) (by simp [hcall])
  case h_3 => cases hstep

theorem status_inv (h : s.Inv) (hstep : s.status i m = some s') : s'.Inv := by
  unfold status at hstep
  split at hstep
  case h_1 hcall =>
    cases hstep
    refine h.setCall ?_ (fun j hmakes => hmakes.elim) (by simp [hcall])
    refine ⟨(h.last m).symm, fun j hj => ?_⟩
    obtain ⟨job, hjob, -⟩ := h.table m j ((h.last m).symm.trans hj)
    exact ⟨job, hjob⟩
  case h_2 => cases hstep

theorem answer_inv (h : s.Inv) (hstep : s.answer i = some s') : s'.Inv := by
  unfold answer at hstep
  split at hstep
  case h_1 hcall =>
    cases hstep
    exact h.setCall trivial (fun j hmakes => hmakes.elim) (by simp [hcall])
  case h_2 => cases hstep

/-- The job of the model leaves the table; it is not running. -/
theorem Inv.popped (h : s.Inv) (hidle : s.Idle m) (hcall : ∀ j, ¬ (s.calls i).makes j)
    (hjobs : s'.jobs = s.jobs) (hgone : s'.table m = none)
    (hkept : ∀ m', m' ≠ m → s'.table m' = s.table m') (hlast : ∀ m', s'.last m' = s'.table m')
    (hi : s'.calls i = .answered) (hcalls : ∀ k, k ≠ i → s'.calls k = s.calls k) : s'.Inv := by
  have hrunning : ∀ {j : Nat} {job : Job M}, s.jobs[j]? = some job → s.table job.model = some j →
      job.state = .running → job.model ≠ m := by
    rintro j job hjob htable hstate rfl
    exact hidle j job htable hjob hstate
  have hsub : ∀ {m' : M} {j : Nat}, s'.table m' = some j → s.table m' = some j := by
    intro m' j hj
    by_cases hm : m' = m
    · subst hm
      rw [hgone] at hj
      cases hj
    · exact (hkept m' hm).symm.trans hj
  have hstill : ∀ {m' : M}, s.Idle m' → s'.Idle m' := by
    intro m' hm' j job htable hjob
    exact hm' j job (hsub htable) (hjobs ▸ hjob)
  have hmakes : ∀ k j, (s'.calls k).makes j → (s.calls k).makes j := by
    intro k j hk
    by_cases hki : k = i
    · subst hki
      rw [hi] at hk
      exact hk.elim
    · exact hcalls k hki ▸ hk
  refine ⟨?_, ?_, ?_, ?_, ?_, hlast⟩
  · intro m' j hj
    rw [hjobs]
    exact h.table m' j (hsub hj)
  · intro j job hjob hlive
    rw [hjobs] at hjob
    obtain ⟨htable, hstate⟩ := h.live j job hjob hlive
    exact ⟨(hkept _ (hrunning hjob htable hstate)).trans htable, hstate⟩
  · intro j job hjob hstate
    rw [hjobs] at hjob
    refine (h.served j job hjob hstate).imp_right ?_
    rintro ⟨k, hk⟩
    have hne : k ≠ i := by
      rintro rfl
      exact hcall j (by simp [hk, Call.makes])
    exact ⟨k, (hcalls k hne).trans hk⟩
  · intro k
    by_cases hki : k = i
    · subst hki
      rw [hi]
      trivial
    · rw [hcalls k hki]
      have hinv := h.calls k
      cases hck : s.calls k <;> rw [hck] at hinv
      case spawning j =>
        obtain ⟨job, hjob, hunstarted, hstate, htable⟩ := hinv
        exact ⟨job, hjobs ▸ hjob, hunstarted, hstate,
          (hkept _ (hrunning hjob htable hstate)).trans htable⟩
      case accepted j =>
        obtain ⟨job, hjob, hstarted⟩ := hinv
        exact ⟨job, hjobs ▸ hjob, hstarted⟩
      case checking m' found since =>
        refine ⟨fun j job hjob => hinv.1 j job (hjobs ▸ hjob), ?_⟩
        by_cases hm : m' = m
        · exact Or.inr (hm ▸ hgone)
        · exact hkept m' hm ▸ hinv.2
      case unlinking m' since =>
        exact ⟨fun j job hjob => hinv.1 j job (hjobs ▸ hjob), hstill hinv.2⟩
      case unlinkingPartial m' since =>
        exact ⟨fun j job hjob => hinv.1 j job (hjobs ▸ hjob), hstill hinv.2⟩
      case popping m' since =>
        exact ⟨fun j job hjob => hinv.1 j job (hjobs ▸ hjob), hstill hinv.2⟩
      case showing m' found last => exact ⟨hinv.1, hjobs ▸ hinv.2⟩
      all_goals trivial
  · exact fun k k' j hk hk' => h.own k k' j (hmakes k j hk) (hmakes k' j hk')

theorem pop_inv [DecidableEq M] (h : s.Inv) (hstep : s.pop i = some s') : s'.Inv := by
  unfold pop at hstep
  split at hstep
  case h_1 m since hcall =>
    have hinv : s.Past m since ∧ s.Idle m := by simpa [CallInv, hcall] using h.calls i
    obtain ⟨hpast, hidle⟩ := hinv
    cases hstep
    refine h.popped hidle (by simp [hcall, Call.makes]) rfl (if_pos rfl) (fun m' hm => if_neg hm) ?_
      (setCall_self s i _) (fun k hne => setCall_other hne)
    intro m'
    by_cases hm : m' = m
    · subst hm
      refine (if_pos rfl).trans (Eq.trans ?_ (if_pos rfl).symm)
      -- the last accepted job was made before the removal looked
      rw [Option.filter_eq_none_iff]
      intro j hj
      obtain ⟨job, hjob, hmodel⟩ := h.table m' j ((h.last m').symm.trans hj)
      simpa using hpast j job hjob hmodel
    · exact (if_neg hm).trans ((h.last m').trans (if_neg hm).symm)
  case h_2 => cases hstep

/-! ## Steps of the workers -/

variable {job' : Job M}

theorem setJob_self (hjob : s.jobs[j]? = some job) :
    (s.setJob j job').jobs[j]? = some job' :=
  List.getElem?_set_self (List.getElem?_eq_some_iff.1 hjob).1

theorem setJob_other {k : Nat} (hne : k ≠ j) :
    (s.setJob j job').jobs[k]? = s.jobs[k]? :=
  List.getElem?_set_ne hne.symm

structure Replaced (s s' : Registry M) (j : Nat) (job job' : Job M) : Prop where
  before : s.jobs[j]? = some job
  after : s'.jobs = (s.setJob j job').jobs
  table : s'.table = s.table
  last : s'.last = s.last
  model : job'.model = job.model

theorem Replaced.cases {job' jb : Job M} {k : Nat} (h : Replaced s s' j job job')
    (hjb : s'.jobs[k]? = some jb) : k = j ∧ jb = job' ∨ k ≠ j ∧ s.jobs[k]? = some jb := by
  rw [h.after] at hjb
  by_cases hk : k = j
  · subst hk
    rw [setJob_self h.before] at hjb
    exact Or.inl ⟨rfl, (Option.some.inj hjb).symm⟩
  · rw [setJob_other hk] at hjb
    exact Or.inr ⟨hk, hjb⟩

theorem Replaced.self (h : Replaced s s' j job job') : s'.jobs[j]? = some job' := by
  rw [h.after]
  exact setJob_self h.before

theorem Replaced.other {k : Nat} (h : Replaced s s' j job job') (hk : k ≠ j) :
    s'.jobs[k]? = s.jobs[k]? := by
  rw [h.after]
  exact setJob_other hk

theorem Replaced.keeps {job' jb : Job M} {k : Nat} (h : Replaced s s' j job job')
    (hjb : s.jobs[k]? = some jb) : ∃ jb', s'.jobs[k]? = some jb' ∧ jb'.model = jb.model := by
  by_cases hk : k = j
  · subst hk
    obtain rfl := Option.some.inj (h.before.symm.trans hjb)
    exact ⟨job', h.self, h.model⟩
  · exact ⟨jb, (h.other hk).trans hjb, rfl⟩

theorem Replaced.past {since : Nat} (h : Replaced s s' j job job') (hpast : s.Past m since) :
    s'.Past m since := by
  intro k jb hjb hmodel
  rcases h.cases hjb with ⟨rfl, rfl⟩ | ⟨-, hjb⟩
  · exact hpast k job h.before (h.model ▸ hmodel)
  · exact hpast k jb hjb hmodel

theorem Replaced.idle (h : Replaced s s' j job job')
    (hstate : job'.state = .running → job.state = .running) (hidle : s.Idle m) : s'.Idle m := by
  intro k jb htable hjb
  rw [h.table] at htable
  rcases h.cases hjb with ⟨rfl, rfl⟩ | ⟨-, hjb⟩
  · exact fun hrun => hidle k job htable h.before (hstate hrun)
  · exact hidle k jb htable hjb

/-- What a request relies on, when no worker is started that was not. -/
theorem Replaced.callInv (h : Replaced s s' j job job')
    (hstate : job'.state = .running → job.state = .running)
    (hworker : job'.worker = .unstarted → job.worker = .unstarted) {call : Call M}
    (hspawning : call = .spawning j → job'.worker = .unstarted ∧ job'.state = .running)
    (hinv : s.CallInv call) : s'.CallInv call := by
  cases call
  case spawning k =>
    obtain ⟨jb, hjb, hunstarted, hrun, htable⟩ := hinv
    by_cases hk : k = j
    · subst hk
      obtain rfl := Option.some.inj (h.before.symm.trans hjb)
      obtain ⟨hunstarted', hrun'⟩ := hspawning rfl
      exact ⟨job', h.self, hunstarted', hrun', by rw [h.table, h.model, htable]⟩
    · exact ⟨jb, (h.other hk).trans hjb, hunstarted, hrun, by rw [h.table, htable]⟩
  case accepted k =>
    obtain ⟨jb, hjb, hstarted⟩ := hinv
    by_cases hk : k = j
    · subst hk
      obtain rfl := Option.some.inj (h.before.symm.trans hjb)
      exact ⟨job', h.self, fun hun => hstarted (hworker hun)⟩
    · exact ⟨jb, (h.other hk).trans hjb, hstarted⟩
  case checking m found since => exact ⟨h.past hinv.1, by rw [h.table]; exact hinv.2⟩
  case unlinking m since => exact ⟨h.past hinv.1, h.idle hstate hinv.2⟩
  case unlinkingPartial m since => exact ⟨h.past hinv.1, h.idle hstate hinv.2⟩
  case popping m since => exact ⟨h.past hinv.1, h.idle hstate hinv.2⟩
  case showing m found last =>
    refine ⟨hinv.1, fun k hk => ?_⟩
    obtain ⟨jb, hjb⟩ := hinv.2 k hk
    obtain ⟨jb', hjb', -⟩ := h.keeps hjb
    exact ⟨jb', hjb'⟩
  all_goals trivial

/-- A worker that is live goes on or is over, or a flag of the job changes. -/
theorem Inv.work (h : s.Inv) (hr : Replaced s s' j job job') (hcalls : s'.calls = s.calls)
    (hworker : job'.worker = .unstarted ↔ job.worker = .unstarted)
    (hchange : job'.worker.isLive = job.worker.isLive ∧ job'.state = job.state ∨
      job.worker.isLive = true ∧ job'.worker.isLive = false ∧ job'.state ≠ .running) : s'.Inv := by
  have hrun : job'.state = .running → job.state = .running := by
    intro hstate
    rcases hchange with ⟨-, hsame⟩ | ⟨-, -, hover⟩
    · exact hsame ▸ hstate
    · exact absurd hstate hover
  refine ⟨?_, ?_, ?_, ?_, ?_, ?_⟩
  · intro m k hk
    obtain ⟨jb, hjb, hmodel⟩ := h.table m k (hr.table ▸ hk)
    obtain ⟨jb', hjb', hmodel'⟩ := hr.keeps hjb
    exact ⟨jb', hjb', hmodel'.trans hmodel⟩
  · intro k jb hjb hlive
    rw [hr.table]
    rcases hr.cases hjb with ⟨rfl, rfl⟩ | ⟨-, hjb⟩
    · rcases hchange with ⟨hsame, hstate⟩ | ⟨-, hover, -⟩
      · rw [hr.model, hstate]
        exact h.live k job hr.before (hsame ▸ hlive)
      · rw [hover] at hlive
        cases hlive
    · exact h.live k jb hjb hlive
  · intro k jb hjb hstate
    rw [hcalls]
    rcases hr.cases hjb with ⟨rfl, rfl⟩ | ⟨-, hjb⟩
    · rcases hchange with ⟨hsame, hstate'⟩ | ⟨-, -, hover⟩
      · rw [hsame]
        exact h.served k job hr.before (hstate' ▸ hstate)
      · exact absurd hstate hover
    · exact h.served k jb hjb hstate
  · intro i
    rw [hcalls]
    refine hr.callInv hrun hworker.1 (fun hi => ?_) (h.calls i)
    have hinv := h.calls i
    rw [hi] at hinv
    obtain ⟨jb, hjb, hunstarted, hstate, -⟩ := hinv
    obtain rfl := Option.some.inj (hr.before.symm.trans hjb)
    refine ⟨hworker.2 hunstarted, ?_⟩
    rcases hchange with ⟨-, hsame⟩ | ⟨hlive, -⟩
    · exact hsame.trans hstate
    · rw [hunstarted] at hlive
      cases hlive
  · rw [hcalls]
    exact h.own
  · rw [hr.last, hr.table]
    exact h.last

/-- The worker of the job that a request has made starts, and the request is answered. -/
theorem spawn_inv {succeeds : Bool} (h : s.Inv) (hok : succeeds = true)
    (hstep : s.spawn i succeeds = some s') : s'.Inv := by
  unfold spawn at hstep
  split at hstep
  case h_1 j hcall =>
    split at hstep
    case h_1 job hjob =>
      rw [if_pos hok] at hstep
      cases hstep
      obtain ⟨jb, hjb, hunstarted, hrun, htable⟩ :
          ∃ jb, s.jobs[j]? = some jb ∧ jb.worker = .unstarted ∧ jb.state = .running ∧
            s.table jb.model = some j := by simpa [CallInv, hcall] using h.calls i
      obtain rfl := Option.some.inj (hjob.symm.trans hjb)
      have hr : Replaced s ((s.setJob j { job with worker := .looking }).setCall i (.accepted j)) j job
          { job with worker := .looking } := ⟨hjob, rfl, rfl, rfl, rfl⟩
      have hself : ((s.setJob j { job with worker := .looking }).setCall i (.accepted j)).calls i =
          .accepted j := setCall_self _ i _
      have hother : ∀ {k : Nat}, k ≠ i →
          ((s.setJob j { job with worker := .looking }).setCall i (.accepted j)).calls k = s.calls k :=
        fun hk => if_neg hk
      have hmakes : ∀ k l, (((s.setJob j { job with worker := .looking }).setCall i
          (.accepted j)).calls k).makes l → (s.calls k).makes l := by
        intro k l hk
        by_cases hki : k = i
        · subst hki
          rw [hself] at hk
          rw [hcall]
          exact hk
        · exact hother hki ▸ hk
      refine ⟨?_, ?_, ?_, ?_, ?_, h.last⟩
      · intro m k hk
        obtain ⟨jb, hjb, hmodel⟩ := h.table m k hk
        obtain ⟨jb', hjb', hmodel'⟩ := hr.keeps hjb
        exact ⟨jb', hjb', hmodel'.trans hmodel⟩
      · intro k jb hjb hlive
        rcases hr.cases hjb with ⟨rfl, rfl⟩ | ⟨-, hjb⟩
        · exact ⟨htable, hrun⟩
        · exact h.live k jb hjb hlive
      · intro k jb hjb hstate
        rcases hr.cases hjb with ⟨rfl, rfl⟩ | ⟨hk, hjb⟩
        · exact Or.inl rfl
        · refine (h.served k jb hjb hstate).imp_right ?_
          rintro ⟨i', hi'⟩
          have hne : i' ≠ i := by
            rintro rfl
            rw [hcall] at hi'
            exact hk (Call.spawning.inj hi').symm
          exact ⟨i', (hother hne).trans hi'⟩
      · intro k
        by_cases hki : k = i
        · subst hki
          rw [hself]
          exact ⟨_, hr.self, by simp⟩
        · rw [hother hki]
          refine hr.callInv id (fun hun => by cases hun) (fun hk => ?_) (h.calls k)
          -- only one request has made the job
          exact absurd (h.own k i j (by simp [hk, Call.makes]) (by simp [hcall, Call.makes])) hki
      · exact fun k k' l hk hk' => h.own k k' l (hmakes k l hk) (hmakes k' l hk')
    case h_2 => cases hstep
  case h_2 => cases hstep

theorem ask_inv (h : s.Inv) (hstep : s.ask i = some s') : s'.Inv := by
  unfold ask at hstep
  split at hstep
  case h_1 j hcall =>
    split at hstep
    case h_1 job hjob =>
      split_ifs at hstep with hrunning
      · cases hstep
        have hr : Replaced s (s.setJob j { job with cancel := true }) j job
            { job with cancel := true } := ⟨hjob, rfl, rfl, rfl, rfl⟩
        have hflag := h.work hr rfl Iff.rfl (Or.inl ⟨rfl, rfl⟩)
        exact hflag.setCall trivial (fun j hmakes => hmakes.elim) (by simp [setJob, hcall])
      · cases hstep
        exact h.setCall trivial (fun j hmakes => hmakes.elim) (by simp [hcall])
    case h_2 => cases hstep
  case h_2 hcall =>
    cases hstep
    exact h.setCall trivial (fun j hmakes => hmakes.elim) (by simp [hcall])
  case h_3 => cases hstep

theorem Inv.advance (h : s.Inv) {worker : Worker} {installed : Bool} (hjob : s.jobs[j]? = some job)
    (hbefore : job.worker.isLive = true) (hafter : worker.isLive = true) (final : M → Final)
    (part : M → Bool) :
    ({ s.setJob j { job with worker := worker, installed := installed } with
      final := final, part := part } : Registry M).Inv := by
  have hstarted : ∀ {w : Worker}, w.isLive = true → w ≠ .unstarted := by
    rintro w hlive rfl
    cases hlive
  refine h.work ⟨hjob, rfl, rfl, rfl, rfl⟩ rfl ?_ (Or.inl ⟨hafter.trans hbefore.symm, rfl⟩)
  exact iff_of_false (hstarted hafter) (hstarted hbefore)

theorem look_inv (h : s.Inv) (hstep : s.look j = some s') : s'.Inv := by
  obtain ⟨job, hjob, hnext⟩ := Option.bind_eq_some_iff.1 hstep
  split_ifs at hnext with hworker
  cases hnext
  refine h.advance hjob (by rw [hworker]; rfl) ?_ s.final s.part
  cases s.final job.model <;> rfl

theorem fetch_inv [DecidableEq M] (h : s.Inv) (hstep : s.fetch j = some s') : s'.Inv := by
  obtain ⟨job, hjob, hnext⟩ := Option.bind_eq_some_iff.1 hstep
  split_ifs at hnext with hworker
  cases hnext
  exact h.advance hjob (by rw [hworker]; rfl) rfl s.final _

theorem install_inv [DecidableEq M] (h : s.Inv) (hstep : s.install j = some s') : s'.Inv := by
  obtain ⟨job, hjob, hnext⟩ := Option.bind_eq_some_iff.1 hstep
  split_ifs at hnext with hworker hpart
  · cases hnext
    exact h.advance hjob (by rw [hworker]; rfl) rfl _ _
  · cases hnext
    exact h.advance hjob (by rw [hworker]; rfl) rfl s.final s.part

theorem stop_inv [DecidableEq M] {outcome : Outcome} {keeps : Bool} (h : s.Inv)
    (hstep : s.stop j outcome keeps = some s') : s'.Inv := by
  obtain ⟨job, hjob, hnext⟩ := Option.bind_eq_some_iff.1 hstep
  split_ifs at hnext with hguard
  cases hnext
  refine h.advance hjob ?_ rfl s.final _
  rcases hguard.1 with hworker | hworker <;> rw [hworker] <;> rfl

theorem state_ne (outcome : Outcome) : outcome.state ≠ .running := by
  cases outcome <;> exact State.noConfusion

theorem record_inv (h : s.Inv) (hstep : s.record j = some s') : s'.Inv := by
  obtain ⟨job, hjob, hnext⟩ := Option.bind_eq_some_iff.1 hstep
  split at hnext
  case h_1 outcome hworker =>
    cases hnext
    refine h.work ⟨hjob, rfl, rfl, rfl, rfl⟩ rfl ?_ (Or.inr ⟨?_, rfl, state_ne outcome⟩)
    · simp [hworker]
    · rw [hworker]
      rfl
  case h_2 => cases hnext

theorem step_inv [DecidableEq M] {a : Action M} (h : s.Inv) (hok : s.Orderly a)
    (hstep : s.step a = some s') : s'.Inv := by
  cases a with
  | start i m => exact start_inv h hstep
  | insert i => exact insert_inv h hok hstep
  | spawn i succeeds => exact spawn_inv h hok hstep
  | cancel i m => exact cancel_inv h hstep
  | ask i => exact ask_inv h hstep
  | remove i m => exact remove_inv h hstep
  | check i => exact check_inv h hstep
  | unlink i => exact unlink_inv h hstep
  | pop i => exact pop_inv h hstep
  | status i m => exact status_inv h hstep
  | answer i => exact answer_inv h hstep
  | look j => exact look_inv h hstep
  | fetch j => exact fetch_inv h hstep
  | install j => exact install_inv h hstep
  | stop j outcome keeps => exact stop_inv h hstep
  | record j => exact record_inv h hstep

end Registry

/-- In every run in which no job is made for a model while a `remove` of it goes on and every thread
starts, the downloads of a model exclude each other and its removals. -/
theorem downloads_exclusive {M : Type} [DecidableEq M] {s : Registry M}
    (h : Reachable Registry.step Registry.Orderly Registry.Fresh s) : s.Exclusive :=
  (h.invariant (fun _ hfresh => hfresh.inv)
    fun _ _ _ hinv hok hstep => Registry.step_inv hinv hok hstep).exclusive

def fresh : Registry Nat where
  jobs := []
  table := fun _ => none
  final := fun _ => .missing
  part := fun _ => false
  calls := fun _ => .new
  last := fun _ => none

theorem fresh_isFresh : fresh.Fresh := ⟨rfl, fun _ => rfl, fun _ => rfl, fun _ => rfl⟩

theorem downloads_exclusive_removed :
    ∃ s : Registry Nat, s.calls 0 = .accepted 0 ∧ s.calls 1 = .answered ∧ s.table 7 = none ∧
      s.Exclusive := by
  have hfresh : Reachable Registry.step Registry.Orderly Registry.Fresh fresh := .start fresh_isFresh
  have hstarted := hfresh.of_always [.start 0 7] (by simp [Registry.Orderly]) rfl
  have hnone : Registry.Orderly (fresh.setCall 0 (.starting 7)) (.insert 0) := by
    intro m _ _ k
    by_cases hk : k = 0 <;> simp [Registry.setCall, fresh, hk, Call.removes]
  have hmade := hstarted.step hnone rfl
  have hremoved := hmade.of_always [.spawn 0 true, .look 0, .fetch 0, .stop 0 .failed true, .record 0,
    .remove 1 7, .check 1, .unlink 1, .unlink 1, .pop 1] (by simp [Registry.Orderly]) rfl
  exact ⟨_, rfl, rfl, rfl, downloads_exclusive hremoved⟩

/-- A download fails, a `remove` finds that it is over, and a new one starts before the files go and the
table forgets it. -/
def removedUnderneath : List (Action Nat) :=
  [.start 0 7, .insert 0, .spawn 0 true, .look 0, .fetch 0, .stop 0 .failed true, .record 0,
    .remove 1 7, .check 1, .start 2 7, .insert 2, .spawn 2 true, .look 1, .fetch 1, .unlink 1,
    .unlink 1, .pop 1, .start 3 7, .insert 3, .spawn 3 true]

/-- The partial of a live worker is deleted, and a second worker starts for the model. -/
theorem remove_races_start :
    ∃ s, Reachable Registry.step (fun _ _ => True) Registry.Fresh s ∧ s.IsLive 1 7 ∧ s.IsLive 2 7 ∧
      s.part 7 = false ∧ ¬ s.Exclusive := by
  have hfresh : Reachable Registry.step (fun _ _ => True) Registry.Fresh fresh := .start fresh_isFresh
  obtain ⟨s, hs, htest⟩ := hfresh.exists_of_foldlM removedUnderneath
    (fun s => s.jobs[1]? = some ⟨7, .running, false, .writing, false⟩ ∧
      s.jobs[2]? = some ⟨7, .running, false, .looking, false⟩ ∧ s.part 7 = false) (by decide)
  obtain ⟨hone, htwo, hpart⟩ := of_decide_eq_true htest
  have hlive : s.IsLive 1 7 := ⟨_, hone, rfl, rfl⟩
  have hlive' : s.IsLive 2 7 := ⟨_, htwo, rfl, rfl⟩
  refine ⟨s, hs, hlive, hlive', hpart, fun hexclusive => ?_⟩
  exact absurd (hexclusive.single 7 1 2 hlive hlive') (by decide)

end ModelDownloads
end Tempest
