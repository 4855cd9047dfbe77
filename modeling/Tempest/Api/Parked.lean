import Tempest.Agent.Approval
import Tempest.Process.Reachable
import Tempest.Python.Convert

/-!
# Parked — a turn that waits on its user (`agentturn.py`, `approver`; `resolve_approval`)

The worker of an agent turn parks on a box, wakes every quarter second, and gives up on a cancelled
turn or after half an hour.  A request thread looks the box up, writes the decision into it and
signals it, each in a step of its own: nothing is locked between them.  `one_outcome` is about the runs
in which the requests for one action, and the worker's giving up, do not overlap.
-/

namespace Tempest
namespace Parked

open Python

/-! ## Requests and decisions -/

structure ApprovalRequest where
  tool : PyStr
  callId : PyStr
  kind : PyStr

abbrev Body := List (PyStr × JsonValue)

/-- `body.get(key)`; `None` is the null of JSON. -/
def Body.get (body : Body) (key : String) : JsonValue := (Dict.find (lit key) body).getD .null

section Reading

variable (interp : Interpreter)

/-- `str(body.get(key) or "")`. -/
def Body.text (body : Body) (key : String) : PyStr :=
  if (body.get key).truthy then (body.get key).text interp else []

def Body.answer (body : Body) : JsonValue :=
  match body.get "answer", body.get "answers" with
  | .null, .obj (first :: _) => first.2
  | answer, _ => answer

def Body.rowOf (body : Body) (callId : PyStr) : Option Body :=
  let rows : List JsonValue := match body.get "decisions" with
    | .arr rows => rows
    | _ => []
  rows.findSome? fun row =>
    match row with
    | .obj fields =>
      match Body.get fields "tool_call_id" with
      | .str id => if id = callId then some fields else none
      | _ => none
    | _ => none

/-- The decision that a body is to a request; the error is the text of an `ApprovalInvalid`. -/
def Body.decision (printable : CodePoint → Bool) (request : ApprovalRequest) (body : Body) :
    Except PyStr ScopedDecision :=
  if request.kind = lit "ask_user_question" then
    match body.answer with
    | .str answer =>
      if strip answer = [] then .error (lit "an answer is required for an ask_user question")
      else .ok { approved := true, responseText := some (strip answer) }
    | _ => .error (lit "an answer is required for an ask_user question")
  else
    match body.rowOf request.callId with
    | none => .error (lit "every paused tool call must be decided")
    | some row =>
      let verb := row.text interp "decision"
      if verb = lit "approve" ∨ verb = lit "reject" then
        let session : Bool := match row.get "scope" with
          | .str scope => scope = lit "session" ∨ scope = lit "always"
          | _ => false
        .ok { approved := verb = lit "approve", reason := row.text interp "reason"
              scope := if session then lit "session" else lit "once" }
      else
        .error (lit "decision " ++ reprStr printable verb ++
          lit " is not permitted here — this action allows approve or reject")

end Reading

/-! ## The turn -/

/-- `ApprovalBox`. -/
structure Box where
  actionId : PyStr
  request : ApprovalRequest
  decided : Bool := false
  decision : Option ScopedDecision := none

inductive GaveUp where
  | expired
  | aborted
  deriving DecidableEq

inductive Outcome where
  | acted (decision : Option ScopedDecision)
  | gaveUp (reason : GaveUp)

/-- Where the worker is: in the wait of a box, behind a wait that came back empty, in the `finally`
with the reason it gave up or with a box that is decided, before the decision is read, behind an
exception. -/
inductive Worker where
  | running
  | waiting (b : Nat)
  | checking (b : Nat)
  | leaving (b : Nat) (reason : Option GaveUp)
  | reading (b : Nat)
  | unwound
  deriving DecidableEq

/-- How far a request is past its checks: it has made its decision, it has written it into the box, it
has signalled the box and is answered. -/
inductive Stage where
  | found
  | stored
  | acknowledged
  deriving DecidableEq

/-- Where a request for an action is: it has found an active turn, it is past its checks. -/
inductive Ask where
  | new
  | admitted
  | past (stage : Stage) (b : Nat) (actionId : PyStr) (decision : ScopedDecision)
  | stale
  | invalid (message : PyStr)

def Stage.holds (stage : Stage) (decision : ScopedDecision) (box : Box) : Prop :=
  box.decision = (if stage = .found then none else some decision) ∧
    box.decided = decide (stage = .acknowledged)

/-- The job of an agent turn, with every box it ever had and the request threads. -/
structure Turn where
  boxes : Nat → Box
  parked : Nat
  /-- `job.approval_box`. -/
  live : Option Nat
  active : Bool
  cancelled : Bool
  worker : Worker
  asks : Nat → Ask
  outcome : Nat → Option Outcome

inductive Action where
  | park (actionId : PyStr) (request : ApprovalRequest)
  | wake
  | lapse
  | recheck (expired : Bool)
  | leave
  | read
  | cancel
  | settle
  | enter (r : Nat)
  | find (r : Nat) (body : Body)
  | store (r : Nat)
  | signal (r : Nat)

namespace Turn

def setBox (s : Turn) (b : Nat) (box : Box) : Turn :=
  { s with boxes := fun i => if i = b then box else s.boxes i }

def setAsk (s : Turn) (r : Nat) (ask : Ask) : Turn :=
  { s with asks := fun i => if i = r then ask else s.asks i }

def conclude (s : Turn) (b : Nat) (outcome : Outcome) : Turn :=
  { s with outcome := fun i => if i = b then some outcome else s.outcome i }

/-! ## The worker -/

/-- The head of `approver`; the id is a fresh one. -/
def park (s : Turn) (actionId : PyStr) (request : ApprovalRequest) : Option Turn :=
  if s.worker = .running ∧ ∀ b < s.parked, (s.boxes b).actionId ≠ actionId then
    some { s.setBox s.parked { actionId := actionId, request := request } with
      parked := s.parked + 1
      live := some s.parked
      worker := .waiting s.parked }
  else none

/-- `box.decided.wait(0.25)` returns true. -/
def wake (s : Turn) : Option Turn :=
  match s.worker with
  | .waiting b => if (s.boxes b).decided then some { s with worker := .leaving b none } else none
  | _ => none

def lapse (s : Turn) : Option Turn :=
  match s.worker with
  | .waiting b => if (s.boxes b).decided then none else some { s with worker := .checking b }
  | _ => none

/-- The body of the loop, by whether the deadline is over. -/
def recheck (s : Turn) (expired : Bool) : Option Turn :=
  match s.worker with
  | .checking b =>
    if s.cancelled then some { s with worker := .leaving b (some .aborted) }
    else if expired then some { s with worker := .leaving b (some .expired) }
    else some { s with worker := .waiting b }
  | _ => none

/-- The `finally`. -/
def leave (s : Turn) : Option Turn :=
  match s.worker with
  | .leaving b none => some { s with live := none, worker := .reading b }
  | .leaving b (some reason) =>
    some { s.conclude b (.gaveUp reason) with
      live := none
      worker := if reason = .aborted then .unwound else .running }
  | _ => none

def read (s : Turn) : Option Turn :=
  match s.worker with
  | .reading b => some { s.conclude b (.acted (s.boxes b).decision) with worker := .running }
  | _ => none

def settle (s : Turn) : Option Turn :=
  if s.worker = .running ∨ s.worker = .unwound then some { s with active := false, worker := .unwound }
  else none

/-! ## `resolve_approval` -/

def enter (s : Turn) (r : Nat) : Option Turn :=
  match s.asks r with
  | .new => some (s.setAsk r (if s.active then .admitted else .stale))
  | _ => none

def find (interp : Interpreter) (printable : CodePoint → Bool) (s : Turn) (r : Nat) (body : Body) :
    Option Turn :=
  match s.asks r with
  | .admitted =>
    match s.live with
    | none => some (s.setAsk r .stale)
    | some b =>
      let box := s.boxes b
      let actionId := body.text interp "actionId"
      if box.actionId = actionId then
        match body.decision interp printable box.request with
        | .ok decision => some (s.setAsk r (.past .found b actionId decision))
        | .error message => some (s.setAsk r (.invalid message))
      else some (s.setAsk r .stale)
  | _ => none

def store (s : Turn) (r : Nat) : Option Turn :=
  match s.asks r with
  | .past .found b actionId decision =>
    some ((s.setBox b { s.boxes b with decision := some decision }).setAsk r
      (.past .stored b actionId decision))
  | _ => none

def signal (s : Turn) (r : Nat) : Option Turn :=
  match s.asks r with
  | .past .stored b actionId decision =>
    some ((s.setBox b { s.boxes b with decided := true }).setAsk r
      (.past .acknowledged b actionId decision))
  | _ => none

def step (interp : Interpreter) (printable : CodePoint → Bool) (s : Turn) : Action → Option Turn
  | .park actionId request => s.park actionId request
  | .wake => s.wake
  | .lapse => s.lapse
  | .recheck expired => s.recheck expired
  | .leave => s.leave
  | .read => s.read
  | .cancel => some { s with cancelled := true }
  | .settle => s.settle
  | .enter r => s.enter r
  | .find r body => s.find interp printable r body
  | .store r => s.store r
  | .signal r => s.signal r

def start : Turn where
  boxes := fun _ => { actionId := [], request := ⟨[], [], []⟩ }
  parked := 0
  live := none
  active := true
  cancelled := false
  worker := .running
  asks := fun _ => .new
  outcome := fun _ => none

/-! ## The property and the condition -/

/-- A request for box `b` is acknowledged. -/
def Acknowledged (s : Turn) (r b : Nat) (actionId : PyStr) (decision : ScopedDecision) : Prop :=
  s.asks r = .past .acknowledged b actionId decision

/-- An action has at most one acknowledged request, which names it and is what the worker acts on; no
request is acknowledged for an action that the worker gave up. -/
structure OneOutcome (s : Turn) : Prop where
  once : ∀ r r' b a a' d d', s.Acknowledged r b a d → s.Acknowledged r' b a' d' → r = r'
  followed : ∀ b decision, s.outcome b = some (.acted decision) →
    ∃ r a d, s.Acknowledged r b a d ∧ decision = some d
  given : ∀ b reason, s.outcome b = some (.gaveUp reason) → ∀ r a d, ¬ s.Acknowledged r b a d
  named : ∀ r b a d, s.Acknowledged r b a d →
    b < s.parked ∧ ∀ b' < s.parked, (s.boxes b').actionId = a ↔ b' = b

def Past (s : Turn) (r b : Nat) : Prop := ∃ stage a d, s.asks r = .past stage b a d

/-- A request makes its checks only when no other one of the box is past them and the worker does not
give it up; the worker gives up only when no request is past its checks. -/
def Admits (s : Turn) : Action → Prop
  | .find _ _ => ∀ b, s.live = some b →
      (∀ r, ¬ s.Past r b) ∧ ∀ reason, s.worker ≠ .leaving b (some reason)
  | .recheck expired => ∀ b, s.worker = .checking b → s.cancelled ∨ expired → ∀ r, ¬ s.Past r b
  | _ => True

/-! ## The invariant -/

structure Free (s : Turn) (b : Nat) : Prop where
  unasked : ∀ r, ¬ s.Past r b
  undecided : (s.boxes b).decision = none ∧ (s.boxes b).decided = false

structure Owned (s : Turn) (b r : Nat) (stage : Stage) (decision : ScopedDecision) : Prop where
  asked : ∃ a, s.asks r = .past stage b a decision
  alone : ∀ r', s.Past r' b → r' = r
  holds : stage.holds decision (s.boxes b)

def BoxInv (s : Turn) (b : Nat) : Prop := s.Free b ∨ ∃ r stage decision, s.Owned b r stage decision

def WorkerInv (s : Turn) : Worker → Prop
  | .waiting b | .checking b => s.live = some b
  | .leaving b none => s.live = some b ∧ (s.boxes b).decided = true
  | .leaving b (some _) => s.live = some b ∧ s.Free b
  | .reading b => s.live = none ∧ b < s.parked ∧ (s.boxes b).decided = true
  | .running | .unwound => s.live = none

def OutcomeInv (s : Turn) (b : Nat) : Outcome → Prop
  | .acted decision => ∃ r d, s.Owned b r .acknowledged d ∧ decision = some d
  | .gaveUp _ => s.Free b

structure Inv (s : Turn) : Prop where
  box : ∀ b, s.BoxInv b
  named : ∀ r stage b a d, s.asks r = .past stage b a d → b < s.parked ∧ a = (s.boxes b).actionId
  distinct : ∀ b < s.parked, ∀ b' < s.parked, (s.boxes b).actionId = (s.boxes b').actionId → b = b'
  live : ∀ b, s.live = some b → b < s.parked ∧ s.outcome b = none
  worker : s.WorkerInv s.worker
  outcome : ∀ b o, s.outcome b = some o → b < s.parked ∧ s.OutcomeInv b o

variable {s s' : Turn} {b : Nat}

/-- A step does nothing to a box and to the requests that are past its checks. -/
structure Apart (s s' : Turn) (b : Nat) : Prop where
  box : s'.boxes b = s.boxes b
  asks : ∀ r stage a d, s'.asks r = .past stage b a d ↔ s.asks r = .past stage b a d

variable {r : Nat}

theorem Apart.past (h : Apart s s' b) : s'.Past r b ↔ s.Past r b := by
  simp only [Past, h.asks]

theorem Free.apart (h : s.Free b) (hapart : Apart s s' b) : s'.Free b where
  unasked := fun r hr => h.unasked r (hapart.past.1 hr)
  undecided := hapart.box ▸ h.undecided

theorem Owned.apart {stage : Stage} {decision : ScopedDecision} (h : s.Owned b r stage decision)
    (hapart : Apart s s' b) : s'.Owned b r stage decision where
  asked := by
    obtain ⟨a, ha⟩ := h.asked
    exact ⟨a, (hapart.asks r stage a decision).2 ha⟩
  alone := fun r' hr' => h.alone r' (hapart.past.1 hr')
  holds := hapart.box ▸ h.holds

theorem BoxInv.apart (h : s.BoxInv b) (hapart : Apart s s' b) : s'.BoxInv b := by
  rcases h with hfree | ⟨r, stage, decision, howned⟩
  · exact Or.inl (hfree.apart hapart)
  · exact Or.inr ⟨r, stage, decision, howned.apart hapart⟩

theorem OutcomeInv.apart {o : Outcome} (h : s.OutcomeInv b o) (hapart : Apart s s' b) :
    s'.OutcomeInv b o := by
  cases o with
  | acted decision =>
    obtain ⟨r, d, howned, hd⟩ := h
    exact ⟨r, d, howned.apart hapart, hd⟩
  | gaveUp reason => exact Free.apart h hapart

theorem WorkerInv.apart {w : Worker} (h : s.WorkerInv w) (hapart : ∀ b, Apart s s' b)
    (hparked : s'.parked = s.parked) (hlive : s'.live = s.live) : s'.WorkerInv w := by
  cases w with
  | waiting b | checking b | running | unwound => exact hlive.trans h
  | reading b =>
    obtain ⟨hnone, hbound, hdecided⟩ := h
    exact ⟨hlive.trans hnone, hparked.symm ▸ hbound, (hapart b).box.symm ▸ hdecided⟩
  | leaving b reason =>
    cases reason with
    | none => exact ⟨hlive.trans h.1, (hapart b).box.symm ▸ h.2⟩
    | some reason => exact ⟨hlive.trans h.1, h.2.apart (hapart b)⟩

theorem Inv.owned_of_decided (h : s.Inv) (hdecided : (s.boxes b).decided = true) :
    ∃ r d, s.Owned b r .acknowledged d ∧ (s.boxes b).decision = some d := by
  rcases h.box b with hfree | ⟨r, stage, d, howned⟩
  · cases hdecided.symm.trans hfree.undecided.2
  · have hholds := howned.holds
    have hstage : stage = .acknowledged := of_decide_eq_true (hholds.2.symm.trans hdecided)
    subst hstage
    exact ⟨r, d, howned, hholds.1⟩

/-! ## The worker -/

/-- A step of the worker that touches neither the boxes nor the requests. -/
theorem Inv.of_worker (h : s.Inv) (hboxes : s'.boxes = s.boxes) (hasks : s'.asks = s.asks)
    (hparked : s'.parked = s.parked)
    (hlive : ∀ b, s'.live = some b → s.live = some b ∧ s'.outcome b = s.outcome b)
    (hworker : s'.WorkerInv s'.worker)
    (houtcome : ∀ b o, s'.outcome b = some o → s.outcome b = some o ∨
      b < s.parked ∧ s.OutcomeInv b o) : s'.Inv := by
  have hapart : ∀ b, Apart s s' b := fun b => ⟨by rw [hboxes], by simp [hasks]⟩
  refine ⟨fun b => (h.box b).apart (hapart b), ?_, ?_, ?_, hworker, ?_⟩
  · intro r stage b a d hr
    rw [hasks] at hr
    rw [hparked, hboxes]
    exact h.named r stage b a d hr
  · rw [hparked, hboxes]
    exact h.distinct
  · intro b hb
    obtain ⟨hold, hsame⟩ := hlive b hb
    rw [hparked, hsame]
    exact h.live b hold
  · intro b o ho
    rw [hparked]
    rcases houtcome b o ho with hold | ⟨hbound, hnew⟩
    · exact ⟨(h.outcome b o hold).1, (h.outcome b o hold).2.apart (hapart b)⟩
    · exact ⟨hbound, hnew.apart (hapart b)⟩

theorem park_inv {actionId : PyStr} {request : ApprovalRequest} (h : s.Inv)
    (hstep : s.park actionId request = some s') : s'.Inv := by
  unfold park at hstep
  split_ifs at hstep with hguard
  obtain ⟨hrunning, hfresh⟩ := hguard
  have hnew : s'.boxes s.parked = { actionId := actionId, request := request } := by
    rw [← Option.some.inj hstep]
    exact if_pos rfl
  have hold : ∀ b ≠ s.parked, Apart s s' b := by
    intro b hb
    rw [← Option.some.inj hstep]
    exact ⟨if_neg hb, fun _ _ _ _ => Iff.rfl⟩
  have hparked : s'.parked = s.parked + 1 := by rw [← Option.some.inj hstep]
  have houtcome : s'.outcome = s.outcome := by
    rw [← Option.some.inj hstep]
    rfl
  have hasks : s'.asks = s.asks := by
    rw [← Option.some.inj hstep]
    rfl
  have hlive : s'.live = some s.parked := by rw [← Option.some.inj hstep]
  have hworker : s'.worker = .waiting s.parked := by rw [← Option.some.inj hstep]
  have hbelow : ∀ b < s.parked, s'.boxes b = s.boxes b := fun b hb => (hold b hb.ne).box
  refine ⟨?_, ?_, ?_, ?_, ?_, ?_⟩
  · intro b
    by_cases hb : b = s.parked
    · subst hb
      refine Or.inl ⟨?_, by rw [hnew]; exact ⟨rfl, rfl⟩⟩
      rintro r ⟨stage, a, d, hr⟩
      rw [hasks] at hr
      exact Nat.lt_irrefl _ (h.named r stage _ a d hr).1
    · exact (h.box b).apart (hold b hb)
  · intro r stage b a d hr
    rw [hasks] at hr
    obtain ⟨hb, ha⟩ := h.named r stage b a d hr
    rw [hparked, hbelow b hb]
    exact ⟨Nat.lt_succ_of_lt hb, ha⟩
  · intro b hb b' hb' hsame
    rw [hparked] at hb hb'
    rcases Nat.lt_succ_iff_lt_or_eq.1 hb with hb | rfl <;>
      rcases Nat.lt_succ_iff_lt_or_eq.1 hb' with hb' | rfl
    · rw [hbelow b hb, hbelow b' hb'] at hsame
      exact h.distinct b hb b' hb' hsame
    · rw [hbelow b hb, hnew] at hsame
      exact absurd hsame (hfresh b hb)
    · rw [hbelow b' hb', hnew] at hsame
      exact absurd hsame.symm (hfresh b' hb')
    · rfl
  · intro b hb
    obtain rfl := Option.some.inj (hlive.symm.trans hb)
    rw [hparked, houtcome]
    refine ⟨Nat.lt_succ_self _, Option.eq_none_iff_forall_ne_some.2 fun o ho => ?_⟩
    exact Nat.lt_irrefl _ (h.outcome _ o ho).1
  · rw [hworker]
    exact hlive
  · intro b o ho
    rw [houtcome] at ho
    obtain ⟨hb, hkept⟩ := h.outcome b o ho
    rw [hparked]
    exact ⟨Nat.lt_succ_of_lt hb, hkept.apart (hold b hb.ne)⟩

theorem wake_inv (h : s.Inv) (hstep : s.wake = some s') : s'.Inv := by
  have hworker := h.worker
  unfold wake at hstep
  split at hstep
  · next b hat =>
      split_ifs at hstep with hdecided
      cases hstep
      rw [hat] at hworker
      exact h.of_worker rfl rfl rfl (fun _ hb => ⟨hb, rfl⟩) ⟨hworker, hdecided⟩ fun _ _ => Or.inl
  · cases hstep

theorem lapse_inv (h : s.Inv) (hstep : s.lapse = some s') : s'.Inv := by
  have hworker := h.worker
  unfold lapse at hstep
  split at hstep
  · next b hat =>
      split_ifs at hstep with hdecided
      cases hstep
      rw [hat] at hworker
      exact h.of_worker rfl rfl rfl (fun _ hb => ⟨hb, rfl⟩) hworker fun _ _ => Or.inl
  · cases hstep

/-- The worker gives up only what nobody has checked. -/
theorem recheck_inv {expired : Bool} (h : s.Inv) (hok : s.Admits (.recheck expired))
    (hstep : s.recheck expired = some s') : s'.Inv := by
  have hworker := h.worker
  unfold recheck at hstep
  split at hstep
  · next b hat =>
      rw [hat] at hworker
      have hfree : s.cancelled = true ∨ expired = true → s.Free b := by
        intro hquit
        have hunasked := hok b hat hquit
        rcases h.box b with hfree | ⟨r, stage, d, howned⟩
        · exact hfree
        · obtain ⟨a, ha⟩ := howned.asked
          exact absurd ⟨stage, a, d, ha⟩ (hunasked r)
      split_ifs at hstep with hcancelled hexpired
      · cases hstep
        exact h.of_worker rfl rfl rfl (fun _ hb => ⟨hb, rfl⟩)
          ⟨hworker, (hfree (Or.inl hcancelled)).apart ⟨rfl, fun _ _ _ _ => Iff.rfl⟩⟩ fun _ _ => Or.inl
      · cases hstep
        exact h.of_worker rfl rfl rfl (fun _ hb => ⟨hb, rfl⟩)
          ⟨hworker, (hfree (Or.inr hexpired)).apart ⟨rfl, fun _ _ _ _ => Iff.rfl⟩⟩ fun _ _ => Or.inl
      · cases hstep
        exact h.of_worker rfl rfl rfl (fun _ hb => ⟨hb, rfl⟩) hworker fun _ _ => Or.inl
  · cases hstep

theorem outcome_conclude {b' : Nat} {o o' : Outcome}
    (h : (s.conclude b o).outcome b' = some o') : b' = b ∧ o' = o ∨ s.outcome b' = some o' := by
  unfold conclude at h
  dsimp only at h
  split_ifs at h with hb
  · exact Or.inl ⟨hb, (Option.some.inj h).symm⟩
  · exact Or.inr h

theorem leave_inv (h : s.Inv) (hstep : s.leave = some s') : s'.Inv := by
  have hworker := h.worker
  unfold leave at hstep
  split at hstep
  · next b hat =>
      cases hstep
      rw [hat] at hworker
      have hbound := (h.live b hworker.1).1
      exact h.of_worker rfl rfl rfl (fun _ hb => (by cases hb)) ⟨rfl, hbound, hworker.2⟩
        fun _ _ => Or.inl
  · next b reason hat =>
      cases hstep
      rw [hat] at hworker
      have hbound := (h.live b hworker.1).1
      refine h.of_worker rfl rfl rfl (fun _ hb => (by cases hb)) ?_ fun b' o ho => ?_
      · dsimp only
        split_ifs
        · rfl
        · rfl
      · rcases outcome_conclude ho with ⟨rfl, rfl⟩ | hold
        · exact Or.inr ⟨hbound, hworker.2⟩
        · exact Or.inl hold
  · cases hstep

theorem read_inv (h : s.Inv) (hstep : s.read = some s') : s'.Inv := by
  have hworker := h.worker
  unfold read at hstep
  split at hstep
  · next b hat =>
      cases hstep
      rw [hat] at hworker
      obtain ⟨hlive, hbound, hdecided⟩ := hworker
      refine h.of_worker rfl rfl rfl (fun b' hb' => ?_) hlive fun b' o ho => ?_
      · cases hlive.symm.trans hb'
      · rcases outcome_conclude ho with ⟨rfl, rfl⟩ | hold
        · exact Or.inr ⟨hbound, h.owned_of_decided hdecided⟩
        · exact Or.inl hold
  · cases hstep

theorem settle_inv (h : s.Inv) (hstep : s.settle = some s') : s'.Inv := by
  have hworker := h.worker
  unfold settle at hstep
  split_ifs at hstep with hat
  cases hstep
  have hlive : s.live = none := by
    rcases hat with hat | hat
    · rw [hat] at hworker
      exact hworker
    · rw [hat] at hworker
      exact hworker
  exact h.of_worker rfl rfl rfl (fun _ hb => ⟨hb, rfl⟩) hlive fun _ _ => Or.inl

/-! ## The requests -/

theorem setAsk_apart {ask : Ask} (hold : ∀ stage b a d, s.asks r ≠ .past stage b a d)
    (hnew : ∀ stage b a d, ask ≠ .past stage b a d) : Apart s (s.setAsk r ask) b where
  box := rfl
  asks := by
    intro r' stage a d
    by_cases hr : r' = r
    · subst hr
      simp [setAsk, hold, hnew]
    · simp [setAsk, hr]

/-- A request that does not get past its checks. -/
theorem Inv.setAsk {ask : Ask} (h : s.Inv) (hold : ∀ stage b a d, s.asks r ≠ .past stage b a d)
    (hnew : ∀ stage b a d, ask ≠ .past stage b a d) : (s.setAsk r ask).Inv := by
  have hapart : ∀ b, Apart s (s.setAsk r ask) b := fun b => setAsk_apart hold hnew
  refine ⟨fun b => (h.box b).apart (hapart b), ?_, h.distinct, h.live, ?_, ?_⟩
  · intro r' stage b a d hr
    exact h.named r' stage b a d (((hapart b).asks r' stage a d).1 hr)
  · exact h.worker.apart hapart rfl rfl
  · intro b o ho
    exact ⟨(h.outcome b o ho).1, (h.outcome b o ho).2.apart (hapart b)⟩

/-- A request becomes the one of its box, or goes on to the next stage. -/
structure Moves (s s' : Turn) (r b : Nat) (stage : Stage) (a : PyStr) (d : ScopedDecision) : Prop where
  asked : s'.asks r = .past stage b a d
  others : ∀ r' ≠ r, s'.asks r' = s.asks r'
  box : stage.holds d (s'.boxes b) ∧ (s'.boxes b).actionId = (s.boxes b).actionId
  boxes : ∀ b' ≠ b, s'.boxes b' = s.boxes b'
  decided : (s.boxes b).decided = true → (s'.boxes b).decided = true
  same : s'.parked = s.parked ∧ s'.live = s.live ∧ s'.worker = s.worker ∧ s'.outcome = s.outcome

theorem Moves.apart {r b' : Nat} {stage : Stage} {a : PyStr} {d : ScopedDecision}
    (h : Moves s s' r b stage a d) (hask : ¬ s.Past r b') (hb : b' ≠ b) : Apart s s' b' where
  box := h.boxes b' hb
  asks := by
    intro r' stage' a' d'
    by_cases hr : r' = r
    · subst hr
      constructor
      · intro hpast
        rw [h.asked] at hpast
        injection hpast with _ hsame
        exact absurd hsame.symm hb
      · exact fun hpast => absurd ⟨stage', a', d', hpast⟩ hask
    · rw [h.others r' hr]

theorem Inv.move {stage : Stage} {a : PyStr} {d : ScopedDecision} (h : s.Inv)
    (hmove : Moves s s' r b stage a d) (hask : ∀ b', s.Past r b' → b' = b)
    (halone : ∀ r', s.Past r' b → r' = r) (hnamed : b < s.parked ∧ a = (s.boxes b).actionId)
    (hopen : s.outcome b = none) (hstays : ∀ reason, s.worker ≠ .leaving b (some reason)) : s'.Inv := by
  obtain ⟨hparked, hlive, hworkers, houtcomes⟩ := hmove.same
  have hapart : ∀ b' ≠ b, Apart s s' b' := fun b' hb' =>
    hmove.apart (fun hpast => hb' (hask b' hpast)) hb'
  have hactions : ∀ b', (s'.boxes b').actionId = (s.boxes b').actionId := by
    intro b'
    by_cases hb : b' = b
    · rw [hb, hmove.box.2]
    · rw [hmove.boxes b' hb]
  have hdecided : ∀ b', (s.boxes b').decided = true → (s'.boxes b').decided = true := by
    intro b' hold
    by_cases hb : b' = b
    · rw [hb] at hold ⊢
      exact hmove.decided hold
    · rwa [hmove.boxes b' hb]
  refine ⟨?_, ?_, ?_, ?_, ?_, ?_⟩
  · intro b'
    by_cases hb : b' = b
    · subst hb
      refine Or.inr ⟨r, stage, d, ⟨a, hmove.asked⟩, fun r' hr' => ?_, hmove.box.1⟩
      by_contra hne
      obtain ⟨stage', a', d', hpast⟩ := hr'
      rw [hmove.others r' hne] at hpast
      exact hne (halone r' ⟨stage', a', d', hpast⟩)
    · exact (h.box b').apart (hapart b' hb)
  · intro r' stage' b' a' d' hpast
    rw [hparked, hactions]
    by_cases hr : r' = r
    · subst hr
      obtain ⟨rfl, rfl, rfl, rfl⟩ := Ask.past.inj (hmove.asked.symm.trans hpast)
      exact hnamed
    · rw [hmove.others r' hr] at hpast
      exact h.named r' stage' b' a' d' hpast
  · intro b₁ hb₁ b₂ hb₂ hsame
    rw [hactions, hactions] at hsame
    exact h.distinct b₁ (hparked ▸ hb₁) b₂ (hparked ▸ hb₂) hsame
  · rw [hlive, hparked, houtcomes]
    exact h.live
  · have hworker := h.worker
    rw [hworkers]
    cases hat : s.worker with
    | waiting b' | checking b' | running | unwound =>
      rw [hat] at hworker
      exact hlive.trans hworker
    | reading b' =>
      rw [hat] at hworker
      exact ⟨hlive.trans hworker.1, hparked.symm ▸ hworker.2.1, hdecided b' hworker.2.2⟩
    | leaving b' reason =>
      rw [hat] at hworker
      cases reason with
      | none => exact ⟨hlive.trans hworker.1, hdecided b' hworker.2⟩
      | some reason =>
        have hother : b' ≠ b := fun hb => hstays reason (hb ▸ hat)
        exact ⟨hlive.trans hworker.1, hworker.2.apart (hapart b' hother)⟩
  · intro b' o ho
    rw [houtcomes] at ho
    have hother : b' ≠ b := by
      rintro rfl
      cases hopen.symm.trans ho
    rw [hparked]
    exact ⟨(h.outcome b' o ho).1, (h.outcome b' o ho).2.apart (hapart b' hother)⟩

/-- What a request that is not acknowledged yet stands for. -/
theorem Inv.pending {stage : Stage} {a : PyStr} {d : ScopedDecision} (h : s.Inv)
    (hask : s.asks r = .past stage b a d) (hstage : stage ≠ .acknowledged) :
    s.Owned b r stage d ∧ s.outcome b = none ∧ ∀ reason, s.worker ≠ .leaving b (some reason) := by
  have hpast : s.Past r b := ⟨stage, a, d, hask⟩
  have howned : s.Owned b r stage d := by
    rcases h.box b with hfree | ⟨r', stage', d', howned⟩
    · exact absurd hpast (hfree.unasked r)
    · obtain rfl := howned.alone r hpast
      obtain ⟨a', ha'⟩ := howned.asked
      obtain ⟨rfl, -, -, rfl⟩ := Ask.past.inj (ha'.symm.trans hask)
      exact howned
  refine ⟨howned, ?_, ?_⟩
  · cases hout : s.outcome b with
    | none => rfl
    | some o =>
      have hkept := (h.outcome b o hout).2
      cases o with
      | gaveUp reason => exact absurd hpast (hkept.unasked r)
      | acted decision =>
        obtain ⟨r', d', hacked, _⟩ := hkept
        obtain rfl := hacked.alone r hpast
        obtain ⟨a', ha'⟩ := hacked.asked
        exact absurd (Ask.past.inj (hask.symm.trans ha')).1 hstage
  · intro reason hat
    have hworker := h.worker
    rw [hat] at hworker
    exact hworker.2.unasked r hpast

theorem find_inv {interp : Interpreter} {printable : CodePoint → Bool} {body : Body} (h : s.Inv)
    (hok : s.Admits (.find r body)) (hstep : s.find interp printable r body = some s') : s'.Inv := by
  unfold find at hstep
  split at hstep
  · next hadmitted =>
      have hold : ∀ stage b a d, s.asks r ≠ .past stage b a d := by
        intro stage b a d hpast
        cases hadmitted.symm.trans hpast
      split at hstep
      · cases hstep
        exact h.setAsk hold (by simp)
      · next b hlive =>
          dsimp only at hstep
          split_ifs at hstep with hsame
          · split at hstep
            · next decision hdecision =>
                cases hstep
                obtain ⟨hunasked, hstays⟩ := hok b hlive
                have hfree : s.Free b := by
                  rcases h.box b with hfree | ⟨r', stage, d, howned⟩
                  · exact hfree
                  · obtain ⟨a, ha⟩ := howned.asked
                    exact absurd ⟨stage, a, d, ha⟩ (hunasked r')
                refine h.move (b := b) (r := r) ⟨if_pos rfl, fun _ hr => if_neg hr, ⟨⟨?_, ?_⟩, rfl⟩,
                  fun _ _ => rfl, id, rfl, rfl, rfl, rfl⟩ ?_ ?_ ⟨(h.live b hlive).1, hsame.symm⟩
                  (h.live b hlive).2 hstays
                · exact hfree.undecided.1
                · exact hfree.undecided.2
                · rintro b' ⟨stage, a, d, hpast⟩
                  exact absurd hpast (hold stage b' a d)
                · exact fun r' hr' => absurd hr' (hunasked r')
            · cases hstep
              exact h.setAsk hold (by simp)
          · cases hstep
            exact h.setAsk hold (by simp)
  · cases hstep

theorem store_inv (h : s.Inv) (hstep : s.store r = some s') : s'.Inv := by
  unfold store at hstep
  split at hstep
  · next b a d hask =>
      cases hstep
      obtain ⟨howned, hopen, hstays⟩ := h.pending hask (by decide)
      have hholds := howned.holds
      refine h.move (b := b) (r := r) ⟨if_pos rfl, fun _ hr => if_neg hr, ⟨?_, ?_⟩,
        fun _ hb => if_neg hb, ?_, rfl, rfl, rfl, rfl⟩ ?_ howned.alone (h.named r _ b a d hask)
        hopen hstays
      · exact ⟨by simp [setAsk, setBox], by simpa [setAsk, setBox] using hholds.2⟩
      · simp [setAsk, setBox]
      · simp [setAsk, setBox]
      · rintro b' ⟨stage, a', d', hpast⟩
        exact (Ask.past.inj (hpast.symm.trans hask)).2.1
  · cases hstep

theorem signal_inv (h : s.Inv) (hstep : s.signal r = some s') : s'.Inv := by
  unfold signal at hstep
  split at hstep
  · next b a d hask =>
      cases hstep
      obtain ⟨howned, hopen, hstays⟩ := h.pending hask (by decide)
      have hholds := howned.holds
      refine h.move (b := b) (r := r) ⟨if_pos rfl, fun _ hr => if_neg hr, ⟨?_, ?_⟩,
        fun _ hb => if_neg hb, ?_, rfl, rfl, rfl, rfl⟩ ?_ howned.alone (h.named r _ b a d hask)
        hopen hstays
      · exact ⟨by simpa [setAsk, setBox] using hholds.1, by simp [setAsk, setBox]⟩
      · simp [setAsk, setBox]
      · simp [setAsk, setBox]
      · rintro b' ⟨stage, a', d', hpast⟩
        exact (Ask.past.inj (hpast.symm.trans hask)).2.1
  · cases hstep

theorem enter_inv (h : s.Inv) (hstep : s.enter r = some s') : s'.Inv := by
  unfold enter at hstep
  split at hstep
  · next hnew =>
      cases hstep
      refine h.setAsk (fun stage b a d hpast => ?_) fun stage b a d => ?_
      · cases hnew.symm.trans hpast
      · split_ifs <;> simp
  · cases hstep

/-! ## Runs -/

theorem step_inv {interp : Interpreter} {printable : CodePoint → Bool} {action : Action} (h : s.Inv)
    (hok : s.Admits action) (hstep : s.step interp printable action = some s') : s'.Inv := by
  cases action with
  | park actionId request => exact park_inv h hstep
  | wake => exact wake_inv h hstep
  | lapse => exact lapse_inv h hstep
  | recheck expired => exact recheck_inv h hok hstep
  | leave => exact leave_inv h hstep
  | read => exact read_inv h hstep
  | cancel =>
    cases hstep
    exact h.of_worker rfl rfl rfl (fun _ hb => ⟨hb, rfl⟩)
      (h.worker.apart (fun _ => ⟨rfl, fun _ _ _ _ => Iff.rfl⟩) rfl rfl) fun _ _ => Or.inl
  | settle => exact settle_inv h hstep
  | enter r => exact enter_inv h hstep
  | find r body => exact find_inv h hok hstep
  | store r => exact store_inv h hstep
  | signal r => exact signal_inv h hstep

theorem inv_start : start.Inv where
  box := by
    refine fun b => Or.inl ⟨?_, rfl, rfl⟩
    rintro r ⟨stage, a, d, hpast⟩
    cases hpast
  named := by
    intro r stage b a d hpast
    cases hpast
  distinct := fun b hb => absurd hb (Nat.not_lt_zero b)
  live := by
    intro b hb
    cases hb
  worker := rfl
  outcome := by
    intro b o ho
    cases ho

theorem Inv.oneOutcome (h : s.Inv) : s.OneOutcome where
  once := by
    intro r r' b a a' d d' hr hr'
    rcases h.box b with hfree | ⟨owner, stage, decision, howned⟩
    · exact absurd ⟨_, _, _, hr⟩ (hfree.unasked r)
    · exact (howned.alone r ⟨_, _, _, hr⟩).trans (howned.alone r' ⟨_, _, _, hr'⟩).symm
  followed := by
    intro b decision hout
    obtain ⟨r, d, howned, hd⟩ := (h.outcome b _ hout).2
    obtain ⟨a, ha⟩ := howned.asked
    exact ⟨r, a, d, ha, hd⟩
  given := by
    intro b reason hout r a d hr
    have hfree : s.Free b := (h.outcome b _ hout).2
    exact hfree.unasked r ⟨_, _, _, hr⟩
  named := by
    intro r b a d hr
    obtain ⟨hb, ha⟩ := h.named r _ b a d hr
    refine ⟨hb, fun b' hb' => ⟨fun hsame => ?_, fun hsame => ?_⟩⟩
    · exact h.distinct b' hb' b hb (hsame.trans ha)
    · rw [hsame, ha]

end Turn

/-- An approval has one outcome in every run in which the requests for one action do not overlap, and
the worker does not give up an action that a request has checked. -/
theorem one_outcome {interp : Interpreter} {printable : CodePoint → Bool} {s : Turn}
    (h : Reachable (Turn.step interp printable) Turn.Admits (· = Turn.start) s) : s.OneOutcome :=
  (h.invariant (fun _ hstart => hstart ▸ Turn.inv_start)
    fun _ _ _ hinv hok hstep => Turn.step_inv hinv hok hstep).oneOutcome

/-! ## One request, and two -/

def commandRequest : ApprovalRequest := ⟨lit "run_command", lit "call_1", lit "tool_approval"⟩

def decides (verb : String) : Body :=
  [(lit "actionId", .str (lit "appr_1")),
    (lit "decisions", .arr [.obj [(lit "tool_call_id", .str (lit "call_1")),
      (lit "decision", .str (lit verb))]])]

def askedTurn : Turn where
  boxes := fun i => if i = 0 then { actionId := lit "appr_1", request := commandRequest }
    else Turn.start.boxes i
  parked := 1
  live := some 0
  active := true
  cancelled := false
  worker := .waiting 0
  asks := fun i => if i = 0 then .admitted else .new
  outcome := fun _ => none

theorem one_outcome_approved :
    ∃ s : Turn, s.outcome 0 = some (.acted (some { approved := true })) ∧ s.OneOutcome := by
  have hstart : Reachable (Turn.step bareInterpreter fun _ => true) Turn.Admits (· = Turn.start)
      Turn.start := .start rfl
  have hasked : Reachable (Turn.step bareInterpreter fun _ => true) Turn.Admits (· = Turn.start)
      askedTurn :=
    hstart.of_always [.park (lit "appr_1") commandRequest, .enter 0]
      (by simp [Turn.Admits]) rfl
  have hfind : askedTurn.Admits (.find 0 (decides "approve")) := by
    refine fun b _ => ⟨?_, fun reason hat => by cases hat⟩
    rintro r ⟨stage, a, d, hr⟩
    unfold askedTurn at hr
    dsimp only at hr
    split_ifs at hr
  have hfound := hasked.step hfind (show _ = some (askedTurn.setAsk 0
    (.past .found 0 (lit "appr_1") { approved := true })) from rfl)
  have hread := hfound.of_always [.store 0, .signal 0, .wake, .leave, .read]
    (by simp [Turn.Admits]) rfl
  exact ⟨_, rfl, one_outcome hread⟩

/-- Two requests find the box before either of them has written. -/
def crossedRun : List Action :=
  [.park (lit "appr_1") commandRequest, .enter 0, .enter 1, .find 0 (decides "approve"),
    .find 1 (decides "reject"), .store 0, .signal 0, .store 1, .signal 1, .wake, .leave, .read]

def Ask.acknowledges (approved : Bool) : Ask → Bool
  | .past .acknowledged 0 _ decision => decision.approved == approved
  | _ => false

def Outcome.refuses : Outcome → Bool
  | .acted decision => decision.any fun d => !d.approved
  | .gaveUp _ => false

theorem Ask.acknowledges_iff {approved : Bool} {ask : Ask} :
    ask.acknowledges approved = true ↔
      ∃ actionId decision, ask = .past .acknowledged 0 actionId decision ∧
        decision.approved = approved := by
  unfold Ask.acknowledges
  split
  · simp
  · next hother => simpa using fun actionId decision h => absurd h (hother actionId decision)

theorem Outcome.refuses_iff {outcome : Option Outcome} :
    outcome.any Outcome.refuses = true ↔
      ∃ decision, outcome = some (.acted (some decision)) ∧ decision.approved = false := by
  rcases outcome with _ | ⟨⟨_ | decision⟩ | reason⟩ <;> simp [Outcome.refuses]

/-- Both are acknowledged; the worker acts on the second. -/
theorem approved_and_rejected :
    ∃ s : Turn, Reachable (Turn.step bareInterpreter fun _ => true) (fun _ _ => True)
        (· = Turn.start) s ∧
      (∃ a d a' d' o, s.Acknowledged 0 0 a d ∧ d.approved = true ∧ s.Acknowledged 1 0 a' d' ∧
        d'.approved = false ∧ s.outcome 0 = some (.acted (some o)) ∧ o.approved = false) ∧
      ¬ s.OneOutcome := by
  obtain ⟨s, hs, htest⟩ := Reachable.exists_of_foldlM crossedRun
    (fun s => (s.asks 0).acknowledges true && (s.asks 1).acknowledges false &&
      (s.outcome 0).any Outcome.refuses)
    (.start rfl : Reachable (Turn.step bareInterpreter fun _ => true) (fun _ _ => True)
      (· = Turn.start) Turn.start) (by decide)
  simp only [Bool.and_eq_true] at htest
  obtain ⟨⟨hfirst, hsecond⟩, hout⟩ := htest
  obtain ⟨a, d, hfirst, hd⟩ := Ask.acknowledges_iff.1 hfirst
  obtain ⟨a', d', hsecond, hd'⟩ := Ask.acknowledges_iff.1 hsecond
  obtain ⟨o, hout, ho⟩ := Outcome.refuses_iff.1 hout
  refine ⟨s, hs, ⟨a, d, a', d', o, hfirst, hd, hsecond, hd', hout, ho⟩, fun hone => ?_⟩
  exact absurd (hone.once 0 1 0 a a' d d' hfirst hsecond) (by decide)

end Parked
end Tempest
