import Tempest.Agent.Orchestrator

/-!
# Approval — the gate in front of the tools (`agent/tools.py`, `_dispatch_with_approval`)

A task has one dispatcher for its conversation and its repair attempts.  `call` refuses what is not
granted; `withApproval` asks the user first, and grants for one dispatch or for the session.  The
events of a task say when its user was asked, what was decided and which handlers ran.
-/

namespace Tempest

open Python

/-! ## The dispatcher -/

structure ToolPolicy where
  approval : PyStr

def ToolPolicy.needsGrant (policy : ToolPolicy) : Bool := decide (policy.approval ≠ lit "auto")

def ToolPolicy.alwaysPrompt (policy : ToolPolicy) : Bool :=
  decide (policy.approval = lit "always_prompt")

structure Dispatcher where
  manifest : Dict PyStr ToolPolicy
  maxCallsPerTurn : Int
  /-- The selection of an agent; `None` is the whole manifest. -/
  allowed : Option (Finset PyStr)

/-- The tools of `HANDLERS`. -/
def handlerNames : List PyStr :=
  [lit "read_file", lit "list_dir", lit "search_text", lit "write_file", lit "run_command",
    lit "prove", askUser]

structure ScopedDecision extends ApprovalDecision where
  scope : PyStr := lit "once"

inductive HandlerFailure where
  /-- A `ToolError`, which is a result. -/
  | refused (message : PyStr)
  | raised (message : PyStr)

/-- What the user and the handlers do, by the number of events so far. -/
structure Gate where
  approver : Option (Nat → ToolCall → Except PyStr ScopedDecision)
  handler : Nat → ToolCall → Except HandlerFailure ToolResult

inductive GateEvent where
  | asked (call : ToolCall)
  | decided (call : ToolCall) (decision : ScopedDecision)
  | handled (call : ToolCall)

structure GateState where
  grants : Finset PyStr
  callsMade : Nat := 0
  events : List GateEvent := []

abbrev GateTask := Routine PyStr GateState

namespace Dispatcher

variable (d : Dispatcher) (gate : Gate)

def selects (name : PyStr) : Bool :=
  match d.allowed with
  | some allowed => decide (name ∈ allowed)
  | none => true

/-- `approval_needed`, with the grants as they are. -/
def approvalNeeded (grants : Finset PyStr) (name : PyStr) : Bool :=
  if d.selects name then
    match d.manifest.get? name with
    | some policy => policy.needsGrant && decide (name ∉ grants)
    | none => false
  else false

def alwaysPrompts (name : PyStr) : Bool :=
  match d.manifest.get? name with
  | some policy => policy.alwaysPrompt
  | none => false

/-- The refusal of `call` before any handler, if there is one. -/
def refusal (printable : CodePoint → Bool) (s : GateState) (name : PyStr) : Option PyStr :=
  if d.maxCallsPerTurn < s.callsMade then
    some (lit "turn call budget exhausted (" ++ intText d.maxCallsPerTurn ++
      lit ") — an unbounded agent loop is a law violation, not a slow turn (L15.4)")
  else match d.manifest.get? name with
    | none => some (lit "unknown tool " ++ reprStr printable name ++ lit "; this orchestrator offers " ++
        join (lit ", ") (d.manifest.keys.insertionSort (· ≤ ·)))
    | some policy =>
      if d.selects name then
        if policy.needsGrant && decide (name ∉ s.grants) then
          some (name ++ lit " requires approval (" ++ policy.approval ++ lit ") and none was granted")
        else none
      else
        let offered := join (lit ", ") ((d.allowed.getD ∅).sort (· ≤ ·))
        some (name ++ lit " is not part of this agent's toolset; it offers " ++
          if offered = [] then lit "nothing" else offered)

/-- `HANDLERS[name](self, args)`. -/
def runHandler (printable : CodePoint → Bool) (call : ToolCall) : GateTask ToolResult := fun s =>
  if call.name ∈ handlerNames then
    let s' := { s with events := .handled call :: s.events }
    match gate.handler s.events.length call with
    | .ok result => (.ok result, s')
    | .error (.refused message) => (.ok ⟨false, message, false⟩, s')
    | .error (.raised message) => (.error message, s')
  else (.error (lit "KeyError: " ++ reprStr printable call.name), s)

def call (printable : CodePoint → Bool) (call : ToolCall) : GateTask ToolResult := do
  Routine.modify fun s => { s with callsMade := s.callsMade + 1 }
  let s ← Routine.get
  match d.refusal printable s call.name with
  | some message => pure ⟨false, message, false⟩
  | none => runHandler gate printable call

def park (approver : Nat → ToolCall → Except PyStr ScopedDecision) (call : ToolCall) :
    GateTask ScopedDecision := fun s =>
  match approver s.events.length call with
  | .ok decision => (.ok decision, { s with events := .decided call decision :: .asked call :: s.events })
  | .error e => (.error e, { s with events := .asked call :: s.events })

/-- The `finally` of a dispatch: a grant for one call is taken back. -/
def revokeAfter (name : PyStr) (decision : ScopedDecision) (s : GateState) : GateState :=
  if decision.scope ≠ lit "session" ∨ d.alwaysPrompts name = true then
    { s with grants := s.grants.erase name }
  else s

def askFirst (printable : CodePoint → Bool)
    (approver : Nat → ToolCall → Except PyStr ScopedDecision) (call : ToolCall) :
    GateTask ToolResult := do
  let decision ← park approver call
  if call.name = askUser then
    if decision.approved then pure ⟨true, decision.responseText.getD [], false⟩
    else pure ⟨false, rstripColon (lit "the user declined to answer: " ++ decision.reason), false⟩
  else if decision.approved then do
    Routine.modify fun s => { s with grants := insert call.name s.grants }
    Routine.ensure (d.call gate printable call) (d.revokeAfter call.name decision)
  else
    pure ⟨false, call.name ++ lit " was refused by the user" ++
      (if decision.reason = [] then [] else lit ": " ++ decision.reason), false⟩

/-- `_dispatch_with_approval`. -/
def withApproval (printable : CodePoint → Bool) (call : ToolCall) : GateTask ToolResult := fun s =>
  match gate.approver with
  | none => d.call gate printable call s
  | some approver =>
    if d.approvalNeeded s.grants call.name then d.askFirst gate printable approver call s
    else d.call gate printable call s

def callAll (printable : CodePoint → Bool) : List ToolCall → GateTask (List ToolResult)
  | [] => pure []
  | call :: calls => do
    let result ← d.withApproval gate printable call
    let results ← callAll printable calls
    pure (result :: results)

end Dispatcher

/-! ## What the law says -/

def ApprovedNow (call : ToolCall) (before : List GateEvent) : Prop :=
  ∃ decision rest, before = .decided call decision :: rest ∧ decision.approved = true

/-- An earlier call of the tool was approved for the session, and the tool may be remembered. -/
def ApprovedForSession (d : Dispatcher) (name : PyStr) (before : List GateEvent) : Prop :=
  ∃ call decision, GateEvent.decided call decision ∈ before ∧ call.name = name ∧
    decision.approved = true ∧ decision.scope = lit "session" ∧ d.alwaysPrompts name = false

structure MayRun (d : Dispatcher) (initial : Finset PyStr) (attached : Bool) (call : ToolCall)
    (before : List GateEvent) : Prop where
  granted : ∀ policy, d.manifest.get? call.name = some policy → policy.needsGrant = true →
    call.name ∈ initial ∨ ApprovedNow call before ∨ ApprovedForSession d call.name before
  prompted : attached = true → d.alwaysPrompts call.name = true → ApprovedNow call before

def Warranted (d : Dispatcher) (initial : Finset PyStr) (attached : Bool) : List GateEvent → Prop
  | [] => True
  | .handled call :: before => MayRun d initial attached call before ∧ Warranted d initial attached before
  | _ :: before => Warranted d initial attached before

def Dispatcher.Refused (d : Dispatcher) (gate : Gate) (call : ToolCall) (s : GateState) : Prop :=
  d.approvalNeeded s.grants call.name = true ∧ ∀ approver decision, gate.approver = some approver →
    approver s.events.length call = .ok decision → decision.approved = false

/-- Nothing gated runs unapproved in the calls of a task, and no refused or unselected call changes
the grants. -/
structure Gated (d : Dispatcher) (initial : Finset PyStr) (gate : Gate)
    (printable : CodePoint → Bool) (calls : List ToolCall) : Prop where
  warranted : Warranted d initial gate.approver.isSome
    ((d.callAll gate printable calls).final { grants := initial }).events
  kept : ∀ earlier call later, calls = earlier ++ call :: later →
    let s := (d.callAll gate printable earlier).final { grants := initial }
    d.Refused gate call s ∨ d.selects call.name = false →
      ((d.withApproval gate printable call).final s).grants = s.grants

/-- An always-prompt tool that is granted from the start, with a handler to run, a selection that
offers it and a budget for one call. -/
def Dispatcher.Silenced (d : Dispatcher) (initial : Finset PyStr) (name : PyStr) : Prop :=
  d.alwaysPrompts name = true ∧ d.selects name = true ∧ name ∈ initial ∧ name ∈ handlerNames ∧
    1 ≤ d.maxCallsPerTurn

/-! ## What one call does -/

section Call

variable {d : Dispatcher} {gate : Gate} {printable : CodePoint → Bool}

structure Dispatcher.Passes (d : Dispatcher) (call : ToolCall) (s : GateState) : Prop where
  declared : ∃ policy, d.manifest.get? call.name = some policy ∧
    (policy.needsGrant = true → call.name ∈ s.grants)
  selected : d.selects call.name = true
  handler : call.name ∈ handlerNames
  budget : 1 ≤ d.maxCallsPerTurn

theorem refusal_eq_none {s : GateState} {name : PyStr} (h : d.refusal printable s name = none) :
    (s.callsMade : Int) ≤ d.maxCallsPerTurn ∧ d.selects name = true ∧
      ∃ policy, d.manifest.get? name = some policy ∧ (policy.needsGrant = true → name ∈ s.grants) := by
  unfold Dispatcher.refusal at h
  split at h
  · cases h
  next hbudget =>
    cases hpolicy : d.manifest.get? name with
    | none => simp [hpolicy] at h
    | some policy =>
      simp only [hpolicy] at h
      cases hselected : d.selects name with
      | false => simp [hselected] at h
      | true =>
        refine ⟨not_lt.mp hbudget, rfl, policy, rfl, fun hneeds => ?_⟩
        by_contra hmissing
        simp [hselected, hneeds, hmissing] at h

/-- A call leaves the grants as they are, and runs at most the handler of its tool. -/
theorem call_final (d : Dispatcher) (gate : Gate) (printable : CodePoint → Bool) (call : ToolCall)
    (s : GateState) :
    ((d.call gate printable call).final s).grants = s.grants ∧
      (((d.call gate printable call).final s).events = s.events ∨
        ((d.call gate printable call).final s).events = .handled call :: s.events ∧
          d.Passes call s) := by
  unfold Routine.final Dispatcher.call
  simp only [Routine.bind_run, Routine.modify, Routine.get]
  cases hrefusal : d.refusal printable { s with callsMade := s.callsMade + 1 } call.name with
  | some message => exact ⟨rfl, .inl rfl⟩
  | none =>
    obtain ⟨hbudget, hselected, hdeclared⟩ := refusal_eq_none hrefusal
    have hbudget : 1 ≤ d.maxCallsPerTurn := by
      have : ((s.callsMade + 1 : Nat) : Int) ≤ d.maxCallsPerTurn := hbudget
      omega
    simp only [Dispatcher.runHandler]
    split
    next hhandler =>
      have hpasses : d.Passes call s := ⟨hdeclared, hselected, hhandler, hbudget⟩
      split
      · exact ⟨rfl, .inr ⟨rfl, hpasses⟩⟩
      · exact ⟨rfl, .inr ⟨rfl, hpasses⟩⟩
      · exact ⟨rfl, .inr ⟨rfl, hpasses⟩⟩
    next => exact ⟨rfl, .inl rfl⟩

/-- What a call that is asked for leaves: the question and the answer, and behind an approval what
the call leaves, with the grant that its scope keeps. -/
theorem askFirst_final (d : Dispatcher) (gate : Gate) (printable : CodePoint → Bool)
    (approver : Nat → ToolCall → Except PyStr ScopedDecision) (call : ToolCall) (s : GateState) :
    let s' := (d.askFirst gate printable approver call).final s
    match approver s.events.length call with
    | .error _ => s' = { s with events := .asked call :: s.events }
    | .ok decision =>
      let before : GateState := { s with events := .decided call decision :: .asked call :: s.events }
      if call.name ≠ askUser ∧ decision.approved = true then
        s' = d.revokeAfter call.name decision
          ((d.call gate printable call).final { before with grants := insert call.name s.grants })
      else s' = before := by
  intro s'
  simp only [s', Routine.final, Dispatcher.askFirst, Routine.bind_run, Dispatcher.park]
  cases approver s.events.length call with
  | error e => rfl
  | ok decision =>
    by_cases hask : call.name = askUser
    · cases happroved : decision.approved <;> simp [hask, happroved, Routine.pure_run]
    · cases happroved : decision.approved <;>
        simp [hask, happroved, Routine.pure_run, Routine.bind_run, Routine.modify, Routine.ensure]

end Call

/-! ## The invariant of the grants -/

/-- The handlers that ran were warranted, and every grant is an initial one or was approved for the
session. -/
structure GateState.Sound (d : Dispatcher) (initial : Finset PyStr) (attached : Bool) (s : GateState) :
    Prop where
  warranted : Warranted d initial attached s.events
  grants : ∀ name ∈ s.grants, name ∈ initial ∨ ApprovedForSession d name s.events

section Invariant

variable {d : Dispatcher} {initial : Finset PyStr} {gate : Gate} {printable : CodePoint → Bool}

theorem ApprovedForSession.mono {name : PyStr} {before after : List GateEvent}
    (h : ApprovedForSession d name before) (hsubset : before ⊆ after) :
    ApprovedForSession d name after := by
  obtain ⟨call, decision, hmem, hrest⟩ := h
  exact ⟨call, decision, hsubset hmem, hrest⟩

theorem needsGrant_of_alwaysPrompts {name : PyStr} {policy : ToolPolicy}
    (hpolicy : d.manifest.get? name = some policy) (h : d.alwaysPrompts name = true) :
    policy.needsGrant = true := by
  simp only [Dispatcher.alwaysPrompts, hpolicy, ToolPolicy.alwaysPrompt, decide_eq_true_eq] at h
  rw [ToolPolicy.needsGrant, h]
  decide

theorem MayRun.of_approved {attached : Bool} {call : ToolCall} {before : List GateEvent}
    (h : ApprovedNow call before) : MayRun d initial attached call before :=
  ⟨fun _ _ _ => .inr (.inl h), fun _ _ => h⟩

/-- A call that passes on the grants of a sound state may run, unless its prompt is silenced. -/
theorem GateState.Sound.mayRun {attached : Bool} {s : GateState} (h : s.Sound d initial attached)
    (hprompts : attached = true → ∀ name, ¬ d.Silenced initial name) {call : ToolCall}
    (hpasses : d.Passes call s) : MayRun d initial attached call s.events := by
  obtain ⟨policy, hpolicy, hgranted⟩ := hpasses.declared
  have hgrant (hneeds : policy.needsGrant = true) :
      call.name ∈ initial ∨ ApprovedForSession d call.name s.events := h.grants _ (hgranted hneeds)
  constructor
  · intro policy' hpolicy' hneeds
    obtain rfl : policy = policy' := Option.some.inj (hpolicy.symm.trans hpolicy')
    exact (hgrant hneeds).imp_right .inr
  · intro hattached halways
    rcases hgrant (needsGrant_of_alwaysPrompts hpolicy halways) with hinitial | hsession
    · exact absurd ⟨halways, hpasses.selected, hinitial, hpasses.handler, hpasses.budget⟩
        (hprompts hattached call.name)
    · obtain ⟨_, _, _, _, _, _, hnever⟩ := hsession
      exact absurd halways (by rw [hnever]; exact Bool.false_ne_true)

/-- A call without a question keeps the state sound. -/
theorem GateState.Sound.call {attached : Bool} {s : GateState} (h : s.Sound d initial attached)
    (gate : Gate) (printable : CodePoint → Bool) (call : ToolCall)
    (hmay : d.Passes call s → MayRun d initial attached call s.events) :
    ((d.call gate printable call).final s).Sound d initial attached := by
  obtain ⟨hgrants, hevents⟩ := call_final d gate printable call s
  rcases hevents with hevents | ⟨hevents, hpasses⟩
  · exact ⟨by rw [hevents]; exact h.warranted, by rw [hgrants, hevents]; exact h.grants⟩
  · refine ⟨by rw [hevents]; exact ⟨hmay hpasses, h.warranted⟩, ?_⟩
    rw [hgrants, hevents]
    exact fun name hname => (h.grants name hname).imp_right fun hsession =>
      hsession.mono (List.subset_cons_self _ _)

theorem revokeAfter_events (name : PyStr) (decision : ScopedDecision) (s : GateState) :
    (d.revokeAfter name decision s).events = s.events := by
  unfold Dispatcher.revokeAfter
  split <;> rfl

/-- Behind an approval the grant is taken back, or it was for the session and may be remembered. -/
theorem mem_grants_revokeAfter {name other : PyStr} {decision : ScopedDecision} {s : GateState}
    {grants : Finset PyStr} (hgrants : s.grants = insert name grants)
    (hmem : other ∈ (d.revokeAfter name decision s).grants) : other ∈ grants ∨
      (other = name ∧ decision.scope = lit "session" ∧ d.alwaysPrompts name = false) := by
  unfold Dispatcher.revokeAfter at hmem
  split at hmem
  next =>
    rw [hgrants] at hmem
    obtain ⟨hne, hmem⟩ := Finset.mem_erase.mp hmem
    exact .inl ((Finset.mem_insert.mp hmem).resolve_left hne)
  next hkept =>
    obtain ⟨hscope, hnever⟩ := not_or.mp hkept
    rw [hgrants] at hmem
    exact (Finset.mem_insert.mp hmem).symm.imp_right fun heq =>
      ⟨heq, not_not.mp hscope, Bool.not_eq_true _ ▸ hnever⟩

theorem GateState.Sound.withApproval {s : GateState} (h : s.Sound d initial gate.approver.isSome)
    (hprompts : gate.approver.isSome = true → ∀ name, ¬ d.Silenced initial name)
    (printable : CodePoint → Bool) (call : ToolCall) :
    ((d.withApproval gate printable call).final s).Sound d initial gate.approver.isSome := by
  have hplain := h.call gate printable call fun hpasses => h.mayRun hprompts hpasses
  cases happrover : gate.approver with
  | none =>
    simp only [Routine.final, Dispatcher.withApproval, happrover] at hplain ⊢
    exact hplain
  | some approver =>
    rw [happrover] at h hplain
    cases hneeded : d.approvalNeeded s.grants call.name with
    | false =>
      simp only [Routine.final, Dispatcher.withApproval, happrover, hneeded] at hplain ⊢
      exact hplain
    | true =>
      have hfinal : (d.withApproval gate printable call).final s =
          (d.askFirst gate printable approver call).final s := by
        simp only [Routine.final, Dispatcher.withApproval, happrover, hneeded, if_true]
      rw [hfinal]
      have hasked := askFirst_final d gate printable approver call s
      have hsession {name : PyStr} {events : List GateEvent} (hname : name ∈ s.grants)
          (hsubset : s.events ⊆ events) : name ∈ initial ∨ ApprovedForSession d name events :=
        (h.grants name hname).imp_right fun hsession => hsession.mono hsubset
      cases hdecision : approver s.events.length call with
      | error e =>
        simp only [hdecision] at hasked
        rw [hasked]
        exact ⟨h.warranted, fun name hname => hsession hname (List.subset_cons_self _ _)⟩
      | ok decision =>
        have hbefore : s.events ⊆ .decided call decision :: .asked call :: s.events :=
          List.subset_cons_of_subset _ (List.subset_cons_self _ _)
        simp only [hdecision] at hasked
        split at hasked
        next happroved =>
          let before : GateState := { s with
            grants := insert call.name s.grants
            events := .decided call decision :: .asked call :: s.events }
          have hnow : ApprovedNow call before.events := ⟨decision, _, rfl, happroved.2⟩
          obtain ⟨hgrants, hevents⟩ :=
            call_final d gate printable call before
          have hafter : before.events ⊆ ((d.call gate printable call).final before).events := by
            rcases hevents with hevents | ⟨hevents, -⟩ <;> rw [hevents]
            exacts [List.Subset.refl _, List.subset_cons_self _ _]
          rw [hasked]
          constructor
          · rw [revokeAfter_events]
            rcases hevents with hevents | ⟨hevents, -⟩ <;> rw [hevents]
            exacts [h.warranted, ⟨.of_approved hnow, h.warranted⟩]
          · intro name hname
            rw [revokeAfter_events]
            rcases mem_grants_revokeAfter hgrants hname with hname | ⟨rfl, hscope, hnever⟩
            · exact hsession hname (List.Subset.trans hbefore hafter)
            · exact .inr ⟨call, decision, hafter List.mem_cons_self, rfl, happroved.2, hscope, hnever⟩
        next =>
          rw [hasked]
          exact ⟨h.warranted, fun name hname => hsession hname hbefore⟩

/-- Along the calls of a task the state stays sound. -/
theorem GateState.Sound.callAll (hprompts : gate.approver.isSome = true →
      ∀ name, ¬ d.Silenced initial name) :
    ∀ (calls : List ToolCall) {s : GateState}, s.Sound d initial gate.approver.isSome →
      ((d.callAll gate printable calls).final s).Sound d initial gate.approver.isSome
  | [], _, h => h
  | call :: calls, s, h => by
    have hcall := h.withApproval hprompts printable call
    unfold Routine.final at hcall ⊢
    unfold Dispatcher.callAll
    rw [Routine.bind_run]
    cases hrun : d.withApproval gate printable call s with
    | mk result s' =>
      rw [hrun] at hcall
      cases result with
      | error e => exact hcall
      | ok result =>
        have hrest := GateState.Sound.callAll hprompts calls hcall
        unfold Routine.final at hrest
        simp only
        rw [Routine.bind_run]
        cases hruns : d.callAll gate printable calls s' with
        | mk results s'' =>
          rw [hruns] at hrest
          cases results <;> exact hrest

theorem withApproval_grants (call : ToolCall) (s : GateState)
    (h : d.Refused gate call s ∨ d.selects call.name = false) :
    ((d.withApproval gate printable call).final s).grants = s.grants := by
  have hplain := (call_final d gate printable call s).1
  cases happrover : gate.approver with
  | none =>
    simp only [Routine.final, Dispatcher.withApproval, happrover] at hplain ⊢
    exact hplain
  | some approver =>
    cases hneeded : d.approvalNeeded s.grants call.name with
    | false =>
      simp only [Routine.final, Dispatcher.withApproval, happrover, hneeded] at hplain ⊢
      exact hplain
    | true =>
      have hrefused : ∀ decision, approver s.events.length call = .ok decision →
          decision.approved = false := by
        rcases h with ⟨-, hrefused⟩ | hunselected
        · exact fun decision => hrefused approver decision happrover
        · simp [Dispatcher.approvalNeeded, hunselected] at hneeded
      have hasked := askFirst_final d gate printable approver call s
      have hfinal : (d.withApproval gate printable call).final s =
          (d.askFirst gate printable approver call).final s := by
        simp only [Routine.final, Dispatcher.withApproval, happrover, hneeded, if_true]
      rw [hfinal]
      cases hdecision : approver s.events.length call with
      | error e =>
        simp only [hdecision] at hasked
        rw [hasked]
      | ok decision =>
        simp only [hdecision, hrefused decision hdecision, Bool.false_eq_true, and_false,
          if_false] at hasked
        rw [hasked]

end Invariant

theorem Dispatcher.Silenced.handled {d : Dispatcher} {initial : Finset PyStr} {call : ToolCall}
    (h : d.Silenced initial call.name) (gate : Gate) (printable : CodePoint → Bool) :
    ((d.callAll gate printable [call]).final { grants := initial }).events = [.handled call] := by
  obtain ⟨halways, hselected, hinitial, hhandler, hbudget⟩ := h
  have hunasked : d.approvalNeeded initial call.name = false := by
    simp only [Dispatcher.approvalNeeded, hselected, if_true]
    split
    · simp [hinitial]
    · rfl
  obtain ⟨policy, hpolicy⟩ : ∃ policy, d.manifest.get? call.name = some policy := by
    unfold Dispatcher.alwaysPrompts at halways
    cases hpolicy : d.manifest.get? call.name with
    | none => simp [hpolicy] at halways
    | some policy => exact ⟨policy, rfl⟩
  have hpasses : d.refusal printable { grants := initial, callsMade := 1 } call.name = none := by
    simp [Dispatcher.refusal, hpolicy, hselected, hinitial, hbudget]
  have hcall : ((d.call gate printable call).final { grants := initial }).events = [.handled call] := by
    simp only [Routine.final, Dispatcher.call, Routine.bind_run, Routine.modify, Routine.get, hpasses,
      Dispatcher.runHandler, hhandler, if_true]
    split <;> rfl
  have hfinal : (d.withApproval gate printable call).final { grants := initial } =
      (d.call gate printable call).final { grants := initial } := by
    unfold Routine.final Dispatcher.withApproval
    cases gate.approver with
    | none => rfl
    | some approver => simp only [hunasked, Bool.false_eq_true, if_false]
  rw [← hcall, ← hfinal]
  unfold Routine.final Dispatcher.callAll
  rw [Routine.bind_run]
  cases d.withApproval gate printable call { grants := initial } with
  | mk result s => cases result <;> rfl

/-- Nothing gated runs unapproved, whatever the user and the handlers do and whatever is called,
exactly when no always-prompt tool is silenced by an initial grant. -/
theorem gated_iff (d : Dispatcher) (initial : Finset PyStr) (attached : Bool)
    (printable : CodePoint → Bool) :
    (∀ gate : Gate, gate.approver.isSome = attached → ∀ calls, Gated d initial gate printable calls) ↔
      (attached = true → ∀ name, ¬ d.Silenced initial name) := by
  constructor
  · rintro h rfl name hsilenced
    -- an approver is attached, and is not asked
    let gate : Gate := ⟨some fun _ _ => .error [], fun _ _ => .ok ⟨true, [], false⟩⟩
    let call : ToolCall := ⟨[], name, []⟩
    have hwarranted := (h gate rfl [call]).warranted
    rw [Dispatcher.Silenced.handled (d := d) hsilenced] at hwarranted
    obtain ⟨decision, rest, hnone, -⟩ := hwarranted.1.prompted rfl hsilenced.1
    cases hnone
  · rintro hprompts gate rfl calls
    refine ⟨?_, fun earlier call later _ => withApproval_grants call _⟩
    exact (GateState.Sound.callAll (s := { grants := initial }) hprompts calls
      ⟨trivial, fun name hname => .inl hname⟩).warranted

/-- The question to the user, granted from the start, is never asked. -/
theorem prompt_silenced : ¬ ∀ (d : Dispatcher) (initial : Finset PyStr) (gate : Gate)
    (printable : CodePoint → Bool) (calls : List ToolCall), Gated d initial gate printable calls := by
  intro h
  let d : Dispatcher := ⟨⟨[(askUser, ⟨lit "always_prompt"⟩)], by decide⟩, 60, none⟩
  let gate : Gate := ⟨some fun _ _ => .error [], fun _ _ => .ok ⟨true, [], false⟩⟩
  have hwarranted := (h d {askUser} gate (fun _ => true) [⟨lit "c1", askUser, []⟩]).warranted
  obtain ⟨decision, rest, hnone, -⟩ := hwarranted.1.prompted rfl rfl
  cases hnone

end Tempest
