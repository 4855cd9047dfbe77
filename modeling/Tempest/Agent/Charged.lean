import Tempest.Agent.Frame

/-!
# Charged — what a run of a task spends and what its ledger says

`spend` checks the caps before it appends.  While every charge passes, the ledger's totals for the
task are the usage of every call that returned; a charge that is refused is lost, and the repair loop
calls the model again.
-/

namespace Tempest

open Python Routine

/-! ## Calls and charges -/

def Event.answer : Event → Option Completion
  | .returned answer => some answer
  | _ => none

def Event.isCalled : Event → Bool
  | .called => true
  | _ => false

def Event.isRefused : Event → Bool
  | .refused _ => true
  | _ => false

/-- The calls that returned, the oldest first. -/
def answers (trace : List Event) : List Completion := (trace.filterMap Event.answer).reverse

def callsSinceRefusal (trace : List Event) : Nat :=
  (trace.reverse.dropWhile fun e => !e.isRefused).countP Event.isCalled

def TaskSpec.addUsage (spec : TaskSpec) (m : Meter) (s : Spend) (answer : Completion) : Spend :=
  s.plus answer.usage.inputTokens answer.usage.outputTokens (m.price (spec.charge answer []))

def Charged (spec : TaskSpec) (m : Meter) (before : Ledger) (w : World) : Prop :=
  totals w.ledger .task spec.costKey =
    (answers w.trace).foldl (spec.addUsage m) (totals before .task spec.costKey)

def Waiting (w : World) : Prop := ∃ answer earlier, w.trace = .returned answer :: earlier

structure CallsCharged (spec : TaskSpec) (m : Meter) (before : Ledger) (w : World) : Prop where
  charged : ¬ Waiting w → Charged spec m before w
  stopped : callsSinceRefusal w.trace = 0

/-- Every charge finds room in its budgets and has decimal text. -/
def Affordable (m : Meter) (w : World) : Prop :=
  ∀ ledger charge, .spent ledger charge ∈ w.trace →
    m.gate ledger charge scopesFor = .ok () ∧ charge.unprintable = false

def Unrefused (w : World) : Prop := ∀ e ∈ w.trace, e.isRefused = false

/-! ## Between two turns -/

def Settled (spec : TaskSpec) (m : Meter) (before : Ledger) (w : World) : Prop :=
  Affordable m w → Charged spec m before w ∧ Unrefused w

def SettledOrDue (spec : TaskSpec) (m : Meter) (before : Ledger) (w : World) : Prop :=
  Settled spec m before w ∨ Waiting w ∧ (Affordable m w → Unrefused w)

section Settled

variable {spec : TaskSpec} {out : Outside} {m : Meter} {before : Ledger} {w w' : World}

theorem answers_append {events trace : List Event} (h : ∀ e ∈ events, ¬ e.ofMoney) :
    answers (events ++ trace) = answers trace := by
  have hnone : events.filterMap Event.answer = [] := by
    refine List.filterMap_eq_nil_iff.2 fun e he => ?_
    have hmoney := h e he
    cases e <;> first | rfl | exact absurd trivial hmoney
  simp [answers, List.filterMap_append, hnone]

theorem Settled.grows {rowOk : LogRow → Prop} (h : Settled spec m before w)
    (hgrows : Grows rowOk (fun e => ¬ e.ofMoney) w w') (hledger : w'.ledger = w.ledger) :
    Settled spec m before w' := by
  rcases hgrows.trace with ⟨events, htrace, hevents⟩
  intro haffordable
  have hbefore : Affordable m w := fun ledger charge hspent =>
    haffordable ledger charge (by rw [htrace]; exact List.mem_append_right events hspent)
  rcases h hbefore with ⟨hcharged, hunrefused⟩
  refine ⟨?_, ?_⟩
  · unfold Charged at hcharged ⊢
    rw [hledger, htrace, answers_append hevents]
    exact hcharged
  · intro e he
    rw [htrace] at he
    rcases List.mem_append.1 he with hnew | hold
    · have hmoney := hevents e hnew
      cases e <;> first | rfl | exact absurd trivial hmoney
    · exact hunrefused e hold

theorem Settled.still (h : Settled spec m before w) (hs : Still w w') : Settled spec m before w' :=
  h.grows (hs.grows : Grows (fun _ => True) _ w w') hs.ledger

def AnswerDue (spec : TaskSpec) (m : Meter) (before : Ledger) :
    Except PyStr Completion → World → Prop
  | .error _, w => Settled spec m before w
  | .ok answer, w => ∃ earlier, Settled spec m before earlier ∧ w.ledger = earlier.ledger ∧
      w.trace = .returned answer :: .called :: earlier.trace

theorem Settled.called (h : Settled spec m before w) (hledger : w'.ledger = w.ledger)
    (htrace : w'.trace = .called :: w.trace) : Settled spec m before w' := by
  intro haffordable
  have hbefore : Affordable m w := fun ledger charge hspent =>
    haffordable ledger charge (by rw [htrace]; exact List.mem_cons_of_mem _ hspent)
  rcases h hbefore with ⟨hcharged, hunrefused⟩
  refine ⟨?_, ?_⟩
  · unfold Charged at hcharged ⊢
    rw [hledger, htrace]
    exact hcharged
  · intro e he
    rw [htrace] at he
    rcases List.mem_cons.1 he with rfl | hold
    · rfl
    · exact hunrefused e hold

theorem meets_callModel (history : List Message) :
    Meets (Settled spec m before) (callModel out history) (AnswerDue spec m before)
      (SettledOrDue spec m before) := by
  refine meets_op (fun w h => Or.inl h) fun w w' h hs => ?_
  have hcalled : ∀ life, Settled spec m before { w' with trace := .called :: w'.trace, life := life } :=
    fun life => (h.still hs).called rfl rfl
  cases out.complete w'.clock history with
  | error failure =>
    cases failure with
    | cancelled => exact Or.inl (hcalled w'.life)
    | failed message => exact hcalled w'.life
  | ok answer => exact ⟨w', h.still hs, rfl, rfl⟩

/-- A charge that passes adds what its answer used. -/
theorem charged_spent {answer : Completion} {day : PyStr} (hkey : noSplitPair spec.costKey = true)
    (hcharged : Charged spec m before w)
    (hledger : w'.ledger =
      w.ledger ++ [(spec.charge answer day).entry (m.price (spec.charge answer day))])
    (hanswers : answers w'.trace = answers w.trace ++ [answer]) : Charged spec m before w' := by
  have hentry : ((spec.charge answer day).entry (m.price (spec.charge answer day))).key .task =
      spec.costKey := wireText_of_noSplitPair hkey
  unfold Charged at hcharged ⊢
  rw [hledger, totals_append, if_pos hentry, hcharged, hanswers, List.foldl_append]
  rfl

theorem meets_spendTurn (hmeter : spec.meter = some m) (hkey : noSplitPair spec.costKey = true)
    (answer : Completion) :
    Meets (AnswerDue spec m before (.ok answer)) (spendTurn spec out answer)
      (fun _ => Settled spec m before) (SettledOrDue spec m before) := by
  unfold spendTurn
  rw [hmeter]
  refine meets_op (fun w h => ?_) fun w w' h hs => ?_
  · -- killed before the charge
    rcases h with ⟨earlier, hsettled, _, htrace⟩
    refine Or.inr ⟨⟨answer, .called :: earlier.trace, htrace⟩, fun haffordable e he => ?_⟩
    have hbefore : Affordable m earlier := fun ledger charge hspent =>
      haffordable ledger charge (by rw [htrace]; simp [hspent])
    rw [htrace] at he
    rcases List.mem_cons.1 he with rfl | he
    · rfl
    · rcases List.mem_cons.1 he with rfl | he
      · rfl
      · exact (hsettled hbefore).2 e he
  · rcases h with ⟨earlier, hsettled, hledger, htrace⟩
    have hledger' : w'.ledger = earlier.ledger := hs.ledger.trans hledger
    have htrace' : w'.trace = .returned answer :: .called :: earlier.trace := hs.trace.trans htrace
    -- a charge that does not pass makes the run one that cannot pay
    have hspent : ∀ (world : World) (events : List Event),
        world.trace = events ++ .spent w'.ledger (spec.charge answer (out.today w'.clock)) :: w'.trace →
        Affordable m world →
          m.gate w'.ledger (spec.charge answer (out.today w'.clock)) scopesFor = .ok () ∧
            (spec.charge answer (out.today w'.clock)).unprintable = false := by
      intro world events hworld haffordable
      exact haffordable _ _ (by rw [hworld]; simp)
    cases hgate : m.gate w'.ledger (spec.charge answer (out.today w'.clock)) scopesFor with
    | error e =>
      have hresult := spend_of_error hgate
      dsimp only
      rw [hresult]
      intro haffordable
      have hpassed := (hspent _ [.refused e] rfl haffordable).1
      rw [hgate] at hpassed
      cases hpassed
    | ok _ =>
      cases hprint : (spec.charge answer (out.today w'.clock)).unprintable with
      | true =>
        have hresult := spend_of_unprintable hgate hprint
        dsimp only
        rw [hresult]
        refine Or.inl fun haffordable => ?_
        have hpassed := (hspent _ [] rfl haffordable).2
        rw [hprint] at hpassed
        cases hpassed
      | false =>
        rcases spend_of_ok hgate hprint with ⟨s, hresult⟩
        dsimp only
        rw [hresult]
        intro haffordable
        have hbefore : Affordable m earlier := fun ledger charge hold =>
          haffordable ledger charge (by simp [htrace', hold])
        rcases hsettled hbefore with ⟨hcharged, hunrefused⟩
        have hentry : w'.ledger ++ [(spec.charge answer (out.today w'.clock)).entry
            (m.price (spec.charge answer (out.today w'.clock)))] =
            earlier.ledger ++ [(spec.charge answer (out.today w'.clock)).entry
              (m.price (spec.charge answer (out.today w'.clock)))] := by
          rw [hledger']
        refine ⟨charged_spent hkey hcharged hentry ?_, fun e he => ?_⟩
        · have htaken : (Event.spent w'.ledger
              (spec.charge answer (out.today w'.clock)) :: w'.trace).filterMap Event.answer =
              answer :: earlier.trace.filterMap Event.answer := by
            rw [htrace']
            rfl
          simp only [answers, htaken, List.reverse_cons]
        · simp only [htrace', List.mem_cons] at he
          rcases he with rfl | rfl | rfl | hold
          · rfl
          · rfl
          · rfl
          · exact hunrefused e hold

theorem admits_settled (hmeter : spec.meter = some m) (hkey : noSplitPair spec.costKey = true) :
    Admits spec out (Settled spec m before) (SettledOrDue spec m before) (fun _ => True)
      (fun e => ¬ e.ofMoney) := by
  have hask : ∀ {α : Type} (answer : Nat → Except Stop α),
      Meets (Settled spec m before) (ask answer) (fun _ => Settled spec m before)
        (SettledOrDue spec m before) := fun answer =>
    meets_ask (fun _ w w' h hs => h.still hs) fun w w' h hs => Or.inl (h.still hs)
  have hrow : ∀ row, Meets (Settled spec m before) (checkpoint out.writes row)
      (fun _ => Settled spec m before) (SettledOrDue spec m before) := fun row =>
    meets_checkpoint
      (fun w w' h hs => h.grows
        (Grows.of_row hs.log hs.trace trivial : Grows (fun _ => True) _ w w') hs.ledger)
      fun w w' h hs => Or.inl (h.still hs)
  exact
    { ask := hask
      look := fun read => meets_look (fun w h => Or.inl h) fun w w' h hs => h.still hs
      note := fun e he => meets_note fun w w' h hs =>
        h.grows (Grows.of_event hs.log hs.trace he : Grows (fun _ => True) _ w w') hs.ledger
      row := fun row _ => hrow row
      turn := meets_converseTurn hask (fun call kind => hrow _) meets_callModel
        (fun _ _ h => h) (meets_spendTurn hmeter hkey) }

end Settled

/-! ## The run -/

section Run

variable {spec : TaskSpec} {out : Outside} {m : Meter} {before : Ledger}

theorem meets_runTask_settled (hmeter : spec.meter = some m)
    (hkey : noSplitPair spec.costKey = true) (resume : Bool) :
    Meets (Settled spec m before) (runTask spec out resume) (fun _ => Settled spec m before)
      (SettledOrDue spec m before) := by
  have hadmits : Admits spec out (Settled spec m before) (SettledOrDue spec m before)
      (fun _ => True) (fun e => ¬ e.ofMoney) := admits_settled hmeter hkey
  have hshadow : ∀ e, Event.ofShadow e → ¬ e.ofMoney := by
    intro e he
    cases e <;> first | exact he.elim | exact not_false
  have hrepair : ∀ e, Event.ofRepair e → ¬ e.ofMoney := by
    intro e he
    cases e <;> first | exact he.elim | exact not_false
  refine Meets.bind (hadmits.note _ not_false) fun _ => Meets.bind (hadmits.look _) fun log => ?_
  refine Meets.ite (fun _ => Meets.stop fun w h => Or.inl h) fun _ => ?_
  refine Meets.bind (meets_shadowFor hshadow
    (fun w w' h (hgrows : Grows (fun _ => True) _ w w') hledger => h.grows hgrows hledger)
    (fun w h => Or.inl h) out.repo _) fun staging => ?_
  refine Meets.bind (hadmits.ask _) fun _ => Meets.bind (hadmits.row _ trivial) fun _ => ?_
  refine Meets.bind (hadmits.takeTurns (fun _ _ _ => trivial) (fun _ _ _ => not_false) _ _)
    fun turns => ?_
  exact hadmits.concludeTask (fun _ _ => trivial) hrepair (fun _ _ _ => trivial) _ _ turns

/-- In a run whose charges all pass, every call that returned is in the totals of the task. -/
theorem calls_charged {resume : Bool} {life : Nat} {w : World} (hmeter : spec.meter = some m)
    (hkey : noSplitPair spec.costKey = true) (hnew : w.trace = [])
    (haffordable : Affordable m (lifetime spec out resume life w)) :
    CallsCharged spec m w.ledger (lifetime spec out resume life w) := by
  have hsettled : Settled spec m w.ledger { w with life := life } := by
    intro _
    refine ⟨?_, ?_⟩
    · simp [Charged, hnew, answers]
    · intro e he
      simp [hnew] at he
  have hrun : SettledOrDue spec m w.ledger (lifetime spec out resume life w) :=
    (meets_runTask_settled hmeter hkey resume).final (fun _ w h => Or.inl h) hsettled
  have hunrefused : Unrefused (lifetime spec out resume life w) := by
    rcases hrun with hdone | ⟨_, hdue⟩
    · exact (hdone haffordable).2
    · exact hdue haffordable
  refine ⟨fun hnot => ?_, ?_⟩
  · rcases hrun with hdone | ⟨hwaiting, _⟩
    · exact (hdone haffordable).1
    · exact absurd hwaiting hnot
  · -- no refusal, so nothing comes after one
    have hall : ∀ e ∈ (lifetime spec out resume life w).trace.reverse, (!e.isRefused) = true :=
      fun e he => by simp [hunrefused e (List.mem_reverse.1 he)]
    have hnil := List.dropWhile_eq_nil_iff.2 hall
    simp only [callsSinceRefusal, hnil, List.countP_nil]

end Run

/-- The task of the small outside with ten input tokens to spend, and with a hundred. -/
def cappedTask : TaskSpec := { plainTask with meter := some tenTokens }

def hundredTokens : Meter where
  budgets
    | .task => some { maxInputTokens := some 100 }
    | _ => none
  rates := fun _ => none
  estimateThresholdDollars := none

def roomyTask : TaskSpec := { plainTask with meter := some hundredTokens }

def Event.passes (m : Meter) : Event → Bool
  | .spent ledger charge => (m.gate ledger charge scopesFor).isOk && !charge.unprintable
  | _ => true

theorem affordable_of_passes {m : Meter} {w : World}
    (h : (w.trace.all fun e => e.passes m) = true) : Affordable m w := by
  intro ledger charge hspent
  have hpasses := List.all_eq_true.1 h _ hspent
  simp only [Event.passes, Bool.and_eq_true, Bool.not_eq_true'] at hpasses
  refine ⟨?_, hpasses.2⟩
  cases hgate : m.gate ledger charge scopesFor with
  | error e => simp [hgate, Except.isOk, Except.toBool] at hpasses
  | ok _ => rfl

/-- Two calls of eleven tokens each. -/
theorem calls_charged_twice :
    (answers (lifetime roomyTask plainOutside true 30 newWorld).trace).length = 2 ∧
      CallsCharged roomyTask hundredTokens [] (lifetime roomyTask plainOutside true 30 newWorld) := by
  have hkey : noSplitPair roomyTask.costKey = true := by decide
  have hpasses : ((lifetime roomyTask plainOutside true 30 newWorld).trace.all fun e =>
      e.passes hundredTokens) = true := by
    decide +kernel
  exact ⟨by decide +kernel, calls_charged rfl hkey rfl (affordable_of_passes hpasses)⟩

/-- Eleven tokens are over the cap of ten: the charge is refused and lost, and the repair loop makes
a second call, which is lost as well. -/
theorem calls_not_charged :
    let w := lifetime cappedTask plainOutside true 29 newWorld
    cappedTask.meter = some tenTokens ∧ ¬ CallsCharged cappedTask tenTokens [] w ∧
      callsSinceRefusal w.trace = 1 ∧
      ((answers w.trace).map fun answer => answer.usage.inputTokens).sum = 22 ∧
      (totals w.ledger .task cappedTask.costKey).inputTokens = 0 := by
  have hcalls : callsSinceRefusal (lifetime cappedTask plainOutside true 29 newWorld).trace = 1 := by
    decide +kernel
  refine ⟨rfl, fun h => ?_, hcalls, by decide +kernel, by decide +kernel⟩
  rw [h.stopped] at hcalls
  cases hcalls

end Tempest
