import Tempest.Agent.Frame

/-!
# Budget — the repair attempts of a task across its restarts

The attempt numbers in the log are `1, …, k` at every moment, and a conversation of the repair loop
starts only after its number is there.  A restart counts the numbers, so that neither a kill between
two rows nor any number of restarts gives an attempt back.
-/

namespace Tempest

open Python Routine

/-! ## Conversations and yardsticks -/

def Event.isRepairing : Event → Bool
  | .repairing _ => true
  | _ => false

/-- The task is started over: `resume=False`. -/
def Event.isFresh : Event → Bool
  | .began false => true
  | _ => false

def conversations (trace : List Event) : Nat := trace.countP Event.isRepairing

def sinceFresh (trace : List Event) : List Event := trace.takeWhile fun e => !e.isFresh

def RecordedFirst (log : TurnLog) (recorded : Proven × PyStr) : Prop :=
  ∃ before after, log = before ++ .repairBaseline recorded.1 recorded.2 :: after ∧
    ∀ row ∈ before, row.attempt = none

/-- So many conversations are started at most, and so many numbers are in the log at least. -/
structure Spent (spec : TaskSpec) (started charged : Nat) (w : World) : Prop where
  numbers : ∃ k, charged ≤ k ∧ k ≤ spec.maxRepairAttempts ∧
    attemptNumbers w.log = Finset.Icc 1 k
  conversed : conversations (sinceFresh w.trace) ≤ started
  le : started ≤ charged
  unjudged : repairBaseline w.log = none → attemptNumbers w.log = ∅
  first : ∀ recorded, repairBaseline w.log = some recorded → RecordedFirst w.log recorded
  judged : ∀ number before contract, .judged number before contract ∈ w.trace →
    repairBaseline w.log = some (before, contract)

def Bounded (spec : TaskSpec) (w : World) : Prop := ∃ started charged, Spent spec started charged w

/-! ## Rows and events that charge nothing -/

def LogRow.Quiet (row : LogRow) : Prop := row.attempt = none ∧ row.judgedAgainst = none

def Event.Quiet (e : Event) : Prop :=
  e.isRepairing = false ∧ e.isFresh = false ∧ ∀ number before contract,
    e ≠ .judged number before contract

theorem attemptNumbers_eq_empty {log : TurnLog} :
    attemptNumbers log = ∅ ↔ ∀ row ∈ log, row.attempt = none := by
  simp [attemptNumbers, List.filterMap_eq_nil_iff]

theorem attemptNumbers_quiet {log rows : TurnLog} (h : ∀ row ∈ rows, LogRow.Quiet row) :
    attemptNumbers (log ++ rows) = attemptNumbers log := by
  have hnone : rows.filterMap LogRow.attempt = [] :=
    List.filterMap_eq_nil_iff.2 fun row hrow => (h row hrow).1
  simp [attemptNumbers, List.filterMap_append, hnone]

theorem repairBaseline_quiet {log rows : TurnLog} (h : ∀ row ∈ rows, LogRow.Quiet row) :
    repairBaseline (log ++ rows) = repairBaseline log := by
  have hnone : rows.findSome? LogRow.judgedAgainst = none :=
    List.findSome?_eq_none_iff.2 fun row hrow => (h row hrow).2
  simp [repairBaseline, List.findSome?_append, hnone]

theorem RecordedFirst.append {log : TurnLog} {recorded : Proven × PyStr}
    (h : RecordedFirst log recorded) (rows : TurnLog) : RecordedFirst (log ++ rows) recorded := by
  rcases h with ⟨before, after, hlog, hbefore⟩
  exact ⟨before, after ++ rows, by simp [hlog], hbefore⟩

theorem sinceFresh_quiet {events trace : List Event} (h : ∀ e ∈ events, Event.Quiet e) :
    conversations (sinceFresh (events ++ trace)) = conversations (sinceFresh trace) := by
  have hall : ∀ e ∈ events, (!e.isFresh) = true := fun e he => by simp [(h e he).2.1]
  have hzero : events.countP Event.isRepairing = 0 :=
    List.countP_eq_zero.2 fun e he => by simp [(h e he).1]
  simp [conversations, sinceFresh, List.takeWhile_append_of_pos hall, List.countP_append, hzero]

theorem sinceFresh_cons {e : Event} {trace : List Event} (h : e.isFresh = false) :
    sinceFresh (e :: trace) = e :: sinceFresh trace := by
  simp [sinceFresh, h]

section Spent

variable {spec : TaskSpec} {out : Outside} {started charged : Nat} {w w' : World}

theorem Spent.grows (h : Spent spec started charged w)
    (hgrows : Grows LogRow.Quiet Event.Quiet w w') : Spent spec started charged w' := by
  rcases hgrows with ⟨⟨rows, hlog, hrows⟩, ⟨events, htrace, hevents⟩⟩
  have hnumbers : attemptNumbers w'.log = attemptNumbers w.log := by
    rw [hlog, attemptNumbers_quiet hrows]
  have hbaseline : repairBaseline w'.log = repairBaseline w.log := by
    rw [hlog, repairBaseline_quiet hrows]
  refine ⟨?_, ?_, h.le, ?_, ?_, ?_⟩
  · rw [hnumbers]
    exact h.numbers
  · rw [htrace, sinceFresh_quiet hevents]
    exact h.conversed
  · rw [hnumbers, hbaseline]
    exact h.unjudged
  · intro recorded hrecorded
    rw [hbaseline] at hrecorded
    rw [hlog]
    exact (h.first recorded hrecorded).append rows
  · intro number before contract hjudged
    rw [hbaseline]
    rw [htrace] at hjudged
    rcases List.mem_append.1 hjudged with hnew | hold
    · exact absurd rfl ((hevents _ hnew).2.2 number before contract)
    · exact h.judged number before contract hold

theorem Spent.bounded (h : Spent spec started charged w) : Bounded spec w := ⟨started, charged, h⟩

/-- A restart may count on every number of the log. -/
theorem Spent.counted (h : Spent spec started charged w) :
    Spent spec (attemptNumbers w.log).card (attemptNumbers w.log).card w := by
  rcases h.numbers with ⟨k, hcharged, hmax, hnumbers⟩
  have hcard : (attemptNumbers w.log).card = k := by simp [hnumbers]
  rw [hcard]
  have hstarted : conversations (sinceFresh w.trace) ≤ k := by
    calc
      conversations (sinceFresh w.trace) ≤ started := h.conversed
      _ ≤ charged := h.le
      _ ≤ k := hcharged
  exact ⟨⟨k, le_rfl, hmax, hnumbers⟩, hstarted, le_rfl, h.unjudged, h.first, h.judged⟩

/-! ## Rows and events that charge -/

structure Ready (spec : TaskSpec) (yardstick : Yardstick) (started charged : Nat) (w : World) : Prop where
  spent : Spent spec started charged w
  recorded : repairBaseline w.log = some (yardstick.before, yardstick.contract)

variable {yardstick : Yardstick}

theorem Ready.grows (h : Ready spec yardstick started charged w)
    (hgrows : Grows LogRow.Quiet Event.Quiet w w') : Ready spec yardstick started charged w' := by
  refine ⟨h.spent.grows hgrows, ?_⟩
  rcases hgrows.log with ⟨rows, hlog, hrows⟩
  rw [hlog, repairBaseline_quiet hrows]
  exact h.recorded

/-- Nothing is recorded yet: the row that records the yardstick comes before every attempt. -/
theorem Spent.record (h : Spent spec started charged w) (hnone : repairBaseline w.log = none)
    (hlog : w'.log = w.log ++ [.repairBaseline yardstick.before yardstick.contract])
    (htrace : w'.trace = w.trace) : Ready spec yardstick started charged w' := by
  have hbaseline : repairBaseline w'.log = some (yardstick.before, yardstick.contract) := by
    rw [hlog, repairBaseline_append, hnone]
    rfl
  have hnumbers : attemptNumbers w'.log = attemptNumbers w.log := by
    rw [hlog, attemptNumbers_append]
    simp [LogRow.attempt]
  refine ⟨⟨?_, ?_, h.le, ?_, ?_, ?_⟩, hbaseline⟩
  · rw [hnumbers]
    exact h.numbers
  · rw [htrace]
    exact h.conversed
  · intro habsurd
    simp [hbaseline] at habsurd
  · intro recorded hrecorded
    obtain rfl : (yardstick.before, yardstick.contract) = recorded :=
      by simpa [hbaseline] using hrecorded
    exact ⟨w.log, [], hlog, attemptNumbers_eq_empty.1 (h.unjudged hnone)⟩
  · intro number before contract hjudged
    rw [htrace] at hjudged
    have hbefore := h.judged number before contract hjudged
    simp [hnone] at hbefore

/-- The number of the next attempt is in the log before anything else happens; the second row of an
attempt charges nothing more. -/
theorem Ready.charge {n m : Nat} {row : LogRow} (h : Ready spec yardstick n charged w)
    (hrow : row.attempt = some m) (hquiet : row.judgedAgainst = none)
    (hm : 0 < m ∧ n ≤ m ∧ m ≤ n + 1) (hmax : m ≤ spec.maxRepairAttempts)
    (hlog : w'.log = w.log ++ [row]) (htrace : w'.trace = w.trace) : Ready spec yardstick n m w' := by
  have hbaseline : repairBaseline w'.log = repairBaseline w.log := by
    rw [hlog, repairBaseline_append, hquiet, Option.or_none]
  rcases h.spent.numbers with ⟨k, hcharged, hk, hnumbers⟩
  have hle : n ≤ k := h.spent.le.trans hcharged
  have hnext : attemptNumbers w'.log = Finset.Icc 1 (max k m) := by
    rw [hlog, attemptNumbers_append, hnumbers, hrow]
    ext i
    simp only [Option.toFinset_some, Finset.mem_union, Finset.mem_Icc, Finset.mem_singleton]
    omega
  refine ⟨⟨⟨max k m, le_max_right k m, max_le hk hmax, hnext⟩, ?_, hm.2.1, ?_, ?_,
    ?_⟩, ?_⟩
  · rw [htrace]
    exact h.spent.conversed
  · intro habsurd
    rw [hbaseline, h.recorded] at habsurd
    cases habsurd
  · intro recorded hrecorded
    rw [hbaseline] at hrecorded
    rw [hlog]
    exact (h.spent.first recorded hrecorded).append [row]
  · intro number before contract hjudged
    rw [htrace] at hjudged
    rw [hbaseline]
    exact h.spent.judged number before contract hjudged
  · rw [hbaseline]
    exact h.recorded

/-- A conversation is started only on a number that is charged. -/
theorem Ready.start {n : Nat} (h : Ready spec yardstick n (n + 1) w) (hlog : w'.log = w.log)
    (htrace : w'.trace = .repairing (n + 1) :: w.trace) :
    Ready spec yardstick (n + 1) (n + 1) w' := by
  have hcount : conversations (sinceFresh w'.trace) = conversations (sinceFresh w.trace) + 1 := by
    rw [htrace, sinceFresh_cons rfl]
    exact List.countP_cons_of_pos rfl
  refine ⟨⟨?_, ?_, le_rfl, ?_, ?_, ?_⟩, ?_⟩
  · rw [hlog]
    exact h.spent.numbers
  · rw [hcount]
    exact Nat.succ_le_succ h.spent.conversed
  · rw [hlog]
    exact h.spent.unjudged
  · rw [hlog]
    exact h.spent.first
  · intro number before contract hjudged
    rw [htrace] at hjudged
    rw [hlog]
    exact h.spent.judged number before contract (by simpa using hjudged)
  · rw [hlog]
    exact h.recorded

/-- An attempt is judged against the yardstick that is recorded. -/
theorem Ready.judge {number : Nat} (h : Ready spec yardstick started charged w)
    (hlog : w'.log = w.log)
    (htrace : w'.trace = .judged number yardstick.before yardstick.contract :: w.trace) :
    Ready spec yardstick started charged w' := by
  refine ⟨⟨?_, ?_, h.spent.le, ?_, ?_, ?_⟩, ?_⟩
  · rw [hlog]
    exact h.spent.numbers
  · have hcount : conversations (sinceFresh w'.trace) = conversations (sinceFresh w.trace) := by
      rw [htrace, sinceFresh_cons rfl]
      exact List.countP_cons_of_neg (by simp [Event.isRepairing])
    rw [hcount]
    exact h.spent.conversed
  · rw [hlog]
    exact h.spent.unjudged
  · rw [hlog]
    exact h.spent.first
  · intro number' before contract hjudged
    rw [htrace] at hjudged
    rw [hlog]
    rcases List.mem_cons.1 hjudged with hnew | hold
    · obtain ⟨_, rfl, rfl⟩ := Event.judged.inj hnew
      exact h.recorded
    · exact h.spent.judged number' before contract hold
  · rw [hlog]
    exact h.recorded

end Spent

/-! ## The loop -/

section Loop

variable {spec : TaskSpec} {out : Outside} {started charged : Nat} {yardstick : Yardstick}

theorem quiet_money (e : Event) (h : e.ofMoney) : e.Quiet := by
  cases e <;> first | exact h.elim | exact ⟨rfl, rfl, fun _ _ _ h => nomatch h⟩

theorem quiet_proof (row : LogRow) (h : row.ofProof) : row.Quiet := by
  cases row <;> first | exact h.elim | exact ⟨rfl, rfl⟩

theorem ready_admits : Admits spec out (Ready spec yardstick started charged) (Bounded spec)
    LogRow.Quiet Event.Quiet :=
  admits_grows (fun _ _ => ⟨rfl, rfl⟩) quiet_money (fun _ _ h hgrows _ => h.grows hgrows)
    fun _ h => h.spent.bounded

theorem spent_admits : Admits spec out (Spent spec started charged) (Bounded spec)
    LogRow.Quiet Event.Quiet :=
  admits_grows (fun _ _ => ⟨rfl, rfl⟩) quiet_money (fun _ _ h hgrows _ => h.grows hgrows)
    fun _ h => h.bounded

theorem bounded_admits : Admits spec out (Bounded spec) (Bounded spec) LogRow.Quiet Event.Quiet := by
  refine admits_grows (fun _ _ => ⟨rfl, rfl⟩) quiet_money (fun w w' h hgrows _ => ?_) fun _ h => h
  rcases h with ⟨started, charged, hspent⟩
  exact (hspent.grows hgrows).bounded

theorem meets_judgeAttempt {n : Nat} (shadow : Shadow) (number : Nat) (packet : EvidencePacket)
    (s : RepairState) :
    Meets (Ready spec yardstick n n) (judgeAttempt out shadow yardstick number packet s)
      (fun _ => Ready spec yardstick n n) (Bounded spec) := by
  have hready : Admits spec out (Ready spec yardstick n n) (Bounded spec) LogRow.Quiet Event.Quiet :=
    ready_admits
  refine Meets.bind (hready.proveAndClassify quiet_proof shadow) fun proof => ?_
  refine Meets.bind (hready.ask _) fun files => ?_
  refine Meets.ite (fun _ => Meets.pure fun _ h => h) fun _ => ?_
  refine Meets.bind (hready.ask _) fun contractAfter => ?_
  refine Meets.bind (hready.ask _) fun reverted => ?_
  refine Meets.bind (hready.ask _) fun broken => ?_
  have hjudged : Meets (Ready spec yardstick n n)
      (note (.judged number yardstick.before yardstick.contract))
      (fun _ => Ready spec yardstick n n) (Bounded spec) :=
    meets_note fun w w' h hstill => h.judge hstill.log hstill.trace
  refine Meets.bind hjudged fun _ => ?_
  exact Meets.ite (fun _ => Meets.pure fun _ h => h) fun _ => Meets.pure fun _ h => h

theorem meets_repairAttempt {n : Nat} (hmax : n + 1 ≤ spec.maxRepairAttempts) (shadow : Shadow)
    (packet : EvidencePacket) (s : RepairState) :
    Meets (Ready spec yardstick n n) (repairAttempt spec out shadow yardstick (n + 1) packet s)
      (fun _ => Ready spec yardstick (n + 1) (n + 1)) (Bounded spec) := by
  have hcharge : Meets (Ready spec yardstick n n)
      (checkpoint out.writes (.repairAttempt (n + 1) packet.qualname))
      (fun _ => Ready spec yardstick n (n + 1)) (Bounded spec) :=
    meets_checkpoint (fun w w' h hstill => h.charge rfl rfl (by omega) hmax hstill.log hstill.trace)
      fun w w' h hstill => (h.grows hstill.grows).spent.bounded
  refine Meets.bind hcharge fun _ => ?_
  have hstart : Meets (Ready spec yardstick n (n + 1)) (note (.repairing (n + 1)))
      (fun _ => Ready spec yardstick (n + 1) (n + 1)) (Bounded spec) :=
    meets_note fun w w' h hstill => h.start hstill.log hstill.trace
  refine Meets.bind hstart fun _ => ?_
  refine Meets.bind (ready_admits.converse _) fun conversed => ?_
  have hrecord : Meets (Ready spec yardstick (n + 1) (n + 1))
      (checkpoint out.writes (.repairConversed (n + 1) packet.qualname conversed.1))
      (fun _ => Ready spec yardstick (n + 1) (n + 1)) (Bounded spec) :=
    meets_checkpoint (fun w w' h hstill => h.charge rfl rfl (by omega) hmax hstill.log hstill.trace)
      fun w w' h hstill => (h.grows hstill.grows).spent.bounded
  exact Meets.bind hrecord fun _ => meets_judgeAttempt shadow (n + 1) packet _

theorem meets_repairAttempts (shadow : Shadow) (contract : IntentContract) (left n : Nat)
    (hmax : n + left ≤ spec.maxRepairAttempts) (s : RepairState) :
    Meets (Ready spec yardstick n n)
      (repairAttempts spec out shadow contract yardstick left (n + 1) s)
      (fun _ => Bounded spec) (Bounded spec) := by
  induction left generalizing n s with
  | zero => exact Meets.pure fun _ h => h.spent.bounded
  | succ left ih =>
    unfold repairAttempts
    cases firstOffender out.printable s.targets s.divergences contract with
    | none => exact Meets.pure fun _ h => h.spent.bounded
    | some packet =>
      refine Meets.bind (meets_repairAttempt (by omega) shadow packet s) fun attempted => ?_
      rcases attempted with ⟨s', _ | outcome⟩
      · exact ih (n + 1) (by omega) s'
      · exact Meets.pure fun _ h => h.spent.bounded

/-- The loop takes the recorded yardstick, or records one before its first attempt. -/
theorem meets_takeYardstick (recorded : Option (Proven × PyStr)) (targets : List TargetRecord) :
    Meets (fun w => Spent spec started charged w ∧ repairBaseline w.log = recorded)
      (takeYardstick out recorded targets)
      (fun yardstick => Ready spec yardstick started charged) (Bounded spec) := by
  cases recorded with
  | some recorded => exact Meets.pure fun w h => ⟨h.1, h.2⟩
  | none =>
    have hbytes : Meets
        (fun w => Spent spec started charged w ∧ repairBaseline w.log = none)
        (ask out.contractBytes)
        (fun _ w => Spent spec started charged w ∧ repairBaseline w.log = none) (Bounded spec) := by
      refine meets_ask (fun _ w w' h hstill => ?_) fun w w' h hstill => (h.1.grows hstill.grows).bounded
      exact ⟨h.1.grows hstill.grows, by rw [hstill.log]; exact h.2⟩
    refine Meets.bind hbytes fun contract => ?_
    have hrow : Meets (fun w => Spent spec started charged w ∧ repairBaseline w.log = none)
        (checkpoint out.writes (.repairBaseline (provenTargets targets) contract))
        (fun _ => Ready spec ⟨provenTargets targets, contract⟩ started charged) (Bounded spec) :=
      meets_checkpoint (fun w w' h hstill => h.1.record h.2 hstill.log hstill.trace)
        fun w w' h hstill => (h.1.grows hstill.grows).bounded
    exact Meets.bind hrow fun _ => Meets.pure fun _ h => h

theorem meets_repairLoop (shadow : Shadow) (t : Transcript) (first : Proof) (n : Nat) :
    Meets (Spent spec n n) (repairLoop spec out shadow t first n)
      (fun _ => Bounded spec) (Bounded spec) := by
  have hlook : Meets (Spent spec n n) (look fun w => repairBaseline w.log)
      (fun recorded w => Spent spec n n w ∧ repairBaseline w.log = recorded) (Bounded spec) :=
    meets_look (fun w h => h.bounded) fun w w' h hstill => ⟨h.grows hstill.grows, rfl⟩
  refine Meets.bind hlook fun recorded => ?_
  have hcontract : Meets (fun w => Spent spec n n w ∧ repairBaseline w.log = recorded)
      (ask out.contract)
      (fun _ w => Spent spec n n w ∧ repairBaseline w.log = recorded) (Bounded spec) := by
    refine meets_ask (fun _ w w' h hstill => ?_) fun w w' h hstill => (h.1.grows hstill.grows).bounded
    exact ⟨h.1.grows hstill.grows, by rw [hstill.log]; exact h.2⟩
  refine Meets.bind hcontract fun contract => ?_
  cases contract with
  | none => exact Meets.pure fun _ h => h.1.bounded
  | some contract =>
    refine Meets.ite (fun _ => Meets.pure fun _ h => h.1.bounded) fun _ => ?_
    refine Meets.ite (fun _ => Meets.ite (fun _ => Meets.pure fun _ h => h.1.bounded)
      fun _ => Meets.pure fun _ h => h.1.bounded) fun _ => ?_
    refine Meets.ite (fun _ => Meets.pure fun _ h => h.1.bounded) fun hleft => ?_
    refine Meets.bind (meets_takeYardstick recorded first.bundle.targets) fun yardstick => ?_
    have hmax : n + (spec.maxRepairAttempts - n) ≤ spec.maxRepairAttempts := by omega
    exact Meets.bind (meets_repairAttempts shadow contract _ n hmax _)
      fun ended => Meets.pure fun _ h => h

end Loop

/-! ## Lifetimes -/

section Lifetimes

variable {spec : TaskSpec} {out : Outside}

theorem meets_runPlan (plan : ResumePlan) :
    Meets (Spent spec plan.repairAttemptsSpent plan.repairAttemptsSpent) (runPlan spec out plan)
      (fun _ => Bounded spec) (Bounded spec) := by
  have hshadow : ∀ e, Event.ofShadow e → Event.Quiet e := by
    intro e he
    cases e <;> first | exact he.elim | exact ⟨rfl, rfl, fun _ _ _ h => nomatch h⟩
  have hspent : Admits spec out
      (Spent spec plan.repairAttemptsSpent plan.repairAttemptsSpent) (Bounded spec)
      LogRow.Quiet Event.Quiet := spent_admits
  have hbounded : Admits spec out (Bounded spec) (Bounded spec) LogRow.Quiet Event.Quiet :=
    bounded_admits
  refine Meets.bind (meets_shadowFor hshadow (fun _ _ h hgrows _ => h.grows hgrows)
    (fun _ h => h.bounded) out.repo plan) fun staging => ?_
  have hsame : (replan plan staging).repairAttemptsSpent = plan.repairAttemptsSpent := by
    unfold replan
    split <;> rfl
  dsimp only
  rw [hsame]
  refine Meets.bind (hspent.ask _) fun _ => ?_
  have hannounced : LogRow.Quiet (announcement spec (replan plan staging) staging.shadow) := by
    unfold announcement
    split <;> exact ⟨rfl, rfl⟩
  refine Meets.bind (hspent.row _ hannounced) fun _ => ?_
  have hturns := hspent.takeTurns (fun _ _ _ => ⟨rfl, rfl⟩)
    (fun _ _ _ => ⟨rfl, rfl, fun _ _ _ h => nomatch h⟩) (replan plan staging) staging.shadow
  refine Meets.bind hturns fun turns => ?_
  refine Meets.bind (hspent.proveAndClassify quiet_proof _) fun first => ?_
  refine Meets.bind (meets_repairLoop _ _ first _) fun repair => ?_
  refine Meets.bind (hbounded.lastProof quiet_proof _ _ first) fun last => ?_
  refine Meets.bind (hbounded.row _ ⟨rfl, rfl⟩) fun _ => ?_
  exact Meets.pure fun _ h => h

/-- A task that is started over has started no conversation, whatever numbers its log holds. -/
theorem Bounded.fresh {w w' : World} (h : Bounded spec w) (hlog : w'.log = w.log)
    (htrace : w'.trace = .began false :: w.trace) : Spent spec 0 0 w' := by
  rcases h with ⟨started, charged, hspent⟩
  rcases hspent.numbers with ⟨k, _, hmax, hnumbers⟩
  refine ⟨⟨k, Nat.zero_le k, hmax, by rw [hlog, hnumbers]⟩, ?_, le_rfl, ?_, ?_, ?_⟩
  · rw [htrace]
    exact Nat.le_refl 0
  · rw [hlog]
    exact hspent.unjudged
  · rw [hlog]
    exact hspent.first
  · intro number before contract hjudged
    rw [htrace] at hjudged
    rw [hlog]
    exact hspent.judged number before contract (by simpa using hjudged)

theorem meets_runTask (resume : Bool) :
    Meets (Bounded spec) (runTask spec out resume) (fun _ => Bounded spec) (Bounded spec) := by
  cases resume with
  | false =>
    have hbegan : Meets (Bounded spec) (note (.began false)) (fun _ => Spent spec 0 0)
        (Bounded spec) :=
      meets_note fun w w' h hstill => h.fresh hstill.log hstill.trace
    refine Meets.bind hbegan fun _ => Meets.bind ((@spent_admits spec out 0 0).look _) fun log => ?_
    exact meets_runPlan freshPlan
  | true =>
    have hbegan : Meets (Bounded spec) (note (.began true)) (fun _ => Bounded spec)
        (Bounded spec) :=
      (@bounded_admits spec out).note _ ⟨rfl, rfl, fun _ _ _ h => nomatch h⟩
    refine Meets.bind hbegan fun _ => ?_
    have hlook : Meets (Bounded spec) (look World.log)
        (fun log w => Spent spec (attemptNumbers log).card (attemptNumbers log).card w)
        (Bounded spec) := by
      refine meets_look (fun w h => h) fun w w' h hstill => ?_
      rcases h with ⟨started, charged, hspent⟩
      exact (hspent.grows hstill.grows).counted
    refine Meets.bind hlook fun log => ?_
    refine Meets.ite (fun _ => Meets.stop fun w h => h.bounded) fun hfinished => ?_
    have hspent := (planResume_begun (Bool.eq_false_iff.2 hfinished)).2
    refine (meets_runPlan (planResume log)).weaken (fun w h => ?_) (fun _ _ h => h) fun _ h => h
    rw [hspent]
    exact h

theorem bounded_start {w : World} (h : TaskStart w) : Bounded spec w := by
  refine ⟨0, 0, ⟨0, le_rfl, Nat.zero_le _, ?_⟩, ?_, le_rfl, ?_, ?_, ?_⟩
  · simp [h.log, attemptNumbers]
  · rw [h.trace]
    exact Nat.le_refl 0
  · intro _
    simp [h.log, attemptNumbers]
  · intro recorded hrecorded
    simp [h.log, repairBaseline] at hrecorded
  · intro number before contract hjudged
    simp [h.trace] at hjudged

theorem bounded_step {label : Option Bool} {w w' : World} (h : Bounded spec w)
    (hstep : TaskStep spec label w w') : Bounded spec w' := by
  cases hstep with
  | lifetime out resume life =>
    have halive : Bounded spec { w with life := life } := by
      rcases h with ⟨started, charged, hspent⟩
      exact ⟨started, charged, hspent.grows (Grows.of_eq rfl rfl)⟩
    exact (meets_runTask resume).final (fun _ _ hdone => hdone) halive
  | between disk ledger =>
    rcases h with ⟨started, charged, hspent⟩
    exact ⟨started, charged, hspent.grows (Grows.of_eq rfl rfl)⟩

theorem bounded_run {ok : Option Bool → World → World → Prop} {w w' : World} (h : Bounded spec w)
    (hrun : TaskRun spec ok w w') : Bounded spec w' := by
  induction hrun with
  | refl => exact h
  | tail _ hstep _ ih => exact bounded_step ih hstep

theorem sinceFresh_eq {trace : List Event} (h : ∀ e ∈ trace, e.isFresh = false) :
    sinceFresh trace = trace := by
  have hall : ∀ e ∈ trace, (!e.isFresh) = true := fun e he => by simp [h e he]
  simpa [sinceFresh] using List.takeWhile_eq_self_iff.mpr hall

/-- Over all its lifetimes a task starts no more repair conversations than its budget, counted from
where it was last started over, and judges every attempt by what was recorded before the first. -/
theorem repair_budget_kept {w w' : World} (hstart : TaskStart w)
    (hrun : TaskRun spec (fun _ _ _ => True) w w') :
    conversations (sinceFresh w'.trace) ≤ spec.maxRepairAttempts ∧
      ((∀ e ∈ w'.trace, e.isFresh = false) →
        conversations w'.trace ≤ spec.maxRepairAttempts) ∧
      ∀ number before contract, .judged number before contract ∈ w'.trace →
        repairBaseline w'.log = some (before, contract) ∧
          RecordedFirst w'.log (before, contract) := by
  rcases bounded_run (bounded_start hstart) hrun with ⟨started, charged, hspent⟩
  rcases hspent.numbers with ⟨k, hcharged, hmax, _⟩
  have hbudget : conversations (sinceFresh w'.trace) ≤ spec.maxRepairAttempts := by
    calc
      conversations (sinceFresh w'.trace) ≤ started := hspent.conversed
      _ ≤ charged := hspent.le
      _ ≤ k := hcharged
      _ ≤ spec.maxRepairAttempts := hmax
  refine ⟨hbudget, ?_, ?_⟩
  · intro hresumed
    rw [sinceFresh_eq hresumed] at hbudget
    exact hbudget
  · intro number before contract hjudged
    have hrecorded := hspent.judged number before contract hjudged
    exact ⟨hrecorded, hspent.first _ hrecorded⟩

end Lifetimes

/-- A process killed in its only attempt, and the one after it. -/
theorem repair_budget_kept_once :
    let first := lifetime plainTask plainOutside true 25 newWorld
    let second := lifetime plainTask plainOutside true 60 first
    conversations first.trace = 1 ∧ second.log.length = 10 ∧
      conversations (sinceFresh second.trace) ≤ plainTask.maxRepairAttempts := by
  have hfirst : TaskRun plainTask (fun _ _ _ => True) newWorld
      (lifetime plainTask plainOutside true 25 newWorld) :=
    (TaskRun.refl newWorld).tail (.lifetime plainOutside true 25 newWorld) trivial
  have hsecond := hfirst.tail (.lifetime plainOutside true 60 _) trivial
  exact ⟨by decide +kernel, by decide +kernel, (repair_budget_kept newWorld_start hsecond).1⟩

end Tempest
