import Tempest.Execute.Driver
import Tempest.Process.Fallible

/-!
# Answered — when a batch comes back whole (`execute/runner.py`)

A driver answers every input, in order, and says of each answer what it rests on, when the lines it
reads stay in step with the inputs it waits for (`answered_of_orderly`).  A garbled line is recorded as
a crash that compares like any other (`garbled_line_compares`).
-/

namespace Tempest
namespace Driver

open Python

variable {interp : Interpreter} {timeoutNs : Int}

/-! ## What an answer rests on -/

/-- A result line that carries the input, or a crash or a hang of the first input without an answer;
everything else is marked. -/
def Answer.Sound (interp : Interpreter) (a : Answer) : Prop :=
  a.observation.syntheticReason.isSome ∨
    match a.origin with
    | .result p =>
      Fields.index p = .ok (some a.input) ∧ completedObservation interp p = .ok a.observation
    | .fatal p =>
      (∀ v, Fields.get? p "index" = some v → slot v = .ok (some a.input)) ∧
        a.unanswered.head? = some a.input
    | .hang | .crash | .endedEarly => a.unanswered.head? = some a.input
    | .garbled | .infrastructure => False

structure Settled (interp : Interpreter) (n : Nat) (results : Answers) (os : List WireObservation) :
    Prop where
  returned : lookups results n = .ok os
  length : os.length = n
  sound : ∀ i < n, ∃ a, Answers.get? results i = some a ∧ os[i]? = some a.observation ∧
    a.input = i ∧ a.Sound interp

/-! ## When the lines stay in step -/

/-- From a cursor on: what ends the batch or is fatal comes while the inputs without an answer are
those that are waited for, no line is garbled, every other line is a complete result, and a stream that
is read to the end has answered its inputs, of a persistent worker at least one. -/
def Orderly (interp : Interpreter) (persistent : Bool) (w : Worker) (pending : List Nat) :
    List Nat → Nat → Answers → Prop
  | [], pos, results =>
    if persistent then
      Answers.left results pending ≠ pending ∧ ∃ kept, confirms w pos "batch_end" = .ok kept
    else Answers.left results pending = []
  | expected :: rest, pos, results =>
    match w.read pos with
    | .empty | .eof => Answers.left results pending = expected :: rest
    | .line raw =>
      match parseLine raw with
      | .error _ | .ok none => False
      | .ok (some p) =>
        if persistent && Fields.flag p "batch_end" then
          Answers.left results pending = expected :: rest
        else if (Fields.get? p "fatal").isSome then
          Answers.left results pending = expected :: rest ∧
            (∀ v, Fields.get? p "index" = some v → slot v = .ok (some expected)) ∧
            Orderly interp persistent w pending rest (pos + 1)
              (Answers.put results pending expected (fatalObservation (fatalError interp p))
                (.fatal p))
        else
          match completedObservation interp p, Fields.index p with
          | .ok o, .ok (some i) =>
            Orderly interp persistent w pending rest (pos + 1)
              (Answers.put results pending i o (.result p))
          | .ok _, .ok none => Orderly interp persistent w pending rest (pos + 1) results
          | _, _ => False

def BatchState.Orderly (interp : Interpreter) (spawn : Nat → List Nat → Worker) (s : BatchState) :
    Prop :=
  s.pending ≠ [] →
    ∃ boot, awaitBoot (spawn s.spawns s.pending) = .ok boot ∧
      (boot = none →
        Driver.Orderly interp false (spawn s.spawns s.pending) s.pending s.pending 1 s.results)

def ServeState.RequestOrderly (interp : Interpreter) (env : Surroundings) (s : ServeState)
    (k pos : Nat) : Prop :=
  env.writable s.turns = true →
    ∃ acked, confirms (env.worker k) pos "batch_ack" = .ok acked ∧
      (acked = true →
        Driver.Orderly interp true (env.worker k) s.pending s.pending (pos + 1) s.results)

def ServeState.Orderly (interp : Interpreter) (env : Surroundings) (s : ServeState) : Prop :=
  s.pending ≠ [] →
    match s.proc, env.alive s.turns with
    | some (k, pos), true => s.RequestOrderly interp env k pos
    | _, _ =>
      ∃ boot, awaitBoot (env.worker s.spawns) = .ok boot ∧
        (boot = none → s.RequestOrderly interp env s.spawns 1)

/-! ## Answers -/

theorem get?_put_self (results : Answers) (pending : List Nat) (i : Nat) (o : WireObservation)
    (origin : Origin) :
    Answers.get? (Answers.put results pending i o origin) i =
      some ⟨i, o, origin, Answers.left results pending⟩ := by
  simp [Answers.get?, Answers.put]

theorem get?_put_other (results : Answers) (pending : List Nat) {i j : Nat} (h : j ≠ i)
    (o : WireObservation) (origin : Origin) :
    Answers.get? (Answers.put results pending i o origin) j = Answers.get? results j := by
  simp [Answers.get?, Answers.put, Ne.symm h]

theorem get?_put_isSome (results : Answers) (pending : List Nat) (i j : Nat) (o : WireObservation)
    (origin : Origin) :
    (Answers.get? (Answers.put results pending i o origin) j).isSome ↔
      j = i ∨ (Answers.get? results j).isSome := by
  by_cases h : j = i
  · simp [h, get?_put_self]
  · simp [h, get?_put_other results pending h]

variable {i n pos : Nat} {after before results : Answers}

theorem input_of_get? {a : Answer} (h : Answers.get? results i = some a) : a ∈ results ∧ a.input = i :=
  ⟨List.mem_of_find?_eq_some h, by simpa using List.find?_some h⟩

variable {pending : List Nat}

theorem mem_left :
    i ∈ Answers.left results pending ↔ i ∈ pending ∧ (Answers.get? results i).isNone := by
  simp [Answers.left]

/-- An answer takes its input off the list. -/
theorem left_put {pending rest : List Nat} {o : WireObservation} {origin : Origin}
    (hnodup : pending.Nodup) (h : Answers.left results pending = i :: rest) :
    Answers.left (Answers.put results pending i o origin) pending = rest := by
  have hunique : (i :: rest).Nodup := h ▸ hnodup.filter _
  have hsplit : Answers.left (Answers.put results pending i o origin) pending =
      (Answers.left results pending).filter fun j => j ≠ i := by
    unfold Answers.left
    rw [List.filter_filter]
    apply List.filter_congr
    intro j _
    by_cases hj : j = i
    · simp [hj, get?_put_self]
    · simp [hj, get?_put_other results pending hj]
  have hkeep : rest.filter (fun j => j ≠ i) = rest := by
    rw [List.filter_eq_self]
    intro j hj
    have hne : j ≠ i := fun heq => (List.nodup_cons.1 hunique).1 (heq ▸ hj)
    simp [hne]
  rw [hsplit, h, List.filter_cons]
  simpa using hkeep

structure Grows (interp : Interpreter) (before after : Answers) : Prop where
  sound : (∀ a ∈ before, a.Sound interp) → ∀ a ∈ after, a.Sound interp
  kept : ∀ i, (Answers.get? before i).isSome → (Answers.get? after i).isSome

theorem Grows.refl (results : Answers) : Grows interp results results :=
  ⟨fun h => h, fun _ h => h⟩

theorem Grows.trans {a b c : Answers} (hab : Grows interp a b) (hbc : Grows interp b c) :
    Grows interp a c :=
  ⟨fun h => hbc.sound (hab.sound h), fun i h => hbc.kept i (hab.kept i h)⟩

theorem Grows.put {o : WireObservation} {origin : Origin}
    (h : Answer.Sound interp ⟨i, o, origin, Answers.left results pending⟩) :
    Grows interp results (Answers.put results pending i o origin) := by
  refine ⟨fun hall a ha => ?_, fun j hj => (get?_put_isSome _ _ _ _ _ _).2 (Or.inr hj)⟩
  rcases List.mem_cons.1 ha with rfl | hold
  · exact h
  · exact hall a hold

/-- Marked answers for whatever is left. -/
theorem putAll_synthetic (pending : List Nat) (reason : PyStr) (is : List Nat) :
    ∀ results, Grows interp results
        (Answers.putAll results pending (syntheticObservation reason) .infrastructure is) ∧
      ∀ i ∈ is, (Answers.get? (Answers.putAll results pending (syntheticObservation reason)
        .infrastructure is) i).isSome := by
  induction is with
  | nil => exact fun results => ⟨Grows.refl _, fun i hi => by cases hi⟩
  | cons i is ih =>
    intro results
    have hfirst : Grows interp results
        (Answers.put results pending i (syntheticObservation reason) .infrastructure) :=
      Grows.put (Or.inl rfl)
    rcases ih (Answers.put results pending i (syntheticObservation reason) .infrastructure) with
      ⟨hgrows, hall⟩
    refine ⟨hfirst.trans hgrows, fun j hj => ?_⟩
    rcases List.mem_cons.1 hj with rfl | hlater
    · exact hgrows.kept j (by simp [get?_put_self])
    · exact hall j hlater

/-- A worker that ends its batch where it is waited for answers whatever is left. -/
theorem putAll_endedEarly (hnodup : pending.Nodup) (o : WireObservation) (is : List Nat) :
    ∀ results, Answers.left results pending = is →
      Grows interp results (Answers.putAll results pending o .endedEarly is) ∧
        Answers.left (Answers.putAll results pending o .endedEarly is) pending = [] := by
  induction is with
  | nil => exact fun results h => ⟨Grows.refl _, h⟩
  | cons i is ih =>
    intro results h
    have hfirst : Grows interp results (Answers.put results pending i o .endedEarly) :=
      Grows.put (Or.inr (by simp [h]))
    rcases ih _ (left_put hnodup h) with ⟨hgrows, hnone⟩
    exact ⟨hfirst.trans hgrows, hnone⟩

/-! ## The lines of one request -/

structure Served (interp : Interpreter) (persistent : Bool) (w : Worker) (pending : List Nat)
    (before after : Answers) (stop : Stop) (pos : Nat) : Prop where
  grows : Grows interp before after
  finished : stop = .finished →
    if persistent then
      Answers.left after pending ≠ pending ∧ ∃ kept, confirms w pos "batch_end" = .ok kept
    else Answers.left after pending = []
  broke : stop = .broke → ∃ i ∈ pending, (Answers.get? after i).isSome
  endedEarly : stop = .endedEarly → persistent = true ∧ Answers.left after pending = []

theorem Served.of_grows {persistent : Bool} {w : Worker} {before between after : Answers} {stop : Stop}
    (h : Grows interp before between)
    (hserved : Served interp persistent w pending between after stop pos) :
    Served interp persistent w pending before after stop pos :=
  ⟨h.trans hserved.grows, hserved.finished, hserved.broke, hserved.endedEarly⟩

theorem drain_served {persistent : Bool} {w : Worker} {pending : List Nat} (hnodup : pending.Nodup)
    (todo : List Nat) : ∀ (pos : Nat) (results : Answers), todo ⊆ pending →
      Orderly interp persistent w pending todo pos results →
        ∃ after stop pos', drain interp timeoutNs persistent w pending todo pos results =
          .ok (after, stop, pos') ∧ Served interp persistent w pending results after stop pos' := by
  induction todo with
  | nil =>
    intro pos results _ h
    refine ⟨_, _, _, rfl, Grows.refl _, fun _ => h, ?_, ?_⟩
    · intro hstop
      cases hstop
    · intro hstop
      cases hstop
  | cons expected rest ih =>
    intro pos results hsub h
    have hmem : expected ∈ pending := hsub List.mem_cons_self
    have hrest : rest ⊆ pending := fun i hi => hsub (List.mem_cons_of_mem _ hi)
    -- the input in flight is answered and the process is given up
    have hbroke : ∀ (o : WireObservation) (origin : Origin),
        Answer.Sound interp ⟨expected, o, origin, Answers.left results pending⟩ →
          Served interp persistent w pending results (Answers.put results pending expected o origin)
            .broke (pos + 1) := by
      intro o origin hsound
      refine ⟨Grows.put hsound, ?_, fun _ => ⟨expected, hmem, ?_⟩, ?_⟩
      · intro hstop
        cases hstop
      · simp [get?_put_self]
      · intro hstop
        cases hstop
    unfold Orderly at h
    unfold drain
    cases hread : w.read pos with
    | empty =>
      simp only [hread] at h
      exact ⟨_, _, _, rfl, hbroke _ _ (Or.inr (by simp [h]))⟩
    | eof =>
      simp only [hread] at h
      exact ⟨_, _, _, rfl, hbroke _ _ (Or.inr (by simp [h]))⟩
    | line raw =>
      simp only [hread] at h
      cases hparse : parseLine raw with
      | error e => simp [hparse] at h
      | ok payload =>
        cases payload with
        | none => simp [hparse] at h
        | some p =>
          simp only [hparse] at h ⊢
          split_ifs at h ⊢ with hend hfatal
          · rcases putAll_endedEarly hnodup (fatalObservation endedEarly) _ results h with
              ⟨hgrows, hnone⟩
            refine ⟨_, _, _, rfl, hgrows, ?_, ?_, fun _ => ⟨?_, hnone⟩⟩
            · intro hstop
              cases hstop
            · intro hstop
              cases hstop
            · simp only [Bool.and_eq_true] at hend
              exact hend.1
          · rcases h with ⟨hleft, hindex, horderly⟩
            rcases ih (pos + 1) _ hrest horderly with ⟨after, stop, pos', hdrain, hserved⟩
            have hsound : Answer.Sound interp ⟨expected,
                fatalObservation (fatalError interp p), .fatal p,
                Answers.left results pending⟩ := Or.inr ⟨hindex, by simp [hleft]⟩
            exact ⟨after, stop, pos', hdrain, hserved.of_grows (Grows.put hsound)⟩
          · cases hcompleted : completedObservation interp p with
            | error e => simp [hcompleted] at h
            | ok o =>
              cases hslot : Fields.index p with
              | error e => simp [hcompleted, hslot] at h
              | ok slot =>
                cases slot with
                | none =>
                  simp only [hcompleted, hslot] at h ⊢
                  exact ih (pos + 1) _ hrest h
                | some i =>
                  simp only [hcompleted, hslot] at h ⊢
                  rcases ih (pos + 1) _ hrest h with
                    ⟨after, stop, pos', hdrain, hserved⟩
                  have hsound : Answer.Sound interp
                      ⟨i, o, .result p, Answers.left results pending⟩ :=
                    Or.inr ⟨hslot, hcompleted⟩
                  exact ⟨after, stop, pos', hdrain,
                    hserved.of_grows (Grows.put hsound)⟩

/-! ## Whole batches -/

structure Holding (interp : Interpreter) (n : Nat) (pending : List Nat) (results : Answers) : Prop where
  nodup : pending.Nodup
  sound : ∀ a ∈ results, a.Sound interp
  answered : ∀ i < n, i ∉ pending → (Answers.get? results i).isSome

theorem holding_start (n : Nat) : Holding interp n (List.range n) [] :=
  ⟨List.nodup_range, fun _ ha => (by cases ha), fun _ hi hnot => absurd (List.mem_range.2 hi) hnot⟩

theorem Holding.left (h : Holding interp n pending before) (hgrows : Grows interp before after) :
    Holding interp n (Answers.left after pending) after := by
  refine ⟨h.nodup.filter _, hgrows.sound h.sound, fun i hi hnot => ?_⟩
  by_cases hmem : i ∈ pending
  · have hsome : ¬ (Answers.get? after i).isNone := fun hnone => hnot (mem_left.2 ⟨hmem, hnone⟩)
    exact Option.isSome_iff_ne_none.2 (by simpa using hsome)
  · exact hgrows.kept i (h.answered i hi hmem)

theorem Holding.complete (h : Holding interp n pending before) (hgrows : Grows interp before after)
    (hall : ∀ i ∈ pending, (Answers.get? after i).isSome) : Holding interp n [] after := by
  refine ⟨List.nodup_nil, hgrows.sound h.sound, fun i hi _ => ?_⟩
  by_cases hmem : i ∈ pending
  · exact hall i hmem
  · exact hgrows.kept i (h.answered i hi hmem)

/-- An input with an answer is no longer asked about. -/
theorem left_shorter (hi : i ∈ pending) (hsome : (Answers.get? results i).isSome) :
    (Answers.left results pending).length < pending.length := by
  refine List.length_filter_lt_length_iff_exists.2 ⟨i, hi, ?_⟩
  simp [Option.isSome_iff_ne_none.1 hsome]

theorem left_shorter_of_ne (h : Answers.left results pending ≠ pending) :
    (Answers.left results pending).length < pending.length := by
  rcases Nat.lt_or_ge (Answers.left results pending).length pending.length with hlt | hge
  · exact hlt
  · exact absurd (List.filter_sublist.eq_of_length_le hge) h

theorem settled_of_holding (h : Holding interp n [] results) :
    ∃ os, Settled interp n results os := by
  have hall : ∀ i < n, ∃ a, Answers.get? results i = some a := by
    intro i hi
    exact Option.isSome_iff_exists.1 (h.answered i hi (by simp))
  have hreturns : ∃ os, lookups results n = .ok os := by
    refine exists_mapM_ok_iff.2 fun i hi => ?_
    rcases hall i (List.mem_range.1 hi) with ⟨a, ha⟩
    exact ⟨a.observation, by simp [ha]⟩
  rcases hreturns with ⟨os, hos⟩
  have hzip := mapM_ok_iff.1 hos
  refine ⟨os, hos, by simpa using hzip.length_eq.symm, fun i hi => ?_⟩
  rcases hall i hi with ⟨a, ha⟩
  rcases input_of_get? ha with ⟨hmem, hinput⟩
  have hlen : i < os.length := by
    rw [← hzip.length_eq]
    simpa using hi
  have hat := List.Forall₂.get hzip (by simpa using hi) hlen
  simp [ha] at hat
  exact ⟨a, ha, by simp [List.getElem?_eq_getElem hlen, hat], hinput, h.sound a hmem⟩

theorem batchTurn_of_orderly {spawn : Nat → List Nat → Worker} {s : BatchState}
    (horderly : s.Orderly interp spawn) (h : Holding interp n s.pending s.results) :
    (∃ a, batchTurn interp timeoutNs spawn s = .ok (.inr a) ∧ Holding interp n [] a) ∨
      ∃ s', batchTurn interp timeoutNs spawn s = .ok (.inl s') ∧
        Holding interp n s'.pending s'.results ∧ s'.pending.length < s.pending.length := by
  by_cases hnone : s.pending = []
  · exact Or.inl ⟨s.results, by simp [batchTurn, hnone], hnone ▸ h⟩
  rcases horderly hnone with ⟨boot, hboot, horderly⟩
  cases boot with
  | some reason =>
    rcases @putAll_synthetic interp s.pending reason s.pending s.results with ⟨hgrows, hall⟩
    exact Or.inl ⟨_, by simp [batchTurn, hnone, hboot], h.complete hgrows hall⟩
  | none =>
    rcases @drain_served interp timeoutNs _ _ _ h.nodup s.pending 1 s.results (List.Subset.refl _)
      (horderly rfl) with ⟨after, stop, pos, hdrain, hserved⟩
    cases stop with
    | finished =>
      have hleft : Answers.left after s.pending = [] := hserved.finished rfl
      have hdone := h.left hserved.grows
      rw [hleft] at hdone
      exact Or.inl ⟨after, by simp [batchTurn, hnone, hboot, hdrain], hdone⟩
    | broke =>
      rcases hserved.broke rfl with ⟨i, hi, hsome⟩
      exact Or.inr ⟨⟨s.spawns + 1, Answers.left after s.pending, after⟩,
        by simp [batchTurn, hnone, hboot, hdrain], h.left hserved.grows, left_shorter hi hsome⟩
    | endedEarly => cases (hserved.endedEarly rfl).1

/-! ## The persistent worker -/

def ServeState.size (s : ServeState) : Nat := s.pending.length + (maxRespawnsPerRun + 1 - s.respawns)

/-- A turn ends with every input answered, or leads to a smaller state. -/
def ServeState.Proceeds (interp : Interpreter) (n : Nat) (s : ServeState)
    (next : Except LineError (ServeState ⊕ Answers)) : Prop :=
  (∃ a, next = .ok (.inr a) ∧ Holding interp n [] a) ∨
    ∃ s', next = .ok (.inl s') ∧ Holding interp n s'.pending s'.results ∧ s'.size < s.size

variable {s : ServeState}

theorem retry_proceeds (h : Holding interp n s.pending s.results) (spawns : Nat) (reason : PyStr) :
    s.Proceeds interp n (.ok (s.retry spawns reason)) := by
  unfold ServeState.retry
  split_ifs with hspent
  · rcases @putAll_synthetic interp s.pending reason s.pending s.results with ⟨hgrows, hall⟩
    exact Or.inl ⟨_, rfl, h.complete hgrows hall⟩
  · refine Or.inr ⟨_, rfl, h, ?_⟩
    simp only [ServeState.size]
    omega

theorem after_proceeds {w : Worker} {k spawns pos : Nat} {stop : Stop}
    (h : Holding interp n s.pending s.results) (hsome : s.pending ≠ [])
    (hserved : Served interp true w s.pending s.results after stop pos) :
    s.Proceeds interp n (s.after w k spawns after pos stop) := by
  have hleft := h.left hserved.grows
  cases stop with
  | finished =>
    rcases hserved.finished rfl with ⟨hprogress, kept, hkept⟩
    have hshorter := left_shorter_of_ne hprogress
    unfold ServeState.after
    rw [hkept]
    refine Or.inr ⟨_, rfl, hleft, ?_⟩
    simp only [ServeState.size]
    omega
  | broke =>
    rcases hserved.broke rfl with ⟨i, hi, hanswered⟩
    have hshorter := left_shorter hi hanswered
    unfold ServeState.after
    dsimp only
    split_ifs with hspent
    · rcases @putAll_synthetic interp s.pending
          (lit "respawn budget exhausted before this input could run")
          (Answers.left after s.pending) after with ⟨hgrows, hall⟩
      exact Or.inl ⟨_, rfl, hleft.complete hgrows hall⟩
    · refine Or.inr ⟨_, rfl, hleft, ?_⟩
      simp only [ServeState.size]
      omega
  | endedEarly =>
    have hnone := (hserved.endedEarly rfl).2
    refine Or.inr ⟨_, rfl, hleft, ?_⟩
    have hpos := List.length_pos_of_ne_nil hsome
    simp only [ServeState.size, hnone, List.length_nil]
    omega

theorem request_proceeds {env : Surroundings} {n k pos spawns : Nat}
    (h : Holding interp n s.pending s.results) (hsome : s.pending ≠ [])
    (horderly : s.RequestOrderly interp env k pos) :
    s.Proceeds interp n (s.request interp timeoutNs env k pos spawns) := by
  unfold ServeState.request
  dsimp only
  split_ifs with hwritable
  · exact retry_proceeds h _ _
  · rcases horderly (by simpa using hwritable) with ⟨acked, hacked, horderly⟩
    cases acked with
    | false =>
      rw [hacked]
      exact retry_proceeds h _ _
    | true =>
      rcases @drain_served interp timeoutNs _ _ _ h.nodup s.pending (pos + 1) s.results
        (List.Subset.refl _) (horderly rfl) with ⟨after, stop, pos', hdrain, hserved⟩
      rw [hacked, hdrain]
      exact after_proceeds h hsome hserved

theorem serveTurn_of_orderly {env : Surroundings} (horderly : s.Orderly interp env)
    (h : Holding interp n s.pending s.results) :
    s.Proceeds interp n (serveTurn interp timeoutNs env s) := by
  by_cases hnone : s.pending = []
  · exact Or.inl ⟨s.results, by simp [serveTurn, hnone], hnone ▸ h⟩
  have hready := horderly hnone
  unfold serveTurn
  rw [if_neg hnone]
  have hfresh : ∀ next, (∃ boot, awaitBoot (env.worker s.spawns) = .ok boot ∧
        (boot = none → s.RequestOrderly interp env s.spawns 1)) →
      (∀ reason, awaitBoot (env.worker s.spawns) = .ok (some reason) →
        next = .ok (s.retry (s.spawns + 1)
          (lit "worker died or hung before booting; respawn budget exhausted"))) →
      (awaitBoot (env.worker s.spawns) = .ok none →
        next = s.request interp timeoutNs env s.spawns 1 (s.spawns + 1)) →
      s.Proceeds interp n next := by
    rintro next ⟨boot, hboot, hrequest⟩ hdead hlives
    cases boot with
    | some reason => exact hdead reason hboot ▸ retry_proceeds h _ _
    | none => exact hlives hboot ▸ request_proceeds h hnone (hrequest rfl)
  -- a process at hand that still lives takes the request, otherwise a fresh one does
  cases hproc : s.proc with
  | none =>
    rw [hproc] at hready
    exact hfresh _ hready (fun _ hboot => by rw [hboot]) fun hboot => by rw [hboot]
  | some place =>
    cases halive : env.alive s.turns with
    | true =>
      rw [hproc, halive] at hready
      exact request_proceeds h hnone hready
    | false =>
      rw [hproc, halive] at hready
      exact hfresh _ hready (fun _ hboot => by rw [hboot]) fun hboot => by rw [hboot]

/-! ## Both drivers -/

/-- A run of `n` inputs over the process that is at hand. -/
def serveStart (proc : Option (Nat × Nat)) (spawns turns n : Nat) : ServeState :=
  ⟨proc, spawns, turns, 0, List.range n, []⟩

/-- Whatever the workers write: a driver whose lines stay in step in every turn it gets to returns
after finitely many turns, raises nothing, and answers every input in order. -/
theorem answered_of_orderly (interp : Interpreter) (timeoutNs : Int) (n : Nat) :
    (∀ spawn : Nat → List Nat → Worker,
      (∀ s, Visits (batchTurn interp timeoutNs spawn) (batchStart n) s → s.Orderly interp spawn) →
        ∃ results os, Returns (batchTurn interp timeoutNs spawn) (batchStart n) results ∧
          Settled interp n results os) ∧
    ∀ (env : Surroundings) (proc : Option (Nat × Nat)) (spawns turns : Nat),
      (∀ s, Visits (serveTurn interp timeoutNs env) (serveStart proc spawns turns n) s →
        s.Orderly interp env) →
        ∃ results os,
          Returns (serveTurn interp timeoutNs env) (serveStart proc spawns turns n) results ∧
            Settled interp n results os := by
  constructor
  · intro spawn horderly
    have hreturns := returns_of_decreasing (fun s : BatchState => s.pending.length)
      (fun s hvisit hinv => batchTurn_of_orderly (horderly s hvisit) hinv) (holding_start n)
    rcases hreturns with ⟨results, hreturns, hholding⟩
    rcases settled_of_holding hholding with ⟨os, hos⟩
    exact ⟨results, os, hreturns, hos⟩
  · intro env proc spawns turns horderly
    have hreturns := returns_of_decreasing ServeState.size
      (fun s hvisit hinv => serveTurn_of_orderly (horderly s hvisit) hinv) (holding_start n)
    rcases hreturns with ⟨results, hreturns, hholding⟩
    rcases settled_of_holding hholding with ⟨os, hos⟩
    exact ⟨results, os, hreturns, hos⟩

/-! ## Some workers -/

/-- `int` and `str` as far as the workers below need them. -/
def smallInterpreter : Interpreter where
  depth := 900
  roomy := bareInterpreter.roomy
  floatOf _ := .finite false 0 0
  strOf v :=
    match v with
    | .int n => intText n
    | _ => []
  intOfText s := if s = lit "5" then some 5 else none

def resultFields (i : Int) : Fields :=
  [(lit "index", .int i), (lit "return_present", .bool true), (lit "return_canon", .int 7),
    (lit "raised", .null), (lit "stdout", .str []), (lit "stderr", .str []),
    (lit "wall_ns", .int 5), (lit "cpu_ns", .int 5)]

def resultObservation : WireObservation where
  outcome := .completed
  returnPresent := true
  returnCanon := .int 7
  wallNs := 5
  cpuNs := 5

def endingWorker (lines : List RawLine) (exitStatus : Int) : Worker where
  read pos :=
    match lines[pos]? with
    | some raw => .line raw
    | none => .eof
  exitStatus := exitStatus

def flagLine (key : String) : RawLine := .ok (.obj [(lit key, .bool true)])

/-- The first process answers input 0 and crashes on input 1. -/
def crashingSpawn : Nat → List Nat → Worker := fun _ _ =>
  endingWorker [flagLine "boot", .ok (.obj (resultFields 0))] 3

def crashedAnswers : Answers :=
  Answers.put (Answers.put [] [0, 1] 0 resultObservation (.result (resultFields 0))) [0, 1] 1
    (crashedObservation 3) .crash

theorem crashing_first (timeoutNs : Int) :
    batchTurn smallInterpreter timeoutNs crashingSpawn (batchStart 2) =
      .ok (.inl ⟨1, [], crashedAnswers⟩) := by rfl

/-- A persistent worker that answers its only input. -/
def steady : Surroundings where
  worker _ :=
    endingWorker [flagLine "boot", flagLine "batch_ack", .ok (.obj (resultFields 0)),
      flagLine "batch_end"] 0
  alive _ := true
  writable _ := true

theorem steady_first (timeoutNs : Int) :
    serveTurn smallInterpreter timeoutNs steady (serveStart none 0 0 1) =
      .ok (.inl ⟨some (0, 4), 1, 1, 0, [],
        Answers.put [] [0] 0 resultObservation (.result (resultFields 0))⟩) := by rfl

theorem crashing_orderly (timeoutNs : Int) (s : BatchState)
    (h : Visits (batchTurn smallInterpreter timeoutNs crashingSpawn) (batchStart 2) s) :
    s.Orderly smallInterpreter crashingSpawn := by
  rcases h.cases_first with rfl | ⟨s', hs', hrest⟩
  · exact fun _ => ⟨none, rfl, fun _ => rfl⟩
  · obtain rfl := Sum.inl.inj (Except.ok.inj ((crashing_first timeoutNs).symm.trans hs'))
    rcases hrest.cases_first with rfl | ⟨s', hs', _⟩
    · exact fun hsome => absurd rfl hsome
    · cases hs'

theorem steady_orderly (timeoutNs : Int) (s : ServeState)
    (h : Visits (serveTurn smallInterpreter timeoutNs steady) (serveStart none 0 0 1) s) :
    s.Orderly smallInterpreter steady := by
  rcases h.cases_first with rfl | ⟨s', hs', hrest⟩
  · refine fun _ => ⟨none, rfl, fun _ _ => ⟨true, rfl, fun _ => ?_⟩⟩
    have hanswered : Answers.left (Answers.put [] [0] 0 resultObservation
        (.result (resultFields 0))) [0] ≠ [0] := by decide
    exact ⟨hanswered, true, rfl⟩
  · obtain rfl := Sum.inl.inj (Except.ok.inj ((steady_first timeoutNs).symm.trans hs'))
    rcases hrest.cases_first with rfl | ⟨s', hs', _⟩
    · exact fun hsome => absurd rfl hsome
    · cases hs'

theorem answered_of_orderly_crash :
    (∃ results os, Returns (batchTurn smallInterpreter 10 crashingSpawn) (batchStart 2) results ∧
      Settled smallInterpreter 2 results os) ∧
    ∃ results os, Returns (serveTurn smallInterpreter 10 steady) (serveStart none 0 0 1) results ∧
      Settled smallInterpreter 1 results os :=
  ⟨(answered_of_orderly smallInterpreter 10 2).1 crashingSpawn (crashing_orderly 10),
    (answered_of_orderly smallInterpreter 10 1).2 steady none 0 0 (steady_orderly 10)⟩

/-- A process that says something else than JSON. -/
def garbledSpawn : Nat → List Nat → Worker := fun _ _ =>
  endingWorker [flagLine "boot", .error .malformed] 0

theorem garbled_first (timeoutNs : Int) :
    batchTurn smallInterpreter timeoutNs garbledSpawn (batchStart 1) =
      .ok (.inl ⟨1, [], Answers.put [] [0] 0 (fatalObservation garbledLine) .garbled⟩) := by rfl

theorem returns_garbled (timeoutNs : Int) :
    Returns (batchTurn smallInterpreter timeoutNs garbledSpawn) (batchStart 1)
      (Answers.put [] [0] 0 (fatalObservation garbledLine) .garbled) :=
  .next (garbled_first timeoutNs) (.done rfl)

/-- The input of a garbled line comes back as a crash with exit status 1, which is not marked. -/
theorem garbled_line_compares :
    (∃ results os, Returns (batchTurn smallInterpreter 10 garbledSpawn) (batchStart 1) results ∧
      lookups results 1 = .ok os ∧ os = [fatalObservation garbledLine] ∧
        ∀ o ∈ os, o.syntheticReason = none) ∧
    ¬ ∃ results os,
      Returns (batchTurn smallInterpreter 10 garbledSpawn) (batchStart 1) results ∧
        Settled smallInterpreter 1 results os := by
  constructor
  · refine ⟨_, [fatalObservation garbledLine], returns_garbled 10, rfl, rfl, ?_⟩
    intro o ho
    rw [List.mem_singleton.1 ho]
    rfl
  · rintro ⟨results, os, hreturns, hsettled⟩
    obtain rfl := hreturns.unique (returns_garbled 10)
    rcases hsettled.sound 0 Nat.zero_lt_one with ⟨a, ha, _, _, hsound⟩
    rw [get?_put_self] at ha
    cases ha
    rcases hsound with hmarked | hnever
    · cases hmarked
    · exact hnever

end Driver
end Tempest
