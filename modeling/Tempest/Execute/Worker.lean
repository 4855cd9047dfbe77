import Tempest.Execute.Runner

/-!
# Worker — what the worker makes of a call that came back (`execute/_worker.py`)

`report` is `do_invoke` from the end of the target's call to the emitted line.  It asks foreign
objects for their text, encodes the returned value, reads the captured streams, fingerprints the
ledger and prints one JSON object; only the encoding is guarded, so a step that raises ends the
process with no line at all.

`runBatch_invoke` ties the two ends together: what a batch records for an input is what the input
did in one of the processes it was given to.
-/

namespace Tempest

open Python

/-! ## A call that came back -/

inductive ExcKind where
  | cassetteMiss
  | uninterceptable
  | other
  deriving DecidableEq

inductive CallOutcome where
  | returned (v : PyVal)
  | raised (error : PyExc) (kind : ExcKind)

/-- The ledger of the session an input ran in; the cassette is emitted in record mode only. -/
structure SessionReport where
  effects : Asked (List EffectEntry)
  cassette : Option InputCassette

/-- Everything `do_invoke` reads after the target's callable returned or raised. -/
structure Call where
  outcome : CallOutcome
  /-- `out_buf.getvalue()`: the target may have closed the buffer. -/
  stdout : Asked PyStr
  /-- `_drain_fd1_capture()`, which flushes the process's own `sys.stdout`. -/
  fd1 : Asked PyStr
  stderr : Asked PyStr
  wallNs : Int
  cpuNs : Int
  lines : List Nat
  arcs : List (Nat × Nat)
  session : Option SessionReport

/-- The result of the call as far as the emitted payload tells it. -/
structure Found where
  returnPresent : Bool := false
  returnCanon : Canon := .none
  /-- `type`, `module` and `message`; a module that is no JSON value cannot be printed. -/
  raised : Option (PyStr × Option PyStr × PyStr) := none
  unrepresentable : Option PyStr := none
  cassetteMiss : Option PyStr := none
  uninterceptable : Option PyStr := none

/-- The handler around `canonicalize`: the exception's `reason`, or its `repr`. -/
def CanonError.handled : CanonError → Asked PyStr
  | .unrepresentable reason => .ok reason
  | .surrogates => .ok (lit "surrogates not allowed")
  | .intTooLong => .ok (lit "ValueError('Exceeds the limit (4300 digits) for integer string conversion; use sys.set_int_max_str_digits() to increase the limit')")
  | .raised error =>
    if error.isException then do
      match ← error.reason with
      | some reason => return reason
      | none => error.repr
    else .error error.exit

def CallOutcome.found : CallOutcome → Asked Found
  | .raised error .cassetteMiss => do
    let detail ← error.str
    return { cassetteMiss := some detail }
  | .raised error .uninterceptable => do
    let detail ← error.str
    return { uninterceptable := some detail }
  | .raised error .other => do
    let message ← error.str
    return { raised := some (error.typeName, error.module, message) }
  | .returned v =>
    match canonicalize v with
    | .ok canon => .ok { returnPresent := true, returnCanon := canon }
    | .error e => do
      let reason ← e.handled
      return { unrepresentable := some reason }

def Call.effects (c : Call) : Asked (List EffectEntry) :=
  match c.session with
  | none => .ok []
  | some session => session.effects

def Call.cassette (c : Call) : Option InputCassette := c.session.bind SessionReport.cassette

/-! ## Printing the payload -/

mutual

def Payload.hasLongInt : Payload → Bool
  | .int n => intTooLong n
  | .list items => payloadItemsHaveLongInt items
  | .dict fields => payloadFieldsHaveLongInt fields
  | _ => false

def payloadItemsHaveLongInt : List Payload → Bool
  | [] => false
  | item :: items => item.hasLongInt || payloadItemsHaveLongInt items

def payloadFieldsHaveLongInt : List (PyStr × Payload) → Bool
  | [] => false
  | (_, value) :: fields => value.hasLongInt || payloadFieldsHaveLongInt fields

end

def InputCassette.hasLongInt (cassette : InputCassette) : Bool :=
  (cassette.importRows ++ cassette.inputRows).any fun row => row.payload.hasLongInt

/-- What `json.dumps(payload)` cannot print in a cassette. -/
def Call.cassetteUnprintable (c : Call) : Bool :=
  match c.cassette with
  | none => false
  | some cassette => cassette.hasLongInt

/-- The `raised` dict, when it is a JSON value. -/
def Found.raisedInfo (found : Found) : Asked (Option RaisedInfo) :=
  match found.raised with
  | none => .ok none
  | some (typeName, some module, message) => .ok (some ⟨typeName, module, message⟩)
  | some (_, none, _) => .error 1

/-- The `payload` dict. -/
def Call.payload (c : Call) (index : Nat) (found : Found) (raised : Option RaisedInfo)
    (stdout fd1 stderr : PyStr) (effects : List EffectEntry) : ResultLine where
  index := index
  returnPresent := found.returnPresent
  returnCanon := found.returnCanon
  raised := raised
  stdout := stdout ++ fd1
  stderr := stderr
  wallNs := c.wallNs
  cpuNs := c.cpuNs
  lines := c.lines
  arcs := c.arcs
  unrepresentable := found.unrepresentable
  cassetteMiss := found.cassetteMiss
  uninterceptable := found.uninterceptable
  effects := effects
  cassette := c.cassette

/-- `do_invoke` after the call: the payload that is printed, or the status the process ends with. -/
def report (index : Nat) (c : Call) : Asked ResultLine := do
  let found ← c.outcome.found
  let stdout ← c.stdout
  let fd1 ← c.fd1
  let stderr ← c.stderr
  let effects ← c.effects
  let raised ← found.raisedInfo
  if found.returnCanon.toJson.hasLongInt || c.cassetteUnprintable then .error 1
  else return c.payload index found raised stdout fd1 stderr effects

/-! ## Reading the line back -/

mutual

def Canon.wire : Canon → Canon
  | .str s => .str (wireText s)
  | .seq tag items => .seq tag (wireItems items)
  | .dict pairs => .dict (wirePairs pairs)
  | .obj typeName attrs => .obj (wireText typeName) (wireAttrs attrs)
  | canon => canon

def wireItems : List Canon → List Canon
  | [] => []
  | item :: items => item.wire :: wireItems items

def wirePairs : List (Canon × Canon) → List (Canon × Canon)
  | [] => []
  | (key, value) :: pairs => (key.wire, value.wire) :: wirePairs pairs

def wireAttrs : List (PyStr × Canon) → List (PyStr × Canon)
  | [] => []
  | (name, value) :: attrs => (wireText name, value.wire) :: wireAttrs attrs

end

mutual

def Payload.wire : Payload → Payload
  | .str s => .str (wireText s)
  | .list items => .list (wirePayloads items)
  | .dict fields => .dict (wireFields fields)
  | payload => payload

def wirePayloads : List Payload → List Payload
  | [] => []
  | item :: items => item.wire :: wirePayloads items

def wireFields : List (PyStr × Payload) → List (PyStr × Payload)
  | [] => []
  | (name, value) :: fields => (wireText name, value.wire) :: wireFields fields

end

def CassetteRow.wire (row : CassetteRow) : CassetteRow :=
  ⟨wireText row.surface, wireText row.call, row.ordinal, row.payload.wire⟩

def InputCassette.wire (cassette : InputCassette) : InputCassette :=
  ⟨cassette.importRows.map CassetteRow.wire, cassette.inputRows.map CassetteRow.wire⟩

def EffectEntry.wire (e : EffectEntry) : EffectEntry :=
  ⟨wireText e.surface, wireText e.call, e.ordinal, wireText e.argsFingerprint⟩

def RaisedInfo.wire (info : RaisedInfo) : RaisedInfo :=
  ⟨wireText info.typeName, wireText info.module, wireText info.message⟩

/-- The printed line as the runner's `_parse_line` reads it. -/
def ResultLine.wire (line : ResultLine) : ResultLine :=
  { line with
    returnCanon := line.returnCanon.wire
    raised := line.raised.map RaisedInfo.wire
    stdout := wireText line.stdout
    stderr := wireText line.stderr
    unrepresentable := line.unrepresentable.map wireText
    cassetteMiss := line.cassetteMiss.map wireText
    uninterceptable := line.uninterceptable.map wireText
    effects := line.effects.map EffectEntry.wire
    cassette := line.cassette.map InputCassette.wire }

/-! ## A worker process -/

inductive Invocation where
  | badLiteral (error : PyStr)
  | back (call : Call)
  | died (status : Int)
  | hung

/-- Why the target could not be resolved. -/
inductive ImportFailure where
  /-- `UninterceptableEffect` or `CassetteMiss` under installed shims. -/
  | uninterceptable (detail : PyStr)
  | cassetteMiss (detail : PyStr)
  | other (traceback : PyStr)

/-- One process in invoke mode: how the import goes, what the inputs do, and the exit status of a
process that reached the end of `main`. -/
structure Process where
  importing : Option ImportFailure
  invocation : Nat → Invocation
  exit : Int

def ImportFailure.line : ImportFailure → FatalLine
  | .uninterceptable detail => { uninterceptable := some (wireText detail) }
  | .cassetteMiss detail => { cassetteMiss := some (wireText detail) }
  | .other traceback => { error := some (wireText traceback) }

/-- `do_invoke`, and what the process does after it. -/
def invokeInputs (p : Process) (after : WorkerRun) : List Nat → WorkerRun
  | [] => after
  | i :: rest =>
    match p.invocation i with
    | .badLiteral error =>
      (invokeInputs p after rest).push
        (.fatal { index := some i, error := some (wireText error) })
    | .back call =>
      match report i call with
      | .ok line => (invokeInputs p after rest).push (.result line.wire)
      | .error status => ⟨[], .exited status⟩
    | .died status => ⟨[], .exited status⟩
    | .hung => ⟨[], .silent⟩

def doInvoke (p : Process) (after : WorkerRun) (pending : List Nat) : WorkerRun :=
  match p.importing with
  | some failure => after.push (.fatal failure.line)
  | none => invokeInputs p after pending

/-- `main` in invoke mode. -/
def invokeMain (p : Process) (pending : List Nat) : WorkerRun :=
  (doInvoke p ⟨[], .exited p.exit⟩ pending).push .boot

/-- `do_serve` on one batch, after its acknowledgement; the process waits for the next one. -/
def serveBatch (p : Process) (pending : List Nat) : WorkerRun :=
  doInvoke p ⟨[some .batchEnd], .silent⟩ pending

/-! ## What a batch records -/

def observe (timeoutNs : Int) (i : Nat) : Invocation → Observation
  | .badLiteral error => fatalObservation (some (wireText error))
  | .back call =>
    match report i call with
    | .ok line => completedObservation line.wire
    | .error status => crashedObservation status
  | .died status => crashedObservation status
  | .hung => hungObservation timeoutNs

def Explained (timeoutNs : Int) (procs : Nat → Process) (results : Results) : Prop :=
  ∀ i o, results i = some o → ∃ k, o = observe timeoutNs i ((procs k).invocation i)

theorem Explained.set {timeoutNs : Int} {procs : Nat → Process} {results : Results}
    (h : Explained timeoutNs procs results) {i k : Nat} {o : Observation}
    (ho : o = observe timeoutNs i ((procs k).invocation i)) :
    Explained timeoutNs procs (results.set i o) := by
  intro j o' ho'
  by_cases hj : j = i
  · subst hj
    have heq : o = o' := by simpa using ho'
    exact ⟨k, heq ▸ ho⟩
  · rw [Results.set_other results hj] at ho'
    exact h j o' ho'

theorem report_eq_ok {i : Nat} {c : Call} {line : ResultLine} (h : report i c = .ok line) :
    ∃ found stdout fd1 stderr effects raised, c.outcome.found = .ok found ∧
      c.stdout = .ok stdout ∧ c.fd1 = .ok fd1 ∧ c.stderr = .ok stderr ∧
      c.effects = .ok effects ∧ found.raisedInfo = .ok raised ∧
      found.returnCanon.toJson.hasLongInt = false ∧ c.cassetteUnprintable = false ∧
      line = c.payload i found raised stdout fd1 stderr effects := by
  simp only [report, bind_eq_ok] at h
  rcases h with ⟨found, hfound, stdout, hout, fd1, hfd1, stderr, herr, effects, heff, raised,
    hraised, h⟩
  by_cases hlong : (found.returnCanon.toJson.hasLongInt || c.cassetteUnprintable) = true
  · rw [if_pos hlong] at h
    cases h
  · rw [if_neg hlong] at h
    have hshort : found.returnCanon.toJson.hasLongInt = false ∧ c.cassetteUnprintable = false := by
      simpa using hlong
    exact ⟨found, stdout, fd1, stderr, effects, raised, hfound, hout, hfd1, herr, heff, hraised,
      hshort.1, hshort.2, (Except.ok.inj h).symm⟩

theorem report_index {i : Nat} {c : Call} {line : ResultLine} (h : report i c = .ok line) :
    line.index = i := by
  rcases report_eq_ok h with ⟨_, _, _, _, _, _, _, _, _, _, _, _, _, _, rfl⟩
  rfl

theorem drain_invokeInputs {timeoutNs : Int} {procs : Nat → Process} (k : Nat)
    (after : WorkerRun) :
    ∀ (pending : List Nat) (results : Results), Explained timeoutNs procs results →
      ∃ results' finished, drain false timeoutNs (invokeInputs (procs k) after pending).ending
          pending (invokeInputs (procs k) after pending).lines results = .ok (results', finished) ∧
        Explained timeoutNs procs results' ∧
        (finished = true → ∀ j ∈ pending, (results' j).isSome = true)
  | [], results, h => ⟨results, true, by simp [drain], h, by simp⟩
  | i :: pending, results, h => by
    -- a line leaves the input answered whatever the rest of the stream does
    have hnext : ∀ o, o = observe timeoutNs i ((procs k).invocation i) →
        ∃ results' finished, drain false timeoutNs (invokeInputs (procs k) after pending).ending
            pending (invokeInputs (procs k) after pending).lines (results.set i o) =
              .ok (results', finished) ∧
          Explained timeoutNs procs results' ∧
          (finished = true → ∀ j ∈ i :: pending, (results' j).isSome = true) := by
      intro o ho
      rcases drain_invokeInputs k after pending (results.set i o) (h.set ho) with
        ⟨results', finished, hdrain, hexplained, hall⟩
      refine ⟨results', finished, hdrain, hexplained, fun hf j hj => ?_⟩
      rcases List.mem_cons.1 hj with rfl | htail
      · exact (drain_answers _ _ _ _ _ _ _ _ hdrain).1 j (by simp)
      · exact hall hf j htail
    have hstop : ∀ o, o = observe timeoutNs i ((procs k).invocation i) →
        Explained timeoutNs procs (results.set i o) := fun o ho => h.set ho
    cases hinv : (procs k).invocation i with
    | badLiteral error =>
      simp only [invokeInputs, hinv, WorkerRun.push, drain]
      exact hnext _ (by simp [observe, hinv])
    | died _ | hung =>
      simp only [invokeInputs, hinv, drain]
      exact ⟨_, _, rfl, hstop _ (by simp [observe, hinv]), by simp⟩
    | back call =>
      cases hreport : report i call with
      | error status =>
        simp only [invokeInputs, hinv, hreport, drain]
        exact ⟨_, _, rfl, hstop _ (by simp [observe, hinv, hreport]), by simp⟩
      | ok line =>
        have hline := report_index hreport
        have hindex : line.wire.index = i := hline
        simp only [invokeInputs, hinv, hreport, WorkerRun.push, drain, hindex]
        exact hnext _ (by simp [observe, hinv, hreport])

theorem runLoop_invoke {timeoutNs : Int} {procs : Nat → Process}
    (himport : ∀ k, (procs k).importing = none) :
    ∀ (fuel k : Nat) (pending : List Nat) (results : Results), pending.length < fuel →
      Explained timeoutNs procs results →
      ∃ results', runLoop timeoutNs (fun k => invokeMain (procs k)) fuel k pending results =
          .ok results' ∧ Explained timeoutNs procs results' ∧
        (∀ j, (results j).isSome = true → (results' j).isSome = true) ∧
        ∀ j ∈ pending, (results' j).isSome = true
  | 0, _, _, _, h, _ => absurd h (Nat.not_lt_zero _)
  | _ + 1, _, [], results, _, hexp => ⟨results, rfl, hexp, fun _ h => h, by simp⟩
  | fuel + 1, k, i :: pending, results, h, hexp => by
    rcases drain_invokeInputs k ⟨[], .exited (procs k).exit⟩ (i :: pending) results hexp with
      ⟨results', finished, hdrain, hexp', hall⟩
    have honce : runOnce timeoutNs (invokeMain (procs k) (i :: pending)) (i :: pending) results =
        .ok (results', finished) := by
      simpa [runOnce, invokeMain, doInvoke, himport k, WorkerRun.push, awaitBoot] using hdrain
    have hkeep := (drain_answers _ _ _ _ _ _ _ _ hdrain).1
    simp only [runLoop, honce]
    cases finished with
    | true => exact ⟨results', rfl, hexp', hkeep, hall rfl⟩
    | false =>
      have hshorter := runOnce_shorter honce
      rcases runLoop_invoke himport fuel (k + 1)
        ((i :: pending).filter fun i => (results' i).isNone) results' (by omega) hexp' with
        ⟨final, hrun, hexpf, hkeepf, hallf⟩
      refine ⟨final, hrun, hexpf, fun j hj => hkeepf j (hkeep j hj), fun j hj => ?_⟩
      by_cases hsome : (results' j).isSome = true
      · exact hkeepf j hsome
      · exact hallf j (by simpa [hj] using hsome)

/-- Once the module imports, a batch records for each input what that input did in the process it
ran in. -/
theorem runBatch_invoke (timeoutNs : Int) (procs : Nat → Process) (n : Nat)
    (himport : ∀ k, (procs k).importing = none) :
    ∃ os, runBatch timeoutNs (fun k => invokeMain (procs k)) n = .ok os ∧
      List.Forall₂ (fun i o => ∃ k, o = observe timeoutNs i ((procs k).invocation i))
        (List.range n) os := by
  have hempty : Explained timeoutNs procs fun _ => none := fun _ _ h => by cases h
  rcases runLoop_invoke himport (n + 1) 0 (List.range n) (fun _ => none) (by simp) hempty with
    ⟨results, hrun, hexp, _, hall⟩
  rcases lookups_ok results (List.range n) hall with ⟨os, hos, hvalues⟩
  refine ⟨os, by simp [runBatch, hrun, hos], ?_⟩
  exact hvalues.imp fun i o ho => hexp i o ho

/-- One process that cannot import answers for two inputs: the first is told about the import, the
second gets the status the process ends with. -/
theorem runLoop_unimported {timeoutNs : Int} {procs : Nat → Process} {failure : ImportFailure}
    (himport : ∀ k, (procs k).importing = some failure) :
    ∀ (fuel k : Nat) (pending : List Nat) (results : Results), pending.length < fuel →
      pending.Nodup → (∀ i ∈ pending, results i = none) →
      ∃ after, runLoop timeoutNs (fun k => invokeMain (procs k)) fuel k pending results = .ok after ∧
        (∀ i, i ∉ pending → after i = results i) ∧
        ∀ j i, pending[j]? = some i → after i =
          some (if j % 2 = 0 then fatalObservation failure.line.error
            else crashedObservation (procs (k + j / 2)).exit)
  | 0, _, _, _, hfuel, _, _ => absurd hfuel (Nat.not_lt_zero _)
  | _ + 1, _, [], results, _, _, _ => ⟨results, rfl, fun _ _ => rfl, by simp⟩
  | _ + 1, k, [i], results, _, _, _ => by
    have honce : runOnce timeoutNs (invokeMain (procs k) [i]) [i] results =
        .ok (results.set i (fatalObservation failure.line.error), true) := by
      simp only [invokeMain, doInvoke, himport k]
      rfl
    refine ⟨results.set i (fatalObservation failure.line.error), by simp only [runLoop, honce],
      fun j hj => results.set_other (by simpa using hj) _, fun j i' hj => ?_⟩
    rcases List.getElem?_eq_some_iff.1 hj with ⟨hlt, rfl⟩
    obtain rfl : j = 0 := by simpa using hlt
    exact results.set_self i _
  | fuel + 1, k, i :: i' :: pending, results, hfuel, hnodup, hnone => by
    have hparts : i ≠ i' ∧ i ∉ pending ∧ i' ∉ pending ∧ pending.Nodup := by
      simpa [not_or, and_assoc] using hnodup
    rcases hparts with ⟨hne, hi, hi', hrest⟩
    set between := (results.set i (fatalObservation failure.line.error)).set i'
      (crashedObservation (procs k).exit) with hbetween
    have honce : runOnce timeoutNs (invokeMain (procs k) (i :: i' :: pending)) (i :: i' :: pending)
        results = .ok (between, false) := by
      simp only [invokeMain, doInvoke, himport k]
      rfl
    have hfirst : between i = some (fatalObservation failure.line.error) := by
      rw [hbetween, Results.set_other _ hne, Results.set_self]
    have hsecond : between i' = some (crashedObservation (procs k).exit) := by
      rw [hbetween, Results.set_self]
    have hothers : ∀ j, j ≠ i → j ≠ i' → between j = results j := by
      intro j hj hj'
      rw [hbetween, Results.set_other _ hj', Results.set_other _ hj]
    have hout : ∀ j ∈ pending, between j = results j := by
      intro j hj
      exact hothers j (fun heq => hi (heq ▸ hj)) fun heq => hi' (heq ▸ hj)
    have hleft : ((i :: i' :: pending).filter fun j => (between j).isNone) = pending := by
      rw [List.filter_cons_of_neg (by simp [hfirst]), List.filter_cons_of_neg (by simp [hsecond])]
      refine List.filter_eq_self.2 fun j hj => ?_
      rw [hout j hj, hnone j (by simp [hj])]
      rfl
    simp only [List.length_cons] at hfuel
    rcases @runLoop_unimported timeoutNs procs failure himport fuel (k + 1) pending between
      (by omega) hrest (fun j hj => by
        rw [hout j hj]
        exact hnone j (by simp [hj])) with ⟨after, hrun, hkept, hall⟩
    refine ⟨after, by simp only [runLoop, honce, hleft, hrun], fun j hj => ?_, fun j x hj => ?_⟩
    · simp only [List.mem_cons, not_or] at hj
      rw [hkept j hj.2.2, hothers j hj.1 hj.2.1]
    · rcases j with _ | _ | j
      · obtain rfl : i = x := by simpa using hj
        rw [hkept i hi, hfirst]
        rfl
      · obtain rfl : i' = x := by simpa using hj
        rw [hkept i' hi', hsecond]
        rfl
      · have hparity : (j + 1 + 1) % 2 = j % 2 := Nat.add_mod_right j 2
        have hhalf : k + (j + 1 + 1) / 2 = k + 1 + j / 2 := by omega
        rw [hall j x (by simpa using hj), hparity, hhalf]

end Tempest
