import Tempest.Prove.Record

/-!
# TsDual — base against head for a TypeScript target (`execute/ts_dual.py`)

The base is run twice and must agree with itself, then the head is run once; a divergence is
reported when two fresh pairs of processes show it again.  What an observation is and how two of them
compare is up to a `TsReader`.
-/

namespace Tempest

open Python

/-- `TsImportFailed` and `TsExecUnavailableError`, with their texts. -/
inductive TsFailure where
  | importFailed (error : PyStr)
  | unavailable (error : PyStr)

structure TsReader (ω : Type) where
  compare : ω → ω → CompareResult
  executedLines : ω → Finset Nat
  summary : ω → PyStr
  printable : CodePoint → Bool

/-- The generated inputs as JSON, the three batches by the index of the input, and the fresh runs of
`_confirm` by input and attempt. -/
structure TsLab (ω : Type) where
  inputs : List PyStr
  baseOne : Except TsFailure (Nat → ω)
  baseTwo : Except TsFailure (Nat → ω)
  head : Except TsFailure (Nat → ω)
  freshBase : Nat → Nat → Except TsFailure ω
  freshHead : Nat → Nat → Except TsFailure ω

structure TsState where
  equivalent : Nat := 0
  unprovable : Nat := 0
  divergences : List TsDivergenceFound := []

def tsConfirmAttempts : Nat := 2

variable {ω : Type} (reader : TsReader ω) (lab : TsLab ω)

/-- The attempts of `_confirm`: the same class every time. -/
def tsConfirmFrom (i : Nat) (first : DivergenceClass) : List Nat → Except TsFailure Bool
  | [] => .ok true
  | attempt :: attempts => do
    let b ← lab.freshBase i attempt
    let h ← lab.freshHead i attempt
    match reader.compare b h with
    | .diverged d => if d.divergenceClass = first then tsConfirmFrom i first attempts else .ok false
    | _ => .ok false

def tsConfirm (i : Nat) (first : DivergenceClass) : Except TsFailure Bool :=
  tsConfirmFrom reader lab i first (List.range tsConfirmAttempts)

def tsFound (input : PyStr) (d : Diverged) (b h : ω) : TsDivergenceFound where
  argsJson := input
  divergenceClass := d.divergenceClass
  severity := d.severity
  detail := d.detail.flatMap (Piece.render reader.printable)
  baseSummary := reader.summary b
  headSummary := reader.summary h

/-- One turn of the loop over the inputs. -/
def tsRow (base head : Nat → ω) (s : TsState) (p : PyStr × Nat) : Except TsFailure TsState :=
  match reader.compare (base p.2) (head p.2) with
  | .equal => .ok { s with equivalent := s.equivalent + 1 }
  | .unprovable _ => .ok { s with unprovable := s.unprovable + 1 }
  | .diverged d => do
    let confirmed ← tsConfirm reader lab p.2 d.divergenceClass
    let found := tsFound reader p.1 d (base p.2) (head p.2)
    return if confirmed then { s with divergences := s.divergences ++ [found] } else s

def tsExecuted (n : Nat) (base head : Nat → ω) : Finset Nat :=
  (List.range n).foldl
    (fun lines i => lines ∪ (reader.executedLines (base i) ∪ reader.executedLines (head i))) ∅

/-- `coverage`: in percent. -/
def tsCoverage (changedLines executed : Finset Nat) : ℚ :=
  if changedLines = ∅ then 0
  else 100 * (executed ∩ changedLines).card / changedLines.card

def tsUnstable (input : PyStr) : PyStr :=
  lit "base disagrees with itself on input " ++ input ++
    lit " — determinism could not be reached under the JS shims (wave 1 pins Date/Math.random/performance/crypto only)"

def tsUncomparable (n unprovable : Nat) : PyStr :=
  lit "0 of " ++ natText n ++ lit " inputs produced a comparable observation (" ++
    natText unprovable ++ lit " unprovable)"

def tsUninvocable (exportName relPath error : PyStr) : PyStr :=
  lit "could not invoke `" ++ exportName ++ lit "` in `" ++ relPath ++ lit "`: " ++ error

def tsUnproven (reasonCode : ReasonCode) (detail : PyStr) (inputsRun : Nat) : TsOutcome :=
  ⟨.unproven, some reasonCode, some detail, inputsRun, 0, 0, 0, []⟩

/-- The end of `prove_ts_target`. -/
def tsOutcome (n : Nat) (s : TsState) (coverage : ℚ) : TsOutcome :=
  if s.divergences ≠ [] then
    ⟨.divergent, none, none, n, s.equivalent, s.unprovable, coverage, s.divergences⟩
  else if s.equivalent = 0 then
    { tsUnproven .valueUnserializable (tsUncomparable n s.unprovable) n with
      unprovableInputs := s.unprovable
      changedLineCoverage := coverage }
  else ⟨.equivalentUnderBudget, none, none, n, s.equivalent, s.unprovable, coverage, []⟩

/-- The first input on which the base disagrees with itself. -/
def tsDisagreement (one two : Nat → ω) : Option PyStr :=
  (lab.inputs.zipIdx.find? fun p =>
    match reader.compare (one p.2) (two p.2) with
    | .diverged _ => true
    | _ => false).map Prod.fst

def tsBatches : Except TsFailure (PyStr ⊕ (Nat → ω) × (Nat → ω)) := do
  let one ← lab.baseOne
  let two ← lab.baseTwo
  match tsDisagreement reader lab one two with
  | some input => return .inl input
  | none => return .inr (one, ← lab.head)

def proveTsTarget (relPath exportName : PyStr) (changedLines : Finset Nat) :
    Except TsFailure TsOutcome :=
  let n := lab.inputs.length
  match tsBatches reader lab with
  | .error (.importFailed e) =>
    .ok (tsUnproven .harnessSynthesisFailed (tsUninvocable exportName relPath e) 0)
  | .error e => .error e
  | .ok (.inl input) => .ok (tsUnproven .nondeterministicBase (tsUnstable input) n)
  | .ok (.inr (base, head)) => do
    let s ← lab.inputs.zipIdx.foldlM (tsRow reader lab base head) {}
    return tsOutcome n s (tsCoverage changedLines (tsExecuted reader n base head))

end Tempest
