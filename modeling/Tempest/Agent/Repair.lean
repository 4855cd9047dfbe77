import Tempest.Agent.TurnLog
import Tempest.Bundle.Bundle
import Tempest.Python.Repr
import Tempest.Targets.Diff

/-!
# Repair — the contract, the evidence and the judgement (`agent/contracts.py`, `agent/repair.py`)

A contract places every divergence; an attempt is judged against the contract and the conclusive
targets as they stood before the first attempt.
-/

namespace Tempest

open Python

/-! ## Contracts -/

def strip (s : PyStr) : PyStr := ((s.dropWhile isSpace).reverse.dropWhile isSpace).reverse

inductive Classification where
  | intended
  | unintended
  | unclassified
  deriving DecidableEq

/-- What may change and what must not; `*` permits everything and is refused. -/
structure IntentContract where
  intent : PyStr
  mayChange : List PyStr
  mustNotChange : List PyStr
  stated : strip intent ≠ []
  meant : ∀ pattern ∈ mayChange ++ mustNotChange,
    strip pattern ∉ [[], lit "*", lit ".*"]

theorem meant_nil : ∀ pattern ∈ ([] ++ [] : List PyStr), strip pattern ∉ [[], lit "*", lit ".*"] := by
  simp

/-- An exact name, or a name under `stem.*`. -/
def matchesPattern (qualname raw : PyStr) : Bool :=
  let pattern := strip raw
  if (lit ".*").isSuffixOf pattern then
    let stem := pattern.take (pattern.length - 2)
    qualname == stem || startsWith (stem ++ lit ".") qualname
  else qualname == pattern

def matchesAny (qualname : PyStr) (patterns : List PyStr) : Bool :=
  patterns.any (matchesPattern qualname)

def IntentContract.classify (c : IntentContract) (qualname : PyStr) : Classification :=
  if matchesAny qualname c.mustNotChange then .unintended
  else if matchesAny qualname c.mayChange then .intended
  else .unclassified

structure ClassifiedDivergence where
  qualname : PyStr
  classification : Classification
  detail : PyStr

def Classification.offends (c : Classification) : Bool := c = .unintended || c = .unclassified

def needsRepair (divergences : List ClassifiedDivergence) : Bool :=
  divergences.any fun d => d.classification.offends

def classified (contract : Option IntentContract) (targets : List TargetRecord) :
    List ClassifiedDivergence :=
  targets.flatMap fun t => t.divergences.map fun d =>
    { qualname := t.qualname
      classification := match contract with
        | some c => c.classify t.qualname
        | none => .unclassified
      detail := d.detail }

/-! ## Evidence -/

structure EvidencePacket where
  qualname : PyStr
  divergenceClass : PyStr
  detail : PyStr
  minimizedArgs : Option PyStr
  minimizedKwargs : Option PyStr
  baseSummary : PyStr
  headSummary : PyStr
  violatedClause : PyStr

def shown (s : Option PyStr) : PyStr := s.getD (lit "None")

def EvidencePacket.render (p : EvidencePacket) : PyStr :=
  join [lineFeed]
    [lit "A change you made diverged in a way the contract does not allow.",
      [],
      lit "symbol:            " ++ p.qualname,
      lit "contract clause:   " ++ p.violatedClause,
      lit "divergence:        " ++ p.divergenceClass,
      lit "detail:            " ++ p.detail,
      [],
      lit "The smallest input that still shows it:",
      lit "  args:            " ++ shown p.minimizedArgs,
      lit "  kwargs:          " ++ shown p.minimizedKwargs,
      [],
      lit "  before your change: " ++ p.baseSummary,
      lit "  after your change:  " ++ p.headSummary,
      [],
      lit "Repair the behaviour. Do not edit the contract, do not delete the symbol, and",
      lit "do not make it unreachable — each of those is detected and counts as a failure."]

def clauseFor (printable : CodePoint → Bool) (qualname : PyStr) (c : IntentContract) : PyStr :=
  match c.mustNotChange.find? (matchesPattern qualname) with
  | some pattern => lit "must_not_change = \"" ++ pattern ++ lit "\""
  | none => lit "not listed in may_change (intent: " ++ reprStr printable c.intent ++ lit ")"

def evidenceFor (printable : CodePoint → Bool) (target : TargetRecord) (d : DivergenceRecord)
    (c : IntentContract) : EvidencePacket where
  qualname := target.qualname
  divergenceClass := TextEnum.text d.divergenceClass
  detail := d.detail
  minimizedArgs := d.minimizedArgs
  minimizedKwargs := d.minimizedKwargs
  baseSummary := d.baseSummary
  headSummary := d.headSummary
  violatedClause := clauseFor printable target.qualname c

def firstOffender (printable : CodePoint → Bool) (targets : List TargetRecord)
    (divergences : List ClassifiedDivergence) (c : IntentContract) : Option EvidencePacket :=
  targets.findSome? fun t =>
    if divergences.any fun d => d.classification.offends && d.qualname == t.qualname then
      t.divergences.head?.map fun d => evidenceFor printable t d c
    else none

/-! ## Judgement -/

structure BrokenModule where
  path : PyStr
  module : PyStr
  error : PyStr

/-- The exception of a traceback, without the frames above it. -/
def BrokenModule.firstLine (b : BrokenModule) : PyStr :=
  match ((splitLines b.error).filter fun line => strip line ≠ []).getLast? with
  | some line => strip line
  | none => lit "no error was reported"

structure Judgement where
  succeeded : Bool
  reason : PyStr
  cheat : Bool := false

def provenTargets (targets : List TargetRecord) : Proven :=
  targets.foldl
    (fun proven t =>
      if t.verdict = .divergent ∨ t.verdict = .equivalentUnderBudget then
        proven.insert t.qualname t.verdict
      else proven) ∅

def sortedNames (names : Finset PyStr) : List PyStr := names.sort (· ≤ ·)

def lostTargets (before after : Proven) : Finset PyStr := before.keys \ after.keys

def count (kind : Classification) (divergences : List ClassifiedDivergence) : Nat :=
  (divergences.filter fun d => d.classification = kind).length

def judge (before : Proven) (after : List TargetRecord) (divergences : List ClassifiedDivergence)
    (contractBefore contractAfter : PyStr) (reverted : Finset PyStr) (broken : List BrokenModule) :
    Judgement :=
  if contractBefore ≠ contractAfter then
    ⟨false, lit "the contract changed during the repair — the claim was moved, not met", true⟩
  else if broken ≠ [] then
    ⟨false, lit "the change no longer loads: " ++
      join (lit "; ") (broken.map fun b => b.path ++ lit " (" ++ b.firstLine ++ lit ")") ++
      lit " — a divergence that disappears because the module stopped running is not a repair", true⟩
  else
    let lost := lostTargets before (provenTargets after) \ reverted
    if lost ≠ ∅ then
      ⟨false, lit "targets stopped being provable: " ++ join (lit ", ") (sortedNames lost) ++
        lit " — a divergence that disappears because the evidence did is not a repair", true⟩
    else if count .unintended divergences ≠ 0 then
      ⟨false, natText (count .unintended divergences) ++ lit " unintended divergence(s) remain", false⟩
    else if count .unclassified divergences ≠ 0 then
      ⟨false, natText (count .unclassified divergences) ++
        lit " unclassified divergence(s) remain — nobody predicted these, so they are shown rather than assumed harmless", false⟩
    else ⟨true, lit "the divergence set matches the contract", false⟩

/-- Nothing lost, nothing broken, the contract untouched and no offending divergence left. -/
theorem judge_succeeded_iff {before : Proven} {after : List TargetRecord}
    {divergences : List ClassifiedDivergence} {contractBefore contractAfter : PyStr}
    {reverted : Finset PyStr} {broken : List BrokenModule} :
    (judge before after divergences contractBefore contractAfter reverted broken).succeeded = true ↔
      contractBefore = contractAfter ∧ broken = [] ∧
        lostTargets before (provenTargets after) ⊆ reverted ∧ needsRepair divergences = false := by
  have hquiet : needsRepair divergences = false ↔
      count .unintended divergences = 0 ∧ count .unclassified divergences = 0 := by
    simp only [needsRepair, count, Classification.offends, List.any_eq_false, List.length_eq_zero_iff,
      List.filter_eq_nil_iff, ← forall_and]
    refine forall_congr' fun d => ?_
    cases d.classification <;> simp
  rw [hquiet, ← Finset.sdiff_eq_empty_iff_subset]
  unfold judge
  dsimp only
  split_ifs <;> simp_all

end Tempest
