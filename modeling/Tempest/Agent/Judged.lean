import Tempest.Agent.Rules

/-!
# Judged — by which name a divergence and a target are judged (`agent/orchestrator.py`, `agent/repair.py`)

A bundle holds a target's file, module and qualified name.  Classification and judgement go by the
qualified name alone; contracts, rules and verdicts are about the whole target.
-/

namespace Tempest

open Python

/-! ## Which contract classifies -/

/-- `_effective_contract`: what was stated, under the rules that govern the changed files. -/
def effectiveContract (stated : Option IntentContract) (rules : List StandingRule)
    (changedFiles : List PyStr) (prompt : PyStr) : Except ContractError (Option IntentContract) :=
  if rules.isEmpty then .ok stated
  else (applyTo stated rules changedFiles prompt).map Applied.contract

section Dotted

variable {stated contract : Option IntentContract} {rules : List StandingRule}
  {files : List PyStr} {prompt : PyStr} {targets : List TargetRecord} {t : TargetRecord}

theorem classification_of_mem {d : ClassifiedDivergence} (h : d ∈ classified contract [t]) :
    d.classification = classifyUnder contract t.qualname := by
  obtain ⟨r, _, rfl⟩ := by simpa [classified] using h
  rfl

theorem exists_classified (contract : Option IntentContract) (h : t.divergences ≠ []) :
    ∃ d, d ∈ classified contract [t] := by
  obtain ⟨r, rest, hcons⟩ := List.exists_cons_of_ne_nil h
  simp [classified, hcons]

theorem divergences_of_mem {d : ClassifiedDivergence} (h : d ∈ classified contract [t]) :
    t.divergences ≠ [] := by
  rintro hnil
  simp [classified, hnil] at h

theorem effectiveContract_classify
    (h : effectiveContract stated rules files prompt = .ok contract) (name : PyStr) :
    classifyUnder contract name = ruled stated (governing rules files) name := by
  unfold effectiveContract at h
  split_ifs at h with hnone
  · cases h
    simp [List.isEmpty_iff.1 hnone, governing, ruled]
  · cases happlied : applyTo stated rules files prompt with
    | error e => simp [happlied, Except.map] at h
    | ok a =>
      simp only [happlied, Except.map, Except.ok.injEq] at h
      subst h
      exact classify_applied happlied name

structure JudgedByDotted (contract : Option IntentContract) (targets : List TargetRecord) :
    Prop where
  permitted : ∀ t ∈ targets, ∀ d ∈ classified contract [t], d.classification = .intended →
    ∃ c, contract = some c ∧ matchesAny t.whereText c.mayChange = true ∧
      matchesAny t.whereText c.mustNotChange = false
  distinguished : ∀ t ∈ targets, ∀ t' ∈ targets, t.qualname = t'.qualname → t.module ≠ t'.module →
    ∀ d ∈ classified contract [t], ∀ d' ∈ classified contract [t'],
      (d.classification ≠ d'.classification ↔
        classifyUnder contract t.whereText ≠ classifyUnder contract t'.whereText)

/-- The bare names permit nothing that the dotted ones do not, and no contract distinguishes the
modules of diverging targets with one qualified name. -/
structure NamesAgree (stated : Option IntentContract) (governing : List StandingRule)
    (targets : List TargetRecord) : Prop where
  permitted : ∀ t ∈ targets, t.divergences ≠ [] →
    ruled stated governing t.qualname = .intended → ruled stated governing t.whereText = .intended
  alike : ∀ t ∈ targets, ∀ t' ∈ targets, t.divergences ≠ [] → t'.divergences ≠ [] →
    t.qualname = t'.qualname → t.module ≠ t'.module →
      ruled stated governing t.whereText = ruled stated governing t'.whereText

theorem classifyUnder_intended_iff {name : PyStr} :
    classifyUnder contract name = .intended ↔
      ∃ c, contract = some c ∧ matchesAny name c.mayChange = true ∧
        matchesAny name c.mustNotChange = false := by
  cases contract with
  | none => simp [classifyUnder]
  | some c => simp [classifyUnder, classify_intended_iff]

/-- Divergences are classified by the bare name, so the dotted one decides exactly where the two
agree. -/
theorem judgedByDotted_iff (h : effectiveContract stated rules files prompt = .ok contract) :
    JudgedByDotted contract targets ↔ NamesAgree stated (governing rules files) targets := by
  have hclass := effectiveContract_classify h
  constructor
  · intro hjudged
    refine ⟨fun t ht hdiverges hbare => ?_, fun t ht t' ht' hdiverges hdiverges' hname hmodule => ?_⟩
    · obtain ⟨d, hd⟩ := exists_classified contract hdiverges
      have hintended : d.classification = .intended := by
        rw [classification_of_mem hd, hclass, hbare]
      rw [← hclass]
      exact classifyUnder_intended_iff.2 (hjudged.permitted t ht d hd hintended)
    · obtain ⟨d, hd⟩ := exists_classified contract hdiverges
      obtain ⟨d', hd'⟩ := exists_classified contract hdiverges'
      have hsame : d.classification = d'.classification := by
        rw [classification_of_mem hd, classification_of_mem hd', hname]
      have hiff := hjudged.distinguished t ht t' ht' hname hmodule d hd d' hd'
      rw [← hclass, ← hclass]
      exact not_not.1 fun hne => hiff.2 hne hsame
  · intro hagree
    refine ⟨fun t ht d hd hintended => ?_, fun t ht t' ht' hname hmodule d hd d' hd' => ?_⟩
    · rw [classification_of_mem hd, hclass] at hintended
      have hdotted := hagree.permitted t ht (divergences_of_mem hd) hintended
      rw [← hclass] at hdotted
      exact classifyUnder_intended_iff.1 hdotted
    · have hsame := hagree.alike t ht t' ht' (divergences_of_mem hd) (divergences_of_mem hd')
        hname hmodule
      rw [classification_of_mem hd, classification_of_mem hd', hname, hclass t.whereText, hsame,
        hclass t'.whereText]
      simp

end Dotted

/-- A divergence in `total` of a module. -/
def divergentTotal (module : PyStr) : TargetRecord where
  filePath := module ++ lit ".py"
  module := module
  qualname := lit "total"
  lang := .python
  classification := .pureCandidate
  verdict := .divergent
  reasonCode := none
  reasonDetail := none
  inputsRun := 1
  equivalentInputs := 0
  unprovableInputs := 0
  changedLineCoverage := 1
  divergences := [⟨.returnValue, .headline, [], [], [], some [], some [], [], [], [], none, none⟩]

def refundContract : IntentContract where
  intent := lit "fix the refund"
  mayChange := [lit "refund.total", lit "total"]
  mustNotChange := [lit "billing.total"]
  stated := by decide
  meant := by decide

def refundRule : StandingRule where
  name := lit "tax"
  scope := []
  mustNotChange := [lit "tax.*"]
  mayChange := []
  why := []
  source := lit ".tempest/rules/tax.toml"

theorem judgedByDotted_refund :
    ∃ contract, effectiveContract (some refundContract) [refundRule] [lit "refund.py"] [] = .ok contract ∧
      (JudgedByDotted contract [divergentTotal (lit "refund")] ↔
        NamesAgree (some refundContract) (governing [refundRule] [lit "refund.py"])
          [divergentTotal (lit "refund")]) :=
  have hmerged : effectiveContract (some refundContract) [refundRule] [lit "refund.py"] [] = .ok _ := rfl
  ⟨_, hmerged, judgedByDotted_iff hmerged⟩

/-- The bare pattern permits the bill too, which the contract forbids by its dotted name. -/
theorem bill_intended :
    ∃ contract, effectiveContract (some refundContract) [] [lit "billing.py"] [] = .ok contract ∧
      ¬ JudgedByDotted contract [divergentTotal (lit "billing")] := by
  refine ⟨some refundContract, rfl, fun hjudged => ?_⟩
  obtain ⟨c, hcontract, _, hmust⟩ := hjudged.permitted _ (List.mem_singleton.2 rfl) _
    (List.mem_singleton.2 rfl) (by decide)
  cases hcontract
  exact absurd hmust (by decide)

/-! ## Which definitions a judgement compares -/

/-- What `ast.parse` says of the defs and classes of a file: `segment` is the text
`ast.get_source_segment` takes, `decorators` the text of the decorators in front of it. -/
inductive Outline where
  | definition (name decorators segment : PyStr) (inner : List Outline)
  | other (inner : List Outline)

mutual

def Outline.texts (namePath : List PyStr) (qualname : PyStr) : Outline → List PyStr
  | .definition name decorators segment inner =>
    let path := namePath ++ [name]
    (if join (lit ".") path = qualname then [decorators ++ segment] else []) ++
      textsOf path qualname inner
  | .other inner => textsOf namePath qualname inner

def textsOf (namePath : List PyStr) (qualname : PyStr) : List Outline → List PyStr
  | [] => []
  | node :: nodes => node.texts namePath qualname ++ textsOf namePath qualname nodes

end

/-- The files of the baseline and of the change's head, and what a parser makes of them. -/
structure SourceTrees where
  parse : Lang → PyStr → Option (List Outline)
  baseline : PyStr → Option PyStr
  head : PyStr → Option PyStr

/-- `read_at`: `git show` read in text mode. -/
def readAt (files : PyStr → Option PyStr) (path : PyStr) : Option PyStr :=
  (files path).map universalNewlines

def Outline.segmentNamed (wanted : PyStr) : Outline → Option PyStr
  | .definition name _ segment _ => if name = wanted then some segment else none
  | .other _ => none

/-- `_symbol_source`: the first top-level definition with the last component of the name. -/
def symbolSource (parse : Lang → PyStr → Option (List Outline)) (text : Option PyStr)
    (qualname : PyStr) : Option PyStr := do
  let tree ← parse .python (← text)
  tree.findSome? (Outline.segmentNamed (lastComponent qualname))

/-- What `reverted_symbols` asks of one name. -/
def excused (trees : SourceTrees) (first : List TargetRecord) (qualname : PyStr) : Bool :=
  let paths : Dict PyStr PyStr := Dict.empty.setAll (first.map fun t => (t.qualname, t.filePath))
  match paths.get? qualname with
  | none => false
  | some path =>
    let baseSrc := symbolSource trees.parse (readAt trees.baseline path) qualname
    let headSrc := symbolSource trees.parse (readAt trees.head path) qualname
    baseSrc.isSome && baseSrc == headSrc

def revertedSymbols (lost : Finset PyStr) (trees : SourceTrees) (first : List TargetRecord) :
    Finset PyStr :=
  lost.filter fun qualname => excused trees first qualname = true

section Evidence

def TargetRecord.Conclusive (t : TargetRecord) : Prop :=
  t.verdict = .divergent ∨ t.verdict = .equivalentUnderBudget

def definitionIn (trees : SourceTrees) (file : Option PyStr) (t : TargetRecord) : List PyStr :=
  match file.bind (trees.parse t.lang) with
  | none => []
  | some tree => textsOf [] t.qualname tree

def StillShown (trees : SourceTrees) (after : List TargetRecord) (t : TargetRecord) : Prop :=
  (∃ t' ∈ after, t'.Conclusive ∧ t'.filePath = t.filePath ∧ t'.qualname = t.qualname) ∨
    definitionIn trees (trees.baseline t.filePath) t ≠ [] ∧
      definitionIn trees (trees.head t.filePath) t =
        definitionIn trees (trees.baseline t.filePath) t

/-- A conclusive target of the final bundle has the name, whatever its file. -/
def Namesake (after : List TargetRecord) (t : TargetRecord) : Prop :=
  ∃ t' ∈ after, t'.Conclusive ∧ t'.qualname = t.qualname

/-- The target is gone and its name is not: a target of another file has it, or the search for its
last component finds one text twice. -/
structure Hidden (trees : SourceTrees) (first after : List TargetRecord) (t : TargetRecord) :
    Prop where
  lost : ¬ StillShown trees after t
  behind : Namesake after t ∨ excused trees first t.qualname = true

variable {trees : SourceTrees} {before first after : List TargetRecord}

theorem mem_provenTargets {targets : List TargetRecord} {qualname : PyStr} :
    qualname ∈ (provenTargets targets).keys ↔
      ∃ t ∈ targets, t.Conclusive ∧ t.qualname = qualname := by
  have hfold : ∀ (targets : List TargetRecord) (proven : Proven),
      qualname ∈ (targets.foldl (fun proven t =>
        if t.verdict = .divergent ∨ t.verdict = .equivalentUnderBudget then
          proven.insert t.qualname t.verdict else proven) proven).keys ↔
        qualname ∈ proven.keys ∨ ∃ t ∈ targets, t.Conclusive ∧ t.qualname = qualname := by
    intro targets
    induction targets with
    | nil => simp
    | cons t targets ih =>
      intro proven
      rw [List.foldl_cons, ih]
      simp only [List.mem_cons, exists_eq_or_imp, ← or_assoc]
      refine or_congr_left ?_
      split_ifs with hverdict
      · have hconclusive : t.Conclusive := hverdict
        simp only [Finmap.mem_keys, Finmap.mem_insert, hconclusive, true_and]
        rw [or_comm, eq_comm]
      · have hinconclusive : ¬ t.Conclusive := hverdict
        simp [hinconclusive]
  rw [provenTargets, hfold]
  simp

theorem judge_names {divergences : List ClassifiedDivergence} {contractBefore contractAfter : PyStr}
    {broken : List BrokenModule} :
    (judge (provenTargets before) after divergences contractBefore contractAfter
        (revertedSymbols (lostTargets (provenTargets before) (provenTargets after)) trees first)
        broken).succeeded = true ↔
      contractBefore = contractAfter ∧ broken = [] ∧
        (∀ t ∈ before, t.Conclusive → Namesake after t ∨ excused trees first t.qualname = true) ∧
        needsRepair divergences = false := by
  have hlost : lostTargets (provenTargets before) (provenTargets after) ⊆
      revertedSymbols (lostTargets (provenTargets before) (provenTargets after)) trees first ↔
        ∀ t ∈ before, t.Conclusive → Namesake after t ∨ excused trees first t.qualname = true := by
    constructor
    · intro hsubset t ht hconclusive
      by_cases hname : Namesake after t
      · exact .inl hname
      · have hmem : t.qualname ∈ lostTargets (provenTargets before) (provenTargets after) :=
          Finset.mem_sdiff.2 ⟨mem_provenTargets.2 ⟨t, ht, hconclusive, rfl⟩,
            fun h => hname (mem_provenTargets.1 h)⟩
        exact .inr (Finset.mem_filter.1 (hsubset hmem)).2
    · intro hnames qualname hmem
      obtain ⟨hbefore, hafter⟩ := Finset.mem_sdiff.1 hmem
      obtain ⟨t, ht, hconclusive, rfl⟩ := mem_provenTargets.1 hbefore
      refine Finset.mem_filter.2 ⟨hmem, ?_⟩
      rcases hnames t ht hconclusive with hname | hexcused
      · exact absurd (mem_provenTargets.2 hname) hafter
      · exact hexcused
  rw [judge_succeeded_iff, hlost]

end Evidence

def totalReturning (digit : PyStr) : PyStr := lit "def total():\n    return " ++ digit ++ lit "\n"

/-- `total` is deleted from one file and changed in the other. -/
def totalTrees : SourceTrees where
  parse := fun _ text =>
    ([lit "1", lit "2"].find? fun digit => text = totalReturning digit).map fun digit =>
      [.definition (lit "total") [] (totalReturning digit).dropLast []]
  baseline := fun path =>
    if path = lit "billing.py" ∨ path = lit "refund.py" then some (totalReturning (lit "1")) else none
  head := fun path => if path = lit "billing.py" then some (totalReturning (lit "2")) else none

end Tempest
