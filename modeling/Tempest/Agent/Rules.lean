import Tempest.Agent.Repair

/-!
# Rules — standing rules and the contract a task runs under (`agent/rules.py`)

`applyTo` folds the rules that govern a change into the task's contract.  A permission is a set of
names, and everything here is said of that set: a rule only takes names out of it, more rules take
out more, and what a list of rules has done it does not do again.
-/

namespace Tempest

open Python

/-! ## Building a contract -/

inductive ContractError where
  | noIntent
  | emptyPattern
  | everything
  deriving DecidableEq

def ContractError.text : ContractError → PyStr
  | .noIntent => lit "a contract must record the intent it was compiled from"
  | .emptyPattern => lit "an empty symbol pattern matches nothing and means nothing"
  | .everything => lit "'*' is not an intent: a contract permitting every change would classify every divergence INTENDED, which is the one thing F2's gate forbids"

/-- What `__post_init__` has against a pattern. -/
def patternError (pattern : PyStr) : Option ContractError :=
  if strip pattern = [] then some .emptyPattern
  else if strip pattern = lit "*" ∨ strip pattern = lit ".*" then some .everything
  else none

theorem meant_of_patternError {pattern : PyStr} (h : patternError pattern = none) :
    strip pattern ∉ [[], lit "*", lit ".*"] := by
  unfold patternError at h
  split_ifs at h with hempty hstar
  rw [not_or] at hstar
  simp only [List.mem_cons, List.not_mem_nil, or_false, not_or]
  exact ⟨hempty, hstar⟩

/-- `IntentContract(…)` with its `__post_init__`. -/
def IntentContract.make (intent : PyStr) (mayChange mustNotChange : List PyStr) :
    Except ContractError IntentContract :=
  if hstated : strip intent = [] then .error .noIntent
  else match hpatterns : (mayChange ++ mustNotChange).findSome? patternError with
    | some e => .error e
    | none =>
      .ok ⟨intent, mayChange, mustNotChange, hstated, fun pattern hmem =>
        meant_of_patternError (List.findSome?_eq_none_iff.1 hpatterns pattern hmem)⟩

/-! ## Rules -/

/-- `Rule`. -/
structure StandingRule where
  name : PyStr
  /-- A directory of the repository; the empty text is all of it. -/
  scope : PyStr
  mustNotChange : List PyStr
  mayChange : List PyStr
  why : PyStr
  source : PyStr

/-- `scope.rstrip("/")`. -/
def rstripSlash (s : PyStr) : PyStr := (s.reverse.dropWhile fun c => c = codePoint 0x2F).reverse

def StandingRule.governs (r : StandingRule) (filePath : PyStr) : Bool :=
  if r.scope = [] then true
  else
    let scope := rstripSlash r.scope
    filePath == scope || startsWith (scope ++ lit "/") filePath

structure Applied where
  /-- `none` without a stated intent and without a governing rule. -/
  contract : Option IntentContract
  applied : List StandingRule

def governing (rules : List StandingRule) (files : List PyStr) : List StandingRule :=
  rules.filter fun r => files.any r.governs

def statedMust (contract : Option IntentContract) : List PyStr :=
  match contract with
  | some c => c.mustNotChange
  | none => []

def statedMay (contract : Option IntentContract) : List PyStr :=
  match contract with
  | some c => c.mayChange
  | none => []

/-- `tuple(dict.fromkeys([...]))`. -/
def forbidden (contract : Option IntentContract) (rules : List StandingRule) : List PyStr :=
  (statedMust contract ++ rules.flatMap StandingRule.mustNotChange).eraseDups

def permitted (contract : Option IntentContract) (forbidden : List PyStr) : List PyStr :=
  (statedMay contract).filter fun pattern => pattern ∉ forbidden

def mergedIntent (contract : Option IntentContract) (intent : PyStr) (rules : List StandingRule) : PyStr :=
  let stated := strip (match contract with
    | some c => c.intent
    | none => intent)
  if stated ≠ [] then stated
  else lit "no task intent was stated; behavioural rules apply: " ++
    join (lit ", ") (rules.map StandingRule.name)

def applyTo (contract : Option IntentContract) (rules : List StandingRule) (files : List PyStr)
    (intent : PyStr) : Except ContractError Applied :=
  let governing := governing rules files
  if governing.isEmpty then .ok ⟨contract, []⟩
  else do
    let must := forbidden contract governing
    let c ← IntentContract.make (mergedIntent contract intent governing) (permitted contract must) must
    return ⟨some c, governing⟩

/-- `contract.classify(name)`; without a contract everything is unclassified. -/
def classifyUnder (contract : Option IntentContract) (name : PyStr) : Classification :=
  match contract with
  | some c => c.classify name
  | none => .unclassified

/-! ## Names that match -/

section Matching

variable {name : PyStr} {patterns patterns' : List PyStr}

theorem matchesAny_iff :
    matchesAny name patterns = true ↔ ∃ pattern ∈ patterns, matchesPattern name pattern = true := by
  simp [matchesAny]

theorem matchesAny_mono (h : ∀ pattern ∈ patterns, pattern ∈ patterns')
    (hname : matchesAny name patterns = true) : matchesAny name patterns' = true := by
  obtain ⟨pattern, hmem, hmatch⟩ := matchesAny_iff.1 hname
  exact matchesAny_iff.2 ⟨pattern, h pattern hmem, hmatch⟩

theorem matchesAny_congr (h : ∀ pattern, pattern ∈ patterns ↔ pattern ∈ patterns') :
    matchesAny name patterns = matchesAny name patterns' := by
  rw [Bool.eq_iff_iff]
  exact ⟨matchesAny_mono fun pattern => (h pattern).1, matchesAny_mono fun pattern => (h pattern).2⟩

end Matching

theorem classify_intended_iff {c : IntentContract} {name : PyStr} :
    c.classify name = .intended ↔
      matchesAny name c.mayChange = true ∧ matchesAny name c.mustNotChange = false := by
  unfold IntentContract.classify
  cases matchesAny name c.mustNotChange <;> cases matchesAny name c.mayChange <;> simp

/-! ## What the rules make of a contract -/

section Merged

variable {contract : Option IntentContract} {rules rules' : List StandingRule} {files : List PyStr}
  {intent : PyStr} {a a' : Applied}

theorem make_ok {may must : List PyStr} {c : IntentContract}
    (h : IntentContract.make intent may must = .ok c) :
    c.intent = intent ∧ c.mayChange = may ∧ c.mustNotChange = must := by
  unfold IntentContract.make at h
  split at h
  · cases h
  · split at h
    · cases h
    · cases h
      exact ⟨rfl, rfl, rfl⟩

theorem make_of_meant {may must : List PyStr} (hstated : strip intent ≠ [])
    (hmeant : ∀ pattern ∈ may ++ must, strip pattern ∉ [[], lit "*", lit ".*"]) :
    IntentContract.make intent may must = .ok ⟨intent, may, must, hstated, hmeant⟩ := by
  have hnone : (may ++ must).findSome? patternError = none := by
    refine List.findSome?_eq_none_iff.2 fun pattern hmem => ?_
    have hmeans := hmeant pattern hmem
    simp only [List.mem_cons, List.not_mem_nil, or_false, not_or] at hmeans
    simp [patternError, hmeans.1, hmeans.2]
  unfold IntentContract.make
  rw [dif_neg hstated]
  split
  next e he => rw [hnone] at he; cases he
  next => rfl

theorem mem_forbidden {pattern : PyStr} :
    pattern ∈ forbidden contract rules ↔
      pattern ∈ statedMust contract ∨ ∃ r ∈ rules, pattern ∈ r.mustNotChange := by
  simp [forbidden, List.mem_eraseDups]

theorem mem_permitted {pattern : PyStr} {must : List PyStr} :
    pattern ∈ permitted contract must ↔ pattern ∈ statedMay contract ∧ pattern ∉ must := by
  simp [permitted]

/-- Either no rule governs the change and nothing happens, or the lists are the merged ones. -/
theorem applyTo_ok (h : applyTo contract rules files intent = .ok a) :
    (governing rules files = [] ∧ a = ⟨contract, []⟩) ∨
      governing rules files ≠ [] ∧ a.applied = governing rules files ∧
        ∃ c, a.contract = some c ∧
          c.intent = mergedIntent contract intent (governing rules files) ∧
          c.mayChange = permitted contract (forbidden contract (governing rules files)) ∧
          c.mustNotChange = forbidden contract (governing rules files) := by
  unfold applyTo at h
  cases hgoverning : governing rules files with
  | nil =>
    simp only [hgoverning, List.isEmpty_nil, if_true] at h
    exact .inl ⟨rfl, (Except.ok.inj h).symm⟩
  | cons r rest =>
    simp only [hgoverning, List.isEmpty_cons, Bool.false_eq_true, if_false] at h
    cases hmake : IntentContract.make (mergedIntent contract intent (r :: rest))
        (permitted contract (forbidden contract (r :: rest))) (forbidden contract (r :: rest)) with
    | error e => simp [hmake, bind, Except.bind] at h
    | ok c =>
      simp only [hmake, bind, Except.bind, pure, Except.pure, Except.ok.injEq] at h
      subst h
      exact .inr ⟨List.cons_ne_nil r rest, rfl, c, rfl, make_ok hmake⟩

/-- What standing rules make of a class: what one of them forbids is unintended. -/
def ruled (contract : Option IntentContract) (rules : List StandingRule) (name : PyStr) :
    Classification :=
  if rules.any fun r => matchesAny name r.mustNotChange then .unintended
  else classifyUnder contract name

theorem matchesAny_forbidden (name : PyStr) : matchesAny name (forbidden contract rules) =
    (matchesAny name (statedMust contract) ||
      rules.any fun r => matchesAny name r.mustNotChange) := by
  rw [Bool.eq_iff_iff, Bool.or_eq_true, List.any_eq_true, matchesAny_iff, matchesAny_iff]
  constructor
  · rintro ⟨p, hp, hm⟩
    rcases mem_forbidden.1 hp with hstated | ⟨r, hr, hrule⟩
    · exact .inl ⟨p, hstated, hm⟩
    · exact .inr ⟨r, hr, matchesAny_iff.2 ⟨p, hrule, hm⟩⟩
  · rintro (⟨p, hp, hm⟩ | ⟨r, hr, hrule⟩)
    · exact ⟨p, mem_forbidden.2 (.inl hp), hm⟩
    · obtain ⟨p, hp, hm⟩ := matchesAny_iff.1 hrule
      exact ⟨p, mem_forbidden.2 (.inr ⟨r, hr, hp⟩), hm⟩

/-- A pattern that permits a name is dropped only where a forbidden one matches the name too. -/
theorem matchesAny_permitted (contract : Option IntentContract) {name : PyStr} {must : List PyStr}
    (h : matchesAny name must = false) :
    matchesAny name (permitted contract must) = matchesAny name (statedMay contract) := by
  rw [Bool.eq_iff_iff]
  refine ⟨matchesAny_mono fun p hp => (mem_permitted.1 hp).1, fun hname => ?_⟩
  obtain ⟨p, hp, hm⟩ := matchesAny_iff.1 hname
  refine matchesAny_iff.2 ⟨p, mem_permitted.2 ⟨hp, fun hmem => ?_⟩, hm⟩
  have hmatch : matchesAny name must = true := matchesAny_iff.2 ⟨p, hmem, hm⟩
  rw [h] at hmatch
  cases hmatch

theorem classify_applied (h : applyTo contract rules files intent = .ok a) (name : PyStr) :
    classifyUnder a.contract name = ruled contract (governing rules files) name := by
  rcases applyTo_ok h with ⟨hnone, rfl⟩ | ⟨_, _, c, hcontract, _, hmay, hmust⟩
  · simp [hnone, ruled]
  · have hstated : classifyUnder contract name =
        if matchesAny name (statedMust contract) then .unintended
        else if matchesAny name (statedMay contract) then .intended
        else .unclassified := by
      cases contract <;> rfl
    rw [hcontract, classifyUnder, IntentContract.classify, hmay, hmust, ruled, hstated]
    cases hforbidden : matchesAny name (forbidden contract (governing rules files)) with
    | true =>
      rw [matchesAny_forbidden, Bool.or_eq_true] at hforbidden
      rcases hforbidden with hname | hrule
      · simp [hname]
      · simp [hrule]
    | false =>
      have hmatch := matchesAny_permitted contract hforbidden
      rw [matchesAny_forbidden, Bool.or_eq_false_iff] at hforbidden
      simp [hmatch, hforbidden.1, hforbidden.2]

/-- The names the merged contract permits: those that were permitted and that no governing rule
forbids. -/
theorem applyTo_intended_iff (h : applyTo contract rules files intent = .ok a) (name : PyStr) :
    classifyUnder a.contract name = .intended ↔
      classifyUnder contract name = .intended ∧
        ∀ r ∈ governing rules files, matchesAny name r.mustNotChange = false := by
  rw [classify_applied h, ruled]
  split_ifs with hany
  · obtain ⟨r, hr, hname⟩ := List.any_eq_true.1 hany
    refine iff_of_false (fun h => nomatch h) fun ⟨_, hno⟩ => ?_
    rw [hno r hr] at hname
    cases hname
  · rw [Bool.not_eq_true, List.any_eq_false] at hany
    exact ⟨fun hname => ⟨hname, fun r hr => Bool.not_eq_true _ ▸ hany r hr⟩, And.left⟩

/-! ## Rules only restrict -/

/-- A text that is stripped still has its first character that is no space. -/
theorem strip_strip_ne_nil {s : PyStr} (h : strip s ≠ []) : strip (strip s) ≠ [] := by
  have hbody : (s.dropWhile isSpace).reverse.dropWhile isSpace ≠ [] := by
    simpa [strip] using h
  -- what the second `dropWhile` leaves begins with it
  have hmem : ((s.dropWhile isSpace).reverse.dropWhile isSpace).head hbody ∈ strip s :=
    List.mem_reverse.2 (List.head_mem hbody)
  have hspace := List.head_dropWhile_not isSpace hbody
  intro hnil
  have hleft : (strip s).dropWhile isSpace = [] := by
    have hall : ∀ c ∈ ((strip s).dropWhile isSpace).reverse, isSpace c = true := by
      have hdrop : ((strip s).dropWhile isSpace).reverse.dropWhile isSpace = [] := by
        simpa only [strip, List.reverse_eq_nil_iff] using hnil
      exact List.dropWhile_eq_nil_iff.1 hdrop
    by_contra hne
    have hhead := List.head_dropWhile_not isSpace hne
    have := hall _ (List.mem_reverse.2 (List.head_mem hne))
    rw [hhead] at this
    cases this
  have := List.dropWhile_eq_nil_iff.1 hleft _ hmem
  rw [hspace] at this
  cases this

theorem governing_mono (h : ∀ r ∈ rules, r ∈ rules') :
    ∀ r ∈ governing rules files, r ∈ governing rules' files := fun r hr =>
  List.mem_filter.2 ⟨h r (List.mem_filter.1 hr).1, (List.mem_filter.1 hr).2⟩

theorem applyTo_again (h : applyTo contract rules files intent = .ok a) (intent' : PyStr) :
    ∃ a', applyTo a.contract rules files intent' = .ok a' := by
  unfold applyTo
  rcases applyTo_ok h with ⟨hnone, rfl⟩ | ⟨hsome, _, c, hcontract, _, _, hmust⟩
  · exact ⟨⟨contract, []⟩, by simp [hnone]⟩
  · have hforbidden : ∀ p, p ∈ forbidden a.contract (governing rules files) → p ∈ c.mustNotChange := by
      intro p hp
      rw [hmust]
      rcases mem_forbidden.1 hp with hstated | hrules
      · rwa [hcontract, statedMust, hmust] at hstated
      · exact mem_forbidden.2 (.inr hrules)
    have hmeant : ∀ p ∈ permitted a.contract (forbidden a.contract (governing rules files)) ++
        forbidden a.contract (governing rules files), strip p ∉ [[], lit "*", lit ".*"] := by
      intro p hp
      refine c.meant p (List.mem_append.2 ?_)
      rcases List.mem_append.1 hp with hmay | hmust
      · have := (mem_permitted.1 hmay).1
        rw [hcontract] at this
        exact .inl this
      · exact .inr (hforbidden p hmust)
    have hstated : strip (mergedIntent a.contract intent' (governing rules files)) ≠ [] := by
      rw [hcontract, mergedIntent]
      simp only [if_pos c.stated]
      exact strip_strip_ne_nil c.stated
    simp only [if_neg (show ¬(governing rules files).isEmpty = true by simpa using hsome),
      make_of_meant hstated hmeant]
    exact ⟨_, rfl⟩

/-- Applied a second time the rules forbid and permit nothing new. -/
theorem classify_again {intent' : PyStr} (h : applyTo contract rules files intent = .ok a)
    (h' : applyTo a.contract rules files intent' = .ok a') (name : PyStr) :
    classifyUnder a'.contract name = classifyUnder a.contract name := by
  rcases applyTo_ok h with ⟨hnone, rfl⟩ | ⟨hsome, _, c, hcontract, _, hmay, hmust⟩
  · rcases applyTo_ok h' with ⟨_, rfl⟩ | ⟨hsome, _⟩
    · rfl
    · exact absurd hnone hsome
  · rcases applyTo_ok h' with ⟨hnone, _⟩ | ⟨_, _, c', hcontract', _, hmay', hmust'⟩
    · exact absurd hnone hsome
    have hforbidden : ∀ p, p ∈ c'.mustNotChange ↔ p ∈ c.mustNotChange := by
      intro p
      rw [hmust', hmust, mem_forbidden, hcontract, statedMust, hmust, mem_forbidden]
      simp only [or_assoc, or_self]
    have hpermitted : ∀ p, p ∈ c'.mayChange ↔ p ∈ c.mayChange := by
      intro p
      rw [hmay', mem_permitted, ← hmust', hforbidden, hcontract, statedMay, and_iff_left_iff_imp]
      intro hp
      rw [hmay] at hp
      rw [hmust]
      exact (mem_permitted.1 hp).2
    simp only [hcontract, hcontract', classifyUnder, IntentContract.classify,
      matchesAny_congr hforbidden, matchesAny_congr hpermitted]

/-- What the rules make of a contract permits nothing that was not stated, nothing that fewer of
them forbid, and is a fixed point of the same rules. -/
theorem applyTo_restricts (h : applyTo contract rules files intent = .ok a) :
    (∀ name, classifyUnder a.contract name = .intended → classifyUnder contract name = .intended) ∧
      (∀ fewer intent' b, (∀ r ∈ fewer, r ∈ rules) →
        applyTo contract fewer files intent' = .ok b →
          ∀ name, classifyUnder a.contract name = .intended →
            classifyUnder b.contract name = .intended) ∧
      ∀ intent', ∃ a', applyTo a.contract rules files intent' = .ok a' ∧
        ∀ name, classifyUnder a'.contract name = classifyUnder a.contract name := by
  refine ⟨fun name hname => ((applyTo_intended_iff h name).1 hname).1, ?_, fun intent' => ?_⟩
  · intro fewer intent' b hfewer hb name hname
    obtain ⟨hstated, hrules⟩ := (applyTo_intended_iff h name).1 hname
    exact (applyTo_intended_iff hb name).2
      ⟨hstated, fun r hr => hrules r (governing_mono hfewer r hr)⟩
  · obtain ⟨a', ha'⟩ := applyTo_again h intent'
    exact ⟨a', ha', classify_again h ha'⟩

end Merged

/-- A task that may change a package, under a rule that keeps one function of it. -/
def roundingContract : IntentContract where
  intent := lit "fix the rounding"
  mayChange := [lit "pkg.*"]
  mustNotChange := []
  stated := by decide
  meant := by decide

def keepTax : StandingRule where
  name := lit "tax"
  scope := lit "src/"
  mustNotChange := [lit "pkg.tax"]
  mayChange := []
  why := []
  source := lit ".tempest/rules/tax.toml"

theorem applyTo_restricts_tax : ∃ a,
    applyTo (some roundingContract) [keepTax] [lit "src/pkg.py"] [] = .ok a ∧
      classifyUnder a.contract (lit "pkg.tax") = .unintended ∧
      classifyUnder a.contract (lit "pkg.refund") = .intended ∧
      ∀ intent', ∃ a', applyTo a.contract [keepTax] [lit "src/pkg.py"] intent' = .ok a' ∧
        ∀ name, classifyUnder a'.contract name = classifyUnder a.contract name :=
  have h : applyTo (some roundingContract) [keepTax] [lit "src/pkg.py"] [] =
      .ok ⟨some ⟨lit "fix the rounding", [lit "pkg.*"], [lit "pkg.tax"], by decide, by decide⟩,
        [keepTax]⟩ := rfl
  ⟨_, h, by decide, by decide, (applyTo_restricts h).2.2⟩

end Tempest
