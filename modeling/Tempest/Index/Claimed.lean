import Tempest.Index.Specs

/-!
# Claimed — when a synthesized spec states what ran

A claim is measured against the executions its class was counted from and the one its first
citation shows.  The invariant ties the two tables to the classes of the batches that were stored;
one class is then settled by how its shown execution ended.
-/

namespace Tempest
namespace Specs

open Python

variable {printable : CodePoint → Bool}

/-! ## True claims -/

def Execution.Started (e : Execution) : Prop := ∀ reason, e.ran ≠ .lost reason

def Ran.ended : Ran → Option PyStr
  | .crashed _ => some InputOutcome.crashed.text
  | .hung => some InputOutcome.hung.text
  | _ => none

/-- What a sentence says of the executions it is about and of its example. -/
def Statement.TrueOf (members : List Execution) (shown : Execution) : Statement → Prop
  | .raises typeName count args kwargs message =>
    (∀ e ∈ members, ∃ info, e.ran = .raised info ∧ info.typeName = typeName) ∧
      members.length = count ∧ shown.literals = (args, kwargs) ∧
      ∃ info, shown.ran = .raised info ∧ info.message = message
  | .ended outcome count args kwargs =>
    (∀ e ∈ members, e.ran.ended = some outcome) ∧ members.length = count ∧
      shown.literals = (args, kwargs)
  | .returns kind count args returned =>
    (∀ e ∈ members, ∃ r, e.ran = .returned r ∧ r.typeName = kind) ∧ members.length = count ∧
      shown.literals.1 = args ∧ ∃ r, shown.ran = .returned r ∧ r.repr = returned
  | .touched effects => ∀ e ∈ members, effectsText e.effects = effects
  | .wrote stdout => shown.stdout = stdout

/-- The first citation of a claim is a row of a class of the symbol, the row shows one of the
executions of the class, all of them were started, and the sentence is true. -/
def Claim.TrueIn (index : Index) (symbolId : Nat) (claim : Claim) : Prop :=
  ∃ o ∈ index.observations, ∃ b ∈ index.behaviours,
    claim.observations.head? = some o.id ∧ o.behaviourId = b.id ∧ b.symbolId = symbolId ∧
      o.shown ∈ b.counted ∧ (∀ e ∈ b.counted, e.Started) ∧
      claim.statement.TrueOf b.counted o.shown

def Cited (index : Index) (claims : List Claim) (b : BehaviourRow) : Prop :=
  ∃ claim ∈ claims, ∃ o ∈ index.observations, o.id ∈ claim.observations ∧ o.behaviourId = b.id

instance citedDecidable (index : Index) (claims : List Claim) :
    DecidablePred (Cited index claims) := fun b =>
  inferInstanceAs (Decidable (∃ claim ∈ claims, ∃ o ∈ index.observations,
    o.id ∈ claim.observations ∧ o.behaviourId = b.id))

def covered (index : Index) (claims : List Claim) : List Execution :=
  (index.behaviours.filter fun b => Cited index claims b).flatMap BehaviourRow.counted

def ranOn (history : List Batch) (symbolId : Nat) : List Execution :=
  (history.filter fun batch => batch.symbolId = symbolId).flatMap Batch.executions

structure StatesWhatRan (index : Index) (history : List Batch) (symbolId : Nat)
    (spec : BehaviouralSpec) : Prop where
  claims : ∀ claim ∈ spec.claims, claim.TrueIn index symbolId
  observed : spec.inputsObserved = (covered index spec.claims).length
  complete : (covered index spec.claims).Perm (ranOn history symbolId)

/-! ## The condition -/

/-- The type of the document of a value: only four types of Python are documents themselves. -/
def documentKind : PyVal → PyStr
  | .none => lit "NoneType"
  | .bool _ => lit "bool"
  | .int _ => lit "int"
  | .str _ => lit "str"
  | _ => lit "dict"

/-- The input was started, its value is `None`, of type `bool`, `int` or `str`, or of a type that is
named `dict`, and its exception is of a type with a name. -/
def Execution.Plain (e : Execution) : Prop :=
  match e.ran with
  | .returned r => r.typeName = documentKind r.value
  | .raised info => info.typeName ≠ []
  | .crashed _ | .hung => True
  | .lost _ => False

def Execution.Short (printable : CodePoint → Bool) (e : Execution) : Prop :=
  match e.ran with
  | .returned r => r.repr = documentText printable r.canon ∧ e.stdout.length ≤ maxText
  | .raised _ => e.stdout.length ≤ maxText
  | _ => True

/-- The first of the shortest inputs of its class. -/
def Leads (executions : List Execution) (p : Placed) : Prop :=
  p ∈ executions.zipIdx ∧ ∀ q ∈ executions.zipIdx, q.1.key = p.1.key → Before p q

structure Batch.Plain (printable : CodePoint → Bool) (batch : Batch) : Prop where
  plain : ∀ e ∈ batch.executions, e.Plain
  short : ∀ p, Leads batch.executions p → p.1.Short printable

/-! ## The key of a class -/

theorem kindOf_canon {v : PyVal} {c : Canon} (h : canonicalize v = .ok c) :
    kindOf c = documentKind v := by
  unfold canonicalize at h
  cases v with
  | none | bool _ | int _ | str _ | float _ | bytes _ =>
    cases (atDepth_eq_ok.1 h).2
    rfl
  | list _ | tuple _ | object _ _ =>
    obtain ⟨_, -, hc⟩ := bind_eq_ok.1 (atDepth_eq_ok.1 h).2
    obtain rfl := pure_eq_ok.1 hc
    rfl
  | set _ | frozenset _ | dict _ =>
    obtain ⟨_, -, hc⟩ := bind_eq_ok.1 (atDepth_eq_ok.1 h).2
    obtain ⟨_, -, hc⟩ := bind_eq_ok.1 hc
    obtain rfl := pure_eq_ok.1 hc
    rfl
  | rejected _ | bare _ | hostile _ | cycle => cases (atDepth_eq_ok.1 h).2

theorem documentKind_ne_nil (v : PyVal) : documentKind v ≠ [] := by
  cases v <;> simp [documentKind] <;> decide

variable {e : Execution}

/-- The kind that goes into the key of an execution. -/
theorem key_returned {r : Returned} (h : e.ran = .returned r) :
    e.key = ⟨InputOutcome.completed.text, documentKind r.value, [], effectsText e.effects⟩ := by
  simp [Execution.key, behaviourKey, Execution.observation, h, Execution.completed,
    kindOf_canon r.encoded]

theorem key_raised {info : RaisedInfo} (h : e.ran = .raised info) :
    e.key = ⟨InputOutcome.completed.text, [], info.typeName, effectsText e.effects⟩ := by
  simp [Execution.key, behaviourKey, Execution.observation, h, Execution.completed]

theorem key_ended {outcome : PyStr} (h : e.ran.ended = some outcome) :
    e.key = ⟨outcome, [], [], []⟩ := by
  cases hran : e.ran with
  | crashed exitStatus =>
    obtain rfl : InputOutcome.crashed.text = outcome := by simpa [hran, Ran.ended] using h
    simp [Execution.key, behaviourKey, Execution.observation, hran, crashedObservation,
      effectsText, join]
  | hung =>
    obtain rfl : InputOutcome.hung.text = outcome := by simpa [hran, Ran.ended] using h
    simp [Execution.key, behaviourKey, Execution.observation, hran, hungObservation,
      effectsText, join]
  | returned _ | raised _ | lost _ => simp [hran, Ran.ended] at h

theorem key_lost {reason : PyStr} (h : e.ran = .lost reason) :
    e.key = ⟨InputOutcome.crashed.text, [], [], []⟩ := by
  simp [Execution.key, behaviourKey, Execution.observation, h, syntheticObservation, effectsText,
    join]

/-- The executions of a class end alike, but for those that were lost. -/
theorem ran_of_key {outcome kind raisedType effects : PyStr}
    (h : e.key = ⟨outcome, kind, raisedType, effects⟩) :
    (∃ r, e.ran = .returned r ∧ documentKind r.value = kind ∧ effectsText e.effects = effects) ∨
      (∃ info, e.ran = .raised info ∧ outcome = InputOutcome.completed.text ∧ kind = [] ∧
        info.typeName = raisedType ∧ effectsText e.effects = effects) ∨
      e.ran.ended = some outcome ∧ kind = [] ∧ raisedType = [] ∨
      (∃ reason, e.ran = .lost reason) ∧ kind = [] ∧ raisedType = [] := by
  cases hran : e.ran with
  | returned r =>
    rw [key_returned hran, BehaviourKey.mk.injEq] at h
    exact .inl ⟨r, rfl, h.2.1, h.2.2.2⟩
  | raised info =>
    rw [key_raised hran, BehaviourKey.mk.injEq] at h
    exact .inr (.inl ⟨info, rfl, h.1.symm, h.2.1.symm, h.2.2.1, h.2.2.2⟩)
  | crashed _ | hung =>
    rw [key_ended (by rw [hran]; rfl), BehaviourKey.mk.injEq] at h
    exact .inr (.inr (.inl ⟨congrArg some h.1, h.2.1.symm, h.2.2.1.symm⟩))
  | lost reason =>
    rw [key_lost hran, BehaviourKey.mk.injEq] at h
    exact .inr (.inr (.inr ⟨⟨reason, rfl⟩, h.2.1.symm, h.2.2.1.symm⟩))

/-! ## One class -/

structure ClassTrue (row : BehaviourRow) (first : ObservationRow) : Prop where
  started : ∀ e ∈ row.counted, e.Started
  head : (headStatement row first).TrueOf row.counted first.shown
  touched : row.key.effects ≠ [] →
    (Statement.touched row.key.effects).TrueOf row.counted first.shown
  wrote : first.stdout ≠ [] → (Statement.wrote first.stdout).TrueOf row.counted first.shown

structure Filed (row : BehaviourRow) : Prop where
  counts : row.inputs = row.counted.length
  alike : ∀ e ∈ row.counted, e.key = row.key

theorem reprJson_ne_nil (doc : Json) : reprJson printable doc ≠ [] := by
  cases doc with
  | null => exact (by decide : lit "None" ≠ [])
  | bool b =>
    cases b
    · exact (by decide : lit "False" ≠ [])
    · exact (by decide : lit "True" ≠ [])
  | int n => exact intText_ne_nil n
  | str s => simp [reprJson, Python.reprStr]
  | arr _ | obj _ => exact List.append_ne_nil_of_right_ne_nil _ (by decide)

theorem documentText_ne_nil (canon : Canon) : documentText printable canon ≠ [] := by
  unfold documentText
  dsimp only
  split_ifs
  · exact reprJson_ne_nil _
  · exact List.append_ne_nil_of_right_ne_nil _ (by decide)

/-- What was printed is kept whole when it is short. -/
theorem take_eq_iff {stdout : PyStr} :
    (stdout.take maxText ≠ [] → stdout = stdout.take maxText) ↔ stdout.length ≤ maxText := by
  constructor
  · intro h
    by_contra hlong
    have hlen : (stdout.take maxText).length = maxText := by
      rw [List.length_take]
      omega
    have hne : stdout.take maxText ≠ [] := by
      intro hnil
      rw [hnil] at hlen
      cases hlen
    exact hlong (h hne ▸ hlen.le)
  · intro h _
    exact (List.take_of_length_le h).symm

variable {row : BehaviourRow} {p : Placed} {id : Nat}

theorem wrote_iff (h : p.1.observation.stdout = p.1.stdout) :
    ((observationRow printable id row.id p).stdout ≠ [] →
      (Statement.wrote (observationRow printable id row.id p).stdout).TrueOf row.counted p.1) ↔
      p.1.stdout.length ≤ maxText := by
  have hrow : (observationRow printable id row.id p).stdout = p.1.stdout.take maxText := by
    simp [observationRow, h]
  rw [hrow]
  exact take_eq_iff

theorem classTrue_returned {r : Returned} (hrow : Filed row) (hp : p.1 ∈ row.counted)
    (hran : p.1.ran = .returned r) :
    ClassTrue row (observationRow printable id row.id p) ↔
      (∀ e ∈ row.counted, e.Plain) ∧ p.1.Short printable := by
  have hkey : row.key = ⟨_, _, _, _⟩ := (hrow.alike _ hp).symm.trans (key_returned hran)
  have hmembers : ∀ e ∈ row.counted, ∃ r', e.ran = .returned r' ∧
      documentKind r'.value = documentKind r.value ∧
      effectsText e.effects = effectsText p.1.effects := by
    intro e he
    have hne := documentKind_ne_nil r.value
    rcases ran_of_key ((hrow.alike e he).trans hkey) with
      h | ⟨_, _, _, h, _⟩ | ⟨_, h, _⟩ | ⟨_, h, _⟩
    · exact h
    · exact absurd h hne
    · exact absurd h hne
    · exact absurd h hne
  have hhead : headStatement row (observationRow printable id row.id p) =
      .returns (documentKind r.value) row.inputs p.1.literals.1 (documentText printable r.canon) := by
    have hreturned : returnRepr printable p.1.observation = documentText printable r.canon := by
      simp [returnRepr, Execution.observation, hran]
    simp [headStatement, hkey, observationRow, hreturned, documentKind_ne_nil, documentText_ne_nil,
      InputOutcome.text]
  have hstdout : p.1.observation.stdout = p.1.stdout := by
    simp [Execution.observation, hran, Execution.completed]
  have hplain : ∀ e ∈ row.counted,
      (e.Plain ↔ ∃ r', e.ran = .returned r' ∧ r'.typeName = documentKind r.value) := by
    intro e he
    obtain ⟨r', hran', hkind, -⟩ := hmembers e he
    simp [Execution.Plain, hran', hkind]
  have hshort : p.1.Short printable ↔
      r.repr = documentText printable r.canon ∧ p.1.stdout.length ≤ maxText := by
    simp [Execution.Short, hran]
  rw [hshort]
  constructor
  · intro h
    have hreturns := h.head
    rw [hhead] at hreturns
    obtain ⟨hkinds, -, -, r', hran', hrepr⟩ := hreturns
    obtain rfl : r = r' := Ran.returned.inj (hran.symm.trans hran')
    exact ⟨fun e he => (hplain e he).2 (hkinds e he), hrepr, (wrote_iff hstdout).1 h.wrote⟩
  · rintro ⟨hall, hrepr, hlen⟩
    refine ⟨?_, ?_, ?_, (wrote_iff hstdout).2 hlen⟩
    · intro e he reason hlost
      obtain ⟨r', hran', -⟩ := hmembers e he
      rw [hran'] at hlost
      cases hlost
    · rw [hhead]
      exact ⟨fun e he => (hplain e he).1 (hall e he), hrow.counts.symm, rfl, r, hran, hrepr⟩
    · intro _ e he
      obtain ⟨_, -, -, heffects⟩ := hmembers e he
      rw [heffects, hkey]

/-- A class of raised exceptions: without a name for the type they pass for returned values. -/
theorem classTrue_raised {info : RaisedInfo} (hrow : Filed row) (hp : p.1 ∈ row.counted)
    (hran : p.1.ran = .raised info) :
    ClassTrue row (observationRow printable id row.id p) ↔
      (∀ e ∈ row.counted, e.Plain) ∧ p.1.Short printable := by
  have hkey : row.key = ⟨_, _, _, _⟩ := (hrow.alike _ hp).symm.trans (key_raised hran)
  have hstdout : p.1.observation.stdout = p.1.stdout := by
    simp [Execution.observation, hran, Execution.completed]
  have hshort : p.1.Short printable ↔ p.1.stdout.length ≤ maxText := by
    simp [Execution.Short, hran]
  rw [hshort]
  by_cases hname : info.typeName = []
  · -- The sentence is `returns a NoneType`, and the example raised.
    have hhead : ∃ returned, headStatement row (observationRow printable id row.id p) =
        .returns (lit "NoneType") row.inputs p.1.literals.1 returned :=
      ⟨_, by simp [headStatement, hkey, hname, observationRow, InputOutcome.text]; rfl⟩
    obtain ⟨returned, hhead⟩ := hhead
    constructor
    · intro h
      have hreturns := h.head
      rw [hhead] at hreturns
      obtain ⟨-, -, -, r, hreturned, -⟩ := hreturns
      exact absurd (hran.symm.trans hreturned) (fun h => (by cases h))
    · rintro ⟨hall, -⟩
      have hplain := hall _ hp
      simp [Execution.Plain, hran, hname] at hplain
  · have hmembers : ∀ e ∈ row.counted, ∃ info', e.ran = .raised info' ∧
        info'.typeName = info.typeName ∧ effectsText e.effects = effectsText p.1.effects := by
      intro e he
      rcases ran_of_key ((hrow.alike e he).trans hkey) with
        ⟨r, hran', hkind, -⟩ | ⟨info', hran', -, -, h⟩ | ⟨-, -, h⟩ | ⟨-, -, h⟩
      · exact absurd hkind (documentKind_ne_nil r.value)
      · exact ⟨info', hran', h⟩
      · exact absurd h hname
      · exact absurd h hname
    have hhead : headStatement row (observationRow printable id row.id p) =
        .raises info.typeName row.inputs p.1.literals.1 p.1.literals.2 info.message := by
      simp [headStatement, hkey, hname, observationRow, Execution.observation, hran]
    constructor
    · intro h
      refine ⟨?_, (wrote_iff hstdout).1 h.wrote⟩
      intro e he
      obtain ⟨info', hran', htype, -⟩ := hmembers e he
      simp [Execution.Plain, hran', htype, hname]
    · rintro ⟨-, hlen⟩
      refine ⟨?_, ?_, ?_, (wrote_iff hstdout).2 hlen⟩
      · intro e he reason hlost
        obtain ⟨info', hran', -⟩ := hmembers e he
        rw [hran'] at hlost
        cases hlost
      · rw [hhead]
        refine ⟨?_, hrow.counts.symm, rfl, info, hran, rfl⟩
        intro e he
        obtain ⟨info', hran', htype, -⟩ := hmembers e he
        exact ⟨info', hran', htype⟩
      · intro _ e he
        obtain ⟨_, -, -, heffects⟩ := hmembers e he
        rw [heffects, hkey]

theorem classTrue_ended (hrow : Filed row) {outcome : PyStr}
    (hkey : row.key = ⟨outcome, [], [], []⟩) (houtcome : outcome ≠ InputOutcome.completed.text)
    (hstdout : p.1.observation.stdout = []) (hshort : p.1.Short printable) :
    ClassTrue row (observationRow printable id row.id p) ↔
      (∀ e ∈ row.counted, e.Plain) ∧ p.1.Short printable := by
  have hmembers : ∀ e ∈ row.counted,
      e.ran.ended = some outcome ∨ ∃ reason, e.ran = .lost reason := by
    intro e he
    rcases ran_of_key ((hrow.alike e he).trans hkey) with
      ⟨r, -, hkind, -⟩ | ⟨_, -, h, -⟩ | ⟨h, -⟩ | ⟨h, -⟩
    · exact absurd hkind (documentKind_ne_nil r.value)
    · exact absurd h houtcome
    · exact .inl h
    · exact .inr h
  have hhead : headStatement row (observationRow printable id row.id p) =
      .ended outcome row.inputs p.1.literals.1 p.1.literals.2 := by
    have hne : outcome ≠ lit "COMPLETED" := houtcome
    simp [headStatement, hkey, hne, observationRow]
  have hplain : ∀ e ∈ row.counted, (e.Plain ↔ e.ran.ended = some outcome) := by
    intro e he
    rcases hmembers e he with h | ⟨reason, h⟩
    · cases hran : e.ran <;> simp_all [Execution.Plain, Ran.ended]
    · simp [Execution.Plain, h, Ran.ended]
  constructor
  · intro h
    have hended := h.head
    rw [hhead] at hended
    exact ⟨fun e he => (hplain e he).2 (hended.1 e he), hshort⟩
  · rintro ⟨hall, -⟩
    have hended : ∀ e ∈ row.counted, e.ran.ended = some outcome :=
      fun e he => (hplain e he).1 (hall e he)
    refine ⟨?_, ?_, ?_, ?_⟩
    · intro e he reason hlost
      have h := hended e he
      simp [hlost, Ran.ended] at h
    · rw [hhead]
      exact ⟨hended, hrow.counts.symm, rfl⟩
    · intro heffects
      exact absurd (by rw [hkey]) heffects
    · intro hne
      exact absurd (by simp [observationRow, hstdout]) hne

/-- The claims of a class are true when its inputs are plain and its example is short. -/
theorem classTrue_iff (hrow : Filed row) (hp : p.1 ∈ row.counted) :
    ClassTrue row (observationRow printable id row.id p) ↔
      (∀ e ∈ row.counted, e.Plain) ∧ p.1.Short printable := by
  cases hran : p.1.ran with
  | returned r => exact classTrue_returned hrow hp hran
  | raised info => exact classTrue_raised hrow hp hran
  | crashed exitStatus =>
    have hkey := (hrow.alike _ hp).symm.trans (key_ended (by rw [hran]; rfl))
    exact classTrue_ended hrow hkey (by decide) (by simp [Execution.observation, hran,
      crashedObservation]) (by simp [Execution.Short, hran])
  | hung =>
    have hkey := (hrow.alike _ hp).symm.trans (key_ended (by rw [hran]; rfl))
    exact classTrue_ended hrow hkey (by decide) (by simp [Execution.observation, hran,
      hungObservation]) (by simp [Execution.Short, hran])
  | lost reason =>
    have hkey := (hrow.alike _ hp).symm.trans (key_lost hran)
    exact classTrue_ended hrow hkey (by decide) (by simp [Execution.observation, hran,
      syntheticObservation]) (by simp [Execution.Short, hran])

/-! ## The classes of a batch -/

variable {executions : List Execution}

theorem mem_classesOf {c : Class} :
    c ∈ classesOf executions ↔ c ∈ cluster executions := by
  rw [classesOf, List.mem_insertionSort]

theorem class_items {c : Class} (hc : c ∈ classesOf executions) :
    (∀ p, p ∈ c.2 ↔ p ∈ executions.zipIdx ∧ p.1.key = c.1) ∧ c.2 ≠ [] := by
  have hitems := Grouped.groups_group.items c (mem_classesOf.1 hc)
  refine ⟨?_, hitems.2⟩
  intro p
  rw [hitems.1, List.mem_filter, decide_eq_true_eq]

theorem exists_class {p : Placed} (hp : p ∈ executions.zipIdx) :
    ∃ c ∈ classesOf executions, p ∈ c.2 := by
  have hcomplete := (Grouped.groups_group : Grouped.Groups (fun p : Placed => p.1.key) _ _).complete p hp
  obtain ⟨c, hc, hkey⟩ := List.mem_map.1 hcomplete
  have hc : c ∈ classesOf executions := mem_classesOf.2 hc
  exact ⟨c, hc, ((class_items hc).1 p).2 ⟨hp, hkey.symm⟩⟩

theorem classes_together (executions : List Execution) :
    ((classesOf executions).flatMap fun c => c.2.map Prod.fst).Perm executions := by
  have hsorted : (classesOf executions).Perm (cluster executions) := List.perm_insertionSort _ _
  have htogether : ((cluster executions).flatMap Prod.snd).Perm executions.zipIdx :=
    Grouped.groups_group.together
  have hplaced : ((classesOf executions).flatMap Prod.snd).Perm executions.zipIdx :=
    (hsorted.flatMap_right _).trans htogether
  have h := hplaced.map Prod.fst
  rwa [List.map_flatMap, List.zipIdx_map_fst] at h

theorem before_total (p q : Placed) : Before p q ∨ Before q p := by
  unfold Before
  omega

theorem before_trans {p q r : Placed} (hpq : Before p q) (hqr : Before q r) : Before p r := by
  unfold Before at *
  omega

/-- The first representative of a class is the first of its shortest inputs. -/
theorem representatives_cons {ps : List Placed} (h : ps ≠ []) :
    ∃ p rest, representatives ps = p :: rest ∧ p ∈ ps ∧ ∀ q ∈ ps, Before p q := by
  have hmem : ∀ q, q ∈ ordered ps ↔ q ∈ ps := fun q => List.mem_insertionSort _
  have hsorted : (ordered ps).Pairwise Before := by
    have : Std.Total Before := ⟨before_total⟩
    have : IsTrans Placed Before := ⟨fun _ _ _ => before_trans⟩
    exact List.pairwise_insertionSort Before ps
  cases hps : ordered ps with
  | nil =>
    have hlen := List.length_insertionSort Before ps
    rw [show ps.insertionSort Before = [] from hps] at hlen
    exact absurd (List.length_eq_zero_iff.1 hlen.symm) h
  | cons p rest =>
    rw [hps] at hsorted
    have hfirst : p ∈ ps := (hmem p).1 (by simp [hps])
    have hbefore : ∀ q ∈ ps, Before p q := by
      intro q hq
      rcases List.mem_cons.1 (hps ▸ (hmem q).2 hq) with rfl | hrest
      · exact (before_total q q).elim id id
      · exact (List.pairwise_cons.1 hsorted).1 q hrest
    cases rest with
    | nil => exact ⟨p, [], by simp [representatives, hps, maxRepresentatives], hfirst, hbefore⟩
    | cons q rest =>
      exact ⟨p, _, by simp [representatives, hps, maxRepresentatives]; rfl, hfirst, hbefore⟩

theorem eq_of_before {p q : Placed} (hp : p ∈ executions.zipIdx) (hq : q ∈ executions.zipIdx)
    (hpq : Before p q) (hqp : Before q p) : p = q := by
  have hplace : p.2 = q.2 := by
    unfold Before at hpq hqp
    omega
  rw [List.mem_zipIdx_iff_getElem?] at hp hq
  rw [hplace, hq] at hp
  exact Prod.ext (Option.some.inj hp).symm hplace

/-! ## The tables -/

def recordedOf (batch : Batch) : List (Nat × Class) :=
  (classesOf batch.executions).map fun c => (batch.symbolId, c)

def recorded (history : List Batch) : List (Nat × Class) := history.flatMap recordedOf

/-- A row of `behaviours` with its rows of `observations`. -/
structure Tables (printable : CodePoint → Bool) (observations : List ObservationRow)
    (row : BehaviourRow) (r : Nat × Class) : Prop where
  symbol : row.symbolId = r.1
  key : row.key = r.2.1
  inputs : row.inputs = r.2.2.length
  counted : row.counted = r.2.2.map Prod.fst
  examples : ∃ start, observations.filter (fun o => o.behaviourId = row.id) =
    observationRows printable row.id start (representatives r.2.2)

structure Tabled (printable : CodePoint → Bool) (index : Index) (rs : List (Nat × Class)) :
    Prop where
  behaviourIds : index.behaviours.map BehaviourRow.id = List.range' 1 index.behaviours.length
  observationIds :
    index.observations.map ObservationRow.id = List.range' 1 index.observations.length
  owned : ∀ o ∈ index.observations, o.behaviourId ≤ index.behaviours.length
  rows : List.Forall₂ (Tables printable index.observations) index.behaviours rs

theorem ids_observationRows {behaviourId start : Nat} {ps : List Placed} :
    (observationRows printable behaviourId start ps).map ObservationRow.id =
      List.range' start ps.length := by
  induction ps generalizing start with
  | nil => rfl
  | cons p ps ih => simp [observationRows, observationRow, ih, List.range'_succ]

theorem behaviourId_of_mem {behaviourId start : Nat} {ps : List Placed} {o : ObservationRow}
    (ho : o ∈ observationRows printable behaviourId start ps) : o.behaviourId = behaviourId := by
  induction ps generalizing start with
  | nil => cases ho
  | cons p ps ih =>
    rcases List.mem_cons.1 ho with rfl | ho
    · rfl
    · exact ih ho

theorem length_observationRows {behaviourId start : Nat} {ps : List Placed} :
    (observationRows printable behaviourId start ps).length = ps.length := by
  simpa using congrArg List.length
    (@ids_observationRows printable behaviourId start ps)

theorem Tables.mono {observations news : List ObservationRow} {row : BehaviourRow}
    {r : Nat × Class} (h : Tables printable observations row r)
    (hnews : ∀ o ∈ news, o.behaviourId ≠ row.id) : Tables printable (observations ++ news) row r where
  symbol := h.symbol
  key := h.key
  inputs := h.inputs
  counted := h.counted
  examples := by
    obtain ⟨start, hrows⟩ := h.examples
    refine ⟨start, ?_⟩
    have hnone : news.filter (fun o => o.behaviourId = row.id) = [] :=
      List.filter_eq_nil_iff.2 fun o ho => by simpa using hnews o ho
    rw [List.filter_append, hrows, hnone, List.append_nil]

variable {rs : List (Nat × Class)}

theorem Tabled.id_le {index : Index} (h : Tabled printable index rs) {row : BehaviourRow}
    (hrow : row ∈ index.behaviours) : row.id ≤ index.behaviours.length := by
  have hid : row.id ∈ List.range' 1 index.behaviours.length :=
    h.behaviourIds ▸ List.mem_map_of_mem hrow
  rw [List.mem_range'_1] at hid
  omega

theorem Tabled.storeClass {index : Index} (h : Tabled printable index rs) (runId symbolId : Nat)
    (c : Class) :
    Tabled printable (storeClass printable runId symbolId index c) (rs ++ [(symbolId, c)]) where
  behaviourIds := by
    simp [Specs.storeClass, h.behaviourIds, List.range'_concat, Nat.add_comm]
  observationIds := by
    simp only [Specs.storeClass, List.map_append, h.observationIds, ids_observationRows,
      List.length_append, length_observationRows, Nat.add_comm index.observations.length 1,
      List.range'_append_1]
  owned := by
    intro o ho
    rw [Specs.storeClass, List.length_append, List.length_singleton]
    rcases List.mem_append.1 ho with hold | hnew
    · exact (h.owned o hold).trans (Nat.le_succ _)
    · exact (behaviourId_of_mem hnew).le
  rows := by
    refine List.rel_append ?_ (.cons ?_ .nil)
    · have hold := (List.forall₂_and_left _ _).2 ⟨fun row hrow => h.id_le hrow, h.rows⟩
      refine hold.imp fun row r hrow => hrow.2.mono ?_
      intro o ho
      rw [behaviourId_of_mem ho]
      omega
    · refine ⟨rfl, rfl, rfl, rfl, index.observations.length + 1, ?_⟩
      have hnone : index.observations.filter
          (fun o => o.behaviourId = index.behaviours.length + 1) = [] := by
        refine List.filter_eq_nil_iff.2 fun o ho => ?_
        have hle := h.owned o ho
        simp only [decide_eq_true_eq]
        omega
      have hall := List.filter_eq_self.2 fun o ho => decide_eq_true
        (@behaviourId_of_mem printable (index.behaviours.length + 1)
          (index.observations.length + 1) (representatives c.2) o ho)
      rw [Specs.storeClass, List.filter_append, hnone, List.nil_append]
      exact hall

theorem Tabled.storeAll {index : Index} (h : Tabled printable index rs) (runId symbolId : Nat)
    (cs : List Class) :
    Tabled printable (cs.foldl (Specs.storeClass printable runId symbolId) index)
      (rs ++ cs.map fun c => (symbolId, c)) := by
  induction cs generalizing index rs with
  | nil => simpa using h
  | cons c cs ih => simpa using ih (h.storeClass runId symbolId c)

theorem Tabled.storeHistory {index : Index} (h : Tabled printable index rs) (history : List Batch) :
    Tabled printable (history.foldl (storeObservations printable) index)
      (rs ++ recorded history) := by
  induction history generalizing index rs with
  | nil => simpa [recorded] using h
  | cons batch history ih =>
    have hbatch := h.storeAll batch.runId batch.symbolId (classesOf batch.executions)
    simpa [recorded, recordedOf, storeObservations] using ih hbatch

/-- The tables after any number of runs. -/
theorem tabled_stored (history : List Batch) :
    Tabled printable (stored printable history) (recorded history) := by
  have hempty : Tabled printable ⟨[], []⟩ [] := ⟨rfl, rfl, by simp, .nil⟩
  simpa [stored] using hempty.storeHistory history

/-! ## Reading the tables -/

section Reading

variable {index : Index} {rs : List (Nat × Class)} {symbolId : Nat}

/-- A citation is resolved in one way. -/
theorem Tabled.trueIn_iff (h : Tabled printable index rs) {claim : Claim} {o : ObservationRow}
    (ho : o ∈ index.observations) (hrow : row ∈ index.behaviours)
    (hhead : claim.observations.head? = some o.id) (hid : o.behaviourId = row.id) :
    claim.TrueIn index symbolId ↔ row.symbolId = symbolId ∧ o.shown ∈ row.counted ∧
      (∀ e ∈ row.counted, e.Started) ∧ claim.statement.TrueOf row.counted o.shown := by
  constructor
  · rintro ⟨o', ho', row', hrow', hhead', hid', hrest⟩
    have hids : (index.observations.map ObservationRow.id).Nodup := by
      rw [h.observationIds]
      exact List.nodup_range'
    have hrowIds : (index.behaviours.map BehaviourRow.id).Nodup := by
      rw [h.behaviourIds]
      exact List.nodup_range'
    obtain rfl : o = o' :=
      List.inj_on_of_nodup_map hids ho ho' (Option.some.inj (hhead.symm.trans hhead'))
    obtain rfl : row = row' :=
      List.inj_on_of_nodup_map hrowIds hrow hrow' (hid.symm.trans hid')
    exact hrest
  · intro hrest
    exact ⟨o, ho, row, hrow, hhead, hid, hrest⟩

theorem claims_iff (h : Tabled printable index rs) {o : ObservationRow} {rest : List ObservationRow}
    (ho : o ∈ index.observations) (hrow : row ∈ index.behaviours) (hid : o.behaviourId = row.id) :
    (∀ claim ∈ (⟨row, o :: rest⟩ : Behaviour).claims, claim.TrueIn index symbolId) ↔
      row.symbolId = symbolId ∧ o.shown ∈ row.counted ∧ ClassTrue row o := by
  have htrue : ∀ statement ids (hids : o.id :: ids ≠ []),
      (⟨statement, o.id :: ids, hids⟩ : Claim).TrueIn index symbolId ↔
        row.symbolId = symbolId ∧ o.shown ∈ row.counted ∧ (∀ e ∈ row.counted, e.Started) ∧
          statement.TrueOf row.counted o.shown :=
    fun statement ids hids => h.trueIn_iff ho hrow rfl hid
  constructor
  · intro hall
    simp only [Behaviour.claims, List.mem_cons, forall_eq_or_imp, List.mem_append] at hall
    obtain ⟨hhead, hmore⟩ := hall
    obtain ⟨hsymbol, hshown, hstarted, hsaid⟩ := (htrue _ _ _).1 hhead
    refine ⟨hsymbol, hshown, hstarted, hsaid, ?_, ?_⟩
    · intro heffects
      have htouched := hmore ⟨.touched row.key.effects, o.id :: rest.map ObservationRow.id,
        List.cons_ne_nil _ _⟩ (.inl (by simp [heffects]))
      exact ((htrue _ _ _).1 htouched).2.2.2
    · intro hstdout
      have hwrote := hmore ⟨.wrote o.stdout, [o.id], List.cons_ne_nil _ _⟩
        (.inr (by simp [hstdout]))
      exact ((htrue _ _ _).1 hwrote).2.2.2
  · rintro ⟨hsymbol, hshown, hclass⟩ claim hclaim
    simp only [Behaviour.claims, List.mem_cons, List.mem_append] at hclaim
    rcases hclaim with rfl | htouched | hwrote
    · exact (htrue _ _ _).2 ⟨hsymbol, hshown, hclass.started, hclass.head⟩
    · split_ifs at htouched with heffects
      · obtain rfl := List.mem_singleton.1 htouched
        exact (htrue _ _ _).2 ⟨hsymbol, hshown, hclass.started, hclass.touched heffects⟩
      · cases htouched
    · split_ifs at hwrote with hstdout
      · obtain rfl := List.mem_singleton.1 hwrote
        exact (htrue _ _ _).2 ⟨hsymbol, hshown, hclass.started, hclass.wrote hstdout⟩
      · cases hwrote

/-- A class of a batch and its row: the claims are true when its inputs are plain and the input that
leads it is short. -/
theorem Tabled.row_iff (h : Tabled printable index rs) {executions : List Execution} {c : Class}
    {owner : Nat} (hc : c ∈ classesOf executions) (hrow : row ∈ index.behaviours)
    (hr : Tables printable index.observations row (owner, c)) :
    (∀ claim ∈ (⟨row, index.observations.filter fun o => o.behaviourId = row.id⟩ :
        Behaviour).claims, claim.TrueIn index symbolId) ↔
      owner = symbolId ∧ (∀ p ∈ c.2, p.1.Plain) ∧
        ∀ p, Leads executions p → p.1.key = c.1 → p.1.Short printable := by
  obtain ⟨hitems, hne⟩ := class_items hc
  obtain ⟨p, rest, hps, hp, hfirst⟩ := representatives_cons hne
  obtain ⟨start, hrows⟩ := hr.examples
  simp only [hps, observationRows] at hrows
  have hmem : observationRow printable start row.id p ∈
      index.observations.filter fun o => o.behaviourId = row.id := by
    rw [hrows]
    exact List.mem_cons_self
  have hshown : p.1 ∈ row.counted := by
    rw [hr.counted]
    exact List.mem_map_of_mem hp
  have hfiled : Filed row := by
    refine ⟨by rw [hr.inputs, hr.counted, List.length_map], ?_⟩
    intro e he
    rw [hr.counted] at he
    obtain ⟨q, hq, rfl⟩ := List.mem_map.1 he
    exact ((hitems q).1 hq).2.trans hr.key.symm
  have hplain : (∀ e ∈ row.counted, e.Plain) ↔ ∀ q ∈ c.2, q.1.Plain := by
    rw [hr.counted, List.forall_mem_map]
  -- The first representative is the one input that leads the class.
  have hleads : Leads executions p := by
    refine ⟨((hitems p).1 hp).1, fun q hq hkey => hfirst q ((hitems q).2 ⟨hq, ?_⟩)⟩
    exact hkey.trans ((hitems p).1 hp).2
  have hshort : p.1.Short printable ↔
      ∀ q, Leads executions q → q.1.key = c.1 → q.1.Short printable := by
    constructor
    · intro hshort q hq hkey
      have hqc : q ∈ c.2 := (hitems q).2 ⟨hq.1, hkey⟩
      have hqp : Before q p := hq.2 p hleads.1 (((hitems p).1 hp).2.trans hkey.symm)
      obtain rfl := eq_of_before hleads.1 hq.1 (hfirst q hqc) hqp
      exact hshort
    · intro hall
      exact hall p hleads ((hitems p).1 hp).2
  rw [hrows, claims_iff h (List.mem_filter.1 hmem).1 hrow rfl, hr.symbol,
    classTrue_iff hfiled hshown, hplain, hshort]
  exact ⟨fun ⟨howner, _, hrest⟩ => ⟨howner, hrest⟩, fun ⟨howner, hrest⟩ => ⟨howner, hshown, hrest⟩⟩

end Reading

/-! ## The spec of a symbol -/

section Symbol

variable {history : List Batch} {symbol : SymbolRow} {qualname : PyStr}

theorem mem_recorded {r : Nat × Class} : r ∈ recorded history ↔
    ∃ batch ∈ history, batch.symbolId = r.1 ∧ r.2 ∈ classesOf batch.executions := by
  rcases r with ⟨owner, c⟩
  simp only [recorded, recordedOf, List.mem_flatMap, List.mem_map, Prod.mk.injEq]
  constructor
  · rintro ⟨batch, hbatch, c', hc, howner, rfl⟩
    exact ⟨batch, hbatch, howner, hc⟩
  · rintro ⟨batch, hbatch, howner, hc⟩
    exact ⟨batch, hbatch, c, hc, howner, rfl⟩

theorem row_of_class {batch : Batch} {c : Class} (hbatch : batch ∈ history)
    (hc : c ∈ classesOf batch.executions) :
    ∃ row ∈ (stored printable history).behaviours,
      Tables printable (stored printable history).observations row (batch.symbolId, c) :=
  forall₂_mem_right (tabled_stored history).rows (mem_recorded.2 ⟨batch, hbatch, rfl, hc⟩)

theorem class_of_row {row : BehaviourRow} (hrow : row ∈ (stored printable history).behaviours) :
    ∃ batch ∈ history, ∃ c ∈ classesOf batch.executions,
      Tables printable (stored printable history).observations row (batch.symbolId, c) := by
  obtain ⟨⟨owner, c⟩, hr, htables⟩ :=
    forall₂_mem_right (@tabled_stored printable history).rows.flip hrow
  obtain ⟨batch, hbatch, howner, hc⟩ := mem_recorded.1 hr
  obtain rfl : batch.symbolId = owner := howner
  exact ⟨batch, hbatch, c, hc, htables⟩

theorem mem_behavioursOf {index : Index} {symbolId : Nat} {b : Behaviour} :
    b ∈ behavioursOf index symbolId ↔ ∃ row ∈ index.behaviours, row.symbolId = symbolId ∧
      b = ⟨row, index.observations.filter fun o => o.behaviourId = row.id⟩ := by
  simp only [behavioursOf, List.mem_map, List.mem_reverse, List.mem_filter, decide_eq_true_eq]
  constructor
  · rintro ⟨row, ⟨hrow, hsymbol⟩, rfl⟩
    exact ⟨row, hrow, hsymbol, rfl⟩
  · rintro ⟨row, hrow, hsymbol, rfl⟩
    exact ⟨row, ⟨hrow, hsymbol⟩, rfl⟩

theorem synthesize_claims {index : Index} : (synthesize index qualname (some symbol)).claims =
    (behavioursOf index symbol.id).flatMap Behaviour.claims := by
  simp only [synthesize]
  split_ifs with hnone hclaims
  · simp [List.isEmpty_iff.1 hnone]
  · exact (List.isEmpty_iff.1 hclaims).symm
  · rfl

/-- The count in every branch of `synthesize`. -/
theorem synthesize_inputs {index : Index} :
    (synthesize index qualname (some symbol)).inputsObserved =
      (((behavioursOf index symbol.id).filter fun b => !b.examples.isEmpty).map
        fun b => b.row.inputs).sum := by
  simp only [synthesize]
  split_ifs with hnone hclaims
  · simp [List.isEmpty_iff.1 hnone]
  · -- Without claims no class has an example.
    have hnil := List.flatMap_eq_nil_iff.1 (List.isEmpty_iff.1 hclaims)
    have hempty : (behavioursOf index symbol.id).filter (fun b => !b.examples.isEmpty) = [] := by
      refine List.filter_eq_nil_iff.2 fun b hb => ?_
      have hb := hnil b hb
      cases hexamples : b.examples with
      | nil => simp
      | cons first rest => simp [Behaviour.claims, hexamples] at hb
    simp [hempty]
  · rfl

theorem claims_true_iff :
    (∀ claim ∈ (synthesize (stored printable history) qualname (some symbol)).claims,
      claim.TrueIn (stored printable history) symbol.id) ↔
      ∀ batch ∈ history, batch.symbolId = symbol.id → batch.Plain printable := by
  have htabled : Tabled printable (stored printable history) (recorded history) :=
    tabled_stored history
  rw [synthesize_claims]
  constructor
  · intro hall batch hbatch hsymbol
    -- What the claims of a class are true for.
    have hclass : ∀ c ∈ classesOf batch.executions, (∀ p ∈ c.2, p.1.Plain) ∧
        ∀ p, Leads batch.executions p → p.1.key = c.1 → p.1.Short printable := by
      intro c hc
      obtain ⟨row, hrow, htables⟩ :
          ∃ row ∈ (stored printable history).behaviours,
            Tables printable (stored printable history).observations row (batch.symbolId, c) :=
        row_of_class hbatch hc
      have hclaims : ∀ claim ∈ (⟨row, (stored printable history).observations.filter
          fun o => o.behaviourId = row.id⟩ : Behaviour).claims,
          claim.TrueIn (stored printable history) symbol.id := ?_
      · exact ((htabled.row_iff hc hrow htables).1 hclaims).2
      intro claim hclaim
      refine hall claim (List.mem_flatMap.2 ⟨_, mem_behavioursOf.2 ⟨row, hrow, ?_, rfl⟩, hclaim⟩)
      rw [htables.symbol, hsymbol]
    refine ⟨?_, ?_⟩
    · intro e he
      obtain ⟨i, hi, rfl⟩ := List.getElem_of_mem he
      have hp : (batch.executions[i], i) ∈ batch.executions.zipIdx := by
        simp [List.mem_zipIdx_iff_getElem?, hi]
      obtain ⟨c, hc, hpc⟩ := exists_class hp
      exact (hclass c hc).1 _ hpc
    · intro p hp
      obtain ⟨c, hc, hpc⟩ := exists_class hp.1
      exact (hclass c hc).2 p hp (((class_items hc).1 p).1 hpc).2
  · intro hplain claim hclaim
    obtain ⟨b, hb, hclaim⟩ := List.mem_flatMap.1 hclaim
    obtain ⟨row, hrow, hsymbol, rfl⟩ := mem_behavioursOf.1 hb
    obtain ⟨batch, hbatch, c, hc, htables⟩ := class_of_row hrow
    have howner : batch.symbolId = symbol.id := htables.symbol.symm.trans hsymbol
    have hbatchPlain := hplain batch hbatch howner
    refine (htabled.row_iff hc hrow htables).2 ⟨howner, ?_, ?_⟩ claim hclaim
    · intro p hp
      have hzip := (((class_items hc).1 p).1 hp).1
      exact hbatchPlain.plain _ (List.fst_mem_of_mem_zipIdx hzip)
    · intro p hp _
      exact hbatchPlain.short p hp

/-! ## What the claims cover -/

theorem cited_of_claim {b : Behaviour} {claim : Claim} (hclaim : claim ∈ b.claims) {i : Nat}
    (hi : i ∈ claim.observations) : ∃ o ∈ b.examples, o.id = i := by
  cases hexamples : b.examples with
  | nil => simp [Behaviour.claims, hexamples] at hclaim
  | cons first rest =>
    have hids : ∀ j ∈ claim.observations, j ∈ first.id :: rest.map ObservationRow.id := by
      simp only [Behaviour.claims, hexamples, List.mem_cons, List.mem_append] at hclaim
      intro j hj
      rcases hclaim with rfl | htouched | hwrote
      · exact hj
      · split_ifs at htouched
        · obtain rfl := List.mem_singleton.1 htouched
          exact hj
        · cases htouched
      · split_ifs at hwrote
        · obtain rfl := List.mem_singleton.1 hwrote
          exact List.mem_cons.2 (.inl (List.mem_singleton.1 hj))
        · cases hwrote
    exact List.mem_map.1 (hids i hi)

theorem examples_of_row {row : BehaviourRow} (hrow : row ∈ (stored printable history).behaviours) :
    ∃ first rest, (stored printable history).observations.filter (fun o => o.behaviourId = row.id) =
      first :: rest := by
  obtain ⟨batch, -, c, hc, htables⟩ := class_of_row hrow
  obtain ⟨p, rest, hps, -, -⟩ := representatives_cons (class_items hc).2
  obtain ⟨start, hrows⟩ := htables.examples
  simp only [hps, observationRows] at hrows
  exact ⟨_, _, hrows⟩

theorem cited_iff {row : BehaviourRow} (hrow : row ∈ (stored printable history).behaviours) :
    Cited (stored printable history)
      (synthesize (stored printable history) qualname (some symbol)).claims row ↔
      row.symbolId = symbol.id := by
  have htabled : Tabled printable (stored printable history) (recorded history) :=
    tabled_stored history
  have hids : ((stored printable history).observations.map ObservationRow.id).Nodup := by
    rw [htabled.observationIds]
    exact List.nodup_range'
  have hrowIds : ((stored printable history).behaviours.map BehaviourRow.id).Nodup := by
    rw [htabled.behaviourIds]
    exact List.nodup_range'
  rw [synthesize_claims]
  constructor
  · rintro ⟨claim, hclaim, o, ho, hcited, hid⟩
    obtain ⟨b, hb, hclaim⟩ := List.mem_flatMap.1 hclaim
    obtain ⟨row', hrow', hsymbol, rfl⟩ := mem_behavioursOf.1 hb
    obtain ⟨o', ho', hsame⟩ := cited_of_claim hclaim hcited
    obtain ⟨ho', hid'⟩ := List.mem_filter.1 ho'
    obtain rfl : o' = o := List.inj_on_of_nodup_map hids ho' ho hsame
    have hid' : o'.behaviourId = row'.id := of_decide_eq_true hid'
    obtain rfl : row' = row :=
      List.inj_on_of_nodup_map hrowIds hrow' hrow (hid'.symm.trans hid)
    exact hsymbol
  · intro hsymbol
    obtain ⟨first, rest, hexamples⟩ := examples_of_row hrow
    have hfirst := List.mem_filter.1 (hexamples ▸ List.mem_cons_self (a := first) (l := rest))
    have hclaim : (⟨headStatement row first, first.id :: rest.map ObservationRow.id,
        List.cons_ne_nil _ _⟩ : Claim) ∈ Behaviour.claims ⟨row, first :: rest⟩ :=
      List.mem_cons_self
    rw [← hexamples] at hclaim
    exact ⟨_, List.mem_flatMap.2 ⟨_, mem_behavioursOf.2 ⟨row, hrow, hsymbol, rfl⟩, hclaim⟩, first,
      hfirst.1, List.mem_cons_self, of_decide_eq_true hfirst.2⟩

theorem covered_eq : covered (stored printable history)
      (synthesize (stored printable history) qualname (some symbol)).claims =
    ((stored printable history).behaviours.filter fun row => row.symbolId = symbol.id).flatMap
      BehaviourRow.counted := by
  unfold covered
  congr 1
  refine List.filter_congr fun row hrow => ?_
  exact decide_eq_decide.2 (cited_iff hrow)

theorem counted_of_rows {observations : List ObservationRow} {rows : List BehaviourRow}
    {rs : List (Nat × Class)} {symbolId : Nat}
    (h : List.Forall₂ (Tables printable observations) rows rs) :
    (rows.filter fun row => row.symbolId = symbolId).flatMap BehaviourRow.counted =
      (rs.filter fun r => r.1 = symbolId).flatMap fun r => r.2.2.map Prod.fst := by
  induction h with
  | nil => rfl
  | cons hrow _ ih =>
    rw [List.filter_cons, List.filter_cons, hrow.symbol]
    split_ifs
    · rw [List.flatMap_cons, List.flatMap_cons, ih, hrow.counted]
    · exact ih

theorem recorded_perm (history : List Batch) (symbolId : Nat) :
    (((recorded history).filter fun r => r.1 = symbolId).flatMap fun r => r.2.2.map Prod.fst).Perm
      (ranOn history symbolId) := by
  induction history with
  | nil => exact .refl _
  | cons batch history ih =>
    by_cases hsymbol : batch.symbolId = symbolId
    · have hbatch : (recordedOf batch).filter (fun r => r.1 = symbolId) = recordedOf batch := by
        simp [recordedOf, List.filter_map, Function.comp_def, hsymbol]
      have hcounted : ((recordedOf batch).flatMap fun r => r.2.2.map Prod.fst).Perm
          batch.executions := by
        rw [recordedOf, List.flatMap_map]
        exact classes_together batch.executions
      rw [recorded, List.flatMap_cons, List.filter_append, List.flatMap_append, hbatch]
      simpa [recorded, ranOn, hsymbol] using hcounted.append ih
    · have hbatch : (recordedOf batch).filter (fun r => r.1 = symbolId) = [] := by
        simp [recordedOf, List.filter_map, Function.comp_def, hsymbol]
      simpa [recorded, ranOn, hsymbol, hbatch] using ih

theorem covered_perm : (covered (stored printable history)
      (synthesize (stored printable history) qualname (some symbol)).claims).Perm
    (ranOn history symbol.id) := by
  rw [covered_eq, counted_of_rows (tabled_stored history).rows]
  exact recorded_perm history symbol.id

theorem inputs_eq_covered :
    (synthesize (stored printable history) qualname (some symbol)).inputsObserved =
      (covered (stored printable history)
        (synthesize (stored printable history) qualname (some symbol)).claims).length := by
  have hexamples : ∀ b ∈ behavioursOf (stored printable history) symbol.id,
      b.examples ≠ [] ∧ b.row.inputs = b.row.counted.length := by
    intro b hb
    obtain ⟨row, hrow, -, rfl⟩ := mem_behavioursOf.1 hb
    obtain ⟨first, rest, hrows⟩ := examples_of_row hrow
    obtain ⟨_, -, c, -, htables⟩ := class_of_row hrow
    refine ⟨by simp [hrows], ?_⟩
    rw [htables.inputs, htables.counted, List.length_map]
  have hall : (behavioursOf (stored printable history) symbol.id).filter
      (fun b => !b.examples.isEmpty) = behavioursOf (stored printable history) symbol.id :=
    List.filter_eq_self.2 fun b hb => by simpa using (hexamples b hb).1
  have hinputs : (behavioursOf (stored printable history) symbol.id).map (fun b => b.row.inputs) =
      (behavioursOf (stored printable history) symbol.id).map fun b => b.row.counted.length :=
    List.map_congr_left fun b hb => (hexamples b hb).2
  rw [synthesize_inputs, hall, hinputs, covered_eq, List.length_flatMap, behavioursOf,
    List.map_map, List.map_reverse, List.sum_reverse]
  rfl

/-- The spec of a symbol states what ran exactly when its batches are plain. -/
theorem statesWhatRan_iff (printable : CodePoint → Bool) (history : List Batch)
    (qualname : PyStr) (symbol : SymbolRow) :
    StatesWhatRan (stored printable history) history symbol.id
      (synthesize (stored printable history) qualname (some symbol)) ↔
      ∀ batch ∈ history, batch.symbolId = symbol.id → batch.Plain printable := by
  constructor
  · intro h
    exact claims_true_iff.1 h.claims
  · intro hplain
    exact ⟨claims_true_iff.2 hplain, inputs_eq_covered, covered_perm⟩

end Symbol

/-- `divmod(3, 2)`. -/
def pairReturned : Returned where
  value := .tuple [.int 1, .int 1]
  typeName := lit "tuple"
  repr := lit "(1, 1)"
  canon := .seq .tuple [.int 1, .int 1]
  encoded := rfl

def pairRun : Execution where
  literals := (lit "[3, 2]", lit "{}")
  ran := .returned pairReturned
  effects := []
  stdout := []
  wallNs := 1000

def divmodRow : SymbolRow := ⟨1, lit "halves", lit "m.py:1-2", lit "(a, b)"⟩

/-- A tuple is said to be a `dict`. -/
theorem tuple_stated_as_dict :
    ((synthesize (stored (fun _ => true) [⟨1, 1, [pairRun]⟩]) (lit "halves")
      (some divmodRow)).claims.map fun claim => claim.statement.text fun _ => true) =
        [lit "returns a `dict` on 1 observed input — `args=[3, 2]` returned " ++
          lit "`\x7b'__t': 'tuple', 'v': [1, 1]\x7d`"] ∧
      ¬ StatesWhatRan (stored (fun _ => true) [⟨1, 1, [pairRun]⟩]) [⟨1, 1, [pairRun]⟩] 1
        (synthesize (stored (fun _ => true) [⟨1, 1, [pairRun]⟩]) (lit "halves")
          (some divmodRow)) := by
  refine ⟨by decide, ?_⟩
  intro h
  have hplain := claims_true_iff.1 h.claims ⟨1, 1, [pairRun]⟩ (by simp) rfl
  have hpair : lit "tuple" = lit "dict" := hplain.plain pairRun (by simp)
  exact absurd hpair (by decide)

end Specs
end Tempest
