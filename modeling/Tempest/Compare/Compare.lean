import Tempest.Compare.Normalize
import Tempest.Compare.Canonical

/-!
# Compare — the verdict of one pair of observations (`compare/compare.py`)

`compare` is a cascade of guards: what the harness made up itself, what it could not intercept,
what it could not encode, then the outcome, the exceptions, the returned values, the effects and
the two streams.  Equality is decided on canonical trees only.
-/

namespace Tempest

open Python

/-! ## Results -/

/-- The documented equivalence relation; the tolerance is validated to be non-negative. -/
structure CompareConfig where
  floatRelTol : Option ℚ≥0 := none

/-- A part of an f-string: text, or a `!r` field that shows the `repr` of a string. -/
inductive Piece where
  | text (s : PyStr)
  | repr (s : PyStr)
  deriving DecidableEq

structure Diverged where
  divergenceClass : DivergenceClass
  severity : Severity
  detail : List Piece
  firstDivergentEffect : Option Nat := none
  deriving DecidableEq

inductive UnprovableKind where
  | uninterceptable
  | replayUnstable
  | unserializable
  | workerUnavailable
  deriving DecidableEq

structure Unprovable where
  reason : PyStr
  kind : UnprovableKind
  deriving DecidableEq

inductive CompareResult where
  | equal
  | diverged (d : Diverged)
  | unprovable (u : Unprovable)
  deriving DecidableEq

/-! ## Values -/

/-- `_floats_equal`: the pair is (equal, the difference is the sign of a zero). -/
def floatsEqual (cfg : CompareConfig) (x y : HexFloat) : Bool × Bool :=
  if x = y then (true, false)
  else if x.isNan && y.isNan then (true, false)
  else if x.isNan || y.isNan then (false, false)
  else if x.isZero && y.isZero then
    if cfg.floatRelTol.isSome then (true, false) else (false, true)
  else
    match cfg.floatRelTol with
    | some tol => if isclose x y tol then (true, false) else (false, false)
    | none => (false, false)

/-- The end of both loops over children. -/
def loopResult (equal signOnly : Bool) : Bool × Bool :=
  if equal then (true, false) else (false, signOnly)

mutual

/-- `_values_equal`: deep equality, and whether every difference is the sign of a zero. -/
def valuesEqual (cfg : CompareConfig) : Canon → Canon → Bool × Bool
  | .float x, .float y => floatsEqual cfg x y
  | .seq tag xs, .seq tag' ys =>
    if tag ≠ tag' then (false, false)
    else if xs.length ≠ ys.length then (false, false)
    else sequencesLoop cfg xs ys true true
  | .dict xs, .dict ys =>
    if xs.length ≠ ys.length then (false, false) else pairsLoop cfg xs ys true true
  | .obj typeName xs, .obj typeName' ys =>
    if typeName ≠ typeName' then (false, false)
    else if xs.length ≠ ys.length then (false, false)
    else attrsLoop cfg xs ys true true
  | .bytes x, .bytes y => (x == y, false)
  | .bool x, .bool y => (x == y, false)
  | .int x, .int y => (x == y, false)
  | .str x, .str y => (x == y, false)
  | .none, .none => (true, false)
  | _, _ => (false, false)

/-- The loop of `_sequences_equal`. -/
def sequencesLoop (cfg : CompareConfig) : List Canon → List Canon → Bool → Bool → Bool × Bool
  | x :: xs, y :: ys, equal, signOnly =>
    let child := valuesEqual cfg x y
    sequencesLoop cfg xs ys (equal && child.1) (signOnly && (child.1 || child.2))
  | _, _, equal, signOnly => loopResult equal signOnly

/-- The loop of `_pairs_equal` over the items of a dict: a key that differs ends it. -/
def pairsLoop (cfg : CompareConfig) :
    List (Canon × Canon) → List (Canon × Canon) → Bool → Bool → Bool × Bool
  | (key, x) :: xs, (key', y) :: ys, equal, signOnly =>
    if (valuesEqual cfg key key').1 then
      let child := valuesEqual cfg x y
      pairsLoop cfg xs ys (equal && child.1) (signOnly && (child.1 || child.2))
    else (false, false)
  | _, _, equal, signOnly => loopResult equal signOnly

/-- The loop of `_pairs_equal` over the attributes of an object, whose keys are strings. -/
def attrsLoop (cfg : CompareConfig) :
    List (PyStr × Canon) → List (PyStr × Canon) → Bool → Bool → Bool × Bool
  | (name, x) :: xs, (name', y) :: ys, equal, signOnly =>
    if name == name' then
      let child := valuesEqual cfg x y
      attrsLoop cfg xs ys (equal && child.1) (signOnly && (child.1 || child.2))
    else (false, false)
  | _, _, equal, signOnly => loopResult equal signOnly

end

/-! ## Exceptions and effects -/

def RaisedInfo.qualified (info : RaisedInfo) : PyStr := info.module ++ lit "." ++ info.typeName

def compareExceptions (base head : Observation) : Option Diverged :=
  match base.raised, head.raised with
  | none, some info =>
    some ⟨.exceptionType, .normal,
      [.text (lit "head raised " ++ info.qualified ++ lit ", the other side returned")], none⟩
  | some info, none =>
    some ⟨.exceptionType, .normal,
      [.text (lit "base raised " ++ info.qualified ++ lit ", the other side returned")], none⟩
  | none, none => none
  | some b, some h =>
    if (b.typeName, b.module) ≠ (h.typeName, h.module) then
      some ⟨.exceptionType, .normal,
        [.text (lit "base raised " ++ b.qualified ++ lit ", head raised " ++ h.qualified)], none⟩
    else if normalizeMessage b.message ≠ normalizeMessage h.message then
      some ⟨.exceptionMessage, .normal,
        [.text (lit "same exception type (" ++ b.typeName ++
          lit "), messages differ after normalization")], none⟩
    else none

/-- The loop of `_compare_effects` at effect `i`; past the shorter ledger comes the length check. -/
def compareEffectsFrom : Nat → List EffectEntry → List EffectEntry → Option Diverged
  | _, [], [] => none
  | i, b :: bs, h :: hs =>
    if (b.surface, b.call) ≠ (h.surface, h.call) then
      some ⟨.effectSequence, .normal,
        [.text (lit "effect #" ++ natText i ++ lit ": base " ++ b.surface ++ lit " "),
          .repr b.call, .text (lit " vs head " ++ h.surface ++ lit " "), .repr h.call], some i⟩
    else if b.argsFingerprint ≠ h.argsFingerprint then
      some ⟨.effectArguments, .normal,
        [.text (lit "effect #" ++ natText i ++ lit " (" ++ b.surface ++ lit " "), .repr b.call,
          .text (lit "): arguments differ")], some i⟩
    else compareEffectsFrom (i + 1) bs hs
  | i, [], extra :: _ =>
    some ⟨.effectSequence, .normal,
      [.text (lit "head issued an extra effect at #" ++ natText i ++ lit ": " ++ extra.surface ++
        lit " "), .repr extra.call], some i⟩
  | i, extra :: _, [] =>
    some ⟨.effectSequence, .normal,
      [.text (lit "base issued an extra effect at #" ++ natText i ++ lit ": " ++ extra.surface ++
        lit " "), .repr extra.call], some i⟩

def compareEffects (base head : Observation) : Option Diverged :=
  compareEffectsFrom 0 base.effects head.effects

/-! ## The cascade -/

def outcomesDiffer (base head : Observation) : Diverged :=
  if base.outcome = .hung ∨ head.outcome = .hung then
    ⟨.hang, .headline,
      [.text (lit "base " ++ base.outcome.lower ++ lit ", head " ++ head.outcome.lower)], none⟩
  else
    ⟨.crash, .headline,
      [.text (lit "base " ++ base.outcome.lower ++ lit " (exit " ++ intText base.exitStatus ++
        lit "), head " ++ head.outcome.lower ++ lit " (exit " ++ intText head.exitStatus ++
        lit ")")], none⟩

def returnsDiffer (signOnly : Bool) : Diverged :=
  ⟨.returnValue, if signOnly then .low else .normal,
    [.text (if signOnly then lit "signed-zero difference (-0.0 vs 0.0)"
      else lit "return values differ")], none⟩

def compareCompleted (base head : Observation) (cfg : CompareConfig) : CompareResult :=
  match compareExceptions base head with
  | some d => .diverged d
  | none =>
    let values := valuesEqual cfg base.returnCanon head.returnCanon
    if base.returnPresent && head.returnPresent && !values.1 then
      .diverged (returnsDiffer values.2)
    else
      match compareEffects base head with
      | some d => .diverged d
      | none =>
        if normalizeMessage base.stdout ≠ normalizeMessage head.stdout then
          .diverged ⟨.outputStream, .normal, [.text (lit "stdout differs")], none⟩
        else if normalizeMessage base.stderr ≠ normalizeMessage head.stderr then
          .diverged ⟨.outputStream, .normal, [.text (lit "stderr differs")], none⟩
        else .equal

def compareOutcomes (base head : Observation) (cfg : CompareConfig) : CompareResult :=
  if base.outcome ≠ head.outcome then .diverged (outcomesDiffer base head)
  else
    match base.outcome with
    | .crashed =>
      if base.exitStatus ≠ head.exitStatus then
        .diverged ⟨.crash, .headline,
          [.text (lit "both crashed but differently: base exit " ++ intText base.exitStatus ++
            lit ", head exit " ++ intText head.exitStatus)], none⟩
      else .equal
    | .hung => .equal
    | .completed => compareCompleted base head cfg

def synthesized (side reason : PyStr) : CompareResult :=
  .unprovable ⟨side ++ lit " observation was synthesized by the harness (" ++ reason ++
    lit ") — worker infrastructure failed; no user code ran", .workerUnavailable⟩

def notIntercepted (side surface : PyStr) : CompareResult :=
  .unprovable ⟨side ++ lit " reached an un-interceptable surface: " ++ surface, .uninterceptable⟩

def notEncoded (side reason : PyStr) : CompareResult :=
  .unprovable ⟨side ++ lit " observation unrepresentable: " ++ reason, .unserializable⟩

def compare (base head : Observation) (cfg : CompareConfig) : CompareResult :=
  match base.syntheticReason, head.syntheticReason, base.uninterceptable, head.uninterceptable with
  | some reason, _, _, _ => synthesized (lit "base") reason
  | none, some reason, _, _ => synthesized (lit "head") reason
  | none, none, some surface, _ => notIntercepted (lit "base") surface
  | none, none, none, some surface => notIntercepted (lit "head") surface
  | none, none, none, none =>
    match base.cassetteMiss, head.cassetteMiss with
    | none, some call =>
      .diverged ⟨.cassetteMiss, .normal,
        [.text (lit "head issued an interaction base never issued: " ++ call)], none⟩
    | some call, _ =>
      .unprovable ⟨lit "base replay missed its own cassette (" ++ call ++
        lit ") — replay is unstable for this input", .replayUnstable⟩
    | none, none =>
      match base.unrepresentable, head.unrepresentable with
      | some reason, _ => notEncoded (lit "base") reason
      | none, some reason => notEncoded (lit "head") reason
      | none, none => compareOutcomes base head cfg

def exact : CompareConfig := ⟨none⟩

/-! ## The observable projection -/

/-- An observation `compare` takes as evidence, with a return value exactly when it completed
without raising. -/
structure Comparable (o : Observation) : Prop where
  notSynthetic : o.syntheticReason = none
  intercepted : o.uninterceptable = none
  noMiss : o.cassetteMiss = none
  represented : o.unrepresentable = none
  returns : o.outcome = .completed → (o.returnPresent = true ↔ o.raised = none)

def SameResult (b h : Observation) : Prop :=
  match b.raised, h.raised with
  | some r, some s =>
    r.typeName = s.typeName ∧ r.module = s.module ∧
      normalizeMessage r.message = normalizeMessage s.message
  | none, none => b.returnCanon = h.returnCanon
  | _, _ => False

def EffectEntry.projection (e : EffectEntry) : PyStr × PyStr × PyStr :=
  (e.surface, e.call, e.argsFingerprint)

def SameObservable (b h : Observation) : Prop :=
  b.outcome = h.outcome ∧ (b.outcome = .crashed → b.exitStatus = h.exitStatus) ∧
    (b.outcome = .completed →
      SameResult b h ∧ b.effects.map EffectEntry.projection = h.effects.map EffectEntry.projection ∧
        normalizeMessage b.stdout = normalizeMessage h.stdout ∧
        normalizeMessage b.stderr = normalizeMessage h.stderr)

theorem compareEffectsFrom_none : ∀ (i : Nat) (bs hs : List EffectEntry),
    compareEffectsFrom i bs hs = none ↔
      bs.map EffectEntry.projection = hs.map EffectEntry.projection
  | _, [], [] => by simp [compareEffectsFrom]
  | _, [], _ :: _ => by simp [compareEffectsFrom]
  | _, _ :: _, [] => by simp [compareEffectsFrom]
  | i, b :: bs, h :: hs => by
    have ih := compareEffectsFrom_none (i + 1) bs hs
    by_cases hkey : (b.surface, b.call) = (h.surface, h.call)
    · by_cases hargs : b.argsFingerprint = h.argsFingerprint
      · have hproj : b.projection = h.projection := by
          simp only [Prod.mk.injEq] at hkey
          simp [EffectEntry.projection, hkey, hargs]
        simp [compareEffectsFrom, hkey, hargs, ih, hproj]
      · have hproj : b.projection ≠ h.projection := fun heq =>
          hargs (congrArg (fun p => p.2.2) heq)
        simp [compareEffectsFrom, hkey, hargs, hproj]
    · have hproj : b.projection ≠ h.projection := fun heq =>
        hkey (congrArg (fun p : PyStr × PyStr × PyStr => (p.1, p.2.1)) heq)
      simp [compareEffectsFrom, hkey, hproj]

variable {b h : Observation}

/-- Once the exceptions agree, `SameResult` is left to the returned values. -/
theorem compareExceptions_none :
    compareExceptions b h = none ↔
      (b.raised = none ∧ h.raised = none) ∨
        (b.raised ≠ none ∧ h.raised ≠ none ∧ SameResult b h) := by
  unfold compareExceptions SameResult
  cases b.raised with
  | none => cases h.raised <;> simp
  | some r =>
    cases h.raised with
    | none => simp
    | some s =>
      by_cases hname : (r.typeName, r.module) = (s.typeName, s.module)
      · have hparts := Prod.mk.inj hname
        simp [hparts]
      · have hparts : ¬ (r.typeName = s.typeName ∧ r.module = s.module) := fun heq =>
          hname (Prod.ext heq.1 heq.2)
        simp only [ne_eq, hname, not_false_eq_true, if_true, reduceCtorEq, true_and, false_or,
          false_iff, and_self]
        exact fun heq => hparts ⟨heq.1, heq.2.1⟩

theorem compare_of_comparable (cfg : CompareConfig) (hb : Comparable b) (hh : Comparable h) :
    compare b h cfg = compareOutcomes b h cfg := by
  simp [compare, hb.notSynthetic, hh.notSynthetic, hb.intercepted, hh.intercepted, hb.noMiss,
    hh.noMiss, hb.represented, hh.represented]

end Tempest
