import Tempest.Python.Value

/-!
# Model — the shared vocabulary of the engine (`model.py`)

Verdicts, divergence classes, reason codes and the `Observation` of one invocation.  An observation
carries the canonical tree of the returned value (`Canon`); the tree type comes first because every
stage passes it on.
-/

namespace Tempest

open Python

/-! ## Canonical trees -/

inductive SeqTag where
  | list
  | tuple
  | set
  | frozenset
  deriving DecidableEq

/-- A canonical tree: scalars stay raw, everything else is a tagged dict.  `{"__t": "float"}`
keeps the float its hexadecimal text stands for, `{"__t": "bytes"}` the bytes its base64 text
stands for. -/
inductive Canon where
  | none
  | bool (b : Bool)
  | int (n : Int)
  | str (s : PyStr)
  | float (x : HexFloat)
  | bytes (data : Bytes)
  | seq (tag : SeqTag) (items : List Canon)
  | dict (pairs : List (Canon × Canon))
  | obj (typeName : PyStr) (attrs : List (PyStr × Canon))

/-! ## Enumerations -/

inductive Verdict where
  | divergent
  | equivalentUnderBudget
  | unproven
  | error
  deriving DecidableEq

inductive DivergenceClass where
  | returnValue
  | exceptionType
  | exceptionMessage
  | effectSequence
  | effectArguments
  | cassetteMiss
  | crash
  | hang
  | outputStream
  deriving DecidableEq

inductive ReasonCode where
  | targetUnreachable
  | envReproductionFailed
  | harnessSynthesisFailed
  | synthesisDeclined
  | uninterceptableEffect
  | nondeterministicBase
  | sandboxUnavailable
  | valueUnserializable
  | recordReplayUnavailable
  deriving DecidableEq

inductive TargetClassification where
  | pureCandidate
  | impureRecordable
  | unreachable
  | synthesized
  | typeSynthesized
  deriving DecidableEq

inductive Severity where
  | low
  | normal
  | headline
  deriving DecidableEq

inductive InputOutcome where
  | completed
  | crashed
  | hung
  deriving DecidableEq

def InputOutcome.text : InputOutcome → PyStr
  | .completed => lit "COMPLETED"
  | .crashed => lit "CRASHED"
  | .hung => lit "HUNG"

/-- `outcome.lower()`. -/
def InputOutcome.lower : InputOutcome → PyStr
  | .completed => lit "completed"
  | .crashed => lit "crashed"
  | .hung => lit "hung"

/-! ## Observations -/

structure RaisedInfo where
  typeName : PyStr
  module : PyStr
  message : PyStr
  deriving DecidableEq

structure Timing where
  wallNs : Int
  cpuNs : Int
  deriving DecidableEq

structure EffectEntry where
  surface : PyStr
  call : PyStr
  ordinal : Nat
  argsFingerprint : PyStr
  deriving DecidableEq

/-- A payload of the interaction ledger, as JSON carries it once bytes are base64 text. -/
inductive Payload where
  | none
  | bool (b : Bool)
  | int (n : Int)
  | float (x : HexFloat)
  | str (s : PyStr)
  | bytes (data : Bytes)
  | list (items : List Payload)
  | dict (fields : List (PyStr × Payload))

/-- One row of `Session.cassette_data()`. -/
structure CassetteRow where
  surface : PyStr
  call : PyStr
  ordinal : Nat
  payload : Payload

abbrev Cassette := List CassetteRow

/-- What a record-mode worker emits for one input. -/
structure InputCassette where
  importRows : Cassette
  inputRows : Cassette

/-- Everything observable about one invocation of one revision.  A `SyntheticObservation` is one
with a `syntheticReason`. -/
structure Observation where
  outcome : InputOutcome
  returnPresent : Bool
  returnCanon : Canon
  raised : Option RaisedInfo
  effects : List EffectEntry := []
  stdout : PyStr := []
  stderr : PyStr := []
  exitStatus : Int := 0
  timing : Timing := ⟨0, 0⟩
  unrepresentable : Option PyStr := none
  executedLines : Finset Nat := ∅
  executedArcs : Finset (Nat × Nat) := ∅
  cassetteMiss : Option PyStr := none
  uninterceptable : Option PyStr := none
  cassette : Option InputCassette := none
  syntheticReason : Option PyStr := none

end Tempest
