import Tempest.Model
import Tempest.Process.Turns
import Tempest.Python.Convert

/-!
# Driver — both drivers over whatever a worker writes (`execute/runner.py`)

`Runner` reads the lines of a worker as what they mean.  Here a line is what `json.loads` makes of it,
and nothing is promised about its shape: a field may be missing or of any kind, an index may be any
value.  The turns of `run_batch` and of `PersistentWorker._run_batches` are functions of their state.
-/

namespace Tempest
namespace Driver

open Python

/-! ## Lines -/

/-- A line as `json.loads` reads it; bytes that cannot be decoded are malformed. -/
abbrev RawLine := Except LoadsError JsonValue

abbrev Fields := List (PyStr × JsonValue)

/-- What `lines.get(timeout=…)` comes back with. -/
inductive Got where
  | line (raw : RawLine)
  | eof
  | empty

structure Worker where
  read : Nat → Got
  exitStatus : Int

/-- What can be raised on the way from a line to an observation. -/
inductive LineError where
  | key
  | kind
  | value
  | overflow
  | recursion
  deriving DecidableEq

/-- `_parse_line`: the fields of an object; only the recursion limit is no `ValueError`. -/
def parseLine : RawLine → Except LineError (Option Fields)
  | .ok (.obj p) => .ok (some p)
  | .ok _ => .ok none
  | .error .tooDeep => .error .recursion
  | .error _ => .ok none

/-- `p.get(key)`. -/
def Fields.get? (p : Fields) (key : String) : Option JsonValue :=
  (p.find? fun field => field.1 = lit key).map Prod.snd

/-- `p[key]`. -/
def Fields.need (p : Fields) (key : String) : Except LineError JsonValue :=
  match Fields.get? p key with
  | some v => .ok v
  | none => .error .key

/-- The truth of `p.get(key)`. -/
def Fields.flag (p : Fields) (key : String) : Bool := (Fields.get? p key).any JsonValue.truthy

/-! ## Observations -/

structure WireEffect where
  surface : PyStr
  call : PyStr
  ordinal : Int
  argsFingerprint : PyStr

structure WireObservation where
  outcome : InputOutcome
  returnPresent : Bool := false
  returnCanon : JsonValue := .null
  raised : Option RaisedInfo := none
  effects : List WireEffect := []
  stdout : PyStr := []
  stderr : PyStr := []
  exitStatus : Int := 0
  wallNs : Int := 0
  cpuNs : Int := 0
  unrepresentable : Option PyStr := none
  executedLines : List Int := []
  executedArcs : List (Int × Int) := []
  cassetteMiss : Option PyStr := none
  uninterceptable : Option PyStr := none
  cassette : JsonValue := .null
  syntheticReason : Option PyStr := none

def syntheticObservation (reason : PyStr) : WireObservation where
  outcome := .crashed
  exitStatus := -1
  syntheticReason := some reason

def crashedObservation (exitStatus : Int) : WireObservation where
  outcome := .crashed
  exitStatus := exitStatus

def hungObservation (timeoutNs : Int) : WireObservation where
  outcome := .hung
  exitStatus := -9
  wallNs := timeoutNs

def fatalObservation (error : PyStr) : WireObservation where
  outcome := .crashed
  stderr := error
  exitStatus := 1

def garbledLine : PyStr := lit "garbled worker protocol line"

def endedEarly : PyStr := lit "worker ended batch early"

section Reading

variable (interp : Interpreter)

def ofIntError : IntError → LineError
  | .kind => .kind
  | .value => .value
  | .overflow => .overflow

/-- `int(value)`. -/
def readInt (v : JsonValue) : Except LineError Int :=
  match v.toInt interp with
  | .ok n => .ok n
  | .error e => .error (ofIntError e)

/-- `int(str(value))`. -/
def readIntText (v : JsonValue) : Except LineError Int :=
  match interp.intOfText (v.text interp) with
  | some n => .ok n
  | none => .error .value

/-- `iter(value)`. -/
def elements : JsonValue → Except LineError (List JsonValue)
  | .arr items => .ok items
  | .obj fields => .ok (fields.map fun field => .str field.1)
  | .str s => .ok (s.map fun c => .str [c])
  | _ => .error .kind

/-- The elements of `p.get(key, [])`. -/
def Fields.elements (p : Fields) (key : String) : Except LineError (List JsonValue) :=
  Driver.elements ((Fields.get? p key).getD (.arr []))

/-- `value if isinstance(value, str) else None`. -/
def Fields.text? (p : Fields) (key : String) : Option PyStr :=
  match Fields.get? p key with
  | some (.str s) => some s
  | _ => none

def lineOf : JsonValue → Option Int
  | .int n => some n
  | .bool b => some (if b then 1 else 0)
  | _ => none

def arcOf : JsonValue → Except LineError (Option (Int × Int))
  | .arr [a, b] => do return some (← readInt interp a, ← readInt interp b)
  | _ => .ok none

def effectOf : JsonValue → Except LineError WireEffect
  | .obj e => do
    let surface ← Fields.need e "surface"
    let call ← Fields.need e "call"
    let ordinal ← readIntText interp (← Fields.need e "ordinal")
    let fingerprint ← Fields.need e "args_fingerprint"
    return ⟨surface.text interp, call.text interp, ordinal, fingerprint.text interp⟩
  | _ => .error .kind

def raisedOf (p : Fields) : Except LineError (Option RaisedInfo) :=
  match Fields.get? p "raised" with
  | some (.obj r) => do
    let typeName ← Fields.need r "type"
    let module ← Fields.need r "module"
    let message ← Fields.need r "message"
    return some ⟨typeName.text interp, module.text interp, message.text interp⟩
  | _ => .ok none

def completedObservation (p : Fields) : Except LineError WireObservation := do
  let raised ← raisedOf interp p
  let present ← Fields.need p "return_present"
  let canon ← Fields.need p "return_canon"
  let effects ← (← Fields.elements p "effects").mapM (effectOf interp)
  let stdout ← Fields.need p "stdout"
  let stderr ← Fields.need p "stderr"
  let wallNs ← readIntText interp (← Fields.need p "wall_ns")
  let cpuNs ← readIntText interp (← Fields.need p "cpu_ns")
  let lines ← Fields.elements p "lines"
  let arcs ← (← Fields.elements p "arcs").mapM (arcOf interp)
  return {
    outcome := .completed
    returnPresent := present.truthy
    returnCanon := canon
    raised := raised
    effects := effects
    stdout := stdout.text interp
    stderr := stderr.text interp
    wallNs := wallNs
    cpuNs := cpuNs
    unrepresentable := Fields.text? p "unrepresentable"
    executedLines := lines.filterMap lineOf
    executedArcs := arcs.filterMap id
    cassetteMiss := Fields.text? p "cassette_miss"
    uninterceptable := Fields.text? p "uninterceptable"
    cassette := (Fields.get? p "cassette").getD .null }

/-- `str(payload.get("error", ""))`. -/
def fatalError (p : Fields) : PyStr := ((Fields.get? p "error").getD (.str [])).text interp

end Reading

/-! ## Results -/

def wholeFloat (x : PyFloat) : Option Nat :=
  match x.hexval.toRat? with
  | some q => if q.den = 1 ∧ 0 ≤ q.num then some q.num.toNat else none
  | none => none

/-- The input that a key of `results` is equal to: `True` and `1.0` are the key 1, a list is none. -/
def slot : JsonValue → Except LineError (Option Nat)
  | .int n => .ok n.toNat?
  | .bool b => .ok (some (if b then 1 else 0))
  | .float x => .ok (wholeFloat x)
  | .null | .str _ => .ok none
  | .arr _ | .obj _ => .error .kind

def Fields.index (p : Fields) : Except LineError (Option Nat) := do slot (← Fields.need p "index")

inductive Origin where
  | result (p : Fields)
  | fatal (p : Fields)
  | hang
  | crash
  | garbled
  | endedEarly
  | infrastructure

/-- An assignment to `results`.  What it was made of and which inputs of the batch had no answer then
is kept for the proofs, the code does not read it. -/
structure Answer where
  input : Nat
  observation : WireObservation
  origin : Origin
  unanswered : List Nat

/-- The dict `results`: its assignments, the last one first. -/
abbrev Answers := List Answer

def Answers.get? (results : Answers) (i : Nat) : Option Answer := results.find? fun a => a.input = i

/-- `[i for i in pending if i not in results]`. -/
def Answers.left (results : Answers) (pending : List Nat) : List Nat :=
  pending.filter fun i => (Answers.get? results i).isNone

def Answers.put (results : Answers) (pending : List Nat) (i : Nat) (o : WireObservation)
    (origin : Origin) : Answers :=
  ⟨i, o, origin, Answers.left results pending⟩ :: results

def Answers.putAll (results : Answers) (pending : List Nat) (o : WireObservation) (origin : Origin)
    (is : List Nat) : Answers :=
  is.foldl (fun results i => Answers.put results pending i o origin) results

/-- `[results[i] for i in range(n)]`. -/
def lookups (results : Answers) (n : Nat) : Except LineError (List WireObservation) :=
  (List.range n).mapM fun i =>
    match Answers.get? results i with
    | some a => .ok a.observation
    | none => .error .key

/-! ## The lines of one request -/

inductive Stop where
  | finished
  | broke
  | endedEarly
  deriving DecidableEq

variable (interp : Interpreter) (timeoutNs : Int)

/-- The loop over `pending`, with the inputs from the cursor on, the lines read so far and the
results.  Only a persistent worker is asked about `batch_end`. -/
def drain (persistent : Bool) (w : Worker) (pending : List Nat) :
    List Nat → Nat → Answers → Except LineError (Answers × Stop × Nat)
  | [], pos, results => .ok (results, .finished, pos)
  | expected :: rest, pos, results =>
    match w.read pos with
    | .empty =>
      .ok (Answers.put results pending expected (hungObservation timeoutNs) .hang, .broke, pos + 1)
    | .eof =>
      .ok (Answers.put results pending expected (crashedObservation w.exitStatus) .crash, .broke,
        pos + 1)
    | .line raw =>
      match parseLine raw with
      | .error e => .error e
      | .ok none =>
        .ok (Answers.put results pending expected (fatalObservation garbledLine) .garbled,
          .broke, pos + 1)
      | .ok (some p) =>
        if persistent && Fields.flag p "batch_end" then
          .ok (Answers.putAll results pending (fatalObservation endedEarly) .endedEarly
            (expected :: rest), .endedEarly, pos + 1)
        else if (Fields.get? p "fatal").isSome then
          drain persistent w pending rest (pos + 1)
            (Answers.put results pending expected (fatalObservation (fatalError interp p))
              (.fatal p))
        else
          match completedObservation interp p, Fields.index p with
          | .error e, _ => .error e
          | .ok _, .error e => .error e
          | .ok _, .ok none => drain persistent w pending rest (pos + 1) results
          | .ok o, .ok (some i) =>
            drain persistent w pending rest (pos + 1)
              (Answers.put results pending i o (.result p))

/-- `_await_boot`: why the worker never announced itself. -/
def awaitBoot (w : Worker) : Except LineError (Option PyStr) :=
  match w.read 0 with
  | .empty => .ok (some (lit "worker did not boot within the startup budget"))
  | .eof => .ok (some (lit "worker died before booting (exit " ++ intText w.exitStatus ++ lit ")"))
  | .line raw =>
    match parseLine raw with
    | .error e => .error e
    | .ok (some p) =>
      if Fields.flag p "boot" then .ok none
      else .ok (some (lit "worker protocol slip before boot"))
    | .ok none => .ok (some (lit "worker protocol slip before boot"))

/-! ## `run_batch` -/

structure BatchState where
  spawns : Nat
  pending : List Nat
  results : Answers

/-- One turn of `while pending`: a fresh worker for the inputs that are left. -/
def batchTurn (spawn : Nat → List Nat → Worker) (s : BatchState) :
    Except LineError (BatchState ⊕ Answers) :=
  if s.pending = [] then .ok (.inr s.results)
  else
    let w := spawn s.spawns s.pending
    match awaitBoot w with
    | .error e => .error e
    | .ok (some reason) =>
      .ok (.inr (Answers.putAll s.results s.pending (syntheticObservation reason) .infrastructure
        s.pending))
    | .ok none =>
      match drain interp timeoutNs false w s.pending s.pending 1 s.results with
      | .error e => .error e
      | .ok (results, .broke, _) =>
        .ok (.inl ⟨s.spawns + 1, Answers.left results s.pending, results⟩)
      | .ok (results, _, _) => .ok (.inr results)

def batchStart (n : Nat) : BatchState := ⟨0, List.range n, []⟩

/-! ## `PersistentWorker` -/

def maxRespawnsPerRun : Nat := 3

/-- `proc` is the process at hand with the lines read from it. -/
structure ServeState where
  proc : Option (Nat × Nat)
  spawns : Nat
  turns : Nat
  respawns : Nat
  pending : List Nat
  results : Answers

/-- What happens to the processes: their streams, whether the one at hand still lives in a turn, and
whether its standard input takes the request of a turn. -/
structure Surroundings where
  worker : Nat → Worker
  alive : Nat → Bool
  writable : Nat → Bool

/-- The request reached no worker: the next turn tries again, while the respawn budget lasts. -/
def ServeState.retry (s : ServeState) (spawns : Nat) (reason : PyStr) : ServeState ⊕ Answers :=
  if maxRespawnsPerRun < s.respawns + 1 then
    .inr (Answers.putAll s.results s.pending (syntheticObservation reason) .infrastructure s.pending)
  else .inl { s with
    proc := none
    spawns := spawns
    turns := s.turns + 1
    respawns := s.respawns + 1 }

/-- `_await_ack` and `_drain_sentinel`: the next line has the flag. -/
def confirms (w : Worker) (pos : Nat) (key : String) : Except LineError Bool :=
  match w.read pos with
  | .empty | .eof => .ok false
  | .line raw =>
    match parseLine raw with
    | .error e => .error e
    | .ok (some p) => .ok (Fields.flag p key)
    | .ok none => .ok false

def ServeState.after (s : ServeState) (w : Worker) (k spawns : Nat) (results : Answers) (pos : Nat) :
    Stop → Except LineError (ServeState ⊕ Answers)
  | .broke =>
    if maxRespawnsPerRun < s.respawns + 1 then
      .ok (.inr (Answers.putAll results s.pending
        (syntheticObservation (lit "respawn budget exhausted before this input could run"))
        .infrastructure (Answers.left results s.pending)))
    else .ok (.inl ⟨none, spawns, s.turns + 1, s.respawns + 1, Answers.left results s.pending,
      results⟩)
  | .endedEarly =>
    .ok (.inl ⟨some (k, pos), spawns, s.turns + 1, s.respawns, Answers.left results s.pending,
      results⟩)
  | .finished =>
    match confirms w pos "batch_end" with
    | .error e => .error e
    | .ok kept =>
      .ok (.inl ⟨if kept then some (k, pos + 1) else none, spawns, s.turns + 1, s.respawns,
        Answers.left results s.pending, results⟩)

/-- A request to a booted worker, from the line after `pos` on. -/
def ServeState.request (env : Surroundings) (s : ServeState) (k pos spawns : Nat) :
    Except LineError (ServeState ⊕ Answers) :=
  let w := env.worker k
  if env.writable s.turns = false then
    .ok (s.retry spawns (lit "worker stdin unwritable; respawn budget exhausted"))
  else
    match confirms w pos "batch_ack" with
    | .error e => .error e
    | .ok false =>
      .ok (s.retry spawns
        (lit "worker never acknowledged a batch (dead-on-arrival stdin); respawn budget exhausted"))
    | .ok true =>
      match drain interp timeoutNs true w s.pending s.pending (pos + 1) s.results with
      | .error e => .error e
      | .ok (results, stop, pos) => s.after w k spawns results pos stop

/-- One turn of `_run_batches`. -/
def serveTurn (env : Surroundings) (s : ServeState) : Except LineError (ServeState ⊕ Answers) :=
  if s.pending = [] then .ok (.inr s.results)
  else
    match s.proc, env.alive s.turns with
    | some (k, pos), true => s.request interp timeoutNs env k pos s.spawns
    | _, _ =>
      -- a fresh process
      match awaitBoot (env.worker s.spawns) with
      | .error e => .error e
      | .ok (some _) =>
        .ok (s.retry (s.spawns + 1)
          (lit "worker died or hung before booting; respawn budget exhausted"))
      | .ok none => s.request interp timeoutNs env s.spawns 1 (s.spawns + 1)

end Driver
end Tempest
