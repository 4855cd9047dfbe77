import Tempest.Execute.Dual
import Tempest.Process.Grouped
import Tempest.Python.Repr

/-!
# Specs — behaviour classes and the sentences made of them (`index/execution.py`, `index/specs.py`)

What was observed of a symbol is clustered by a key and kept as one row a class, with the shortest
and the longest input as its representatives.  `synthesize` fills a template from every class.  An
`Execution` is what really happened on an input; its observation is what the runner reports of it.
-/

namespace Tempest
namespace Specs

open Python

/-! ## What happened -/

/-- A returned value: `type(v).__name__` and `repr(v)` are Python's own.  A value that is reported
has an encoding. -/
structure Returned where
  value : PyVal
  typeName : PyStr
  repr : PyStr
  canon : Canon
  encoded : canonicalize value = .ok canon

/-- The end of an input.  A lost one was never started. -/
inductive Ran where
  | returned (r : Returned)
  | raised (info : RaisedInfo)
  | crashed (exitStatus : Int)
  | hung
  | lost (reason : PyStr)

structure Execution where
  literals : Literals
  ran : Ran
  effects : List EffectEntry
  stdout : PyStr
  wallNs : Int

def Execution.completed (e : Execution) : Observation where
  outcome := .completed
  returnPresent := false
  returnCanon := .none
  raised := none
  effects := e.effects
  stdout := e.stdout
  timing := ⟨e.wallNs, 0⟩

def Execution.observation (e : Execution) : Observation :=
  match e.ran with
  | .returned r => { e.completed with returnPresent := true, returnCanon := r.canon }
  | .raised info => { e.completed with raised := some info }
  | .crashed exitStatus => crashedObservation exitStatus
  | .hung => hungObservation e.wallNs
  | .lost reason => syntheticObservation reason

/-! ## Behaviour classes -/

/-- `type(return_canon).__name__`, of the decoded document. -/
def kindOf (canon : Canon) : PyStr :=
  match canon.toJson with
  | .null => lit "NoneType"
  | .bool _ => lit "bool"
  | .int _ => lit "int"
  | .str _ => lit "str"
  | .arr _ => lit "list"
  | .obj _ => lit "dict"

structure BehaviourKey where
  outcome : PyStr
  returnKind : PyStr
  raisedType : PyStr
  effects : PyStr
  deriving DecidableEq

def effectsText (effects : List EffectEntry) : PyStr :=
  join (lit ",") (effects.map fun e => e.surface ++ lit ":" ++ e.call)

def behaviourKey (o : Observation) : BehaviourKey where
  outcome := o.outcome.text
  returnKind := if o.returnPresent then kindOf o.returnCanon else []
  raisedType := (o.raised.map RaisedInfo.typeName).getD []
  effects := effectsText o.effects

def Execution.key (e : Execution) : BehaviourKey := behaviourKey e.observation

def BehaviourKey.parts (k : BehaviourKey) : List PyStr :=
  [k.outcome, k.returnKind, k.raisedType, k.effects]

abbrev Placed := Execution × Nat

abbrev Class := BehaviourKey × List Placed

/-- The loop with `classes.setdefault(key, []).append(i)`. -/
def cluster (executions : List Execution) : List Class :=
  Grouped.group (fun p : Placed => p.1.key) executions.zipIdx

/-- `sorted(classes.items())`; no two classes have one key. -/
def classesOf (executions : List Execution) : List Class :=
  (cluster executions).insertionSort fun a b => a.1.parts ≤ b.1.parts

def Placed.size (p : Placed) : Nat := p.1.literals.1.length + p.1.literals.2.length

/-- The key of the sort is the length of the literals, then the place. -/
def Before (p q : Placed) : Prop :=
  Placed.size p < Placed.size q ∨ Placed.size p = Placed.size q ∧ p.2 ≤ q.2

instance beforeDecidable : DecidableRel Before := fun p q =>
  inferInstanceAs (Decidable
    (Placed.size p < Placed.size q ∨ Placed.size p = Placed.size q ∧ p.2 ≤ q.2))

def ordered (ps : List Placed) : List Placed := ps.insertionSort Before

def maxRepresentatives : Nat := 2

/-- The shortest and the longest input of a class. -/
def representatives (ps : List Placed) : List Placed :=
  let sorted := ordered ps
  let chosen := if 1 < sorted.length then sorted.take 1 ++ sorted.drop (sorted.length - 1) else sorted
  chosen.take maxRepresentatives

/-! ## The tables -/

/-- A row of `behaviours`.  Nothing reads `counted`: the executions that the class was counted
from. -/
structure BehaviourRow where
  id : Nat
  runId : Nat
  symbolId : Nat
  key : BehaviourKey
  inputs : Nat
  counted : List Execution

/-- A row of `observations`.  Nothing reads `shown`: the execution that it describes. -/
structure ObservationRow where
  id : Nat
  behaviourId : Nat
  args : PyStr
  kwargs : PyStr
  returned : PyStr
  raised : PyStr
  stdout : PyStr
  wallNs : Int
  shown : Execution

/-- The tables, in the order of their `AUTOINCREMENT` ids. -/
structure Index where
  behaviours : List BehaviourRow
  observations : List ObservationRow

section Storing

variable (printable : CodePoint → Bool)

mutual

/-- `repr` of a decoded document. -/
def reprJson : Json → PyStr
  | .null => lit "None"
  | .bool true => lit "True"
  | .bool false => lit "False"
  | .int n => intText n
  | .str s => reprStr printable s
  | .arr items => lit "[" ++ join (lit ", ") (reprItems items) ++ lit "]"
  | .obj fields => lit "\x7b" ++ join (lit ", ") (reprFields fields) ++ lit "\x7d"

def reprItems : List Json → List PyStr
  | [] => []
  | item :: items => reprJson item :: reprItems items

def reprFields : List (PyStr × Json) → List PyStr
  | [] => []
  | (key, value) :: fields =>
    (reprStr printable key ++ lit ": " ++ reprJson value) :: reprFields fields

end

def maxText : Nat := 400

/-- The `repr` of the document, cut when it is long. -/
def documentText (canon : Canon) : PyStr :=
  let text := reprJson printable canon.toJson
  if text.length ≤ maxText then text else text.take 397 ++ lit "..."

def returnRepr (o : Observation) : PyStr :=
  if o.returnPresent then documentText printable o.returnCanon else []

def observationRow (id behaviourId : Nat) (p : Placed) : ObservationRow :=
  let o := p.1.observation
  { id := id
    behaviourId := behaviourId
    args := p.1.literals.1
    kwargs := p.1.literals.2
    returned := returnRepr printable o
    raised := (o.raised.map RaisedInfo.message).getD []
    stdout := o.stdout.take maxText
    wallNs := o.timing.wallNs
    shown := p.1 }

def observationRows (behaviourId : Nat) : Nat → List Placed → List ObservationRow
  | _, [] => []
  | id, p :: ps => observationRow printable id behaviourId p :: observationRows behaviourId (id + 1) ps

/-- One turn of the loop of `store_observations`. -/
def storeClass (runId symbolId : Nat) (index : Index) (c : Class) : Index :=
  let id := index.behaviours.length + 1
  { behaviours := index.behaviours ++
      [⟨id, runId, symbolId, c.1, c.2.length, c.2.map Prod.fst⟩]
    observations := index.observations ++
      observationRows printable id (index.observations.length + 1) (representatives c.2) }

/-- What one call of `store_observations` is given. -/
structure Batch where
  runId : Nat
  symbolId : Nat
  executions : List Execution

def storeObservations (index : Index) (batch : Batch) : Index :=
  (classesOf batch.executions).foldl (storeClass printable batch.runId batch.symbolId) index

/-- The tables after any number of runs. -/
def stored (history : List Batch) : Index :=
  history.foldl (storeObservations printable) ⟨[], []⟩

end Storing

/-! ## Sentences -/

structure Behaviour where
  row : BehaviourRow
  examples : List ObservationRow

/-- `behaviours_of`: the newest first. -/
def behavioursOf (index : Index) (symbolId : Nat) : List Behaviour :=
  ((index.behaviours.filter fun row => row.symbolId = symbolId).reverse).map fun row =>
    ⟨row, index.observations.filter fun o => o.behaviourId = row.id⟩

/-- What a claim says, by the template that is filled. -/
inductive Statement where
  | raises (typeName : PyStr) (count : Nat) (args kwargs message : PyStr)
  | ended (outcome : PyStr) (count : Nat) (args kwargs : PyStr)
  | returns (kind : PyStr) (count : Nat) (args returned : PyStr)
  | touched (effects : PyStr)
  | wrote (stdout : PyStr)

def tick (text : PyStr) : PyStr := lit "`" ++ text ++ lit "`"

def plural (count : Nat) : PyStr := if count = 1 then lit "input" else lit "inputs"

def exampleText (args kwargs : PyStr) : PyStr :=
  tick (lit "args=" ++ args ++ lit ", kwargs=" ++ kwargs)

def Statement.text (printable : CodePoint → Bool) : Statement → PyStr
  | .raises typeName count args kwargs message =>
    lit "raises " ++ tick typeName ++ lit " on " ++ natText count ++ lit " observed " ++
      plural count ++ lit " — for example " ++ exampleText args kwargs ++
      (if message = [] then [] else lit ", with the message " ++ reprStr printable message)
  | .ended outcome count args kwargs =>
    lit "ended as " ++ outcome ++ lit " on " ++ natText count ++ lit " observed " ++ plural count ++
      lit " — for example " ++ exampleText args kwargs
  | .returns kind count args returned =>
    lit "returns a " ++ tick kind ++ lit " on " ++ natText count ++ lit " observed " ++
      plural count ++ lit " — " ++ tick (lit "args=" ++ args) ++ lit " returned " ++ tick returned
  | .touched effects => lit "touched these surfaces while running: " ++ effects
  | .wrote stdout => lit "wrote to standard output: " ++ reprStr printable stdout

/-- A claim never comes without evidence. -/
structure Claim where
  statement : Statement
  observations : List Nat
  backed : observations ≠ []

/-- The sentence about how the inputs of a class ended. -/
def headStatement (row : BehaviourRow) (first : ObservationRow) : Statement :=
  if row.key.raisedType ≠ [] then
    .raises row.key.raisedType row.inputs first.args first.kwargs first.raised
  else if row.key.outcome ≠ lit "COMPLETED" then
    .ended row.key.outcome row.inputs first.args first.kwargs
  else
    .returns (if row.key.returnKind ≠ [] then row.key.returnKind else lit "NoneType") row.inputs
      first.args (if first.returned ≠ [] then first.returned else lit "None")

/-- The claims of one class; one without examples supports none. -/
def Behaviour.claims (b : Behaviour) : List Claim :=
  match b.examples with
  | [] => []
  | first :: rest =>
    let ids := first.id :: rest.map ObservationRow.id
    let cited := fun statement => (⟨statement, ids, List.cons_ne_nil _ _⟩ : Claim)
    cited (headStatement b.row first) ::
      ((if b.row.key.effects ≠ [] then [cited (.touched b.row.key.effects)] else []) ++
        if first.stdout ≠ [] then [⟨.wrote first.stdout, [first.id], List.cons_ne_nil _ _⟩] else [])

structure SymbolRow where
  id : Nat
  qualname : PyStr
  span : PyStr
  signature : PyStr

structure BehaviouralSpec where
  qualname : PyStr
  span : PyStr
  signature : PyStr
  inputsObserved : Nat
  claims : List Claim
  unobserved : PyStr

/-- `synthesize`, for the row of the symbol. -/
def synthesize (index : Index) (qualname : PyStr) : Option SymbolRow → BehaviouralSpec
  | none => ⟨qualname, [], [], 0, [], lit "the symbol is not in the index"⟩
  | some row =>
    let behaviours := behavioursOf index row.id
    let claims := behaviours.flatMap Behaviour.claims
    let covered := behaviours.filter fun b => !b.examples.isEmpty
    if behaviours.isEmpty then
      ⟨row.qualname, row.span, row.signature, 0, [], lit "nothing has executed it in this index"⟩
    else if claims.isEmpty then
      ⟨row.qualname, row.span, row.signature, 0, [],
        lit "its recorded behaviour classes kept no example inputs"⟩
    else
      ⟨row.qualname, row.span, row.signature, (covered.map fun b => b.row.inputs).sum, claims, []⟩

end Specs
end Tempest
