import Tempest.Python.Convert
import Tempest.Python.Utf8

/-!
# Client — reading the answer of a model (`inference/client.py`)

`complete` from the bytes of the response on: the body is decoded and read as JSON, and three readers
take the texts, the counts, the tool calls and the stop reason from it, each for both wires.  What
Python raises on a document of another shape is part of the model.
-/

namespace Tempest
namespace Client

open Python

/-! ## Completions -/

inductive Wire where
  | anthropic
  | openai
  deriving DecidableEq

structure Provider where
  id : PyStr
  label : PyStr
  wire : Wire

structure ToolCall where
  id : PyStr
  name : PyStr
  arguments : List (PyStr × JsonValue)

/-- The counts as `int` returns them. -/
structure Usage where
  inputTokens : Int
  outputTokens : Int
  deriving DecidableEq

structure Completion where
  provider : PyStr
  model : PyStr
  text : PyStr
  usage : Usage
  toolCalls : List ToolCall
  stopReason : PyStr
  reasoning : PyStr

/-- What Python raises on a document of another shape. -/
inductive Raised where
  /-- `AttributeError`: `.get` of a value that is no object. -/
  | noAttribute
  /-- `TypeError`. -/
  | wrongType
  /-- `KeyError`: `[0]` of an object. -/
  | noKey
  /-- `IndexError`. -/
  | noIndex
  /-- `ValueError`. -/
  | badValue
  /-- `OverflowError`. -/
  | overflow
  /-- `RecursionError`. -/
  | tooDeep
  deriving DecidableEq

/-- What leaves `complete` as an exception. -/
inductive Failure where
  /-- `UpstreamError`, a `ModelError`. -/
  | upstream (message : PyStr)
  /-- `Cancelled`, a `ModelError`. -/
  | cancelled
  | raised (e : Raised)

def Raised.ofInt : IntError → Raised
  | .kind => .wrongType
  | .value => .badValue
  | .overflow => .overflow

/-! ## Python on a document -/

/-- `v.get(key, default) if isinstance(v, dict) else default`. -/
def fieldOr (key : String) (default : JsonValue) : JsonValue → JsonValue
  | .obj fields => (Dict.find (lit key) fields).getD default
  | _ => default

/-- `v.get(key, default)`. -/
def get (key : String) (default : JsonValue) : JsonValue → Except Raised JsonValue
  | .obj fields => .ok (fieldOr key default (.obj fields))
  | _ => .error .noAttribute

def isObj : JsonValue → Bool
  | .obj _ => true
  | _ => false

/-- `v == text`. -/
def equals (text : String) : JsonValue → Bool
  | .str s => s = lit text
  | _ => false

/-- `for item in v`. -/
def iterate : JsonValue → Except Raised (List JsonValue)
  | .arr items => .ok items
  | .obj fields => .ok (fields.map fun field => .str field.1)
  | .str s => .ok (s.map fun c => .str [c])
  | _ => .error .wrongType

/-- `v[0]`. -/
def itemZero : JsonValue → Except Raised JsonValue
  | .arr (item :: _) => .ok item
  | .str (c :: _) => .ok (.str [c])
  | .arr [] => .error .noIndex
  | .str [] => .error .noIndex
  | .obj _ => .error .noKey
  | _ => .error .wrongType

/-- `"".join(values)`. -/
def joinTexts : List JsonValue → Except Raised PyStr
  | [] => .ok []
  | .str s :: values => do return s ++ (← joinTexts values)
  | _ :: _ => .error .wrongType

section Readers

variable (interp : Interpreter)

/-- `str(v or "")`. -/
def textOrEmpty (v : JsonValue) : PyStr := if v.truthy then v.text interp else []

/-! ## The texts and the counts -/

/-- `b.get(kind, "") for b in blocks if b.get("type") == kind`. -/
def blockTexts (kind : String) : List JsonValue → Except Raised (List JsonValue)
  | [] => .ok []
  | block :: blocks => do
    let stated ← get "type" .null block
    let texts ← if equals kind stated then do
        let text ← get kind (.str []) block
        pure [text]
      else pure []
    return texts ++ (← blockTexts kind blocks)

/-- `_reasoning_from`: the first of the two keys that carries a text. -/
def reasoningFrom (holder : JsonValue) : PyStr :=
  match fieldOr "reasoning_content" .null holder with
  | .str (c :: s) => c :: s
  | _ =>
    match fieldOr "reasoning" .null holder with
    | .str s => s
    | _ => []

/-- `int(raw.get(key, 0))`. -/
def countOf (key : String) (raw : JsonValue) : Except Raised Int := do
  let stated ← get key (.int 0) raw
  (stated.toInt interp).mapError .ofInt

/-- `_text_and_usage`: the answer, the reasoning and the usage. -/
def textAndUsage : Wire → JsonValue → Except Raised (PyStr × PyStr × Usage)
  | .anthropic, document => do
    let blocks ← iterate (fieldOr "content" (.arr []) document)
    let text ← joinTexts (← blockTexts "text" blocks)
    let thinking ← joinTexts (← blockTexts "thinking" blocks)
    let raw := fieldOr "usage" (.obj []) document
    let input ← countOf interp "input_tokens" raw
    let output ← countOf interp "output_tokens" raw
    return (text, thinking, ⟨input, output⟩)
  | .openai, document => do
    let choices := fieldOr "choices" (.arr []) document
    let (text, thinking) ← if choices.truthy then do
        let message ← get "message" (.obj []) (← itemZero choices)
        -- `""` as well where the message is no object
        pure (textOrEmpty interp (fieldOr "content" .null message), reasoningFrom message)
      else pure ([], [])
    let raw := fieldOr "usage" (.obj []) document
    let input ← countOf interp "prompt_tokens" raw
    let output ← countOf interp "completion_tokens" raw
    return (text, thinking, ⟨input, output⟩)

/-! ## The tool calls -/

/-- The loop over the entries; an entry is dropped, appended or raises. -/
def foundCalls (read : JsonValue → Except Raised (Option ToolCall)) :
    List JsonValue → Except Raised (List ToolCall)
  | [] => .ok []
  | entry :: entries => do
    match ← read entry with
    | some call => return call :: (← foundCalls read entries)
    | none => foundCalls read entries

/-- `ToolCall(id=str(..), name=str(..), arguments=..)`. -/
def toolCall (id name : JsonValue) (arguments : List (PyStr × JsonValue)) : ToolCall :=
  ⟨id.text interp, name.text interp, arguments⟩

/-- A `tool_use` block. -/
def readToolUse (block : JsonValue) : Except Raised (Option ToolCall) :=
  if !isObj block || !equals "tool_use" (fieldOr "type" .null block) then .ok none
  else
    match fieldOr "input" .null block with
    | .obj arguments =>
      .ok (some (toolCall interp (fieldOr "id" (.str []) block) (fieldOr "name" (.str []) block)
        arguments))
    | _ => .ok none

/-- `json.loads(arguments or "{}")`; a `ValueError` drops the call. -/
def decodeArguments (arguments : JsonValue) : Except Raised (Option JsonValue) :=
  match if arguments.truthy then arguments else .str (lit "{}") with
  | .str s =>
    match loads interp s with
    | .ok v => .ok (some v)
    | .error .tooDeep => .error .tooDeep
    | .error _ => .ok none
  | _ => .error .wrongType

/-- An entry of `tool_calls`. -/
def readFunctionCall (call : JsonValue) : Except Raised (Option ToolCall) :=
  let fn := fieldOr "function" (.obj []) call
  if !isObj call || !isObj fn then .ok none
  else do
    match ← decodeArguments interp (fieldOr "arguments" .null fn) with
    | some (.obj arguments) =>
      return some (toolCall interp (fieldOr "id" (.str []) call) (fieldOr "name" (.str []) fn)
        arguments)
    | _ => return none

def toolCalls (wire : Wire) (document : JsonValue) : Except Raised (List ToolCall) :=
  if !isObj document then .ok []
  else match wire with
    | .anthropic => do
      foundCalls (readToolUse interp) (← iterate (fieldOr "content" (.arr []) document))
    | .openai => do
      let choices := fieldOr "choices" (.arr []) document
      if !choices.truthy then return []
      let choice ← itemZero choices
      if !isObj choice then return []
      let message := fieldOr "message" (.obj []) choice
      if !isObj message then return []
      let stated := fieldOr "tool_calls" .null message
      foundCalls (readFunctionCall interp) (← iterate (if stated.truthy then stated else .arr []))

/-! ## The stop reason -/

/-- `mapping.get(raw, "")`. -/
def normalised (wire : Wire) (raw : PyStr) : PyStr :=
  let mapping := match wire with
    | .anthropic => [("tool_use", "tool_use"), ("end_turn", "end"), ("max_tokens", "length")]
    | .openai => [("tool_calls", "tool_use"), ("stop", "end"), ("length", "length")]
  match mapping.find? fun entry => lit entry.1 = raw with
  | some entry => lit entry.2
  | none => []

def stopReason (wire : Wire) (document : JsonValue) (calls : List ToolCall) :
    Except Raised PyStr := do
  if !isObj document then return []
  let raw ← match wire with
    | .anthropic => pure (textOrEmpty interp (fieldOr "stop_reason" .null document))
    | .openai =>
      let choices := fieldOr "choices" (.arr []) document
      if choices.truthy then do
        let reason ← get "finish_reason" .null (← itemZero choices)
        pure (textOrEmpty interp reason)
      else pure []
  let reason := normalised wire raw
  -- the calls are the fact, the label is the claim about it
  return if calls ≠ [] ∧ reason ≠ lit "length" then lit "tool_use" else reason

/-! ## `complete` -/

/-- What `complete` makes of a document. -/
def completionOf (provider : Provider) (model : PyStr) (document : JsonValue) :
    Except Raised Completion := do
  let (text, reasoning, usage) ← textAndUsage interp provider.wire document
  let calls ← toolCalls interp provider.wire document
  let stop ← stopReason interp provider.wire document calls
  return ⟨provider.id, model, text, usage, calls, stop, reasoning⟩

/-- `complete`, from the body of the response on. -/
def complete (provider : Provider) (model : PyStr) (cancelled : Bool) (body : Bytes) :
    Except Failure Completion :=
  let raw := decodeReplace body
  if cancelled then .error .cancelled
  else match loads interp raw with
    | .ok document => (completionOf interp provider model document).mapError .raised
    | .error .tooDeep => .error (.raised .tooDeep)
    -- `except ValueError`
    | .error _ =>
      .error (.upstream (provider.label ++ lit " returned a non-JSON body: " ++ raw.take 200))

end Readers

/-! ## The call in `_converse` -/

/-- How `_converse` goes on behind its call of `complete`. -/
inductive AfterCall where
  | answered (answer : Completion)
  /-- A `ModelError` ends the loop; what is staged is still proved. -/
  | ended (stopped : PyStr)
  /-- `ProveCancelled`. -/
  | unwound
  /-- Any other exception leaves `_converse` and the task. -/
  | escaped (e : Raised)

/-- The `except` clauses of `_converse`. -/
def afterCall : Except Failure Completion → AfterCall
  | .ok answer => .answered answer
  | .error .cancelled => .unwound
  | .error (.upstream message) => .ended (lit "model unavailable: " ++ message)
  | .error (.raised e) => .escaped e

end Client
end Tempest
