import Tempest.Desktop.PathGuard
import Tempest.Process.Keyed
import Tempest.Process.Reachable

/-!
# Lsp — the language servers of the shell (`lsp.rs`)

A running server is the queue of what its reader thread has taken from the pipe, what its writer thread
reports of the frames it is given, and the tables of the client.  The frames may come at any time: those
that come while a call waits are in the queue before it.  What was written and what was read is kept
beside them; no step reads it.

`documents` is what a server that follows the protocol holds after the frames it was sent.
`question_answered` is about the multiplexer in every state that calls and frames lead to.
-/

namespace Tempest
namespace Lsp

open PathGuard

/-! ## Messages -/

/-- `serde_json::Value`.  A `float` is as it was read, and so is a number too large for an integer. -/
inductive Value where
  | null
  | bool (b : Bool)
  | int (n : Int)
  | float (text : String)
  | str (s : String)
  | arr (items : List Value)
  | obj (fields : List (String × Value))

namespace Value

def get? (key : String) : Value → Option Value
  | obj fields => fields.lookup key
  | _ => none

def asStr : Value → Option String
  | str s => some s
  | _ => none

def asI64 : Value → Option Int
  | int n => if -(2 ^ 63) ≤ n ∧ n < 2 ^ 63 then some n else none
  | _ => none

def isNull : Value → Bool
  | null => true
  | _ => false

end Value

open Value

def request (id : Int) (method : String) (params : Value) : Value :=
  obj [("jsonrpc", str "2.0"), ("id", int id), ("method", str method), ("params", params)]

def notification (method : String) (params : Value) : Value :=
  obj [("jsonrpc", str "2.0"), ("method", str method), ("params", params)]

def refusal (theirs : Value) (asked : String) : Value :=
  obj [("jsonrpc", str "2.0"), ("id", theirs),
    ("error", obj [("code", int (-32601)),
      ("message", str ("Tempest's LSP client does not implement " ++ asked))])]

def didOpenParams (uri languageId : String) (version : Int) (text : String) : Value :=
  obj [("textDocument", obj [("uri", str uri), ("languageId", str languageId), ("version", int version),
    ("text", str text)])]

def didChangeParams (uri : String) (version : Int) (text : String) : Value :=
  obj [("textDocument", obj [("uri", str uri), ("version", int version)]),
    ("contentChanges", arr [obj [("text", str text)]])]

def hoverParams (uri : String) (line character : Nat) : Value :=
  obj [("textDocument", obj [("uri", str uri)]),
    ("position", obj [("line", int line), ("character", int character)])]

def initializeParams (pid : Nat) (rootUri : String) : Value :=
  obj [("processId", int pid), ("rootUri", str rootUri),
    ("capabilities", obj [("textDocument", obj [
      ("hover", obj [("contentFormat", arr [str "plaintext"])]),
      ("synchronization", obj [("didSave", bool false), ("willSave", bool false)])])]),
    ("clientInfo", obj [("name", str "Tempest")])]

/-- `message.get("method").and_then(Value::as_str)`. -/
def methodOf (message : Value) : Option String := (message.get? "method").bind asStr

def asked (message : Value) : Option (Value × String) :=
  match message.get? "id", methodOf message with
  | some theirs, some method => if theirs.isNull then none else some (theirs, method)
  | _, _ => none

def isResponse (id : Int) (message : Value) : Bool :=
  decide ((message.get? "id").bind asI64 = some id) && (methodOf message).isNone

/-! ## Errors -/

inductive LspError where
  | unsupported (language : String)
  | unlaunchable (language : String)
  | notAProject
  | refused (refusal : PathRefusal)
  | serverGone (language : String)
  | timeout (language : String)
  | protocol (detail : String)
  | serverError (code : Int) (message : String)
  deriving DecidableEq

def isFatal : LspError → Bool
  | .serverGone _ | .protocol _ | .timeout _ => true
  | .unsupported _ | .unlaunchable _ | .notAProject | .refused _ | .serverError _ _ => false

/-- `{raw:?}`. -/
def debugCode : Option Int → String
  | none => "None"
  | some n => "Some(" ++ toString n ++ ")"

def answerOf (message : Value) : Except LspError Value :=
  match message.get? "error" with
  | some error =>
    let raw := (error.get? "code").bind asI64
    match raw.filter fun n => decide (-(2 ^ 31) ≤ n ∧ n < 2 ^ 31) with
    | none => .error (.protocol ("error code " ++ debugCode raw ++ " is not a JSON-RPC integer code"))
    | some code =>
      .error (.serverError code (((error.get? "message").bind asStr).getD "no message"))
  | none => .ok ((message.get? "result").getD null)

/-! ## A running server -/

/-- What the reader thread hands over; a frame by what `from_slice` makes of it. -/
inductive Incoming where
  | frame (parsed : Except String Value)
  | ended
  | broken (detail : String)

/-- What the writer thread reports of a frame. -/
inductive Ack where
  | written | gone
  deriving DecidableEq

structure OpenDoc where
  version : Int
  digest : UInt64
  deriving DecidableEq

structure Running where
  nextId : Int
  opened : String → Option OpenDoc
  lastUsed : Nat
  incoming : List Incoming
  writes : List Ack
  sent : List Value
  read : List Value

namespace Running

/-- No report before the deadline is a `Timeout`. -/
def send (s : Running) (language : String) (body : Value) : Except LspError Unit × Running :=
  match s.writes with
  | .written :: writes => (.ok (), { s with writes := writes, sent := s.sent ++ [body] })
  | .gone :: writes => (.error (.serverGone language), { s with writes := writes })
  | [] => (.error (.timeout language), s)

def notify (s : Running) (language method : String) (params : Value) : Except LspError Unit × Running :=
  s.send language (notification method params)

/-- The loop of `exchange`; `patience` is how many messages are read before the deadline. -/
def listen (language : String) (id : Int) : Nat → Running → Except LspError Value × Running
  | 0, s => (.error (.timeout language), s)
  | patience + 1, s =>
    match s.incoming with
    | [] => (.error (.timeout language), s)
    | .ended :: incoming => (.error (.serverGone language), { s with incoming := incoming })
    | .broken detail :: incoming => (.error (.protocol detail), { s with incoming := incoming })
    | .frame (.error why) :: incoming =>
      (.error (.protocol ("the server sent a frame that is not JSON: " ++ why)),
        { s with incoming := incoming })
    | .frame (.ok message) :: incoming =>
      let s := { s with incoming := incoming, read := s.read ++ [message] }
      match asked message with
      | some (theirs, method) =>
        match s.send language (refusal theirs method) with
        | (.error e, s) => (.error e, s)
        | (.ok (), s) => listen language id patience s
      | none =>
        if isResponse id message then (answerOf message, s) else listen language id patience s

def exchange (s : Running) (language method : String) (params : Value) (patience : Nat) :
    Except LspError Value × Running :=
  let id := s.nextId
  match { s with nextId := id + 1 }.send language (request id method params) with
  | (.error e, s) => (.error e, s)
  | (.ok (), s) => listen language id patience s

def handshake (s : Running) (language : String) (pid : Nat) (rootUri : String) (patience : Nat) :
    Except LspError Unit × Running :=
  match s.exchange language "initialize" (initializeParams pid rootUri) patience with
  | (.error e, s) => (.error e, s)
  | (.ok _, s) => s.notify language "initialized" (obj [])

/-- `sync_document`, where `digest` is `digest_of(text)`. -/
def syncDocument (s : Running) (language uri languageId text : String) (digest : UInt64) :
    Except LspError Unit × Running :=
  match s.opened uri with
  | none =>
    match s.notify language "textDocument/didOpen" (didOpenParams uri languageId 1 text) with
    | (.error e, s) => (.error e, s)
    | (.ok (), s) => (.ok (), { s with opened := Function.update s.opened uri (some ⟨1, digest⟩) })
  | some doc =>
    if doc.digest ≠ digest then
      let version := doc.version + 1
      match s.notify language "textDocument/didChange" (didChangeParams uri version text) with
      | (.error e, s) => (.error e, s)
      | (.ok (), s) =>
        (.ok (), { s with opened := Function.update s.opened uri (some ⟨version, digest⟩) })
    else (.ok (), s)

end Running

/-! ## Paths -/

/-- RFC 3986 unreserved, and the separator. -/
def isUnreserved (b : UInt8) : Bool :=
  (0x41 ≤ b && b ≤ 0x5A) || (0x61 ≤ b && b ≤ 0x7A) || (0x30 ≤ b && b ≤ 0x39) ||
    b = 0x2D || b = 0x2E || b = 0x5F || b = 0x7E || b = 0x2F

def hexDigit (n : Nat) : Char := Char.ofNat (if n < 10 then 0x30 + n else 0x41 + (n - 10))

def encodePath (path : String) : String :=
  String.ofList ((path.toList.flatMap String.utf8EncodeChar).flatMap fun b =>
    if isUnreserved b then [Char.ofNat b.toNat]
    else ['%', hexDigit (b.toNat / 16), hexDigit (b.toNat % 16)])

def fileUri (path : String) : String := "file://" ++ encodePath path

/-- The names of `Path::components`. -/
def components (path : String) : List (List Char) :=
  (path.toList.splitOn '/').filter fun name => name ≠ [] && name ≠ ['.']

/-- `file.is_absolute() && file.starts_with(root)`, for an absolute root. -/
def isBelow (file root : String) : Bool :=
  ['/'].isPrefixOf file.toList && (components root).isPrefixOf (components file)

/-! ## The multiplexer -/

structure ServerSpec where
  language : String
  program : String
  args : List String

structure ServerKey where
  language : String
  root : String
  deriving DecidableEq

structure Multiplexer where
  specs : List ServerSpec
  running : List (ServerKey × Running)

/-- The process, and `digest_of`. -/
structure Host where
  pid : Nat
  digestOf : String → UInt64

/-- What happens to one call: what `spawn` gives in a root, the clock, and how many messages are read
before the deadlines of the handshake and of the request. -/
structure Chance where
  spawn : ServerSpec → String → Option (List Incoming × List Ack)
  now : Nat
  greeting : Nat
  patience : Nat

def maxServers : Nat := 8

namespace Multiplexer

def get (m : Multiplexer) (key : ServerKey) : Option Running :=
  (m.running.find? fun entry => decide (entry.1 = key)).map Prod.snd

def put (m : Multiplexer) (key : ServerKey) (s : Running) : Multiplexer :=
  { m with running := Keyed.upsert Prod.fst m.running (key, s) }

def remove (m : Multiplexer) (key : ServerKey) : Multiplexer :=
  { m with running := Keyed.drop Prod.fst m.running key }

def launch (m : Multiplexer) (key : ServerKey) (chance : Chance) : Except LspError Running :=
  match m.specs.find? fun spec => decide (spec.language = key.language) with
  | none => .error (.unsupported key.language)
  | some spec =>
    match chance.spawn spec key.root with
    | none => .error (.unlaunchable key.language)
    | some (incoming, writes) =>
      .ok { nextId := 1, opened := fun _ => none, lastUsed := chance.now, incoming := incoming,
            writes := writes, sent := [], read := [] }

/-- The loop of `evict_lru_if_full`; every turn takes a server out, so that there are no more turns than
servers. -/
def evictLruIfFull : Nat → Multiplexer → Multiplexer
  | 0, m => m
  | fuel + 1, m =>
    if maxServers ≤ m.running.length then
      match m.running.argmin fun entry => entry.2.lastUsed with
      | none => m
      | some oldest => evictLruIfFull fuel (m.remove oldest.1)
    else m

def ensureStarted (host : Host) (m : Multiplexer) (key : ServerKey) (chance : Chance) :
    Except LspError Unit × Multiplexer :=
  if (m.get key).isSome then (.ok (), m)
  else
    let m := m.evictLruIfFull m.running.length
    match m.launch key chance with
    | .error e => (.error e, m)
    | .ok s =>
      match s.handshake key.language host.pid (fileUri key.root) chance.greeting with
      | (.error e, _) => (.error e, m)
      | (.ok (), s) => (.ok (), m.put key s)

def on {α : Type} (m : Multiplexer) (key : ServerKey) (now : Nat)
    (act : Running → Except LspError α × Running) : Except LspError α × Multiplexer :=
  match m.get key with
  | none => (.error (.serverGone key.language), m)
  | some s =>
    let outcome := act { s with lastUsed := now }
    (outcome.1, m.put key outcome.2)

def evictIfFatal {α : Type} (m : Multiplexer) (key : ServerKey) : Except LspError α → Multiplexer
  | .error e => if isFatal e then m.remove key else m
  | .ok _ => m

/-- `on`, and the eviction behind it. -/
def onKept {α : Type} (m : Multiplexer) (key : ServerKey) (now : Nat)
    (act : Running → Except LspError α × Running) : Except LspError α × Multiplexer :=
  let outcome := m.on key now act
  (outcome.1, outcome.2.evictIfFatal key outcome.1)

/-- `request`; `root` is what `project_root` gives, and `none` its refusal. -/
def request (host : Host) (m : Multiplexer) (language : String) (root : Option String) (method : String)
    (params : Value) (chance : Chance) : Except LspError Value × Multiplexer :=
  match root with
  | none => (.error .notAProject, m)
  | some root =>
    let key := ⟨language, root⟩
    match m.ensureStarted host key chance with
    | (.error e, m) => (.error e, m)
    | (.ok (), m) =>
      m.onKept key chance.now fun s => s.exchange key.language method params chance.patience

def hover (host : Host) (m : Multiplexer) (language : String) (root : Option String)
    (file text : String) (line character : Nat) (chance : Chance) :
    Except LspError Value × Multiplexer :=
  match root with
  | none => (.error .notAProject, m)
  | some root =>
    let key := ⟨language, root⟩
    if isBelow file root = false then (.error (.refused .escapesRoot), m)
    else
      let uri := fileUri file
      match m.ensureStarted host key chance with
      | (.error e, m) => (.error e, m)
      | (.ok (), m) =>
        match m.onKept key chance.now fun s =>
            s.syncDocument key.language uri language text (host.digestOf text) with
        | (.error e, m) => (.error e, m)
        | (.ok (), m) =>
          m.onKept key chance.now fun s =>
            s.exchange key.language "textDocument/hover" (hoverParams uri line character)
              chance.patience

def shutdownAll (m : Multiplexer) : Multiplexer := { m with running := [] }

def reconfigure (m : Multiplexer) (specs : List ServerSpec) : Multiplexer :=
  { m.shutdownAll with specs := specs }

def modify (m : Multiplexer) (key : ServerKey) (f : Running → Running) : Option Multiplexer :=
  (m.get key).map fun s => m.put key (f s)

end Multiplexer

inductive Action where
  | arrive (key : ServerKey) (item : Incoming)
  | report (key : ServerKey) (ack : Ack)
  | hover (language : String) (root : Option String) (file text : String) (line character : Nat)
      (chance : Chance)
  | request (language : String) (root : Option String) (method : String) (params : Value)
      (chance : Chance)
  | reconfigure (specs : List ServerSpec)
  | shutdownAll

def step (host : Host) (m : Multiplexer) : Action → Option Multiplexer
  | .arrive key item => m.modify key fun s => { s with incoming := s.incoming ++ [item] }
  | .report key ack => m.modify key fun s => { s with writes := s.writes ++ [ack] }
  | .hover language root file text line character chance =>
    some (m.hover host language root file text line character chance).2
  | .request language root method params chance =>
    some (m.request host language root method params chance).2
  | .reconfigure specs => some (m.reconfigure specs)
  | .shutdownAll => some m.shutdownAll

/-! ## What the server holds -/

structure Document where
  version : Int
  text : String

def Value.asInt : Value → Option Int
  | int n => some n
  | _ => none

def Value.items : Value → List Value
  | arr items => items
  | _ => []

def told (message : Value) : Option (String × Document) := do
  let params ← message.get? "params"
  let doc ← params.get? "textDocument"
  let uri ← (← doc.get? "uri").asStr
  let version ← (← doc.get? "version").asInt
  let content := ((params.get? "contentChanges").map Value.items).elim (some doc) List.getLast?
  let text ← (← (← content).get? "text").asStr
  some (uri, ⟨version, text⟩)

/-- A `didOpen` of a document that is not open, or a `didChange` of one that is. -/
def received (docs : String → Option Document) (message : Value) : String → Option Document :=
  match message.get? "id", methodOf message, told message with
  | none, some method, some (uri, doc) =>
    if method = (if (docs uri).isNone then "textDocument/didOpen" else "textDocument/didChange") then
      Function.update docs uri (some doc)
    else docs
  | _, _, _ => docs

def documents (sent : List Value) : String → Option Document := sent.foldl received fun _ => none

def versionIn (uri : String) (message : Value) : Option Int :=
  match message.get? "id", told message with
  | none, some (u, doc) => if u = uri then some doc.version else none
  | _, _ => none

def requestId (message : Value) : Option Int :=
  if (methodOf message).isSome then (message.get? "id").bind Value.asInt else none

/-- The client answers a request of the server. -/
def isReply (message : Value) : Bool := (methodOf message).isNone

/-! ## The frames of the client -/

variable {uri : String}

section Frames

variable {id version : Int} {method uri' languageId text : String} {params theirs : Value}
  {docs : String → Option Document}

@[simp] theorem requestId_request : requestId (request id method params) = some id := rfl

@[simp] theorem isReply_request : isReply (request id method params) = false := rfl

@[simp] theorem versionIn_request : versionIn uri (request id method params) = none := rfl

@[simp] theorem received_request : received docs (request id method params) = docs := rfl

@[simp] theorem versionIn_didOpen :
    versionIn uri (notification "textDocument/didOpen" (didOpenParams uri' languageId version text)) =
      if uri' = uri then some version else none := rfl

@[simp] theorem versionIn_didChange :
    versionIn uri (notification "textDocument/didChange" (didChangeParams uri' version text)) =
      if uri' = uri then some version else none := rfl

theorem received_didOpen (h : docs uri' = none) :
    received docs (notification "textDocument/didOpen" (didOpenParams uri' languageId version text)) =
      Function.update docs uri' (some ⟨version, text⟩) := by
  have hopens : "textDocument/didOpen" =
      if (docs uri').isNone then "textDocument/didOpen" else "textDocument/didChange" := by rw [h]; rfl
  exact if_pos hopens

theorem received_didChange {doc : Document} (h : docs uri' = some doc) :
    received docs (notification "textDocument/didChange" (didChangeParams uri' version text)) =
      Function.update docs uri' (some ⟨version, text⟩) := by
  have hchanges : "textDocument/didChange" =
      if (docs uri').isNone then "textDocument/didOpen" else "textDocument/didChange" := by rw [h]; rfl
  exact if_pos hchanges

end Frames

def replies (heard : List Value) : List Value :=
  (heard.filterMap asked).map fun question => refusal question.1 question.2

section Replies

variable {heard heard' : List Value} {docs : String → Option Document}

theorem mem_replies {message : Value} (h : message ∈ replies heard) :
    ∃ theirs method, message = refusal theirs method := by
  obtain ⟨question, -, rfl⟩ := List.mem_map.mp h
  exact ⟨question.1, question.2, rfl⟩

theorem replies_append : replies (heard ++ heard') = replies heard ++ replies heard' := by
  rw [replies, List.filterMap_append, List.map_append, ← replies, ← replies]

theorem requestIds_replies : (replies heard).filterMap requestId = [] := by
  rw [List.filterMap_eq_nil_iff]
  intro message h
  obtain ⟨theirs, method, rfl⟩ := mem_replies h
  rfl

theorem versions_replies : (replies heard).filterMap (versionIn uri) = [] := by
  rw [List.filterMap_eq_nil_iff]
  intro message h
  obtain ⟨theirs, method, rfl⟩ := mem_replies h
  rfl

theorem isReply_of_mem {message : Value} (h : message ∈ replies heard) : isReply message = true := by
  obtain ⟨theirs, method, rfl⟩ := mem_replies h
  rfl

theorem received_replies : (replies heard).foldl received docs = docs := by
  unfold replies
  induction heard.filterMap asked with
  | nil => rfl
  | cons question questions ih => exact ih

end Replies

/-! ## One call -/

namespace Running

variable {s s' : Running} {language method : String} {params : Value}

/-- The call has written the frames and read the messages, and left the tables alone. -/
structure Spoke (s s' : Running) (frames messages : List Value) : Prop where
  sent : s'.sent = s.sent ++ frames
  read : s'.read = s.read ++ messages
  opened : s'.opened = s.opened

theorem Spoke.trans {s'' : Running} {frames frames' messages messages' : List Value}
    (h : Spoke s s' frames messages) (h' : Spoke s' s'' frames' messages') :
    Spoke s s'' (frames ++ frames') (messages ++ messages') where
  sent := by rw [h'.sent, h.sent, List.append_assoc]
  read := by rw [h'.read, h.read, List.append_assoc]
  opened := h'.opened.trans h.opened

theorem send_cases (s : Running) (language : String) (body : Value) :
    (∃ e s', s.send language body = (.error e, s') ∧ isFatal e = true) ∨
      ∃ s', s.send language body = (.ok (), s') ∧ Spoke s s' [body] [] ∧ s'.nextId = s.nextId := by
  unfold send
  split
  case h_1 writes _ => exact .inr ⟨_, rfl, ⟨rfl, (List.append_nil s.read).symm, rfl⟩, rfl⟩
  case h_2 writes _ => exact .inl ⟨_, _, rfl, rfl⟩
  case h_3 => exact .inl ⟨_, _, rfl, rfl⟩

/-- What `listen` reads before the response is answered where it asks something. -/
theorem listen_cases (language : String) (id : Int) (patience : Nat) (s : Running) :
    (∃ e s', listen language id patience s = (.error e, s') ∧ isFatal e = true) ∨
      ∃ heard message s', listen language id patience s = (answerOf message, s') ∧
        Spoke s s' (replies heard) (heard ++ [message]) ∧ s'.nextId = s.nextId ∧
        asked message = none ∧ isResponse id message = true := by
  induction patience generalizing s with
  | zero => exact .inl ⟨_, _, rfl, rfl⟩
  | succ patience ih =>
    unfold listen
    split
    case h_1 => exact .inl ⟨_, _, rfl, rfl⟩
    case h_2 => exact .inl ⟨_, _, rfl, rfl⟩
    case h_3 => exact .inl ⟨_, _, rfl, rfl⟩
    case h_4 => exact .inl ⟨_, _, rfl, rfl⟩
    case h_5 message incoming _ =>
      have hread :
          Spoke s { s with incoming := incoming, read := s.read ++ [message] } [] [message] :=
        ⟨(List.append_nil s.sent).symm, rfl, rfl⟩
      cases hasked : asked message with
      | some question =>
        obtain ⟨theirs, method⟩ := question
        have hreply : replies [message] = [refusal theirs method] := by simp [replies, hasked]
        rcases send_cases { s with incoming := incoming, read := s.read ++ [message] } language
          (refusal theirs method) with ⟨e, s₁, hsend, hfatal⟩ | ⟨s₁, hsend, hspoke, hid⟩
        · simp only [hsend]
          exact .inl ⟨_, _, rfl, hfatal⟩
        · simp only [hsend]
          rcases ih s₁ with hfatal | ⟨heard, answer, s₂, hlisten, hrest, hid', hnone, hresponse⟩
          · exact .inl hfatal
          · refine .inr
              ⟨message :: heard, answer, s₂, hlisten, ?_, hid'.trans hid, hnone, hresponse⟩
            have hall := (hread.trans hspoke).trans hrest
            rwa [List.nil_append, ← hreply, ← replies_append] at hall
      | none =>
        cases hmine : isResponse id message with
        | true =>
          simp only [if_true]
          exact .inr ⟨[], message, _, rfl, hread, rfl, hasked, hmine⟩
        | false =>
          simp only [Bool.false_eq_true, if_false]
          rcases ih { s with incoming := incoming, read := s.read ++ [message] } with
            hfatal | ⟨heard, answer, s₂, hlisten, hrest, hid', hnone, hresponse⟩
          · exact .inl hfatal
          · refine .inr ⟨message :: heard, answer, s₂, hlisten, ?_, hid', hnone, hresponse⟩
            have hreply : replies (message :: heard) = replies heard := by simp [replies, hasked]
            rw [hreply]
            exact hread.trans hrest

theorem exchange_cases (s : Running) (language method : String) (params : Value) (patience : Nat) :
    (∃ e s', s.exchange language method params patience = (.error e, s') ∧ isFatal e = true) ∨
      ∃ heard message s', s.exchange language method params patience = (answerOf message, s') ∧
        Spoke s s' (request s.nextId method params :: replies heard) (heard ++ [message]) ∧
        s'.nextId = s.nextId + 1 ∧ asked message = none ∧ isResponse s.nextId message = true := by
  unfold exchange
  simp only
  rcases send_cases { s with nextId := s.nextId + 1 } language (request s.nextId method params) with
    ⟨e, s₁, hsend, hfatal⟩ | ⟨s₁, hsend, hspoke, hid⟩
  · simp only [hsend]
    exact .inl ⟨e, s₁, rfl, hfatal⟩
  · simp only [hsend]
    rcases listen_cases language s.nextId patience s₁ with
      hfatal | ⟨heard, message, s₂, hlisten, hheard, hid', hnone, hresponse⟩
    · exact .inl hfatal
    · have hwrite : Spoke s s₁ [request s.nextId method params] [] :=
        ⟨hspoke.sent, hspoke.read, hspoke.opened⟩
      exact .inr ⟨heard, message, s₂, hlisten, hwrite.trans hheard, hid'.trans hid, hnone, hresponse⟩

end Running

/-! ## Between two calls -/

/-- No request of the client is open, and those of the server that were read are answered, each once and
in their order. -/
structure Conversed (s : Running) : Prop where
  numbered : (s.sent.filterMap requestId).Pairwise (· < ·)
  taken : ∀ id ∈ s.sent.filterMap requestId, id < s.nextId
  answered : ∀ id ∈ s.sent.filterMap requestId, ∃ message ∈ s.read, isResponse id message = true
  replied : s.sent.filter isReply = replies s.read

/-- The table of the documents says what the server holds, and their versions only grow. -/
structure Mirrored (digestOf : String → UInt64) (s : Running) : Prop where
  mirrored : ∀ uri, s.opened uri =
    (documents s.sent uri).map fun doc => ⟨doc.version, digestOf doc.text⟩
  ascending : ∀ uri, (s.sent.filterMap (versionIn uri)).Pairwise (· < ·)
  latest : ∀ uri, ∀ version ∈ s.sent.filterMap (versionIn uri),
    ∃ doc, documents s.sent uri = some doc ∧ version ≤ doc.version

structure Settled (digestOf : String → UInt64) (s : Running) : Prop
  extends Conversed s, Mirrored digestOf s

theorem pairwise_concat {xs : List Int} {v : Int} (h : xs.Pairwise (· < ·)) (hv : ∀ x ∈ xs, x < v) :
    (xs ++ [v]).Pairwise (· < ·) := by
  rw [List.pairwise_append]
  refine ⟨h, List.pairwise_singleton _ _, fun x hx y hy => ?_⟩
  rw [List.mem_singleton.mp hy]
  exact hv x hx

theorem documents_append (sent frames : List Value) :
    documents (sent ++ frames) = frames.foldl received (documents sent) := List.foldl_append

variable {digestOf : String → UInt64} {s s' : Running}

namespace Conversed

theorem exchange (h : Conversed s) {method : String} {params message : Value} {heard : List Value}
    (hspoke : s.Spoke s' (request s.nextId method params :: replies heard) (heard ++ [message]))
    (hid : s'.nextId = s.nextId + 1) (hnone : asked message = none)
    (hresponse : isResponse s.nextId message = true) : Conversed s' := by
  have hids : s'.sent.filterMap requestId = s.sent.filterMap requestId ++ [s.nextId] := by
    rw [hspoke.sent, List.filterMap_append, List.filterMap_cons, requestId_request, requestIds_replies]
  constructor
  case numbered => exact hids ▸ pairwise_concat h.numbered h.taken
  case taken =>
    intro id hmem
    rw [hids, List.mem_append, List.mem_singleton] at hmem
    rcases hmem with hold | rfl
    · have hlt := h.taken id hold
      omega
    · omega
  case answered =>
    intro id hmem
    rw [hids, List.mem_append, List.mem_singleton] at hmem
    rw [hspoke.read]
    rcases hmem with hold | rfl
    · obtain ⟨answer, hread, hanswer⟩ := h.answered id hold
      exact ⟨answer, List.mem_append_left _ hread, hanswer⟩
    · exact ⟨message, by simp, hresponse⟩
  case replied =>
    have hheard : (replies heard).filter isReply = replies heard :=
      List.filter_eq_self.mpr fun _ => isReply_of_mem
    have hmessage : replies [message] = [] := by simp [replies, hnone]
    rw [hspoke.sent, hspoke.read, List.filter_append, h.replied, List.filter_cons_of_neg (by simp),
      hheard, replies_append, replies_append, hmessage, List.append_nil]

theorem notify (h : Conversed s) {method : String} {params : Value}
    (hsent : s'.sent = s.sent ++ [notification method params]) (hread : s'.read = s.read)
    (hid : s'.nextId = s.nextId) : Conversed s' := by
  have hids : s'.sent.filterMap requestId = s.sent.filterMap requestId := by
    rw [hsent, List.filterMap_append]
    exact List.append_nil _
  constructor
  case numbered => exact hids ▸ h.numbered
  case taken => rw [hids, hid]; exact h.taken
  case answered => rw [hids, hread]; exact h.answered
  case replied =>
    rw [hsent, hread, List.filter_append, h.replied]
    exact List.append_nil _

end Conversed

namespace Mirrored

/-- Frames that tell nothing of a document. -/
theorem same (h : Mirrored digestOf s) {frames : List Value} (hsent : s'.sent = s.sent ++ frames)
    (hopened : s'.opened = s.opened) (hreceived : ∀ docs, frames.foldl received docs = docs)
    (hversions : ∀ uri, frames.filterMap (versionIn uri) = []) : Mirrored digestOf s' := by
  have hdocs : documents s'.sent = documents s.sent := by
    rw [hsent, documents_append, hreceived]
  have hsame : ∀ uri, s'.sent.filterMap (versionIn uri) = s.sent.filterMap (versionIn uri) := by
    intro uri
    rw [hsent, List.filterMap_append, hversions, List.append_nil]
  constructor
  case mirrored => rw [hopened, hdocs]; exact h.mirrored
  case ascending => exact fun uri => hsame uri ▸ h.ascending uri
  case latest =>
    intro uri
    rw [hsame uri, hdocs]
    exact h.latest uri

theorem tell (h : Mirrored digestOf s) {frame : Value} {uri : String} {doc : Document}
    (hsent : s'.sent = s.sent ++ [frame])
    (hopened : s'.opened = Function.update s.opened uri (some ⟨doc.version, digestOf doc.text⟩))
    (hreceived : received (documents s.sent) frame = Function.update (documents s.sent) uri (some doc))
    (hversion : ∀ u, versionIn u frame = if uri = u then some doc.version else none)
    (hlater : ∀ old, documents s.sent uri = some old → old.version < doc.version) :
    Mirrored digestOf s' := by
  have hdocs : documents s'.sent = Function.update (documents s.sent) uri (some doc) := by
    rw [hsent, documents_append, ← hreceived]
    rfl
  have hversions : ∀ u, s'.sent.filterMap (versionIn u) =
      s.sent.filterMap (versionIn u) ++ (if uri = u then [doc.version] else []) := by
    intro u
    rw [hsent, List.filterMap_append, List.filterMap_cons, hversion u]
    by_cases hu : uri = u
    · rw [if_pos hu, if_pos hu]
      rfl
    · rw [if_neg hu, if_neg hu]
      rfl
  constructor
  case mirrored =>
    intro u
    rw [hopened, hdocs]
    by_cases hu : u = uri
    · subst hu
      rw [Function.update_self, Function.update_self]
      rfl
    · rw [Function.update_of_ne hu, Function.update_of_ne hu]
      exact h.mirrored u
  case ascending =>
    intro u
    rw [hversions u]
    split
    case isTrue heq =>
      subst heq
      refine pairwise_concat (h.ascending uri) fun version hmem => ?_
      obtain ⟨old, hold, hle⟩ := h.latest uri version hmem
      exact lt_of_le_of_lt hle (hlater old hold)
    case isFalse => rw [List.append_nil]; exact h.ascending u
  case latest =>
    intro u version hmem
    rw [hversions u, List.mem_append] at hmem
    rw [hdocs]
    by_cases hu : u = uri
    · subst hu
      refine ⟨doc, Function.update_self .., ?_⟩
      rcases hmem with hmem | hmem
      · obtain ⟨old, hold, hle⟩ := h.latest u version hmem
        exact le_of_lt (lt_of_le_of_lt hle (hlater old hold))
      · rw [if_pos rfl, List.mem_singleton] at hmem
        exact le_of_eq hmem
    · rw [Function.update_of_ne hu]
      rw [if_neg (Ne.symm hu), List.mem_nil_iff, or_false] at hmem
      exact h.latest u version hmem

end Mirrored

namespace Settled

/-- A server that was just started. -/
theorem new {incoming : List Incoming} {writes : List Ack} {now : Nat} :
    Settled digestOf ⟨1, fun _ => none, now, incoming, writes, [], []⟩ where
  numbered := List.Pairwise.nil
  taken := by simp
  answered := by simp
  replied := rfl
  mirrored := fun _ => rfl
  ascending := fun _ => List.Pairwise.nil
  latest := by simp

theorem exchange (h : Settled digestOf s) {method : String} {params message : Value}
    {heard : List Value}
    (hspoke : s.Spoke s' (request s.nextId method params :: replies heard) (heard ++ [message]))
    (hid : s'.nextId = s.nextId + 1) (hnone : asked message = none)
    (hresponse : isResponse s.nextId message = true) : Settled digestOf s' where
  toConversed := h.toConversed.exchange hspoke hid hnone hresponse
  toMirrored := h.toMirrored.same hspoke.sent hspoke.opened (fun _ => received_replies)
    fun _ => (List.filterMap_cons_none versionIn_request).trans versions_replies

/-- Neither the clock nor the queues matter. -/
theorem congr (h : Settled digestOf s) (hnext : s'.nextId = s.nextId) (hopened : s'.opened = s.opened)
    (hsent : s'.sent = s.sent) (hread : s'.read = s.read) : Settled digestOf s' := by
  obtain ⟨⟨hnumbered, htaken, hanswered, hreplied⟩, hmirrored, hascending, hlatest⟩ := h
  constructor
  · constructor <;> simpa only [hnext, hsent, hread]
  · constructor <;> simpa only [hopened, hsent]

/-- A synchronisation that is no fatal error leaves the server with a text of the digest. -/
theorem syncDocument (h : Settled digestOf s) (language uri languageId text : String) :
    (∃ e s', s.syncDocument language uri languageId text (digestOf text) = (.error e, s') ∧
      isFatal e = true) ∨
    ∃ s', s.syncDocument language uri languageId text (digestOf text) = (.ok (), s') ∧
      Settled digestOf s' ∧
      ∃ doc, documents s'.sent uri = some doc ∧ digestOf doc.text = digestOf text := by
  have hmirrored := h.mirrored uri
  unfold Running.syncDocument
  cases hdoc : documents s.sent uri with
  | none =>
    rw [hdoc, Option.map_none] at hmirrored
    simp only [hmirrored, Running.notify]
    rcases s.send_cases language
        (notification "textDocument/didOpen" (didOpenParams uri languageId 1 text)) with
      ⟨e, s₁, hsend, hfatal⟩ | ⟨s₁, hsend, hspoke, hid⟩
    · simp only [hsend]
      exact .inl ⟨e, s₁, rfl, hfatal⟩
    · simp only [hsend]
      have hreceived : received (documents s.sent) (notification "textDocument/didOpen"
          (didOpenParams uri languageId 1 text)) = Function.update (documents s.sent) uri
            (some ⟨1, text⟩) := received_didOpen hdoc
      refine .inr ⟨_, rfl, ⟨?_, ?_⟩, ⟨1, text⟩, ?_, rfl⟩
      · exact h.toConversed.notify hspoke.sent (hspoke.read.trans (List.append_nil s.read)) hid
      · refine h.toMirrored.tell hspoke.sent ?_ hreceived (fun _ => versionIn_didOpen) ?_
        · rw [hspoke.opened]
        · simp [hdoc]
      · rw [hspoke.sent, documents_append]
        exact (congrFun hreceived uri).trans (Function.update_self ..)
  | some doc =>
    rw [hdoc, Option.map_some] at hmirrored
    simp only [hmirrored]
    by_cases hsame : digestOf doc.text = digestOf text
    · rw [if_neg (not_not_intro hsame)]
      exact .inr ⟨s, rfl, h, doc, hdoc, hsame⟩
    · rw [if_pos hsame]
      simp only [Running.notify]
      rcases s.send_cases language
          (notification "textDocument/didChange" (didChangeParams uri (doc.version + 1) text)) with
        ⟨e, s₁, hsend, hfatal⟩ | ⟨s₁, hsend, hspoke, hid⟩
      · simp only [hsend]
        exact .inl ⟨e, s₁, rfl, hfatal⟩
      · simp only [hsend]
        have hreceived : received (documents s.sent) (notification "textDocument/didChange"
            (didChangeParams uri (doc.version + 1) text)) = Function.update (documents s.sent) uri
              (some ⟨doc.version + 1, text⟩) := received_didChange hdoc
        refine .inr ⟨_, rfl, ⟨?_, ?_⟩, ⟨doc.version + 1, text⟩, ?_, rfl⟩
        · exact h.toConversed.notify hspoke.sent (hspoke.read.trans (List.append_nil s.read)) hid
        · refine h.toMirrored.tell hspoke.sent ?_ hreceived (fun _ => versionIn_didChange) ?_
          · rw [hspoke.opened]
          · intro old hold
            obtain rfl := Option.some.inj (hdoc.symm.trans hold)
            exact lt_add_one doc.version
        · rw [hspoke.sent, documents_append]
          exact (congrFun hreceived uri).trans (Function.update_self ..)

theorem handshake (h : Settled digestOf s) (language rootUri : String) (pid patience : Nat) :
    (∃ e s', s.handshake language pid rootUri patience = (.error e, s')) ∨
      ∃ s', s.handshake language pid rootUri patience = (.ok (), s') ∧ Settled digestOf s' := by
  unfold Running.handshake
  rcases s.exchange_cases language "initialize" (initializeParams pid rootUri) patience with
    ⟨e, s₁, hexchange, -⟩ | ⟨heard, message, s₁, hexchange, hspoke, hid, hnone, hresponse⟩
  · simp only [hexchange]
    exact .inl ⟨e, s₁, rfl⟩
  · simp only [hexchange]
    cases answerOf message with
    | error e => exact .inl ⟨e, s₁, rfl⟩
    | ok value =>
      have h₁ := h.exchange hspoke hid hnone hresponse
      simp only [Running.notify]
      rcases s₁.send_cases language (notification "initialized" (obj [])) with
        ⟨e, s₂, hsend, -⟩ | ⟨s₂, hsend, hspoke₂, hid₂⟩
      · exact .inl ⟨e, s₂, hsend⟩
      · refine .inr ⟨s₂, hsend, ?_, ?_⟩
        · exact h₁.toConversed.notify hspoke₂.sent (hspoke₂.read.trans (List.append_nil s₁.read)) hid₂
        · exact h₁.toMirrored.same hspoke₂.sent hspoke₂.opened (fun _ => rfl) fun _ => rfl

end Settled

/-! ## The servers that are kept -/

namespace Multiplexer

variable {m : Multiplexer} {key : ServerKey}

theorem get_eq_none_iff : m.get key = none ↔ ∀ entry ∈ m.running, entry.1 ≠ key := by
  rw [get, Option.map_eq_none_iff, List.find?_eq_none]
  simp

theorem mem_of_get (h : m.get key = some s) : (key, s) ∈ m.running := by
  obtain ⟨entry, hfind, rfl⟩ := Option.map_eq_some_iff.mp h
  obtain rfl : entry.1 = key := by simpa using List.find?_some hfind
  exact List.mem_of_find?_eq_some hfind

theorem get_put : (m.put key s).get key = some s := by
  have hnone : (m.running.filter fun entry => decide (entry.1 ≠ key)).find?
      (fun entry => decide (entry.1 = key)) = none := by
    rw [List.find?_eq_none]
    intro entry hmem
    simpa using (List.mem_filter.mp hmem).2
  simp only [get, put, Keyed.upsert, List.find?_append, hnone]
  simp

theorem get_remove : (m.remove key).get key = none := by
  rw [get_eq_none_iff]
  exact fun entry hmem => (Keyed.mem_drop.mp hmem).2

theorem remove_put : ((m.put key s).remove key).running = (m.remove key).running := by
  simp [remove, put, Keyed.drop, Keyed.upsert, List.filter_append, List.filter_filter]

theorem remove_sublist : List.Sublist (m.remove key).running m.running := List.filter_sublist

theorem length_remove_lt {entry : ServerKey × Running} (h : entry ∈ m.running) :
    (m.remove entry.1).running.length < m.running.length :=
  List.length_filter_lt_length_iff_exists.mpr ⟨entry, h, by simp⟩

theorem length_put_of_get {s' : Running} (h : m.get key = some s) :
    (m.put key s').running.length ≤ m.running.length := by
  have hlt : (m.remove key).running.length < m.running.length := length_remove_lt (mem_of_get h)
  have heq : (m.put key s').running.length = (m.remove key).running.length + 1 := List.length_append
  omega

theorem length_put : (m.put key s).running.length ≤ m.running.length + 1 := by
  have hle : (m.remove key).running.length ≤ m.running.length := List.length_filter_le ..
  have heq : (m.put key s).running.length = (m.remove key).running.length + 1 := List.length_append
  omega

/-- `evictLruIfFull` makes room. -/
theorem evictLruIfFull_spec (fuel : Nat) (m : Multiplexer) (hfuel : m.running.length ≤ fuel) :
    List.Sublist (m.evictLruIfFull fuel).running m.running ∧
      (m.evictLruIfFull fuel).running.length < maxServers := by
  induction fuel generalizing m with
  | zero =>
    refine ⟨List.Sublist.refl _, ?_⟩
    have hempty : m.running.length = 0 := Nat.le_zero.mp hfuel
    rw [evictLruIfFull, hempty]
    decide
  | succ fuel ih =>
    unfold evictLruIfFull
    split
    case isTrue hfull =>
      split
      case h_1 hnone =>
        rw [List.argmin_eq_none] at hnone
        rw [hnone] at hfull
        exact absurd hfull (by decide)
      case h_2 oldest hsome =>
        have hlt := length_remove_lt (List.argmin_mem hsome)
        obtain ⟨hsub, hroom⟩ := ih (m.remove oldest.1) (by omega)
        exact ⟨hsub.trans remove_sublist, hroom⟩
    case isFalse hroom => exact ⟨List.Sublist.refl _, Nat.lt_of_not_le hroom⟩

end Multiplexer

structure Kept (host : Host) (m : Multiplexer) : Prop where
  few : m.running.length ≤ maxServers
  unique : (m.running.map Prod.fst).Nodup
  settled : ∀ entry ∈ m.running, Settled host.digestOf entry.2

namespace Kept

open Multiplexer

variable {host : Host} {m m' : Multiplexer} {key : ServerKey}

theorem sublist (h : Kept host m) (hsub : List.Sublist m'.running m.running) : Kept host m' where
  few := hsub.length_le.trans h.few
  unique := h.unique.sublist (hsub.map Prod.fst)
  settled := fun entry hmem => h.settled entry (hsub.subset hmem)

theorem put (h : Kept host m) (hs : Settled host.digestOf s)
    (hfew : (m.put key s).running.length ≤ maxServers) : Kept host (m.put key s) where
  few := hfew
  unique := Keyed.nodup_upsert h.unique
  settled := by
    intro entry hmem
    rcases Keyed.mem_upsert.mp hmem with ⟨hold, -⟩ | rfl
    · exact h.settled entry hold
    · exact hs

theorem get (h : Kept host m) (hget : m.get key = some s) : Settled host.digestOf s :=
  h.settled _ (mem_of_get hget)

theorem update (h : Kept host m) (hget : m.get key = some s) (hs : Settled host.digestOf s') :
    Kept host (m.put key s') :=
  h.put hs ((length_put_of_get hget).trans h.few)

theorem ensureStarted (h : Kept host m) (key : ServerKey) (chance : Chance) :
    (∃ e m', m.ensureStarted host key chance = (.error e, m') ∧ Kept host m' ∧ m'.get key = none) ∨
      ∃ m' s, m.ensureStarted host key chance = (.ok (), m') ∧ Kept host m' ∧ m'.get key = some s := by
  unfold Multiplexer.ensureStarted
  cases hget : m.get key with
  | some s => exact .inr ⟨m, s, if_pos rfl, h, hget⟩
  | none =>
    obtain ⟨hsub, hroom⟩ := evictLruIfFull_spec m.running.length m le_rfl
    have hkept : Kept host (m.evictLruIfFull m.running.length) := h.sublist hsub
    have hnone : (m.evictLruIfFull m.running.length).get key = none := by
      rw [get_eq_none_iff] at hget ⊢
      exact fun entry hmem => hget entry (hsub.subset hmem)
    simp only [Option.isSome_none, Bool.false_eq_true, if_false]
    generalize m.evictLruIfFull m.running.length = m₁ at hroom hkept hnone
    cases hlaunch : m₁.launch key chance with
    | error e => exact .inl ⟨e, m₁, rfl, hkept, hnone⟩
    | ok s₀ =>
      have hnew : Settled host.digestOf s₀ := by
        unfold launch at hlaunch
        split at hlaunch
        case h_1 => cases hlaunch
        case h_2 =>
          split at hlaunch
          case h_1 => cases hlaunch
          case h_2 => exact Except.ok.inj hlaunch ▸ Settled.new
      simp only
      rcases hnew.handshake key.language (fileUri key.root) host.pid chance.greeting with
        ⟨e, s₁, hshake⟩ | ⟨s₁, hshake, hsettled⟩
      · simp only [hshake]
        exact .inl ⟨e, m₁, rfl, hkept, hnone⟩
      · simp only [hshake]
        refine .inr ⟨_, s₁, rfl, hkept.put hsettled (length_put.trans ?_), get_put⟩
        omega

theorem onKept_fatal (h : Kept host m) {α : Type} (act : Running → Except LspError α × Running)
    {now : Nat} {e : LspError} (hget : m.get key = some s)
    (hact : act { s with lastUsed := now } = (.error e, s'))
    (hfatal : isFatal e = true) :
    ∃ m', m.onKept key now act = (.error e, m') ∧ Kept host m' ∧ m'.get key = none := by
  refine ⟨(m.put key s').remove key, ?_, ?_, get_remove⟩
  · simp only [Multiplexer.onKept, on, hget, hact, evictIfFatal, hfatal, if_true]
  · refine h.sublist ?_
    rw [remove_put]
    exact remove_sublist

theorem onKept_kept (h : Kept host m) {α : Type} (act : Running → Except LspError α × Running)
    {now : Nat} {outcome : Except LspError α} (hget : m.get key = some s)
    (hact : act { s with lastUsed := now } = (outcome, s')) (hs : Settled host.digestOf s')
    (hmild : ∀ e, outcome = .error e → isFatal e = false) :
    ∃ m', m.onKept key now act = (outcome, m') ∧ Kept host m' ∧ m'.get key = some s' := by
  refine ⟨m.put key s', ?_, h.update hget hs, get_put⟩
  simp only [Multiplexer.onKept, on, hget, hact]
  cases outcome with
  | ok value => rfl
  | error e => simp only [evictIfFatal, hmild e rfl, Bool.false_eq_true, if_false]

end Kept

/-! ## The two calls -/

/-- The result is that of the response to the request, which was sent behind the frames before it; only
answers to the server came after it. -/
def Answered (s : Running) (method : String) (params value : Value) (before : List Value) : Prop :=
  ∃ id after message, s.sent = before ++ request id method params :: after ∧
    (∀ frame ∈ after, isReply frame = true) ∧ s.read.getLast? = some message ∧
    asked message = none ∧ isResponse id message = true ∧ answerOf message = .ok value

/-- What holds of the outcome of a `request`. -/
structure RequestAnswered (key : ServerKey) (method : String) (params : Value)
    (outcome : Except LspError Value × Multiplexer) : Prop where
  answered : ∀ value, outcome.1 = .ok value →
    ∃ s before, outcome.2.get key = some s ∧ Answered s method params value before
  evicted : ∀ e, outcome.1 = .error e → isFatal e = true → outcome.2.get key = none

/-- What holds of the outcome of a `hover`: the text that the server had when it was asked is that of
the call, as far as the digest tells, and so is the one of a server that is still there. -/
structure HoverAnswered (host : Host) (key : ServerKey) (file text : String) (line character : Nat)
    (outcome : Except LspError Value × Multiplexer) : Prop where
  answered : ∀ value, outcome.1 = .ok value →
    ∃ s before doc, outcome.2.get key = some s ∧
      Answered s "textDocument/hover" (hoverParams (fileUri file) line character) value before ∧
      documents before (fileUri file) = some doc ∧ host.digestOf doc.text = host.digestOf text
  current : ∀ s, isBelow file key.root = true → outcome.2.get key = some s →
    ∃ doc, documents s.sent (fileUri file) = some doc ∧ host.digestOf doc.text = host.digestOf text
  evicted : ∀ e, outcome.1 = .error e → isFatal e = true → outcome.2.get key = none

/-- An exchange costs the server its life, or leaves it settled. -/
theorem Kept.onKept_exchange {host : Host} {m : Multiplexer} (h : Kept host m) {key : ServerKey}
    (hget : m.get key = some s) (now patience : Nat) (method : String) (params : Value) :
    (∃ e m', m.onKept key now (fun s => s.exchange key.language method params patience) =
        (.error e, m') ∧ Kept host m' ∧ m'.get key = none) ∨
    ∃ outcome m' s', m.onKept key now (fun s => s.exchange key.language method params patience) =
        (outcome, m') ∧ Kept host m' ∧ m'.get key = some s' ∧
      (∀ e, outcome = .error e → isFatal e = false) ∧ documents s'.sent = documents s.sent ∧
      ∀ value, outcome = .ok value → Answered s' method params value s.sent := by
  let act : Running → Except LspError Value × Running :=
    fun s => s.exchange key.language method params patience
  have hs : Settled host.digestOf { s with lastUsed := now } := (h.get hget).congr rfl rfl rfl rfl
  rcases Running.exchange_cases { s with lastUsed := now } key.language method params patience with
    ⟨e, s₁, hact, hfatal⟩ | ⟨heard, message, s₁, hact, hspoke, hid, hnone, hresponse⟩
  · obtain ⟨m', heq, hkept, hgone⟩ := h.onKept_fatal act hget hact hfatal
    exact .inl ⟨e, m', heq, hkept, hgone⟩
  · have hsettled := hs.exchange hspoke hid hnone hresponse
    have hkeep : (∀ e, answerOf message = .error e → isFatal e = false) → _ :=
      h.onKept_kept act hget hact hsettled
    have hdocs : documents s₁.sent = documents s.sent := by
      rw [hspoke.sent, documents_append, List.foldl_cons, received_request, received_replies]
    cases hanswer : answerOf message with
    | ok value =>
      obtain ⟨m', heq, hkept, hget'⟩ := hkeep fun e he => by cases hanswer.symm.trans he
      refine .inr ⟨.ok value, m', s₁, heq.trans (by rw [hanswer]), hkept, hget',
        fun e he => (by cases he), hdocs, ?_⟩
      rintro value' hvalue
      cases hvalue
      have hlast : s₁.read.getLast? = some message := by
        rw [hspoke.read, ← List.append_assoc, List.getLast?_concat]
      exact ⟨s.nextId, replies heard, message, hspoke.sent, fun _ => isReply_of_mem, hlast, hnone,
        hresponse, hanswer⟩
    | error e =>
      cases hfatal : isFatal e with
      | true =>
        rw [hanswer] at hact
        obtain ⟨m', heq, hkept, hgone⟩ := h.onKept_fatal act hget hact hfatal
        exact .inl ⟨e, m', heq, hkept, hgone⟩
      | false =>
        have hmild : ∀ e',
            Except.error e = (.error e' : Except LspError Value) → isFatal e' = false := by
          rintro e' ⟨⟩
          exact hfatal
        obtain ⟨m', heq, hkept, hget'⟩ := hkeep (by rw [hanswer]; exact hmild)
        exact .inr ⟨.error e, m', s₁, heq.trans (by rw [hanswer]), hkept, hget', hmild, hdocs,
          fun value hvalue => by cases hvalue⟩

/-- A synchronisation costs the server its life, or leaves it with the text. -/
theorem Kept.onKept_sync {host : Host} {m : Multiplexer} (h : Kept host m) {key : ServerKey}
    (hget : m.get key = some s) (now : Nat) (uri languageId text : String) :
    (∃ e m', m.onKept key now
        (fun s => s.syncDocument key.language uri languageId text (host.digestOf text)) =
        (.error e, m') ∧ Kept host m' ∧ m'.get key = none) ∨
    ∃ m' s' doc, m.onKept key now
        (fun s => s.syncDocument key.language uri languageId text (host.digestOf text)) = (.ok (), m') ∧
      Kept host m' ∧ m'.get key = some s' ∧ documents s'.sent uri = some doc ∧
      host.digestOf doc.text = host.digestOf text := by
  let act : Running → Except LspError Unit × Running :=
    fun s => s.syncDocument key.language uri languageId text (host.digestOf text)
  have hs : Settled host.digestOf { s with lastUsed := now } := (h.get hget).congr rfl rfl rfl rfl
  rcases hs.syncDocument key.language uri languageId text with
    ⟨e, s₁, hact, hfatal⟩ | ⟨s₁, hact, hsettled, doc, hdoc, hdigest⟩
  · obtain ⟨m', heq, hkept, hgone⟩ := h.onKept_fatal act hget hact hfatal
    exact .inl ⟨e, m', heq, hkept, hgone⟩
  · obtain ⟨m', heq, hkept, hget'⟩ := h.onKept_kept act hget hact hsettled fun e he => by cases he
    exact .inr ⟨m', s₁, doc, heq, hkept, hget', hdoc, hdigest⟩

section Calls

variable {host : Host} {m : Multiplexer} {key : ServerKey}

theorem RequestAnswered.of_gone {method : String} {params : Value} {e : LspError}
    (h : m.get key = none) : RequestAnswered key method params (.error e, m) where
  answered := fun _ hok => by cases hok
  evicted := fun _ _ _ => h

theorem HoverAnswered.of_gone {file text : String} {line character : Nat} {e : LspError}
    (h : m.get key = none) : HoverAnswered host key file text line character (.error e, m) where
  answered := fun _ hok => by cases hok
  current := fun _ _ hget => by cases h.symm.trans hget
  evicted := fun _ _ _ => h

theorem Kept.request (h : Kept host m) (language root method : String) (params : Value)
    (chance : Chance) :
    Kept host (m.request host language (some root) method params chance).2 ∧
      RequestAnswered ⟨language, root⟩ method params
        (m.request host language (some root) method params chance) := by
  simp only [Multiplexer.request]
  rcases h.ensureStarted ⟨language, root⟩ chance with
    ⟨e, m₁, hstart, hkept, hnone⟩ | ⟨m₁, s, hstart, hkept, hget⟩
  · simp only [hstart]
    exact ⟨hkept, .of_gone hnone⟩
  · simp only [hstart]
    rcases hkept.onKept_exchange hget chance.now chance.patience method params with
      ⟨e, m₂, heq, hkept₂, hnone⟩ | ⟨outcome, m₂, s₂, heq, hkept₂, hget₂, hmild, -, hanswer⟩
    · rw [heq]
      exact ⟨hkept₂, .of_gone hnone⟩
    · rw [heq]
      refine ⟨hkept₂, fun value hok => ⟨s₂, s.sent, hget₂, hanswer value hok⟩, fun e he hfatal => ?_⟩
      exact absurd ((hmild e he).symm.trans hfatal) (by decide)

theorem Kept.hover (h : Kept host m) (language root file text : String) (line character : Nat)
    (chance : Chance) :
    Kept host (m.hover host language (some root) file text line character chance).2 ∧
      HoverAnswered host ⟨language, root⟩ file text line character
        (m.hover host language (some root) file text line character chance) := by
  simp only [Multiplexer.hover]
  cases hbelow : isBelow file root with
  | false =>
    simp only [if_true]
    refine ⟨h, fun _ hok => (by cases hok), fun _ hbelow' => ?_, fun e he hfatal => ?_⟩
    · exact absurd (hbelow.symm.trans hbelow') (by decide)
    · cases he
      cases hfatal
  | true =>
    simp only [Bool.true_eq_false, if_false]
    rcases h.ensureStarted ⟨language, root⟩ chance with
      ⟨e, m₁, hstart, hkept, hnone⟩ | ⟨m₁, s, hstart, hkept, hget⟩
    · simp only [hstart]
      exact ⟨hkept, .of_gone hnone⟩
    simp only [hstart]
    rcases hkept.onKept_sync hget chance.now (fileUri file) language text with
      ⟨e, m₂, heq, hkept₂, hnone⟩ | ⟨m₂, s₂, doc, heq, hkept₂, hget₂, hdoc, hdigest⟩
    · simp only [heq]
      exact ⟨hkept₂, .of_gone hnone⟩
    simp only [heq]
    rcases hkept₂.onKept_exchange hget₂ chance.now chance.patience "textDocument/hover"
        (hoverParams (fileUri file) line character) with
      ⟨e, m₃, heq₃, hkept₃, hnone⟩ | ⟨outcome, m₃, s₃, heq₃, hkept₃, hget₃, hmild, hdocs, hanswer⟩
    · rw [heq₃]
      exact ⟨hkept₃, .of_gone hnone⟩
    · rw [heq₃]
      refine ⟨hkept₃, fun value hok => ⟨s₃, s₂.sent, doc, hget₃, hanswer value hok, hdoc, hdigest⟩,
        fun s' _ hget' => ?_, fun e he hfatal => ?_⟩
      · obtain rfl := Option.some.inj (hget₃.symm.trans hget')
        exact ⟨doc, by rw [hdocs, hdoc], hdigest⟩
      · exact absurd ((hmild e he).symm.trans hfatal) (by decide)

theorem Kept.modify (h : Kept host m) {m' : Multiplexer} (f : Running → Running)
    (hf : ∀ s, Settled host.digestOf s → Settled host.digestOf (f s)) (hm : m.modify key f = some m') :
    Kept host m' := by
  obtain ⟨s, hget, rfl⟩ := Option.map_eq_some_iff.mp hm
  exact h.update hget (hf s (h.get hget))

theorem Kept.step (h : Kept host m) {m' : Multiplexer} {a : Action} (hstep : step host m a = some m') :
    Kept host m' := by
  cases a with
  | arrive key item =>
    let f : Running → Running := fun s => { s with incoming := s.incoming ++ [item] }
    exact h.modify f (fun _ hs => hs.congr rfl rfl rfl rfl) hstep
  | report key ack =>
    let f : Running → Running := fun s => { s with writes := s.writes ++ [ack] }
    exact h.modify f (fun _ hs => hs.congr rfl rfl rfl rfl) hstep
  | hover language root file text line character chance =>
    cases hstep
    cases root with
    | none => exact h
    | some root => exact (h.hover language root file text line character chance).1
  | request language root method params chance =>
    cases hstep
    cases root with
    | none => exact h
    | some root => exact (h.request language root method params chance).1
  | reconfigure specs =>
    cases hstep
    exact ⟨Nat.zero_le _, List.nodup_nil, by simp [Multiplexer.reconfigure, Multiplexer.shutdownAll]⟩
  | shutdownAll =>
    cases hstep
    exact h.sublist (List.nil_sublist _)

/-- Whatever calls are made and whatever the servers send: there are at most `maxServers`, each is
settled, and every call is answered about the text it came with. -/
theorem question_answered
    (h : Reachable (Lsp.step host) (fun _ _ => True) (fun m => m.running = []) m) :
    m.running.length ≤ maxServers ∧ (m.running.map Prod.fst).Nodup ∧
      (∀ entry ∈ m.running, Settled host.digestOf entry.2) ∧
      (∀ language root file text line character chance,
        HoverAnswered host ⟨language, root⟩ file text line character
          (m.hover host language (some root) file text line character chance)) ∧
      ∀ language root method params chance, RequestAnswered ⟨language, root⟩ method params
        (m.request host language (some root) method params chance) := by
  have hkept : Kept host m := by
    refine h.invariant (fun m hempty => ?_) fun _ _ _ hkept _ => hkept.step
    exact ⟨by rw [hempty]; exact Nat.zero_le _, by rw [hempty]; exact List.nodup_nil, by simp [hempty]⟩
  exact ⟨hkept.few, hkept.unique, hkept.settled,
    fun language root file text line character chance =>
      (hkept.hover language root file text line character chance).2,
    fun language root method params chance => (hkept.request language root method params chance).2⟩

end Calls

/-! ## A project with one file -/

def response (id : Int) : Value := obj [("jsonrpc", str "2.0"), ("id", int id), ("result", null)]

/-- A server that writes so many frames and has the answers ready. -/
def obliging (answers : List Int) (frames : Nat) : Chance where
  spawn := fun _ _ =>
    some (answers.map fun id => .frame (.ok (response id)), List.replicate frames .written)
  now := 0
  greeting := 1
  patience := 1

def python : Multiplexer := ⟨[⟨"python", "pyright-langserver", ["--stdio"]⟩], []⟩

def hoverAt (host : Host) (m : Multiplexer) (text : String) : Except LspError Value × Multiplexer :=
  m.hover host "python" (some "/r") "/r/a.py" text 0 0 (obliging [1, 2, 3] 5)

def hovered (host : Host) (text : String) : Multiplexer := (hoverAt host python text).2

theorem reachable_hovered (host : Host) (text : String) :
    Reachable (step host) (fun _ _ => True) (fun m => m.running = []) (hovered host text) :=
  .step (a := .hover "python" (some "/r") "/r/a.py" text 0 0 (obliging [1, 2, 3] 5))
    (.start (rfl : python.running = [])) trivial rfl

theorem question_answered_hovered :
    (hovered ⟨1, fun _ => 0⟩ "x = 1").running.length = 1 ∧
      ∀ entry ∈ (hovered ⟨1, fun _ => 0⟩ "x = 1").running, Settled (fun _ => 0) entry.2 :=
  ⟨rfl, (question_answered (reachable_hovered ⟨1, fun _ => 0⟩ "x = 1")).2.2.1⟩

def hoveredServer (host : Host) (text : String) : Running where
  nextId := 3
  opened := Function.update (fun _ => none) (fileUri "/r/a.py") (some ⟨1, host.digestOf text⟩)
  lastUsed := 0
  incoming := [.frame (.ok (response 3))]
  writes := [.written]
  sent := [request 1 "initialize" (initializeParams host.pid (fileUri "/r")),
    notification "initialized" (obj []),
    notification "textDocument/didOpen" (didOpenParams (fileUri "/r/a.py") "python" 1 text),
    request 2 "textDocument/hover" (hoverParams (fileUri "/r/a.py") 0 0)]
  read := [response 1, response 2]

theorem syncDocument_same {language uri languageId text : String} {doc : OpenDoc}
    (h : s.opened uri = some doc) :
    s.syncDocument language uri languageId text doc.digest = (.ok (), s) := by
  simp only [Running.syncDocument, h, ne_eq, not_true_eq_false, if_false]

theorem exists_collision (digestOf : String → UInt64) :
    ∃ t₁ t₂, t₁ ≠ t₂ ∧ digestOf t₁ = digestOf t₂ := by
  have hinjective : Function.Injective fun n => String.ofList (List.replicate n 'a') := by
    intro m n h
    simpa using congrArg String.length h
  have hinfinite : Infinite String := Infinite.of_injective _ hinjective
  have hfinite : Finite UInt64 := Finite.of_injective UInt64.toFin fun _ _ => UInt64.toFin_inj.mp
  exact Finite.exists_ne_map_eq_of_infinite digestOf

/-- A second hover with a text of the same digest is a request only. -/
theorem hoverAt_same {host : Host} {t₁ t₂ : String} (h : host.digestOf t₁ = host.digestOf t₂) :
    hoverAt host (hovered host t₁) t₂ =
      ((hovered host t₁).put ⟨"python", "/r"⟩ (hoveredServer host t₁)).onKept ⟨"python", "/r"⟩ 0
        fun s => s.exchange "python" "textDocument/hover" (hoverParams (fileUri "/r/a.py") 0 0) 1 := by
  have hget : (hovered host t₁).get ⟨"python", "/r"⟩ = some (hoveredServer host t₁) := by rfl
  have hopened : (hoveredServer host t₁).opened (fileUri "/r/a.py") = some ⟨1, host.digestOf t₁⟩ := by
    rfl
  have hsync : (hoveredServer host t₁).syncDocument "python" (fileUri "/r/a.py") "python" t₂
      (host.digestOf t₂) = (.ok (), hoveredServer host t₁) := by
    rw [← h]
    exact syncDocument_same hopened
  have hon : (hovered host t₁).onKept ⟨"python", "/r"⟩ 0
      (fun s => s.syncDocument "python" (fileUri "/r/a.py") "python" t₂ (host.digestOf t₂)) =
        (.ok (), (hovered host t₁).put ⟨"python", "/r"⟩ (hoveredServer host t₁)) := by
    have hnow : ({ hoveredServer host t₁ with lastUsed := 0 } : Running) = hoveredServer host t₁ := rfl
    simp only [Multiplexer.onKept, Multiplexer.on, hget, hnow, hsync]
    rfl
  have hstart : (hovered host t₁).ensureStarted host ⟨"python", "/r"⟩ (obliging [1, 2, 3] 5) =
      (.ok (), hovered host t₁) := by rfl
  have hbelow : isBelow "/r/a.py" "/r" = true := by rfl
  have hnow : (obliging [1, 2, 3] 5).now = 0 := rfl
  simp only [hoverAt, Multiplexer.hover, hbelow, hstart, Bool.true_eq_false, if_false, hnow, hon]
  rfl

/-- Whatever the digest is, a buffer that the server has not seen is asked about; and a request of the
server that comes behind the response is not answered. -/
theorem edited_unseen :
    (∀ host : Host, ∃ m text value s doc,
      Reachable (step host) (fun _ _ => True) (fun m => m.running = []) m ∧
      (hoverAt host m text).1 = .ok value ∧ (hoverAt host m text).2.get ⟨"python", "/r"⟩ = some s ∧
      documents s.sent (fileUri "/r/a.py") = some doc ∧ doc.text ≠ text) ∧
    ∀ host : Host, ∃ m s message,
      Reachable (step host) (fun _ _ => True) (fun m => m.running = []) m ∧
      m.get ⟨"python", "/r"⟩ = some s ∧ .frame (.ok message) ∈ s.incoming ∧
      asked message = some (str "reg-1", "client/registerCapability") ∧ s.sent.filter isReply = [] := by
  refine ⟨fun host => ?_, fun host => ?_⟩
  · obtain ⟨t₁, t₂, hne, hsame⟩ := exists_collision host.digestOf
    let s : Running :=
      { hoveredServer host t₁ with
        nextId := 4
        incoming := []
        writes := []
        sent := (hoveredServer host t₁).sent ++
          [request 3 "textDocument/hover" (hoverParams (fileUri "/r/a.py") 0 0)]
        read := [response 1, response 2, response 3] }
    refine ⟨hovered host t₁, t₂, null, s, ⟨1, t₁⟩, reachable_hovered host t₁, ?_, ?_, ?_, hne⟩
    · rw [hoverAt_same hsame]
      rfl
    · rw [hoverAt_same hsame]
      rfl
    · rfl
  · let message := obj [("id", str "reg-1"), ("method", str "client/registerCapability")]
    refine ⟨_, _, message, .step (a := .arrive ⟨"python", "/r"⟩ (.frame (.ok message)))
      (reachable_hovered host "") trivial rfl, rfl, ?_, rfl, rfl⟩
    exact List.mem_append_right _ List.mem_cons_self

end Lsp
end Tempest
