import Tempest.Inference.Client
import Tempest.Process.Fallible

/-!
# Answers — which bodies `complete` answers lawfully

`wellFormedCalls` and `statedUsage` say what a document states, without reading it as the code does.
`answered_iff` says for which bodies the call ends in a completion that states the same, or in a
`ModelError`.
-/

namespace Tempest
namespace Client

open Python

/-! ## What a document states -/

def text? : JsonValue → Option PyStr
  | .str s => some s
  | _ => none

def fields? : JsonValue → Option (List (PyStr × JsonValue))
  | .obj fields => some fields
  | _ => none

def listed : JsonValue → List JsonValue
  | .arr items => items
  | _ => []

/-- The value under a key of an object, or `null`. -/
def stated (key : String) (v : JsonValue) : JsonValue := fieldOr key .null v

section Stated

variable (interp : Interpreter)

/-- A count is an integer, a number with an integral value or a text that shows an integer. -/
def countIn : JsonValue → Option Int
  | .int n => some n
  | .float x =>
    match x.hexval.toRat? with
    | some q => if (⌊q⌋ : ℚ) = q then some ⌊q⌋ else none
    | none => none
  | .str s => interp.intOfText s
  | _ => none

/-- The counts of `usage`; a count that is missing is zero. -/
def statedUsage (wire : Wire) (document : JsonValue) : Option Usage := do
  let raw := stated "usage" document
  let keys := match wire with
    | .anthropic => ("input_tokens", "output_tokens")
    | .openai => ("prompt_tokens", "completion_tokens")
  let input ← countIn interp (fieldOr keys.1 (.int 0) raw)
  let output ← countIn interp (fieldOr keys.2 (.int 0) raw)
  return ⟨input, output⟩

/-- A `tool_use` block with a text for its id, a text for its name and an object for its input. -/
def toolUse? (block : JsonValue) : Option ToolCall :=
  if equals "tool_use" (stated "type" block) then do
    let id ← text? (stated "id" block)
    let name ← text? (stated "name" block)
    let arguments ← fields? (stated "input" block)
    return ⟨id, name, arguments⟩
  else none

def arguments? (v : JsonValue) : Option (List (PyStr × JsonValue)) :=
  if v.truthy then do
    let s ← text? v
    match loads interp s with
    | .ok v => fields? v
    | .error _ => none
  else some []

def functionCall? (call : JsonValue) : Option ToolCall := do
  let fn := stated "function" call
  let id ← text? (stated "id" call)
  let name ← text? (stated "name" fn)
  let arguments ← arguments? interp (stated "arguments" fn)
  return ⟨id, name, arguments⟩

def firstMessage (document : JsonValue) : JsonValue :=
  match listed (stated "choices" document) with
  | choice :: _ => stated "message" choice
  | [] => .null

def wellFormedCalls (wire : Wire) (document : JsonValue) : List ToolCall :=
  match wire with
  | .anthropic => (listed (stated "content" document)).filterMap toolUse?
  | .openai =>
    (listed (stated "tool_calls" (firstMessage document))).filterMap (functionCall? interp)

/-- A completion states what its document states; any other end is a `ModelError`. -/
def Lawful (wire : Wire) (body : Bytes) : AfterCall → Prop
  | .answered answer =>
    ∃ document, loads interp (decodeReplace body) = .ok document ∧
      answer.toolCalls = wellFormedCalls interp wire document ∧
      statedUsage interp wire document = some answer.usage
  | .ended _ => True
  | .unwound => True
  | .escaped _ => False

/-! ## The documents that can be read -/

def isText (v : JsonValue) : Bool := (text? v).isSome

/-- An object; its `text` or `thinking` is a text where its type asks for one, and a call with
an object for its input has texts for its id and its name. -/
def ReadableBlock (block : JsonValue) : Prop :=
  isObj block = true ∧
    (∀ kind ∈ ["text", "thinking"], equals kind (stated "type" block) = true →
      isText (fieldOr kind (.str []) block) = true) ∧
    (equals "tool_use" (stated "type" block) = true → isObj (stated "input" block) = true →
      isText (stated "id" block) = true ∧ isText (stated "name" block) = true)

/-- The value of `content`. -/
def ReadableContent : JsonValue → Prop
  | .arr blocks => ∀ block ∈ blocks, ReadableBlock block
  | .str s => s = []
  | .obj fields => fields = []
  | _ => False

/-- An entry of `tool_calls`: where it is an object with an object for its function, the arguments
are a text or nothing, and with arguments it has texts for its id and its name. -/
def ReadableCall (call : JsonValue) : Prop :=
  let fn := fieldOr "function" (.obj []) call
  let arguments := stated "arguments" fn
  isObj call = true → isObj fn = true →
    (arguments.truthy = true → ∃ s, arguments = .str s ∧ loads interp s ≠ .error .tooDeep) ∧
      ((arguments? interp arguments).isSome = true →
        isText (stated "id" call) = true ∧ isText (stated "name" fn) = true)

/-- The value of `tool_calls`. -/
def ReadableCalls : JsonValue → Prop
  | .arr calls => ∀ call ∈ calls, ReadableCall interp call
  | .str _ => True
  | .obj _ => True
  | v => v.truthy = false

/-- The value of `choices`: nothing, or an array that begins with an object. -/
def ReadableChoices (choices : JsonValue) : Prop :=
  choices.truthy = true →
    ∃ choice rest, choices = .arr (choice :: rest) ∧ isObj choice = true ∧
      ReadableCalls interp (stated "tool_calls" (stated "message" choice))

def ReadableUsage (wire : Wire) (document : JsonValue) : Prop :=
  isObj (fieldOr "usage" (.obj []) document) = true ∧
    (statedUsage interp wire document).isSome = true

def Readable (wire : Wire) (document : JsonValue) : Prop :=
  (match wire with
    | .anthropic => ReadableContent (fieldOr "content" (.arr []) document)
    | .openai => ReadableChoices interp (fieldOr "choices" (.arr []) document)) ∧
    ReadableUsage interp wire document

def Answerable (wire : Wire) (cancelled : Bool) (body : Bytes) : Prop :=
  cancelled = true ∨
    match loads interp (decodeReplace body) with
    | .ok document => Readable interp wire document
    | .error e => e ≠ .tooDeep

end Stated

/-! ## Fields -/

section Fields

variable {key kind : String} {default v w : JsonValue}

theorem get_ok_iff : get key default v = .ok w ↔ isObj v = true ∧ fieldOr key default v = w := by
  cases v <;> simp [get, isObj]

theorem isText_iff : isText v = true ↔ ∃ s, v = .str s := by
  cases v <;> simp [isText, text?]

theorem isObj_iff : isObj v = true ↔ ∃ fields, v = .obj fields := by
  cases v <;> simp [isObj]

theorem fieldOr_of_stated (h : stated key v ≠ .null) : fieldOr key default v = stated key v := by
  cases v with
  | obj fields =>
    cases hfind : Dict.find (lit key) fields with
    | none => simp [stated, fieldOr, hfind] at h
    | some w => simp [stated, fieldOr, hfind]
  | _ => simp [stated, fieldOr] at h

theorem isObj_of_stated (h : stated key v ≠ .null) : isObj v = true := by
  cases v <;> simp_all [stated, fieldOr, isObj]

theorem stated_ne_null_of_equals (h : equals kind w = true) : w ≠ .null := by
  rintro rfl
  simp [equals] at h

end Fields

/-! ## Texts -/

theorem joinTexts_ok_iff {values : List JsonValue} :
    (∃ s, joinTexts values = .ok s) ↔ ∀ v ∈ values, isText v = true := by
  induction values with
  | nil => simp [joinTexts]
  | cons v values ih =>
    rw [List.forall_mem_cons, ← ih]
    cases v with
    | str s =>
      constructor
      · rintro ⟨t, h⟩
        obtain ⟨rest, hrest, _⟩ := bind_ok_iff.1 h
        exact ⟨rfl, rest, hrest⟩
      · rintro ⟨_, rest, hrest⟩
        exact ⟨s ++ rest, bind_ok_iff.2 ⟨rest, hrest, rfl⟩⟩
    | _ => simp [joinTexts, isText, text?]

theorem blockTexts_cons {kind : String} {block : JsonValue} (blocks : List JsonValue)
    (h : isObj block = true) :
    blockTexts kind (block :: blocks) = do
      let texts ← blockTexts kind blocks
      return (if equals kind (stated "type" block) then [fieldOr kind (.str []) block] else []) ++
        texts := by
  obtain ⟨fields, rfl⟩ := isObj_iff.1 h
  have hget : ∀ key default, get key default (.obj fields) =
      .ok (fieldOr key default (.obj fields)) := fun _ _ => rfl
  rw [blockTexts, hget, hget]
  cases hkind : equals kind (stated "type" (.obj fields)) with
  | true =>
    have hkind' : equals kind (fieldOr "type" .null (.obj fields)) = true := hkind
    simp only [bind, Except.bind, hkind', if_true, pure, Except.pure]
  | false =>
    have hkind' : equals kind (fieldOr "type" .null (.obj fields)) = false := hkind
    simp only [bind, Except.bind, hkind', Bool.false_eq_true, if_false, pure, Except.pure]

/-- The loop raises at a block that is no object, and else returns the texts of the kind. -/
theorem blockTexts_ok_iff {kind : String} {blocks texts : List JsonValue} :
    blockTexts kind blocks = .ok texts ↔ (∀ block ∈ blocks, isObj block = true) ∧
      (blocks.filter fun block => equals kind (stated "type" block)).map (fieldOr kind (.str [])) =
        texts := by
  induction blocks generalizing texts with
  | nil => simp [blockTexts]
  | cons block blocks ih =>
    rw [List.forall_mem_cons]
    cases hobj : isObj block with
    | false =>
      have hraise : blockTexts kind (block :: blocks) = .error .noAttribute := by
        cases block <;> first | rfl | cases hobj
      rw [hraise]
      simp
    | true =>
      rw [blockTexts_cons blocks hobj, bind_ok_iff, and_assoc]
      constructor
      · rintro ⟨rest, hrest, htexts⟩
        obtain ⟨hall, rfl⟩ := ih.1 hrest
        refine ⟨rfl, hall, ?_⟩
        rw [← Except.ok.inj htexts, List.filter_cons]
        split <;> rfl
      · rintro ⟨_, hall, rfl⟩
        refine ⟨_, ih.2 ⟨hall, rfl⟩, ?_⟩
        rw [List.filter_cons]
        split <;> rfl

theorem joined_iff {kind : String} {blocks : List JsonValue} :
    (∃ s, (blockTexts kind blocks >>= joinTexts) = .ok s) ↔ (∀ block ∈ blocks, isObj block = true) ∧
      ∀ block ∈ blocks, equals kind (stated "type" block) = true →
        isText (fieldOr kind (.str []) block) = true := by
  simp only [bind_ok_iff, blockTexts_ok_iff]
  constructor
  · rintro ⟨s, _, ⟨hall, rfl⟩, hjoin⟩
    refine ⟨hall, fun block hblock hkind => ?_⟩
    exact joinTexts_ok_iff.1 ⟨s, hjoin⟩ _
      (List.mem_map_of_mem (List.mem_filter.2 ⟨hblock, hkind⟩))
  · rintro ⟨hall, htexts⟩
    obtain ⟨s, hs⟩ := joinTexts_ok_iff.2 fun v hv => by
      obtain ⟨block, hblock, rfl⟩ := List.mem_map.1 hv
      exact htexts block (List.mem_filter.1 hblock).1 (List.mem_filter.1 hblock).2
    exact ⟨s, _, ⟨hall, rfl⟩, hs⟩

/-! ## Counts -/

section Counts

variable {interp : Interpreter} {key : String} {raw v : JsonValue} {n : Int}

theorem toInt_of_countIn (h : countIn interp v = some n) : v.toInt interp = .ok n := by
  cases v with
  | int m => simpa [countIn, JsonValue.toInt] using h
  | str s =>
    have htext : interp.intOfText s = some n := h
    simp [JsonValue.toInt, htext]
  | float x =>
    cases x with
    | nan neg payload => simp [countIn, PyFloat.hexval, HexFloat.toRat?] at h
    | inf neg => simp [countIn, PyFloat.hexval, HexFloat.toRat?] at h
    | finite neg expo frac =>
      cases hq : (HexFloat.finite neg expo frac).toRat? with
      | none => simp [countIn, PyFloat.hexval, hq] at h
      | some q =>
        simp only [countIn, PyFloat.hexval, hq, Option.ite_none_right_eq_some] at h
        obtain ⟨hint, hn⟩ := h
        obtain rfl : ⌊q⌋ = n := Option.some.inj hn
        have hceil : ⌈q⌉ = ⌊q⌋ := by
          rw [← hint]
          simp
        simp only [JsonValue.toInt, PyFloat.trunc, hq, hceil, ite_self]
  | _ => simp [countIn] at h

theorem countOf_of_countIn (hobj : isObj raw = true)
    (h : countIn interp (fieldOr key (.int 0) raw) = some n) : countOf interp key raw = .ok n := by
  refine bind_ok_iff.2 ⟨_, get_ok_iff.2 ⟨hobj, rfl⟩, ?_⟩
  rw [toInt_of_countIn h]
  rfl

theorem isObj_of_countOf (h : countOf interp key raw = .ok n) : isObj raw = true := by
  obtain ⟨_, hget, _⟩ := bind_ok_iff.1 h
  exact (get_ok_iff.1 hget).1

end Counts

/-! ## Calls -/

section Found

variable {read : JsonValue → Except Raised (Option ToolCall)} {spec : JsonValue → Option ToolCall}

variable {entries : List JsonValue}

theorem foundCalls_cons_ok_iff {entry : JsonValue} {calls : List ToolCall} :
    foundCalls read (entry :: entries) = .ok calls ↔
      ∃ call rest, read entry = .ok call ∧ foundCalls read entries = .ok rest ∧
        calls = call.toList ++ rest := by
  rw [foundCalls, bind_ok_iff]
  constructor
  · rintro ⟨call, hread, h⟩
    cases call with
    | none => exact ⟨none, calls, hread, h, rfl⟩
    | some call =>
      obtain ⟨rest, hrest, hcalls⟩ := bind_ok_iff.1 h
      exact ⟨some call, rest, hread, hrest, (Except.ok.inj hcalls).symm⟩
  · rintro ⟨call, rest, hread, hrest, rfl⟩
    refine ⟨call, hread, ?_⟩
    cases call with
    | none => exact hrest
    | some call => exact bind_ok_iff.2 ⟨rest, hrest, rfl⟩

/-- No well-formed entry is passed over. -/
theorem length_le_foundCalls
    (hspec : ∀ entry call, spec entry = some call → read entry = .ok (some call))
    {calls : List ToolCall} (h : foundCalls read entries = .ok calls) :
    (entries.filterMap spec).length ≤ calls.length := by
  induction entries generalizing calls with
  | nil => exact Nat.zero_le _
  | cons entry entries ih =>
    obtain ⟨call, rest, hread, hrest, rfl⟩ := foundCalls_cons_ok_iff.1 h
    have hle := ih hrest
    cases hentry : spec entry with
    | none =>
      rw [List.filterMap_cons_none hentry, List.length_append]
      exact Nat.le_add_left_of_le hle
    | some c =>
      obtain rfl : call = some c := Except.ok.inj (hread.symm.trans (hspec entry c hentry))
      rw [List.filterMap_cons_some hentry]
      exact Nat.succ_le_succ hle

/-- The calls that are found are the well-formed ones exactly when every entry is read as what it
states. -/
theorem foundCalls_eq_iff (hspec : ∀ entry call, spec entry = some call → read entry = .ok (some call)) :
    foundCalls read entries = .ok (entries.filterMap spec) ↔
      ∀ entry ∈ entries, read entry = .ok (spec entry) := by
  induction entries with
  | nil => simp [foundCalls]
  | cons entry entries ih =>
    rw [List.forall_mem_cons, ← ih, foundCalls_cons_ok_iff]
    constructor
    · rintro ⟨call, rest, hread, hrest, hcalls⟩
      cases hentry : spec entry with
      | some c =>
        obtain rfl : call = some c := Except.ok.inj (hread.symm.trans (hspec entry c hentry))
        rw [List.filterMap_cons_some hentry] at hcalls
        obtain rfl : entries.filterMap spec = rest := List.tail_eq_of_cons_eq hcalls
        exact ⟨hread, hrest⟩
      | none =>
        rw [List.filterMap_cons_none hentry] at hcalls
        cases call with
        | none => exact ⟨hread, hcalls ▸ hrest⟩
        | some c =>
          -- one call too many
          have hle := length_le_foundCalls hspec hrest
          rw [hcalls] at hle
          exact absurd hle (Nat.not_succ_le_self rest.length)
    · rintro ⟨hread, hrest⟩
      refine ⟨spec entry, _, hread, hrest, ?_⟩
      cases hentry : spec entry with
      | some c => rw [List.filterMap_cons_some hentry]; rfl
      | none => rw [List.filterMap_cons_none hentry]; rfl

end Found

section Entries

variable {interp : Interpreter}

theorem toolCall_of_texts {v w : JsonValue} {id name : PyStr} {arguments : List (PyStr × JsonValue)}
    (hid : v = .str id) (hname : w = .str name) :
    toolCall interp v w arguments = ⟨id, name, arguments⟩ := by
  rw [hid, hname]
  rfl

/-- A text under a key is read under any default. -/
theorem fieldOr_of_text {key : String} {default v : JsonValue} {s : PyStr}
    (h : stated key v = .str s) : fieldOr key default v = .str s := by
  rw [fieldOr_of_stated (h ▸ JsonValue.noConfusion), h]

variable {block call v : JsonValue}

theorem toolUse_eq_some_iff {call : ToolCall} :
    toolUse? block = some call ↔ equals "tool_use" (stated "type" block) = true ∧
      stated "id" block = .str call.id ∧ stated "name" block = .str call.name ∧
      stated "input" block = .obj call.arguments := by
  have htext : ∀ {v : JsonValue} {s : PyStr}, text? v = some s ↔ v = .str s := by
    intro v s
    cases v <;> simp [text?]
  have hfields : ∀ {v : JsonValue} {f : List (PyStr × JsonValue)}, fields? v = some f ↔ v = .obj f := by
    intro v f
    cases v <;> simp [fields?]
  rcases call with ⟨id, name, arguments⟩
  unfold toolUse?
  split
  next htype =>
    simp only [Option.bind_eq_bind, Option.bind_eq_some_iff, htext, hfields, htype, true_and]
    constructor
    · rintro ⟨id', hid, name', hname, arguments', harguments, h⟩
      obtain ⟨rfl, rfl, rfl⟩ := ToolCall.mk.inj (Option.some.inj h)
      exact ⟨hid, hname, harguments⟩
    · rintro ⟨hid, hname, harguments⟩
      exact ⟨id, hid, name, hname, arguments, harguments, rfl⟩
  next htype => simp [htype]

theorem readToolUse_none
    (h : ¬ (equals "tool_use" (stated "type" block) = true ∧ isObj (stated "input" block) = true)) :
    readToolUse interp block = .ok none := by
  unfold readToolUse
  split
  · rfl
  next hkind =>
    have htype : equals "tool_use" (stated "type" block) = true := by
      simp only [Bool.or_eq_true, Bool.not_eq_true', not_or, Bool.not_eq_false] at hkind
      exact hkind.2
    split
    next arguments hinput => exact absurd ⟨htype, isObj_iff.2 ⟨arguments, hinput⟩⟩ h
    next => rfl

theorem readToolUse_some {arguments : List (PyStr × JsonValue)}
    (htype : equals "tool_use" (stated "type" block) = true)
    (hinput : stated "input" block = .obj arguments) :
    readToolUse interp block = .ok (some (toolCall interp (fieldOr "id" (.str []) block)
      (fieldOr "name" (.str []) block) arguments)) := by
  have hobj : isObj block = true := isObj_of_stated (stated_ne_null_of_equals htype)
  have htype' : equals "tool_use" (fieldOr "type" .null block) = true := htype
  have hinput' : fieldOr "input" .null block = .obj arguments := hinput
  simp [readToolUse, hobj, htype', hinput']

theorem readToolUse_of_toolUse {call : ToolCall} (h : toolUse? block = some call) :
    readToolUse interp block = .ok (some call) := by
  obtain ⟨htype, hid, hname, hinput⟩ := toolUse_eq_some_iff.1 h
  rw [readToolUse_some htype hinput,
    toolCall_of_texts (fieldOr_of_text hid) (fieldOr_of_text hname)]

/-- A block is read as what it states, unless it is a call without the texts it needs. -/
theorem readToolUse_eq_iff :
    readToolUse interp block = .ok (toolUse? block) ↔
      (equals "tool_use" (stated "type" block) = true → isObj (stated "input" block) = true →
        isText (stated "id" block) = true ∧ isText (stated "name" block) = true) := by
  constructor
  · intro h htype hinput
    obtain ⟨arguments, hinput⟩ := isObj_iff.1 hinput
    rw [readToolUse_some htype hinput] at h
    obtain ⟨_, hid, hname, _⟩ := toolUse_eq_some_iff.1 (Except.ok.inj h).symm
    exact ⟨isText_iff.2 ⟨_, hid⟩, isText_iff.2 ⟨_, hname⟩⟩
  · intro h
    by_cases hcall : equals "tool_use" (stated "type" block) = true ∧
        isObj (stated "input" block) = true
    · obtain ⟨arguments, hinput⟩ := isObj_iff.1 hcall.2
      obtain ⟨hid, hname⟩ := h hcall.1 hcall.2
      obtain ⟨id, hid⟩ := isText_iff.1 hid
      obtain ⟨name, hname⟩ := isText_iff.1 hname
      have hstated : toolUse? block = some ⟨id, name, arguments⟩ :=
        toolUse_eq_some_iff.2 ⟨hcall.1, hid, hname, hinput⟩
      rw [hstated]
      exact readToolUse_of_toolUse hstated
    · rw [readToolUse_none hcall]
      cases hstated : toolUse? block with
      | none => rfl
      | some call =>
        obtain ⟨htype, _, _, hinput⟩ := toolUse_eq_some_iff.1 hstated
        exact absurd ⟨htype, isObj_iff.2 ⟨_, hinput⟩⟩ hcall

theorem isObj_of_text {key : String} {s : PyStr} (h : stated key v = .str s) :
    isObj v = true := by
  have hne : stated key v ≠ .null := by
    rw [h]
    exact JsonValue.noConfusion
  exact isObj_of_stated hne

/-! ### Functions -/

/-- An object that is missing holds as little as an empty one. -/
theorem fieldOr_stated (key inner : String) (default v : JsonValue) :
    fieldOr key default (stated inner v) = fieldOr key default (fieldOr inner (.obj []) v) := by
  cases v with
  | obj fields =>
    cases hfind : Dict.find (lit inner) fields with
    | none => simp [stated, fieldOr, hfind, Dict.find]
    | some w => simp [stated, fieldOr, hfind]
  | _ => rfl

theorem stated_stated (key inner : String) (v : JsonValue) :
    stated key (stated inner v) = stated key (fieldOr inner (.obj []) v) :=
  fieldOr_stated key inner .null v

theorem functionCall_eq_some_iff {c : ToolCall} :
    functionCall? interp call = some c ↔ stated "id" call = .str c.id ∧
      stated "name" (fieldOr "function" (.obj []) call) = .str c.name ∧
      arguments? interp (stated "arguments" (fieldOr "function" (.obj []) call)) =
        some c.arguments := by
  have htext : ∀ {v : JsonValue} {s : PyStr}, text? v = some s ↔ v = .str s := by
    intro v s
    cases v <;> simp [text?]
  rcases c with ⟨id, name, arguments⟩
  simp only [functionCall?, stated_stated, Option.bind_eq_bind, Option.bind_eq_some_iff, htext]
  constructor
  · rintro ⟨id', hid, name', hname, arguments', harguments, h⟩
    obtain ⟨rfl, rfl, rfl⟩ := ToolCall.mk.inj (Option.some.inj h)
    exact ⟨hid, hname, harguments⟩
  · rintro ⟨hid, hname, harguments⟩
    exact ⟨id, hid, name, hname, arguments, harguments, rfl⟩

theorem loads_empty (interp : Interpreter) : loads interp (lit "{}") = .ok (.obj []) := by
  have hdepth : ¬ interp.depth ≤ 0 := Nat.not_le.2 (Nat.lt_of_lt_of_le Nat.zero_lt_two interp.roomy)
  have hopen : Machine.step interp ⟨[], .value⟩ openObj = .ok ⟨[.obj [] []], .firstKey⟩ := by
    change (if interp.depth ≤ 0 then _ else _) = _
    rw [if_neg hdepth]
  have hclose : Machine.step interp ⟨[.obj [] []], .firstKey⟩ closeObj = .ok ⟨[], .after (.obj [])⟩ :=
    rfl
  have htext : lit "{}" = [openObj, closeObj] := rfl
  simp only [loads, Machine.run, htext, List.foldlM_cons, List.foldlM_nil, bind, Except.bind, hopen,
    hclose, pure, Except.pure]
  rfl

/-- Arguments that are a text, or nothing, are decoded or dropped. -/
theorem decodeArguments_ok_iff :
    (∃ decoded, decodeArguments interp v = .ok decoded) ↔
      (v.truthy = true → ∃ s, v = .str s ∧ loads interp s ≠ .error .tooDeep) := by
  unfold decodeArguments
  cases htruthy : v.truthy with
  | false => simp [loads_empty]
  | true =>
    simp only [if_true, forall_const]
    cases v with
    | str s =>
      cases hloads : loads interp s with
      | ok w => simp [hloads]
      | error e => cases e <;> simp [hloads]
    | _ => simp

theorem arguments_of_decoded {decoded : Option JsonValue}
    (h : decodeArguments interp v = .ok decoded) : arguments? interp v = decoded.bind fields? := by
  unfold decodeArguments at h
  unfold arguments?
  cases htruthy : v.truthy with
  | false =>
    simp only [htruthy, Bool.false_eq_true, if_false, loads_empty] at h
    rw [← Except.ok.inj h]
    rfl
  | true =>
    simp only [htruthy, if_true] at h
    cases v with
    | str s =>
      cases hloads : loads interp s with
      | ok w =>
        simp only [hloads] at h
        rw [← Except.ok.inj h]
        simp [text?, hloads]
      | error e =>
        cases e with
        | tooDeep => simp [hloads] at h
        | _ =>
          simp only [hloads] at h
          rw [← Except.ok.inj h]
          simp [text?, hloads]
    | _ => simp at h

/-- An entry that is no object, or whose function is none, is passed over. -/
theorem readFunctionCall_none
    (h : ¬ (isObj call = true ∧ isObj (fieldOr "function" (.obj []) call) = true)) :
    readFunctionCall interp call = .ok none := by
  have hskip : (!isObj call || !isObj (fieldOr "function" (.obj []) call)) = true := by
    rw [not_and_or, Bool.not_eq_true, Bool.not_eq_true] at h
    simpa using h
  simp only [readFunctionCall, hskip, if_true]

theorem readFunctionCall_some (hobj : isObj call = true)
    (hfn : isObj (fieldOr "function" (.obj []) call) = true) :
    readFunctionCall interp call = do
      let decoded ← decodeArguments interp
        (stated "arguments" (fieldOr "function" (.obj []) call))
      return (decoded.bind fields?).map (toolCall interp (fieldOr "id" (.str []) call)
        (fieldOr "name" (.str []) (fieldOr "function" (.obj []) call))) := by
  have hskip : (!isObj call || !isObj (fieldOr "function" (.obj []) call)) = false := by
    simp [hobj, hfn]
  simp only [readFunctionCall, hskip, Bool.false_eq_true, if_false, stated]
  refine bind_congr fun decoded => ?_
  cases decoded with
  | none => rfl
  | some v => cases v <;> rfl

theorem isObj_of_functionCall {c : ToolCall} (h : functionCall? interp call = some c) :
    isObj call = true ∧ isObj (fieldOr "function" (.obj []) call) = true := by
  obtain ⟨hid, hname, _⟩ := functionCall_eq_some_iff.1 h
  exact ⟨isObj_of_text hid, isObj_of_text hname⟩

/-- An entry is read as what it states, unless its arguments raise or it is a call without the texts
it needs. -/
theorem readFunctionCall_eq_iff :
    readFunctionCall interp call = .ok (functionCall? interp call) ↔ ReadableCall interp call := by
  by_cases hobj : isObj call = true ∧ isObj (fieldOr "function" (.obj []) call) = true
  · rw [readFunctionCall_some hobj.1 hobj.2, bind_ok_iff]
    simp only [ReadableCall, hobj.1, hobj.2, forall_const, ← decodeArguments_ok_iff]
    constructor
    · rintro ⟨decoded, hdecoded, hread⟩
      refine ⟨⟨decoded, hdecoded⟩, fun harguments => ?_⟩
      rw [arguments_of_decoded hdecoded] at harguments
      obtain ⟨arguments, harguments⟩ := Option.isSome_iff_exists.1 harguments
      have hread' := Except.ok.inj hread
      rw [harguments] at hread'
      obtain ⟨hid, hname, _⟩ := functionCall_eq_some_iff.1 hread'.symm
      exact ⟨isText_iff.2 ⟨_, hid⟩, isText_iff.2 ⟨_, hname⟩⟩
    · rintro ⟨⟨decoded, hdecoded⟩, hnamed⟩
      refine ⟨decoded, hdecoded, congrArg Except.ok ?_⟩
      have hstated := arguments_of_decoded hdecoded
      cases harguments : decoded.bind fields? with
      | none =>
        rw [harguments] at hstated
        cases hcall : functionCall? interp call with
        | none => rfl
        | some c =>
          have hsome := (functionCall_eq_some_iff.1 hcall).2.2
          rw [hstated] at hsome
          cases hsome
      | some arguments =>
        rw [harguments] at hstated
        obtain ⟨hid, hname⟩ := hnamed (hstated ▸ rfl)
        obtain ⟨id, hid⟩ := isText_iff.1 hid
        obtain ⟨name, hname⟩ := isText_iff.1 hname
        have hcall : functionCall? interp call = some ⟨id, name, arguments⟩ :=
          functionCall_eq_some_iff.2 ⟨hid, hname, hstated⟩
        rw [hcall]
        exact congrArg some (toolCall_of_texts (fieldOr_of_text hid) (fieldOr_of_text hname))
  · rw [readFunctionCall_none hobj]
    refine iff_of_true (congrArg Except.ok ?_) fun h h' => absurd ⟨h, h'⟩ hobj
    cases hcall : functionCall? interp call with
    | none => rfl
    | some c => exact absurd (isObj_of_functionCall hcall) hobj

theorem readFunctionCall_of_functionCall {c : ToolCall} (h : functionCall? interp call = some c) :
    readFunctionCall interp call = .ok (some c) := by
  obtain ⟨hid, hname, harguments⟩ := functionCall_eq_some_iff.1 h
  have hreadable : ReadableCall interp call := by
    refine fun _ _ => ⟨fun htruthy => ?_, fun _ => ⟨isText_iff.2 ⟨_, hid⟩, isText_iff.2 ⟨_, hname⟩⟩⟩
    simp only [arguments?, htruthy, if_true, Option.bind_eq_bind, Option.bind_eq_some_iff] at harguments
    obtain ⟨s, hs, harguments⟩ := harguments
    obtain ⟨s', hs'⟩ := isText_iff.1 (Option.isSome_iff_exists.2 ⟨s, hs⟩)
    rw [hs'] at hs
    obtain rfl : s' = s := Option.some.inj hs
    refine ⟨s', hs', fun hdeep => ?_⟩
    rw [hdeep] at harguments
    cases harguments
  rw [readFunctionCall_eq_iff.2 hreadable, h]

end Entries

/-! ## Documents -/

section Documents

variable {interp : Interpreter} {document : JsonValue} {usage : Usage}

theorem usage_iff (interp : Interpreter) (document : JsonValue) (usage : Usage) (wire : Wire)
    (keys : String × String) (hstated : statedUsage interp wire document = do
      let input ← countIn interp (fieldOr keys.1 (.int 0) (stated "usage" document))
      let output ← countIn interp (fieldOr keys.2 (.int 0) (stated "usage" document))
      return ⟨input, output⟩) :
    (countOf interp keys.1 (fieldOr "usage" (.obj []) document) = .ok usage.inputTokens ∧
        countOf interp keys.2 (fieldOr "usage" (.obj []) document) = .ok usage.outputTokens ∧
        statedUsage interp wire document = some usage) ↔
      isObj (fieldOr "usage" (.obj []) document) = true ∧
        statedUsage interp wire document = some usage := by
  constructor
  · rintro ⟨hinput, _, husage⟩
    exact ⟨isObj_of_countOf hinput, husage⟩
  · rintro ⟨hobj, husage⟩
    refine ⟨?_, ?_, husage⟩ <;>
      simp only [hstated, fieldOr_stated, Option.bind_eq_bind, Option.bind_eq_some_iff] at husage <;>
      obtain ⟨input, hinput, output, houtput, h⟩ := husage <;>
      cases h
    · exact countOf_of_countIn hobj hinput
    · exact countOf_of_countIn hobj houtput

theorem readableContent_iff {content : JsonValue} :
    ReadableContent content ↔
      ∃ blocks, iterate content = .ok blocks ∧ ∀ block ∈ blocks, ReadableBlock block := by
  cases content with
  | arr items => simp [ReadableContent, iterate]
  | str s =>
    cases s with
    | nil => simp [ReadableContent, iterate]
    | cons c s => simp [ReadableContent, iterate, ReadableBlock, isObj]
  | obj fields =>
    cases fields with
    | nil => simp [ReadableContent, iterate]
    | cons field fields => simp [ReadableContent, iterate, ReadableBlock, isObj]
  | _ => simp [ReadableContent, iterate]

theorem listed_of_iterate {key : String} {blocks : List JsonValue}
    (h : iterate (fieldOr key (.arr []) document) = .ok blocks)
    (hobj : ∀ block ∈ blocks, isObj block = true) : listed (stated key document) = blocks := by
  cases document with
  | obj fields =>
    cases hfind : Dict.find (lit key) fields with
    | none => simpa [stated, fieldOr, hfind, iterate, listed] using h
    | some v =>
      simp only [stated, fieldOr, hfind, Option.getD_some] at h ⊢
      cases v with
      | arr items => exact Except.ok.inj h
      | str s =>
        cases s with
        | nil => exact Except.ok.inj h
        | cons c s =>
          cases h
          exact absurd (hobj (.str [c]) (by simp)) (by simp [isObj])
      | obj fields =>
        cases fields with
        | nil => exact Except.ok.inj h
        | cons field fields =>
          cases h
          exact absurd (hobj (.str field.1) (by simp)) (by simp [isObj])
      | _ => simp [iterate] at h
  | _ => simpa [stated, fieldOr, iterate, listed] using h

/-! ### The Anthropic wire -/

theorem textAndUsage_anthropic_iff :
    (∃ text reasoning, textAndUsage interp .anthropic document = .ok (text, reasoning, usage)) ↔
      ∃ blocks, iterate (fieldOr "content" (.arr []) document) = .ok blocks ∧
        (∃ text, (blockTexts "text" blocks >>= joinTexts) = .ok text) ∧
        (∃ thinking, (blockTexts "thinking" blocks >>= joinTexts) = .ok thinking) ∧
        countOf interp "input_tokens" (fieldOr "usage" (.obj []) document) =
          .ok usage.inputTokens ∧
        countOf interp "output_tokens" (fieldOr "usage" (.obj []) document) =
          .ok usage.outputTokens := by
  simp only [textAndUsage, bind_ok_iff]
  constructor
  · rintro ⟨text, reasoning, blocks, hblocks, texts, htexts, text', htext, thinkings, hthinkings,
      thinking, hthinking, input, hinput, output, houtput, h⟩
    obtain ⟨rfl, rfl, rfl⟩ : text' = text ∧ thinking = reasoning ∧
      (⟨input, output⟩ : Usage) = usage := by
      simpa using Except.ok.inj h
    exact ⟨blocks, hblocks, ⟨_, texts, htexts, htext⟩, ⟨_, thinkings, hthinkings, hthinking⟩, hinput,
      houtput⟩
  · rintro ⟨blocks, hblocks, ⟨text, texts, htexts, htext⟩, ⟨thinking, thinkings, hthinkings, hthinking⟩,
      hinput, houtput⟩
    exact ⟨text, thinking, blocks, hblocks, texts, htexts, text, htext, thinkings, hthinkings, thinking,
      hthinking, _, hinput, _, houtput, rfl⟩

theorem toolCalls_anthropic_iff {blocks : List JsonValue}
    (hblocks : iterate (fieldOr "content" (.arr []) document) = .ok blocks)
    (hobj : ∀ block ∈ blocks, isObj block = true) :
    toolCalls interp .anthropic document = .ok (wellFormedCalls interp .anthropic document) ↔
      ∀ block ∈ blocks, readToolUse interp block = .ok (toolUse? block) := by
  have hfound : toolCalls interp .anthropic document = foundCalls (readToolUse interp) blocks := by
    cases hdocument : isObj document with
    | true => simp [toolCalls, hdocument, hblocks, bind, Except.bind]
    | false =>
      have hnil : blocks = [] := by
        cases document with
        | obj fields => cases hdocument
        | _ => exact (Except.ok.inj hblocks).symm
      simp [toolCalls, hdocument, hnil, foundCalls]
  rw [hfound, wellFormedCalls, listed_of_iterate hblocks hobj]
  exact foundCalls_eq_iff fun block call => readToolUse_of_toolUse

theorem stopReason_anthropic (calls : List ToolCall) :
    ∃ stop, stopReason interp .anthropic document calls = .ok stop := by
  cases hdocument : isObj document with
  | false => exact ⟨[], by simp [stopReason, hdocument, pure, Except.pure]⟩
  | true => simp [stopReason, hdocument, pure, Except.pure, bind, Except.bind]

theorem anthropic_iff :
    (∃ usage text reasoning stop,
      textAndUsage interp .anthropic document = .ok (text, reasoning, usage) ∧
        statedUsage interp .anthropic document = some usage ∧
        toolCalls interp .anthropic document = .ok (wellFormedCalls interp .anthropic document) ∧
        stopReason interp .anthropic document (wellFormedCalls interp .anthropic document) =
          .ok stop) ↔
      Readable interp .anthropic document := by
  have husage := fun usage =>
    usage_iff interp document usage .anthropic ("input_tokens", "output_tokens") rfl
  constructor
  · rintro ⟨usage, text, reasoning, stop, htexts, hstated, hcalls, _⟩
    obtain ⟨blocks, hblocks, htext, hthinking, hinput, houtput⟩ :=
      textAndUsage_anthropic_iff.1 ⟨text, reasoning, htexts⟩
    obtain ⟨hobj, htext⟩ := joined_iff.1 htext
    have hthinking := (joined_iff.1 hthinking).2
    have hread := (toolCalls_anthropic_iff hblocks hobj).1 hcalls
    refine ⟨readableContent_iff.2 ⟨blocks, hblocks, fun block hblock => ⟨hobj block hblock, ?_,
      readToolUse_eq_iff.1 (hread block hblock)⟩⟩,
      ((husage usage).1 ⟨hinput, houtput, hstated⟩).1, Option.isSome_iff_exists.2 ⟨usage, hstated⟩⟩
    intro kind hkind
    rcases List.mem_cons.1 hkind with rfl | hkind
    · exact htext block hblock
    · obtain rfl := List.mem_singleton.1 hkind
      exact hthinking block hblock
  · rintro ⟨hcontent, hraw, hsome⟩
    obtain ⟨blocks, hblocks, hreadable⟩ := readableContent_iff.1 hcontent
    obtain ⟨usage, hstated⟩ := Option.isSome_iff_exists.1 hsome
    obtain ⟨hinput, houtput, _⟩ := (husage usage).2 ⟨hraw, hstated⟩
    have hobj : ∀ block ∈ blocks, isObj block = true := fun block hblock => (hreadable block hblock).1
    have htexts : ∀ kind ∈ ["text", "thinking"],
        ∃ s, (blockTexts kind blocks >>= joinTexts) = .ok s := fun kind hkind =>
      joined_iff.2 ⟨hobj, fun block hblock => (hreadable block hblock).2.1 kind hkind⟩
    obtain ⟨text, reasoning, hread⟩ := textAndUsage_anthropic_iff.2 ⟨blocks, hblocks,
      htexts "text" (by simp), htexts "thinking" (by simp), hinput, houtput⟩
    have hcalls : toolCalls interp .anthropic document = .ok _ :=
      (toolCalls_anthropic_iff hblocks hobj).2 fun block hblock =>
        readToolUse_eq_iff.2 (hreadable block hblock).2.2
    obtain ⟨stop, hstop⟩ : ∃ stop, stopReason interp .anthropic document
        (wellFormedCalls interp .anthropic document) = .ok stop := stopReason_anthropic _
    exact ⟨usage, text, reasoning, stop, hread, hstated, hcalls, hstop⟩

/-! ### The OpenAI wire -/

theorem itemZero_obj_iff {choices : JsonValue} :
    (∃ choice, itemZero choices = .ok choice ∧ isObj choice = true) ↔
      ∃ choice rest, choices = .arr (choice :: rest) ∧ isObj choice = true := by
  cases choices with
  | arr items => cases items <;> simp [itemZero]
  | str s => cases s <;> simp [itemZero, isObj]
  | _ => simp [itemZero]

theorem textAndUsage_openai_iff :
    (∃ text reasoning, textAndUsage interp .openai document = .ok (text, reasoning, usage)) ↔
      ((fieldOr "choices" (.arr []) document).truthy = true →
        ∃ choice rest, fieldOr "choices" (.arr []) document = .arr (choice :: rest) ∧
          isObj choice = true) ∧
        countOf interp "prompt_tokens" (fieldOr "usage" (.obj []) document) =
          .ok usage.inputTokens ∧
        countOf interp "completion_tokens" (fieldOr "usage" (.obj []) document) =
          .ok usage.outputTokens := by
  rw [← itemZero_obj_iff]
  cases htruthy : (fieldOr "choices" (.arr []) document).truthy with
  | false =>
    simp only [textAndUsage, htruthy, Bool.false_eq_true, if_false, bind_ok_iff, false_implies,
      true_and]
    constructor
    · rintro ⟨_, _, _, _, input, hinput, output, houtput, h⟩
      obtain ⟨_, _, rfl⟩ := Prod.mk.injEq .. ▸ Except.ok.inj h
      exact ⟨hinput, houtput⟩
    · rintro ⟨hinput, houtput⟩
      exact ⟨_, _, _, rfl, _, hinput, _, houtput, rfl⟩
  | true =>
    simp only [textAndUsage, htruthy, if_true, bind_ok_iff, forall_const, get_ok_iff]
    constructor
    · rintro ⟨_, _, choice, hchoice, message, ⟨hobj, _⟩, _, _, input, hinput, output, houtput, h⟩
      obtain ⟨_, _, rfl⟩ := Prod.mk.injEq .. ▸ Except.ok.inj h
      exact ⟨⟨choice, hchoice, hobj⟩, hinput, houtput⟩
    · rintro ⟨⟨choice, hchoice, hobj⟩, hinput, houtput⟩
      exact ⟨_, _, choice, hchoice, _, ⟨hobj, rfl⟩, _, rfl, _, hinput, _, houtput, rfl⟩

theorem foundCalls_of_none {read : JsonValue → Except Raised (Option ToolCall)}
    {entries : List JsonValue} (h : ∀ entry ∈ entries, read entry = .ok none) :
    foundCalls read entries = .ok [] := by
  induction entries with
  | nil => rfl
  | cons entry entries ih =>
    obtain ⟨hentry, hentries⟩ := List.forall_mem_cons.1 h
    exact foundCalls_cons_ok_iff.2 ⟨none, [], hentry, ih hentries, rfl⟩

/-- The loop over the value of `tool_calls`. -/
theorem calls_iff (v : JsonValue) :
    (iterate (if v.truthy then v else .arr []) >>= foundCalls (readFunctionCall interp)) =
        .ok ((listed v).filterMap (functionCall? interp)) ↔
      ReadableCalls interp v := by
  have hskip : ∀ entry : JsonValue, isObj entry = false → readFunctionCall interp entry = .ok none :=
    fun entry hentry => readFunctionCall_none fun h => by simp [hentry] at h
  cases v with
  | arr calls =>
    have hcalls : (if (JsonValue.arr calls).truthy then JsonValue.arr calls else .arr []) =
        .arr calls := by
      cases calls <;> rfl
    rw [hcalls]
    change foundCalls _ calls = _ ↔ _
    simp only [listed, ReadableCalls, foundCalls_eq_iff fun _ _ => readFunctionCall_of_functionCall,
      readFunctionCall_eq_iff]
  | str s =>
    cases s with
    | nil => exact iff_of_true rfl trivial
    | cons c s =>
      refine iff_of_true (foundCalls_of_none fun entry hentry => hskip entry ?_) trivial
      obtain ⟨d, _, rfl⟩ := List.mem_map.1 hentry
      rfl
  | obj fields =>
    cases fields with
    | nil => exact iff_of_true rfl trivial
    | cons field fields =>
      refine iff_of_true (foundCalls_of_none fun entry hentry => hskip entry ?_) trivial
      obtain ⟨field', _, rfl⟩ := List.mem_map.1 hentry
      rfl
  | null => exact iff_of_true rfl rfl
  | _ =>
    simp only [ReadableCalls]
    split
    next h => simp [iterate, h, bind, Except.bind]
    next h =>
      refine iff_of_true rfl ?_
      simpa using h

/-- Choices that are falsy hold no message, and no array of choices is listed under them. -/
theorem listed_of_falsy {v : JsonValue} (h : v.truthy = false) : listed v = [] := by
  cases v with
  | arr items =>
    cases items with
    | nil => rfl
    | cons item items => simp [JsonValue.truthy] at h
  | _ => rfl

theorem isObj_of_truthy {key : String} (h : (fieldOr key (.arr []) document).truthy = true) :
    isObj document = true := by
  cases document with
  | obj fields => rfl
  | _ => cases h

theorem stated_choices :
    listed (stated "choices" document) = listed (fieldOr "choices" (.arr []) document) := by
  cases document with
  | obj fields =>
    cases hfind : Dict.find (lit "choices") fields with
    | none => simp [stated, fieldOr, hfind, listed]
    | some v => simp [stated, fieldOr, hfind]
  | _ => rfl

theorem toolCalls_openai_falsy (h : (fieldOr "choices" (.arr []) document).truthy = false) :
    toolCalls interp .openai document = .ok [] ∧ wellFormedCalls interp .openai document = [] := by
  constructor
  · cases hdocument : isObj document with
    | false => simp [toolCalls, hdocument]
    | true => simp [toolCalls, hdocument, h, pure, Except.pure]
  · have hmessage : firstMessage document = .null := by
      rw [firstMessage, stated_choices, listed_of_falsy h]
    rw [wellFormedCalls, hmessage]
    rfl

theorem toolCalls_openai_iff {choice : JsonValue} {rest : List JsonValue}
    (hchoices : fieldOr "choices" (.arr []) document = .arr (choice :: rest))
    (hchoice : isObj choice = true) :
    toolCalls interp .openai document = .ok (wellFormedCalls interp .openai document) ↔
      ReadableCalls interp (stated "tool_calls" (stated "message" choice)) := by
  have htruthy : (fieldOr "choices" (.arr []) document).truthy = true := by
    rw [hchoices]
    rfl
  have hmessage : firstMessage document = stated "message" choice := by
    rw [firstMessage, stated_choices, hchoices]
    rfl
  rw [← calls_iff, wellFormedCalls, hmessage, stated_stated]
  have hcalls : toolCalls interp .openai document =
      if isObj (fieldOr "message" (.obj []) choice) = true then
        iterate (if (stated "tool_calls" (fieldOr "message" (.obj []) choice)).truthy then
            stated "tool_calls" (fieldOr "message" (.obj []) choice) else .arr []) >>=
          foundCalls (readFunctionCall interp)
      else .ok [] := by
    have hdocument : isObj document = true := isObj_of_truthy htruthy
    cases hobj : isObj (fieldOr "message" (.obj []) choice) <;>
      simp [toolCalls, hdocument, hchoices, itemZero, hchoice, hobj, stated, JsonValue.truthy, pure,
        Except.pure, bind, Except.bind]
  rw [hcalls]
  split
  next => rfl
  next hobj =>
    have hnull : stated "tool_calls" (fieldOr "message" (.obj []) choice) = .null := by
      by_contra hne
      exact hobj (isObj_of_stated hne)
    rw [hnull]
    exact Iff.rfl

theorem stopReason_openai (calls : List ToolCall)
    (h : (fieldOr "choices" (.arr []) document).truthy = true →
      ∃ choice, itemZero (fieldOr "choices" (.arr []) document) = .ok choice ∧
        isObj choice = true) :
    ∃ stop, stopReason interp .openai document calls = .ok stop := by
  cases hdocument : isObj document with
  | false => exact ⟨[], by simp [stopReason, hdocument, pure, Except.pure]⟩
  | true =>
    cases htruthy : (fieldOr "choices" (.arr []) document).truthy with
    | false => simp [stopReason, hdocument, htruthy, pure, Except.pure, bind, Except.bind]
    | true =>
      obtain ⟨choice, hchoice, hobj⟩ := h htruthy
      have hget : get "finish_reason" .null choice = .ok (fieldOr "finish_reason" .null choice) :=
        get_ok_iff.2 ⟨hobj, rfl⟩
      simp [stopReason, hdocument, htruthy, hchoice, hget, pure, Except.pure, bind, Except.bind]

theorem openai_iff :
    (∃ usage text reasoning stop,
      textAndUsage interp .openai document = .ok (text, reasoning, usage) ∧
        statedUsage interp .openai document = some usage ∧
        toolCalls interp .openai document = .ok (wellFormedCalls interp .openai document) ∧
        stopReason interp .openai document (wellFormedCalls interp .openai document) = .ok stop) ↔
      Readable interp .openai document := by
  have husage := fun usage =>
    usage_iff interp document usage .openai ("prompt_tokens", "completion_tokens") rfl
  constructor
  · rintro ⟨usage, text, reasoning, stop, htexts, hstated, hcalls, _⟩
    obtain ⟨hchoices, hinput, houtput⟩ := textAndUsage_openai_iff.1 ⟨text, reasoning, htexts⟩
    refine ⟨fun htruthy => ?_, ((husage usage).1 ⟨hinput, houtput, hstated⟩).1,
      Option.isSome_iff_exists.2 ⟨usage, hstated⟩⟩
    obtain ⟨choice, rest, hlist, hobj⟩ := hchoices htruthy
    exact ⟨choice, rest, hlist, hobj, (toolCalls_openai_iff hlist hobj).1 hcalls⟩
  · rintro ⟨hchoices, hraw, hsome⟩
    obtain ⟨usage, hstated⟩ := Option.isSome_iff_exists.1 hsome
    obtain ⟨hinput, houtput, _⟩ := (husage usage).2 ⟨hraw, hstated⟩
    obtain ⟨text, reasoning, hread⟩ := textAndUsage_openai_iff.2 ⟨fun htruthy =>
      let ⟨choice, rest, hlist, hobj, _⟩ := hchoices htruthy
      ⟨choice, rest, hlist, hobj⟩, hinput, houtput⟩
    have hcalls : toolCalls interp .openai document =
        .ok (wellFormedCalls interp .openai document) := by
      cases htruthy : (fieldOr "choices" (.arr []) document).truthy with
      | false =>
        obtain ⟨hnone, hwell⟩ : toolCalls interp .openai document = .ok [] ∧
            wellFormedCalls interp .openai document = [] := toolCalls_openai_falsy htruthy
        rw [hnone, hwell]
      | true =>
        obtain ⟨choice, rest, hlist, hobj, hreadable⟩ := hchoices htruthy
        exact (toolCalls_openai_iff hlist hobj).2 hreadable
    obtain ⟨stop, hstop⟩ : ∃ stop, stopReason interp .openai document
        (wellFormedCalls interp .openai document) = .ok stop := by
      refine stopReason_openai _ fun htruthy => ?_
      obtain ⟨choice, rest, hlist, hobj, _⟩ := hchoices htruthy
      exact itemZero_obj_iff.2 ⟨choice, rest, hlist, hobj⟩
    exact ⟨usage, text, reasoning, stop, hread, hstated, hcalls, hstop⟩

/-- A document is answered with what it states exactly when it can be read. -/
theorem completionOf_iff (provider : Provider) (model : PyStr) :
    (∃ answer, completionOf interp provider model document = .ok answer ∧
        answer.toolCalls = wellFormedCalls interp provider.wire document ∧
        statedUsage interp provider.wire document = some answer.usage) ↔
      Readable interp provider.wire document := by
  have hwires : ∀ wire, (∃ usage text reasoning stop,
      textAndUsage interp wire document = .ok (text, reasoning, usage) ∧
        statedUsage interp wire document = some usage ∧
        toolCalls interp wire document = .ok (wellFormedCalls interp wire document) ∧
        stopReason interp wire document (wellFormedCalls interp wire document) = .ok stop) ↔
      Readable interp wire document := by
    intro wire
    cases wire with
    | anthropic => exact anthropic_iff
    | openai => exact openai_iff
  rw [← hwires]
  constructor
  · rintro ⟨answer, hanswer, hcalls, husage⟩
    obtain ⟨⟨text, reasoning, usage⟩, htexts, hanswer⟩ := bind_ok_iff.1 hanswer
    obtain ⟨calls, hfound, hanswer⟩ := bind_ok_iff.1 hanswer
    obtain ⟨stop, hstop, hanswer⟩ := bind_ok_iff.1 hanswer
    cases hanswer
    obtain rfl : calls = _ := hcalls
    exact ⟨usage, text, reasoning, stop, htexts, husage, hfound, hstop⟩
  · rintro ⟨usage, text, reasoning, stop, htexts, husage, hfound, hstop⟩
    exact ⟨_, bind_ok_iff.2 ⟨_, htexts, bind_ok_iff.2 ⟨_, hfound, bind_ok_iff.2 ⟨_, hstop, rfl⟩⟩⟩, rfl,
      husage⟩

end Documents

/-! ## The call -/

/-- A call of `complete` ends lawfully exactly when it is cancelled, its body is no JSON, or its
document can be read on the wire. -/
theorem answered_iff (interp : Interpreter) (provider : Provider) (model : PyStr) (cancelled : Bool)
    (body : Bytes) :
    Lawful interp provider.wire body
        (afterCall (complete interp provider model cancelled body)) ↔
      Answerable interp provider.wire cancelled body := by
  cases cancelled with
  | true => exact iff_of_true trivial (.inl rfl)
  | false =>
    cases hloads : loads interp (decodeReplace body) with
    | error e =>
      cases e <;> simp [complete, hloads, afterCall, Lawful, Answerable]
    | ok document =>
      have hwhole : Answerable interp provider.wire false body ↔
          Readable interp provider.wire document := by
        simp [Answerable, hloads]
      rw [hwhole, ← completionOf_iff provider model]
      cases hcompletion : completionOf interp provider model document with
      | error e => simp [complete, hloads, hcompletion, Except.mapError, afterCall, Lawful]
      | ok answer => simp [complete, hloads, hcompletion, Except.mapError, afterCall, Lawful]

def nullContent : Bytes := utf8 (lit "\x7b\"content\": null\x7d")

def claude : Provider := ⟨lit "anthropic", lit "Anthropic", .anthropic⟩

def AfterCall.escapes : AfterCall → Bool
  | .escaped _ => true
  | _ => false

theorem not_lawful_of_escapes {interp : Interpreter} {wire : Wire} {body : Bytes} {after : AfterCall}
    (h : after.escapes = true) : ¬ Lawful interp wire body after := by
  cases after with
  | escaped e => exact id
  | _ => cases h

theorem null_content_escapes :
    ¬ Lawful bareInterpreter claude.wire nullContent
      (afterCall (complete bareInterpreter claude (lit "m") false nullContent)) := by
  have hescapes : (afterCall
      (complete bareInterpreter claude (lit "m") false nullContent)).escapes = true := by
    decide +kernel
  exact not_lawful_of_escapes hescapes

end Client
end Tempest
