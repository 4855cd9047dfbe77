import Tempest.Api.Unzip
import Tempest.Process.Fallible
import Tempest.Python.Convert

/-!
# Upload — the bytes of an uploaded bundle (`ingest.py`, `parse_bundle_zip`)

The archive is extracted into a temporary directory (`Unzip`), the version of its manifest is looked
at, and `read_bundle` converts what the files hold.  `parse_bundle_zip` turns four kinds of exception
into its 400 answer; `upload_answered_iff` says for which uploads that is all there is to raise.
-/

namespace Tempest
namespace Upload

open Python Unzip

/-! ## Records, as the reader builds them -/

structure DivergenceRecord where
  divergenceClass : DivergenceClass
  severity : Severity
  detail : PyStr
  argsLiteral : PyStr
  kwargsLiteral : PyStr
  minimizedArgs : JsonValue
  minimizedKwargs : JsonValue
  shrinkPath : List JsonValue
  baseSummary : PyStr
  headSummary : PyStr
  reproFilename : JsonValue
  aiNarrative : JsonValue

structure TargetRecord where
  filePath : PyStr
  module : PyStr
  qualname : PyStr
  lang : Lang
  classification : TargetClassification
  verdict : Verdict
  reasonCode : Option ReasonCode
  reasonDetail : JsonValue
  inputsRun : Int
  equivalentInputs : Int
  unprovableInputs : Int
  changedLineCoverage : PyFloat
  divergences : List DivergenceRecord

structure RunBundle where
  manifest : RunManifest
  targets : List TargetRecord
  reproScripts : Dict PyStr PyStr

inductive Refusal where
  | notAnArchive
  | tooLarge (members declaredBytes : Nat)
  | unsafePath (filename : PyStr)
  | noManifest
  | manifestUnreadable (cause : Exc)
  | newerSchema (version : Int)
  | mismatch (cause : Exc)

inductive ErrorCode where
  | bundleInvalid
  | bundleSchemaUnsupported

def Refusal.code : Refusal → ErrorCode
  | .newerSchema _ => .bundleSchemaUnsupported
  | _ => .bundleInvalid

/-- What comes out of `parse_bundle_zip` when it returns nothing. -/
inductive Raised where
  | apiError (refusal : Refusal)
  | escaped (exc : Exc)

/-! ## Conversions -/

/-- `raw[key]`. -/
def item (raw : JsonValue) (key : PyStr) : Except Exc JsonValue :=
  match raw with
  | .obj fields =>
    match Dict.find key fields with
    | some v => .ok v
    | none => .error .key
  | _ => .error .type

/-- `raw.get(key)` of an object. -/
def get? (raw : JsonValue) (key : PyStr) : Option JsonValue :=
  match raw with
  | .obj fields => Dict.find key fields
  | _ => none

/-- What a `for` goes through. -/
def elements : JsonValue → Except Exc (List JsonValue)
  | .arr items => .ok items
  | .str s => .ok (s.map fun c => .str [c])
  | .obj fields => .ok (fields.map fun field => .str field.1)
  | _ => .error .type

def ofIntError : IntError → Exc
  | .kind => .type
  | .value => .value
  | .overflow => .overflow

def ofLoadsError : LoadsError → Exc
  | .malformed => .value
  | .tooLong => .value
  | .tooDeep => .recursion

/-- `E(value)` of an enumeration. -/
def named (α : Type) [TextEnum α] (v : JsonValue) : Except Exc α :=
  match v with
  | .str s =>
    match (TextEnum.all : List α).find? fun a => TextEnum.text a = s with
    | some a => .ok a
    | none => .error .value
  | _ => .error .value

section Conversions

variable (interp : Interpreter) (floatOfText : PyStr → Option PyFloat)

/-- `int(value)`. -/
def toInt (v : JsonValue) : Except Exc Int := (v.toInt interp).mapError ofIntError

/-- `float(value)`; an integer without a nearest float is too large. -/
def toFloat : JsonValue → Except Exc PyFloat
  | .float x => .ok x
  | .bool b => .ok (interp.floatOf (if b then lit "1.0" else lit "0.0"))
  | .int n =>
    match roundMagnitude n.natAbs with
    | some _ => .ok (interp.floatOf (intText n ++ lit ".0"))
    | none => .error .overflow
  | .str s =>
    match floatOfText s with
    | some x => .ok x
    | none => .error .value
  | _ => .error .type

/-- `value > BUNDLE_SCHEMA_VERSION`. -/
def newer : JsonValue → Except Exc Bool
  | .int n => .ok (bundleSchemaVersion < n)
  | .bool _ => .ok false
  | .float (.inf neg) => .ok (!neg)
  | .float (.nan _ _) => .ok false
  | .float x => .ok (x.hexval.toRat?.any fun q => (bundleSchemaVersion : ℚ) < q)
  | _ => .error .type

/-! ## `read_bundle` -/

def readText (raw : JsonValue) (key : PyStr) : Except Exc PyStr := do
  return (← item raw key).text interp

def readNamed (α : Type) [TextEnum α] (raw : JsonValue) (key : PyStr) : Except Exc α := do
  named α (← item raw key)

def readInt (raw : JsonValue) (key : PyStr) : Except Exc Int := do toInt interp (← item raw key)

def readFloat (raw : JsonValue) (key : PyStr) : Except Exc PyFloat := do
  toFloat interp floatOfText (← item raw key)

def readElements (raw : JsonValue) (key : PyStr) : Except Exc (List JsonValue) := do
  elements (← item raw key)

/-- `ReasonCode(raw[key]) if raw[key] else None`. -/
def readReason (raw : JsonValue) (key : PyStr) : Except Exc (Option ReasonCode) := do
  let v ← item raw key
  if v.truthy then return some (← named ReasonCode v) else return none

/-- The record that `_manifest_from` builds. -/
def manifestRecord (raw : JsonValue) : Except Exc RunManifest := do
  return {
    schemaVersion := ← readInt interp raw (lit "schema_version")
    engineVersion := ← readText interp raw (lit "engine_version")
    repo := ← readText interp raw (lit "repo")
    baseSha := ← readText interp raw (lit "base_sha")
    headSha := ← readText interp raw (lit "head_sha")
    createdAt := ← readText interp raw (lit "created_at")
    verdict := ← readNamed Verdict raw (lit "verdict")
    baseDeps := ← readText interp raw (lit "base_deps")
    headDeps := ← readText interp raw (lit "head_deps")
    budgetMaxInputs := ← readInt interp raw (lit "budget_max_inputs")
    sandboxTier := ((get? raw (lit "sandbox_tier")).getD (.str (lit "unknown"))).text interp
    sandboxAssurance :=
      ((get? raw (lit "sandbox_assurance")).getD (.str (lit "unknown"))).text interp }

def manifestFrom (raw : JsonValue) : Except Exc RunManifest := do
  if ← newer (← item raw (lit "schema_version")) then .error .integrity else manifestRecord interp raw

def divergenceFrom (raw : JsonValue) : Except Exc DivergenceRecord := do
  return {
    divergenceClass := ← readNamed DivergenceClass raw (lit "divergence_class")
    severity := ← readNamed Severity raw (lit "severity")
    detail := ← readText interp raw (lit "detail")
    argsLiteral := ← readText interp raw (lit "args_literal")
    kwargsLiteral := ← readText interp raw (lit "kwargs_literal")
    minimizedArgs := ← item raw (lit "minimized_args")
    minimizedKwargs := ← item raw (lit "minimized_kwargs")
    shrinkPath := ← readElements raw (lit "shrink_path")
    baseSummary := ← readText interp raw (lit "base_summary")
    headSummary := ← readText interp raw (lit "head_summary")
    reproFilename := ← item raw (lit "repro_filename")
    aiNarrative := (get? raw (lit "ai_narrative")).getD .null }

def targetFrom (raw : JsonValue) : Except Exc TargetRecord := do
  return {
    filePath := ← readText interp raw (lit "file_path")
    module := ← readText interp raw (lit "module")
    qualname := ← readText interp raw (lit "qualname")
    lang := ← readNamed Lang raw (lit "lang")
    classification := ← readNamed TargetClassification raw (lit "classification")
    verdict := ← readNamed Verdict raw (lit "verdict")
    reasonCode := ← readReason raw (lit "reason_code")
    reasonDetail := ← item raw (lit "reason_detail")
    inputsRun := ← readInt interp raw (lit "inputs_run")
    equivalentInputs := ← readInt interp raw (lit "equivalent_inputs")
    unprovableInputs := ← readInt interp raw (lit "unprovable_inputs")
    changedLineCoverage := ← readFloat interp floatOfText raw (lit "changed_line_coverage")
    divergences := ← (← readElements raw (lit "divergences")).mapM (divergenceFrom interp) }

/-- `read_text(encoding="utf-8")` of bytes. -/
def textOf (bytes : Bytes) : Except Exc PyStr :=
  match decodeUtf8 bytes with
  | some text => .ok (universalNewlines text)
  | none => .error .value

/-- `json.loads` of the text of a file. -/
def document (bytes : Bytes) : Except Exc JsonValue := do
  (loads interp (← textOf bytes)).mapError ofLoadsError

variable (dest : Path) (tree : Unzip.Tree)

/-- The bytes of a file, or the `OSError` of a path that is none. -/
def readFile (path : Path) : Except Exc Bytes :=
  match tree.get? path with
  | some (.file bytes) => .ok bytes
  | _ => .error .os

/-- The names of `repros/*.py`, sorted. -/
def scriptNames : List PyStr :=
  ((tree.keys.filterMap fun path =>
    if path.dropLast = dest ++ [lit "repros"] then path.getLast?.filter isPyFile else none)
      |>.mergeSort fun a b => decide (a ≤ b))

def scriptText (name : PyStr) : Except Exc PyStr := do
  textOf (← readFile tree (dest ++ [lit "repros", name]))

/-- The dictionary of the scripts; it is empty without the directory. -/
def scripts : Except Exc (Dict PyStr PyStr) := do
  let items ← (scriptNames dest tree).mapM fun name => do
    return (name, ← scriptText dest tree name)
  return Dict.empty.setAll items

/-- The bundle that `read_bundle` builds. -/
def bundleFrom (manifestRaw targetsRaw : JsonValue) (reproScripts : Dict PyStr PyStr) :
    Except Exc RunBundle := do
  return {
    manifest := ← manifestFrom interp manifestRaw
    targets := ← (← elements targetsRaw).mapM (targetFrom interp floatOfText)
    reproScripts := reproScripts }

def readBundle : Except Exc RunBundle := do
  let manifestRaw ← document interp (← readFile tree (dest ++ [lit "manifest.json"]))
  let targetsRaw ← document interp (← readFile tree (dest ++ [lit "targets.json"]))
  bundleFrom interp floatOfText manifestRaw targetsRaw (← scripts dest tree)

/-! ## `parse_bundle_zip` -/

def versionOf (bytes : Bytes) : Except Exc Int := do
  readInt interp (← document interp bytes) (lit "schema_version")

def checkSchemaVersion : Except Raised Unit :=
  match tree.get? (dest ++ [lit "manifest.json"]) with
  | some (.file bytes) =>
    match versionOf interp bytes with
    | .ok version =>
      if bundleSchemaVersion < version then .error (.apiError (.newerSchema version)) else .ok ()
    | .error exc =>
      if exc ∈ [Exc.value, .type, .key] then .error (.apiError (.manifestUnreadable exc))
      else .error (.escaped exc)
  | _ => .error (.apiError .noManifest)

/-- `except (KeyError, ValueError, TypeError, OSError)`. -/
def Caught (exc : Exc) : Prop := exc ∈ [Exc.key, .value, .type, .os]

instance caughtDecidable (exc : Exc) : Decidable (Caught exc) := by
  unfold Caught
  infer_instance

def readExtracted : Except Raised RunBundle := do
  checkSchemaVersion interp dest tree
  match readBundle interp floatOfText dest tree with
  | .ok bundle => return bundle
  | .error exc => if Caught exc then .error (.apiError (.mismatch exc)) else .error (.escaped exc)

def maxDeclaredBytes : Nat := 200 * 1024 * 1024

def maxMembers : Nat := 10000

-- `zipfile.ZipFile`: the members of an archive, or what it raises
variable (archive : Bytes → Except ZipFault (List Member)) (accepts : Path → Bool)

/-- `parse_bundle_zip`, with what it has made on disk. -/
def parseBundleZip (data : Bytes) : Unzip.Tree × Except Raised RunBundle :=
  match archive data with
  | .error .badZipFile => (.empty, .error (.apiError .notAnArchive))
  | .error zipFault => (.empty, .error (.escaped (.zip zipFault)))
  | .ok members =>
    let declared := (members.map Member.fileSize).sum
    if maxMembers < members.length ∨ maxDeclaredBytes < declared then
      (.empty, .error (.apiError (.tooLarge members.length declared)))
    else
      match members.find? fun m => !m.isSafe dest with
      | some m => (.empty, .error (.apiError (.unsafePath m.filename)))
      | none =>
        match extractAll accepts dest .empty members with
        | (tree, some exc) => (tree, .error (.escaped exc))
        | (tree, none) => (tree, readExtracted interp floatOfText dest tree)

/-! ## What the conversions raise -/

inductive Conversion where
  | kept
  | text
  | named (texts : List PyStr)
  | reason
  | int
  | float
  | elements

def texts (α : Type) [TextEnum α] : List PyStr := (TextEnum.all : List α).map TextEnum.text

def namedFault (texts : List PyStr) (v : JsonValue) : Option Exc :=
  match v with
  | .str s => if s ∈ texts then none else some .value
  | _ => some .value

def Conversion.fault (v : JsonValue) : Conversion → Option Exc
  | .kept => none
  | .text => none
  | .named texts => namedFault texts v
  | .reason => if v.truthy then namedFault (texts ReasonCode) v else none
  | .int => Tempest.fault (toInt interp v)
  | .float => Tempest.fault (toFloat interp floatOfText v)
  | .elements => Tempest.fault (Upload.elements v)

/-- A number that the conversion finds too large: an infinity for an integer, an integer without a
nearest float. -/
def Conversion.TooLarge (v : JsonValue) : Conversion → Prop
  | .int => ∃ neg, v = .float (.inf neg)
  | .float => ∃ n, v = .int n ∧ roundMagnitude n.natAbs = none
  | _ => False

def itemFault (raw : JsonValue) (field : PyStr × Conversion) : Option Exc :=
  match item raw field.1 with
  | .error exc => some exc
  | .ok v => field.2.fault interp floatOfText v

def manifestFields : List (PyStr × Conversion) :=
  [(lit "schema_version", .int), (lit "engine_version", .text), (lit "repo", .text),
    (lit "base_sha", .text), (lit "head_sha", .text), (lit "created_at", .text),
    (lit "verdict", .named (texts Verdict)), (lit "base_deps", .text), (lit "head_deps", .text),
    (lit "budget_max_inputs", .int)]

def divergenceFields : List (PyStr × Conversion) :=
  [(lit "divergence_class", .named (texts DivergenceClass)),
    (lit "severity", .named (texts Severity)), (lit "detail", .text), (lit "args_literal", .text),
    (lit "kwargs_literal", .text), (lit "minimized_args", .kept), (lit "minimized_kwargs", .kept),
    (lit "shrink_path", .elements), (lit "base_summary", .text), (lit "head_summary", .text),
    (lit "repro_filename", .kept)]

def targetFields : List (PyStr × Conversion) :=
  [(lit "file_path", .text), (lit "module", .text), (lit "qualname", .text),
    (lit "lang", .named (texts Lang)), (lit "classification", .named (texts TargetClassification)),
    (lit "verdict", .named (texts Verdict)), (lit "reason_code", .reason),
    (lit "reason_detail", .kept), (lit "inputs_run", .int), (lit "equivalent_inputs", .int),
    (lit "unprovable_inputs", .int), (lit "changed_line_coverage", .float),
    (lit "divergences", .elements)]

def Plain : Exc → Prop
  | .key | .value | .type => True
  | _ => False

theorem Plain.caught {exc : Exc} (h : Plain exc) : Caught exc := by
  cases exc <;> first | decide | exact h.elim

theorem plain_iff_mem {exc : Exc} : exc ∈ [Exc.value, .type, .key] ↔ Plain exc := by
  cases exc <;> simp [Plain]

variable {interp floatOfText}

theorem plain_item {raw : JsonValue} {key : PyStr} {exc : Exc} (h : item raw key = .error exc) :
    Plain exc := by
  unfold item at h
  split at h
  · split at h <;> cases h
    trivial
  · cases h
    trivial

theorem plain_elements {v : JsonValue} {exc : Exc} (h : elements v = .error exc) : Plain exc := by
  unfold elements at h
  split at h <;> cases h
  trivial

theorem plain_namedFault {texts : List PyStr} {v : JsonValue} {exc : Exc}
    (h : namedFault texts v = some exc) : Plain exc := by
  unfold namedFault at h
  split at h
  · split at h <;> cases h
    trivial
  · cases h
    trivial

theorem trunc_cases (x : PyFloat) :
    (∃ n, x.trunc = .ok n) ∨ x.trunc = .error .value ∨ ∃ neg, x = .inf neg := by
  cases x with
  | nan neg payload => exact Or.inr (Or.inl rfl)
  | inf neg => exact Or.inr (Or.inr ⟨neg, rfl⟩)
  | finite neg expo frac =>
    cases hvalue : (HexFloat.finite neg expo frac).toRat? with
    | none => exact Or.inr (Or.inl (by simp only [PyFloat.trunc, hvalue]))
    | some q => exact Or.inl ⟨if 0 ≤ q then ⌊q⌋ else ⌈q⌉, by simp only [PyFloat.trunc, hvalue]⟩

variable (interp) in
/-- `int` raises a plain exception, or meets an infinity. -/
theorem toInt_cases (v : JsonValue) :
    (∃ n, toInt interp v = .ok n) ∨ (∃ exc, Plain exc ∧ toInt interp v = .error exc) ∨
      toInt interp v = .error .overflow ∧ ∃ neg, v = .float (.inf neg) := by
  cases v with
  | int n => exact Or.inl ⟨n, rfl⟩
  | bool b => exact Or.inl ⟨_, rfl⟩
  | null | arr _ | obj _ => exact Or.inr (Or.inl ⟨.type, trivial, rfl⟩)
  | str s =>
    cases htext : interp.intOfText s with
    | some n => exact Or.inl ⟨n, by simp only [toInt, JsonValue.toInt, htext, Except.mapError]⟩
    | none =>
      refine Or.inr (Or.inl ⟨.value, trivial, ?_⟩)
      simp only [toInt, JsonValue.toInt, htext, Except.mapError, ofIntError]
  | float x =>
    rcases trunc_cases x with ⟨n, hn⟩ | hvalue | ⟨neg, rfl⟩
    · exact Or.inl ⟨n, by simp only [toInt, JsonValue.toInt, hn, Except.mapError]⟩
    · refine Or.inr (Or.inl ⟨.value, trivial, ?_⟩)
      simp only [toInt, JsonValue.toInt, hvalue, Except.mapError, ofIntError]
    · exact Or.inr (Or.inr ⟨rfl, neg, rfl⟩)

variable (interp floatOfText) in
theorem toFloat_cases (v : JsonValue) :
    (∃ x, toFloat interp floatOfText v = .ok x) ∨
      (∃ exc, Plain exc ∧ toFloat interp floatOfText v = .error exc) ∨
      toFloat interp floatOfText v = .error .overflow ∧
        ∃ n, v = .int n ∧ roundMagnitude n.natAbs = none := by
  cases v with
  | int n =>
    cases hround : roundMagnitude n.natAbs with
    | some q => exact Or.inl ⟨interp.floatOf (intText n ++ lit ".0"), by simp only [toFloat, hround]⟩
    | none => exact Or.inr (Or.inr ⟨by simp only [toFloat, hround], n, rfl, hround⟩)
  | bool b => exact Or.inl ⟨_, rfl⟩
  | null | arr _ | obj _ => exact Or.inr (Or.inl ⟨.type, trivial, rfl⟩)
  | str s =>
    cases htext : floatOfText s with
    | some x => exact Or.inl ⟨x, by simp only [toFloat, htext]⟩
    | none => exact Or.inr (Or.inl ⟨.value, trivial, by simp only [toFloat, htext]⟩)
  | float x => exact Or.inl ⟨x, rfl⟩

theorem Conversion.plain {c : Conversion} {v : JsonValue} {exc : Exc}
    (h : c.fault interp floatOfText v = some exc) (hexc : exc ≠ .overflow) : Plain exc := by
  cases c with
  | kept | text => cases h
  | named texts => exact plain_namedFault h
  | reason =>
    simp only [Conversion.fault] at h
    split at h
    · exact plain_namedFault h
    · cases h
  | int =>
    rcases toInt_cases interp v with ⟨n, hn⟩ | ⟨exc', hplain, herror⟩ | ⟨herror, -⟩
    · rw [Conversion.fault, hn] at h
      cases h
    · rw [Conversion.fault, herror] at h
      cases h
      exact hplain
    · rw [Conversion.fault, herror] at h
      cases h
      exact absurd rfl hexc
  | float =>
    rcases toFloat_cases interp floatOfText v with
      ⟨x, hx⟩ | ⟨exc', hplain, herror⟩ | ⟨herror, -⟩
    · rw [Conversion.fault, hx] at h
      cases h
    · rw [Conversion.fault, herror] at h
      cases h
      exact hplain
    · rw [Conversion.fault, herror] at h
      cases h
      exact absurd rfl hexc
  | elements => exact plain_elements (fault_eq_some_iff.1 h)

theorem Conversion.overflow_iff {c : Conversion} {v : JsonValue} :
    c.fault interp floatOfText v = some .overflow ↔ c.TooLarge v := by
  cases c with
  | kept | text => exact ⟨fun h => (by cases h), fun h => h.elim⟩
  | named texts => exact ⟨fun h => (plain_namedFault h).elim, fun h => h.elim⟩
  | reason =>
    refine ⟨fun h => ?_, fun h => h.elim⟩
    simp only [Conversion.fault] at h
    split at h
    · exact (plain_namedFault h).elim
    · cases h
  | int =>
    constructor
    · intro h
      rcases toInt_cases interp v with ⟨n, hn⟩ | ⟨exc', hplain, herror⟩ | ⟨-, hinf⟩
      · rw [Conversion.fault, hn] at h
        cases h
      · rw [Conversion.fault, herror] at h
        cases h
        exact hplain.elim
      · exact hinf
    · rintro ⟨neg, rfl⟩
      rfl
  | float =>
    constructor
    · intro h
      rcases toFloat_cases interp floatOfText v with
        ⟨x, hx⟩ | ⟨exc', hplain, herror⟩ | ⟨-, hlarge⟩
      · rw [Conversion.fault, hx] at h
        cases h
      · rw [Conversion.fault, herror] at h
        cases h
        exact hplain.elim
      · exact hlarge
    · rintro ⟨n, rfl, hround⟩
      simp only [Conversion.fault, toFloat, hround, Tempest.fault]
  | elements => exact ⟨fun h => (plain_elements (fault_eq_some_iff.1 h)).elim, fun h => h.elim⟩

/-! ## The first field that cannot be read -/

section Fields

variable (interp floatOfText) (raw : JsonValue)

def fieldsFault (fields : List (PyStr × Conversion)) : Option Exc :=
  fields.findSome? (itemFault interp floatOfText raw)

/-- What the comparison of the version raises, and the check after it. -/
def newerFault : Option Exc :=
  match item raw (lit "schema_version") with
  | .error exc => some exc
  | .ok v =>
    match newer v with
    | .error exc => some exc
    | .ok later => if later then some .integrity else none

def manifestFault : Option Exc :=
  (newerFault raw).or (fieldsFault interp floatOfText raw manifestFields)

def divergenceFault : Option Exc := fieldsFault interp floatOfText raw divergenceFields

def targetFault : Option Exc :=
  (fieldsFault interp floatOfText raw targetFields).or
    (match readElements raw (lit "divergences") with
    | .ok divergences => divergences.findSome? (divergenceFault interp floatOfText)
    | .error _ => none)

variable {interp floatOfText raw}

theorem fault_conversion {α : Type} {key : PyStr} {c : Conversion} {f : JsonValue → Except Exc α}
    (h : ∀ v, fault (f v) = c.fault interp floatOfText v) :
    fault (item raw key >>= f) = itemFault interp floatOfText raw (key, c) := by
  unfold itemFault
  cases hitem : item raw key with
  | error exc => rfl
  | ok v => exact h v

theorem fault_readText (key : PyStr) :
    fault (readText interp raw key) = itemFault interp floatOfText raw (key, .text) :=
  fault_conversion fun _ => rfl

theorem fault_item (key : PyStr) :
    fault (item raw key) = itemFault interp floatOfText raw (key, .kept) := by
  unfold itemFault
  cases item raw key with
  | error _ | ok _ => rfl

theorem fault_named {α : Type} [TextEnum α] (v : JsonValue) :
    fault (named α v) = namedFault (texts α) v := by
  cases v with
  | str s =>
    cases hfind : (TextEnum.all : List α).find? fun a => TextEnum.text a = s with
    | some a =>
      have htext : TextEnum.text a = s := by simpa using List.find?_some hfind
      have hmem : s ∈ texts α := List.mem_map.2 ⟨a, TextEnum.mem_all a, htext⟩
      simp only [named, hfind, namedFault, if_pos hmem, fault]
    | none =>
      have hmem : s ∉ texts α := by
        intro hmem
        obtain ⟨a, ha, htext⟩ := List.mem_map.1 hmem
        exact List.find?_eq_none.1 hfind a ha (decide_eq_true htext)
      simp only [named, hfind, namedFault, if_neg hmem, fault]
  | _ => rfl

theorem fault_readNamed {α : Type} [TextEnum α] (key : PyStr) :
    fault (readNamed α raw key) = itemFault interp floatOfText raw (key, .named (texts α)) :=
  fault_conversion fun v => fault_named v

theorem fault_readInt (key : PyStr) :
    fault (readInt interp raw key) = itemFault interp floatOfText raw (key, .int) :=
  fault_conversion fun _ => rfl

theorem fault_readFloat (key : PyStr) :
    fault (readFloat interp floatOfText raw key) = itemFault interp floatOfText raw (key, .float) :=
  fault_conversion fun _ => rfl

theorem fault_readElements (key : PyStr) :
    fault (readElements raw key) = itemFault interp floatOfText raw (key, .elements) :=
  fault_conversion fun _ => rfl

theorem fault_readReason (key : PyStr) :
    fault (readReason raw key) = itemFault interp floatOfText raw (key, .reason) := by
  refine fault_conversion fun v => ?_
  unfold Conversion.fault
  by_cases htruthy : v.truthy = true
  · rw [if_pos htruthy, if_pos htruthy, ← fault_named v]
    cases named ReasonCode v with
    | error _ | ok _ => rfl
  · rw [if_neg htruthy, if_neg htruthy]
    rfl

/-- One field read before the others. -/
theorem fault_field {α β : Type} {x : Except Exc α} {f : α → Except Exc β}
    {field : PyStr × Conversion} {fields : List (PyStr × Conversion)} {rest : Option Exc}
    (hx : fault x = itemFault interp floatOfText raw field)
    (h : ∀ a, x = .ok a → fault (f a) = (fieldsFault interp floatOfText raw fields).or rest) :
    fault (x >>= f) = (fieldsFault interp floatOfText raw (field :: fields)).or rest := by
  rw [fault_bind h, hx, fieldsFault, fieldsFault, List.findSome?_cons]
  cases itemFault interp floatOfText raw field with
  | none | some _ => rfl

theorem fault_divergenceFrom :
    fault (divergenceFrom interp raw) = divergenceFault interp floatOfText raw := by
  rw [divergenceFault, ← Option.or_none (o := fieldsFault interp floatOfText raw divergenceFields)]
  refine fault_field (fault_readNamed _) fun _ _ => ?_
  refine fault_field (fault_readNamed _) fun _ _ => ?_
  refine fault_field (fault_readText _) fun _ _ => ?_
  refine fault_field (fault_readText _) fun _ _ => ?_
  refine fault_field (fault_readText _) fun _ _ => ?_
  refine fault_field (fault_item _) fun _ _ => ?_
  refine fault_field (fault_item _) fun _ _ => ?_
  refine fault_field (fault_readElements _) fun _ _ => ?_
  refine fault_field (fault_readText _) fun _ _ => ?_
  refine fault_field (fault_readText _) fun _ _ => ?_
  exact fault_field (fault_item _) fun _ _ => rfl

theorem fault_targetFrom :
    fault (targetFrom interp floatOfText raw) = targetFault interp floatOfText raw := by
  refine fault_field (fault_readText _) fun _ _ => ?_
  refine fault_field (fault_readText _) fun _ _ => ?_
  refine fault_field (fault_readText _) fun _ _ => ?_
  refine fault_field (fault_readNamed _) fun _ _ => ?_
  refine fault_field (fault_readNamed _) fun _ _ => ?_
  refine fault_field (fault_readNamed _) fun _ _ => ?_
  refine fault_field (fault_readReason _) fun _ _ => ?_
  refine fault_field (fault_item _) fun _ _ => ?_
  refine fault_field (fault_readInt _) fun _ _ => ?_
  refine fault_field (fault_readInt _) fun _ _ => ?_
  refine fault_field (fault_readInt _) fun _ _ => ?_
  refine fault_field (fault_readFloat _) fun _ _ => ?_
  refine fault_field (fault_readElements _) fun divergences hdivergences => ?_
  rw [hdivergences, fault_bind_pure, fault_mapM]
  exact congrArg (fun f => List.findSome? f divergences) (funext fun d => fault_divergenceFrom)

theorem fault_manifestRecord :
    fault (manifestRecord interp raw) = fieldsFault interp floatOfText raw manifestFields := by
  rw [← Option.or_none (o := fieldsFault interp floatOfText raw manifestFields)]
  refine fault_field (fault_readInt _) fun _ _ => ?_
  refine fault_field (fault_readText _) fun _ _ => ?_
  refine fault_field (fault_readText _) fun _ _ => ?_
  refine fault_field (fault_readText _) fun _ _ => ?_
  refine fault_field (fault_readText _) fun _ _ => ?_
  refine fault_field (fault_readText _) fun _ _ => ?_
  refine fault_field (fault_readNamed _) fun _ _ => ?_
  refine fault_field (fault_readText _) fun _ _ => ?_
  refine fault_field (fault_readText _) fun _ _ => ?_
  exact fault_field (fault_readInt _) fun _ _ => rfl

theorem fault_manifestFrom :
    fault (manifestFrom interp raw) = manifestFault interp floatOfText raw := by
  unfold manifestFrom manifestFault newerFault
  cases hitem : item raw (lit "schema_version") with
  | error exc => rfl
  | ok v =>
    simp only [bind, Except.bind]
    cases newer v with
    | error exc => rfl
    | ok later =>
      cases later with
      | true => rfl
      | false => exact fault_manifestRecord

end Fields

/-! ## Numbers that are too large -/

section TooLarge

variable (interp floatOfText)

def HasTooLarge (raw : JsonValue) (fields : List (PyStr × Conversion)) : Prop :=
  ∃ before key conversion after v, fields = before ++ (key, conversion) :: after ∧
    fieldsFault interp floatOfText raw before = none ∧ item raw key = .ok v ∧ conversion.TooLarge v

variable {interp floatOfText} {raw : JsonValue} {fields : List (PyStr × Conversion)} {exc : Exc}

theorem itemFault_overflow_iff {field : PyStr × Conversion} :
    itemFault interp floatOfText raw field = some .overflow ↔
      ∃ v, item raw field.1 = .ok v ∧ field.2.TooLarge v := by
  unfold itemFault
  cases hitem : item raw field.1 with
  | error e =>
    constructor
    · intro h
      cases h
      exact (plain_item hitem).elim
    · rintro ⟨v, hv, -⟩
      cases hv
  | ok v =>
    constructor
    · exact fun h => ⟨v, rfl, Conversion.overflow_iff.1 h⟩
    · rintro ⟨v', hv, hlarge⟩
      cases hv
      exact Conversion.overflow_iff.2 hlarge

theorem plain_itemFault {field : PyStr × Conversion}
    (h : itemFault interp floatOfText raw field = some exc) (hexc : exc ≠ .overflow) : Plain exc := by
  unfold itemFault at h
  cases hitem : item raw field.1 with
  | error e =>
    rw [hitem] at h
    cases h
    exact plain_item hitem
  | ok v =>
    rw [hitem] at h
    exact Conversion.plain h hexc

theorem fieldsFault_overflow_iff :
    fieldsFault interp floatOfText raw fields = some .overflow ↔
      HasTooLarge interp floatOfText raw fields := by
  rw [fieldsFault, List.findSome?_eq_some_iff]
  constructor
  · rintro ⟨before, ⟨key, conversion⟩, after, hsplit, hfault, hbefore⟩
    obtain ⟨v, hv, hlarge⟩ := itemFault_overflow_iff.1 hfault
    exact ⟨before, key, conversion, after, v, hsplit, List.findSome?_eq_none_iff.2 hbefore, hv, hlarge⟩
  · rintro ⟨before, key, conversion, after, v, hsplit, hbefore, hv, hlarge⟩
    exact ⟨before, (key, conversion), after, hsplit, itemFault_overflow_iff.2 ⟨v, hv, hlarge⟩,
      List.findSome?_eq_none_iff.1 hbefore⟩

theorem plain_fieldsFault (h : fieldsFault interp floatOfText raw fields = some exc)
    (hexc : exc ≠ .overflow) : Plain exc := by
  obtain ⟨before, field, after, -, hfault, -⟩ := List.findSome?_eq_some_iff.1 h
  exact plain_itemFault hfault hexc

theorem plain_divergenceFault (h : divergenceFault interp floatOfText raw = some exc) : Plain exc := by
  refine plain_fieldsFault h fun hoverflow => ?_
  subst hoverflow
  obtain ⟨before, key, conversion, after, v, hsplit, -, -, hlarge⟩ := fieldsFault_overflow_iff.1 h
  have hmem : (key, conversion) ∈ divergenceFields := by
    rw [hsplit]
    exact List.mem_append.2 (Or.inr (List.mem_cons_self ..))
  have hnone : ∀ field ∈ divergenceFields, ¬ field.2.TooLarge v := by
    simp [divergenceFields, Conversion.TooLarge]
  exact hnone _ hmem hlarge

theorem targetFault_cases (h : targetFault interp floatOfText raw = some exc) :
    fieldsFault interp floatOfText raw targetFields = some exc ∨ Plain exc := by
  rw [targetFault, Option.or_eq_some_iff] at h
  rcases h with hfields | ⟨-, hdivergences⟩
  · exact Or.inl hfields
  · refine Or.inr ?_
    split at hdivergences
    · obtain ⟨divergence, -, hfault⟩ := List.exists_of_findSome?_eq_some hdivergences
      exact plain_divergenceFault hfault
    · cases hdivergences

theorem targetFault_overflow_iff :
    targetFault interp floatOfText raw = some .overflow ↔
      HasTooLarge interp floatOfText raw targetFields := by
  rw [← fieldsFault_overflow_iff]
  constructor
  · intro h
    rcases targetFault_cases h with hfields | hplain
    · exact hfields
    · exact hplain.elim
  · intro h
    rw [targetFault, h]
    rfl

theorem plain_targetFault (h : targetFault interp floatOfText raw = some exc)
    (hexc : exc ≠ .overflow) : Plain exc := by
  rcases targetFault_cases h with hfields | hplain
  · exact plain_fieldsFault hfields hexc
  · exact hplain

end TooLarge

/-! ## Scripts and files of the archive -/

section Files

variable {accepts : Path → Bool} {dest : Path} {tree : Unzip.Tree} {members : List Member}

/-- Every `repros/*.py` is a file with a text. -/
def ScriptsRead (members : List Member) : Prop :=
  ∀ name, isPyFile name = true → ¬ DirAt members [lit "repros", name] ∧
    ∀ bytes, contentAt members [lit "repros", name] = some bytes → (decodeUtf8 bytes).isSome = true

theorem readFile_ok_iff (hshows : Shows dest tree members) {q : Path} {bytes : Bytes} :
    readFile tree (dest ++ q) = .ok bytes ↔ contentAt members q = some bytes := by
  rw [← hshows.file, readFile]
  cases tree.get? (dest ++ q) with
  | none => exact ⟨fun h => (by cases h), fun h => (by cases h)⟩
  | some node =>
    cases node with
    | dir => exact ⟨fun h => (by cases h), fun h => (by cases h)⟩
    | file c => simp

theorem readFile_error {path : Path} {exc : Exc} (h : readFile tree path = .error exc) : exc = .os := by
  unfold readFile at h
  split at h <;> cases h
  rfl

theorem textOf_error {bytes : Bytes} {exc : Exc} (h : textOf bytes = .error exc) : exc = .value := by
  unfold textOf at h
  split at h <;> cases h
  rfl

theorem textOf_ok_iff {bytes : Bytes} :
    (∃ text, textOf bytes = .ok text) ↔ (decodeUtf8 bytes).isSome = true := by
  unfold textOf
  cases decodeUtf8 bytes with
  | none | some _ => simp

theorem mem_scriptNames_iff {name : PyStr} :
    name ∈ scriptNames dest tree ↔
      isPyFile name = true ∧ dest ++ [lit "repros", name] ∈ tree.keys := by
  have hpath : dest ++ [lit "repros", name] = dest ++ [lit "repros"] ++ [name] := by simp
  rw [scriptNames, List.mem_mergeSort, List.mem_filterMap, hpath]
  constructor
  · rintro ⟨path, hkeys, hname⟩
    split at hname
    · rename_i hdir
      obtain ⟨hlast, hpy⟩ := Option.filter_eq_some_iff.1 hname
      have hne : path ≠ [] := by
        rintro rfl
        cases hlast
      rw [List.getLast?_eq_some_getLast hne, Option.some_inj] at hlast
      rw [← hdir, ← hlast, List.dropLast_append_getLast hne]
      exact ⟨hlast ▸ hpy, hkeys⟩
    · cases hname
  · rintro ⟨hpy, hkeys⟩
    refine ⟨_, hkeys, ?_⟩
    rw [List.dropLast_concat, if_pos rfl, List.getLast?_concat]
    exact Option.filter_eq_some_iff.2 ⟨rfl, hpy⟩

theorem mem_keys_of_get? {path : Path} {node : Unzip.Node} (h : tree.get? path = some node) :
    path ∈ tree.keys := by
  by_contra hnot
  rw [Dict.get?_eq_none_iff.2 hnot] at h
  cases h

theorem scriptText_ok_iff (hshows : Shows dest tree members) {name : PyStr} :
    (∃ text, scriptText dest tree name = .ok text) ↔
      ∃ bytes, contentAt members [lit "repros", name] = some bytes ∧
        (decodeUtf8 bytes).isSome = true := by
  constructor
  · rintro ⟨text, htext⟩
    obtain ⟨bytes, hbytes, hdecode⟩ := bind_ok_iff.1 htext
    exact ⟨bytes, (readFile_ok_iff hshows).1 hbytes, textOf_ok_iff.1 ⟨text, hdecode⟩⟩
  · rintro ⟨bytes, hbytes, hdecode⟩
    obtain ⟨text, htext⟩ := textOf_ok_iff.2 hdecode
    exact ⟨text, bind_ok_iff.2 ⟨bytes, (readFile_ok_iff hshows).2 hbytes, htext⟩⟩

theorem fault_scripts :
    fault (scripts dest tree) = (scriptNames dest tree).findSome? fun name =>
      fault (scriptText dest tree name) := by
  rw [scripts, fault_bind_pure, fault_mapM]
  exact congrArg (fun f => List.findSome? f (scriptNames dest tree)) (funext fun name => fault_bind_pure)

theorem scripts_ok_iff (hshows : Shows dest tree members) :
    (∃ dict, scripts dest tree = .ok dict) ↔ ScriptsRead members := by
  rw [← fault_eq_none_iff, fault_scripts, List.findSome?_eq_none_iff]
  simp only [fault_eq_none_iff, scriptText_ok_iff hshows, mem_scriptNames_iff]
  constructor
  · intro h name hpy
    constructor
    · intro hdir
      have hplace := (hshows.dir [lit "repros", name]).2 hdir
      obtain ⟨bytes, hbytes, -⟩ := h name ⟨hpy, mem_keys_of_get? hplace⟩
      rw [(hshows.file _ bytes).2 hbytes] at hplace
      cases hplace
    · intro bytes hbytes
      have hplace := (hshows.file [lit "repros", name] bytes).2 hbytes
      obtain ⟨bytes', hbytes', hdecode⟩ := h name ⟨hpy, mem_keys_of_get? hplace⟩
      rw [hbytes] at hbytes'
      cases hbytes'
      exact hdecode
  · rintro h name ⟨hpy, hkeys⟩
    obtain ⟨hnodir, htext⟩ := h name hpy
    cases hplace : tree.get? (dest ++ [lit "repros", name]) with
    | none => exact absurd hkeys (Dict.get?_eq_none_iff.1 hplace)
    | some node =>
      cases node with
      | dir => exact absurd ((hshows.dir _).1 hplace) hnodir
      | file bytes =>
        have hbytes := (hshows.file _ bytes).1 hplace
        exact ⟨bytes, hbytes, htext bytes hbytes⟩

theorem caught_scripts {exc : Exc} (h : scripts dest tree = .error exc) : Caught exc := by
  have hfault := fault_eq_some_iff.2 h
  rw [fault_scripts] at hfault
  obtain ⟨name, -, hname⟩ := List.exists_of_findSome?_eq_some hfault
  have hread : (fault (readFile tree (dest ++ [lit "repros", name]))) = some exc ∨
      ∃ bytes, fault (textOf bytes) = some exc := by
    unfold scriptText at hname
    cases hfile : readFile tree (dest ++ [lit "repros", name]) with
    | error e =>
      rw [hfile] at hname
      exact Or.inl hname
    | ok bytes =>
      rw [hfile] at hname
      exact Or.inr ⟨bytes, hname⟩
  rcases hread with hos | ⟨bytes, hvalue⟩
  · rw [readFile_error (fault_eq_some_iff.1 hos)]
    decide
  · rw [textOf_error (fault_eq_some_iff.1 hvalue)]
    decide

end Files

/-! ## What gets past the clauses -/

section Escapes

variable (interp floatOfText)

/-- What `_check_schema_version` does not catch: a document that is nested too deep, an infinite
version. -/
inductive VersionEscapes (bytes : Bytes) : Exc → Prop where
  | deep (h : document interp bytes = .error .recursion) : VersionEscapes bytes .recursion
  | infinite {raw : JsonValue} {neg : Bool} (hraw : document interp bytes = .ok raw)
      (hversion : item raw (lit "schema_version") = .ok (.float (.inf neg))) :
      VersionEscapes bytes .overflow

/-- The document asks for a later version than the reader's. -/
def Later (raw : JsonValue) : Prop :=
  ∃ v, item raw (lit "schema_version") = .ok v ∧ newer v = .ok true

/-- A target with a number that is too large, behind others that can be read. -/
def TargetTooLarge (targets : JsonValue) : Prop :=
  ∃ before target after, elements targets = .ok (before ++ target :: after) ∧
    (∀ other ∈ before, targetFault interp floatOfText other = none) ∧
    HasTooLarge interp floatOfText target targetFields

structure FilesRead (members : List Member) (targets : JsonValue) : Prop where
  targets : ∃ bytes, contentAt members [lit "targets.json"] = some bytes ∧
    document interp bytes = .ok targets
  scripts : ScriptsRead members

/-- What the clause around `read_bundle` does not name, by the manifest's document: targets that are
nested too deep, a later version, and numbers that are too large.  Nothing read before may be bad. -/
inductive ReadEscapes (raw : JsonValue) (members : List Member) : Exc → Prop where
  | targetsDeep {bytes : Bytes} (htargets : contentAt members [lit "targets.json"] = some bytes)
      (hdocument : document interp bytes = .error .recursion) : ReadEscapes raw members .recursion
  | later {targets : JsonValue} (hfiles : FilesRead interp members targets) (hlater : Later raw) :
      ReadEscapes raw members .integrity
  | manifestNumber {targets : JsonValue} (hfiles : FilesRead interp members targets)
      (hnewer : newerFault raw = none)
      (hlarge : HasTooLarge interp floatOfText raw manifestFields) :
      ReadEscapes raw members .overflow
  | targetNumber {targets : JsonValue} (hfiles : FilesRead interp members targets)
      (hmanifest : manifestFault interp floatOfText raw = none)
      (hlarge : TargetTooLarge interp floatOfText targets) : ReadEscapes raw members .overflow

def Escapes (members : List Member) (exc : Exc) : Prop :=
  ∃ bytes, contentAt members [lit "manifest.json"] = some bytes ∧
    (VersionEscapes interp bytes exc ∨
      ∃ raw version, document interp bytes = .ok raw ∧ versionOf interp bytes = .ok version ∧
        version ≤ bundleSchemaVersion ∧ ReadEscapes interp floatOfText raw members exc)

variable {interp floatOfText} {dest : Path} {tree : Unzip.Tree} {members : List Member} {exc : Exc}
  {bytes : Bytes} {raw : JsonValue}

theorem document_error (h : document interp bytes = .error exc) : exc = .value ∨ exc = .recursion := by
  unfold document at h
  cases htext : textOf bytes with
  | error e =>
    rw [htext] at h
    cases h
    exact Or.inl (textOf_error htext)
  | ok text =>
    rw [htext] at h
    simp only [bind, Except.bind] at h
    cases hloads : loads interp text with
    | ok v =>
      rw [hloads] at h
      cases h
    | error e =>
      rw [hloads] at h
      cases h
      cases e with
      | malformed => exact Or.inl rfl
      | tooLong => exact Or.inl rfl
      | tooDeep => exact Or.inr rfl

theorem versionOf_escapes_iff :
    versionOf interp bytes = .error exc ∧ ¬ Plain exc ↔ VersionEscapes interp bytes exc := by
  unfold versionOf
  cases hdocument : document interp bytes with
  | error e =>
    constructor
    · rintro ⟨h, hplain⟩
      cases h
      rcases document_error hdocument with rfl | rfl
      · exact absurd trivial hplain
      · exact .deep hdocument
    · intro h
      cases h with
      | deep h =>
        rw [hdocument] at h
        cases h
        exact ⟨rfl, id⟩
      | infinite hraw =>
        rw [hdocument] at hraw
        cases hraw
  | ok raw =>
    have hfault : fault (readInt interp raw (lit "schema_version")) =
        itemFault interp (fun _ => none) raw (lit "schema_version", .int) := fault_readInt _
    have hread : (Except.ok raw >>= fun raw => readInt interp raw (lit "schema_version")) =
        readInt interp raw (lit "schema_version") := rfl
    rw [hread]
    constructor
    · rintro ⟨h, hplain⟩
      rw [fault_eq_some_iff.2 h] at hfault
      obtain rfl : exc = .overflow := by
        by_contra hexc
        exact hplain (plain_itemFault hfault.symm hexc)
      obtain ⟨v, hitem, neg, rfl⟩ := itemFault_overflow_iff.1 hfault.symm
      exact .infinite hdocument hitem
    · intro h
      cases h with
      | deep h =>
        rw [hdocument] at h
        cases h
      | @infinite _ neg hraw hversion =>
        rw [hdocument] at hraw
        cases hraw
        have hlarge : Conversion.int.TooLarge (.float (.inf neg)) := ⟨neg, rfl⟩
        rw [itemFault_overflow_iff.2 ⟨_, hversion, hlarge⟩] at hfault
        exact ⟨fault_eq_some_iff.1 hfault, id⟩

/-- What the conversions raise, the targets behind the manifest. -/
theorem fault_bundleFrom {targets : JsonValue} {dict : Dict PyStr PyStr} :
    fault (bundleFrom interp floatOfText raw targets dict) =
      (manifestFault interp floatOfText raw).or
        ((fault (elements targets)).or
          (match elements targets with
          | .ok items => items.findSome? (targetFault interp floatOfText)
          | .error _ => none)) := by
  rw [← fault_manifestFrom]
  refine fault_bind fun _ _ => ?_
  refine fault_bind fun items hitems => ?_
  rw [hitems, fault_bind_pure, fault_mapM]
  exact congrArg (fun f => List.findSome? f items) (funext fun target => fault_targetFrom)

theorem newer_error {v : JsonValue} (h : newer v = .error exc) : Plain exc := by
  unfold newer at h
  split at h <;> cases h
  trivial

theorem newerFault_escapes_iff :
    (newerFault raw = some exc ∧ ¬ Caught exc) ↔ Later raw ∧ exc = .integrity := by
  unfold newerFault Later
  cases hitem : item raw (lit "schema_version") with
  | error e =>
    constructor
    · rintro ⟨h, hcaught⟩
      cases h
      exact absurd (plain_item hitem).caught hcaught
    · rintro ⟨⟨v, hv, -⟩, -⟩
      cases hv
  | ok v =>
    cases hnewer : newer v with
    | error e =>
      constructor
      · rintro ⟨h, hcaught⟩
        simp only [hnewer] at h
        cases h
        exact absurd (newer_error hnewer).caught hcaught
      · rintro ⟨⟨v', hv, hlater⟩, -⟩
        cases hv
        rw [hnewer] at hlater
        cases hlater
    | ok later =>
      simp only [hnewer]
      cases later with
      | false =>
        refine ⟨fun h => (by cases h.1), ?_⟩
        rintro ⟨⟨v', hv, hlater⟩, -⟩
        cases hv
        rw [hnewer] at hlater
        cases hlater
      | true =>
        constructor
        · rintro ⟨h, -⟩
          cases h
          exact ⟨⟨v, rfl, hnewer⟩, rfl⟩
        · rintro ⟨-, rfl⟩
          exact ⟨rfl, by decide⟩

theorem not_caught_overflow : ¬ Caught .overflow := by decide

theorem manifestFault_escapes_iff :
    (manifestFault interp floatOfText raw = some exc ∧ ¬ Caught exc) ↔
      (Later raw ∧ exc = .integrity) ∨
        (newerFault raw = none ∧ HasTooLarge interp floatOfText raw manifestFields ∧
          exc = .overflow) := by
  rw [manifestFault, Option.or_eq_some_iff]
  constructor
  · rintro ⟨hnewer | ⟨hnone, hfields⟩, hcaught⟩
    · exact Or.inl (newerFault_escapes_iff.1 ⟨hnewer, hcaught⟩)
    · obtain rfl : exc = .overflow := by
        by_contra hexc
        exact hcaught (plain_fieldsFault hfields hexc).caught
      exact Or.inr ⟨hnone, fieldsFault_overflow_iff.1 hfields, rfl⟩
  · rintro (hlater | ⟨hnone, hlarge, rfl⟩)
    · obtain ⟨hnewer, hcaught⟩ := newerFault_escapes_iff.2 hlater
      exact ⟨Or.inl hnewer, hcaught⟩
    · exact ⟨Or.inr ⟨hnone, fieldsFault_overflow_iff.2 hlarge⟩, not_caught_overflow⟩

theorem targetsFault_escapes_iff {targets : JsonValue} :
    ((fault (elements targets)).or
        (match elements targets with
        | .ok items => items.findSome? (targetFault interp floatOfText)
        | .error _ => none) = some exc ∧ ¬ Caught exc) ↔
      TargetTooLarge interp floatOfText targets ∧ exc = .overflow := by
  unfold TargetTooLarge
  cases helements : elements targets with
  | error e =>
    constructor
    · rintro ⟨h, hcaught⟩
      cases h
      exact absurd (plain_elements helements).caught hcaught
    · rintro ⟨⟨before, target, after, hitems, -⟩, -⟩
      cases hitems
  | ok items =>
    simp only [fault, Option.none_or]
    constructor
    · rintro ⟨h, hcaught⟩
      obtain ⟨before, target, after, rfl, hfault, hbefore⟩ := List.findSome?_eq_some_iff.1 h
      obtain rfl : exc = .overflow := by
        by_contra hexc
        exact hcaught (plain_targetFault hfault hexc).caught
      exact ⟨⟨before, target, after, rfl, hbefore, targetFault_overflow_iff.1 hfault⟩, rfl⟩
    · rintro ⟨⟨before, target, after, hitems, hbefore, hlarge⟩, rfl⟩
      cases hitems
      exact ⟨List.findSome?_eq_some_iff.2
        ⟨before, target, after, rfl, targetFault_overflow_iff.2 hlarge, hbefore⟩,
        not_caught_overflow⟩

/-- What the conversions raise and no clause names. -/
theorem bundleFrom_escapes_iff {targets : JsonValue} {dict : Dict PyStr PyStr} :
    (bundleFrom interp floatOfText raw targets dict = .error exc ∧ ¬ Caught exc) ↔
      (Later raw ∧ exc = .integrity) ∨
      (newerFault raw = none ∧ HasTooLarge interp floatOfText raw manifestFields ∧ exc = .overflow) ∨
      (manifestFault interp floatOfText raw = none ∧ TargetTooLarge interp floatOfText targets ∧
        exc = .overflow) := by
  rw [← fault_eq_some_iff, fault_bundleFrom, Option.or_eq_some_iff, or_and_right, and_assoc,
    manifestFault_escapes_iff, targetsFault_escapes_iff, or_assoc]

theorem readBundle_escapes_iff (hshows : Shows dest tree members)
    (hmanifest : contentAt members [lit "manifest.json"] = some bytes)
    (hraw : document interp bytes = .ok raw) :
    (readBundle interp floatOfText dest tree = .error exc ∧ ¬ Caught exc) ↔
      ReadEscapes interp floatOfText raw members exc := by
  have hfirst : readBundle interp floatOfText dest tree =
      readFile tree (dest ++ [lit "targets.json"]) >>= fun bytes => document interp bytes >>= fun targets =>
        scripts dest tree >>= fun dict => bundleFrom interp floatOfText raw targets dict := by
    unfold readBundle
    rw [(readFile_ok_iff hshows).2 hmanifest]
    simp only [bind, Except.bind, hraw]
  rw [hfirst]
  -- the files in the order in which they are read
  cases hfile : readFile tree (dest ++ [lit "targets.json"]) with
  | error e =>
    have hnone : ∀ bytes, contentAt members [lit "targets.json"] ≠ some bytes := by
      intro bytes hbytes
      rw [(readFile_ok_iff hshows).2 hbytes] at hfile
      cases hfile
    constructor
    · rintro ⟨h, hcaught⟩
      cases h
      rw [readFile_error hfile] at hcaught
      exact absurd (by decide) hcaught
    · intro h
      cases h with
      | targetsDeep htargets => exact absurd htargets (hnone _)
      | later hfiles => exact absurd hfiles.targets.choose_spec.1 (hnone _)
      | manifestNumber hfiles => exact absurd hfiles.targets.choose_spec.1 (hnone _)
      | targetNumber hfiles => exact absurd hfiles.targets.choose_spec.1 (hnone _)
  | ok targetBytes =>
    have htargets := (readFile_ok_iff hshows).1 hfile
    simp only [bind, Except.bind]
    cases hdocument : document interp targetBytes with
    | error e =>
      have hnone : ∀ targets, ¬ FilesRead interp members targets := by
        rintro targets ⟨⟨bytes', hbytes', hdocument'⟩, -⟩
        rw [htargets] at hbytes'
        cases hbytes'
        rw [hdocument] at hdocument'
        cases hdocument'
      constructor
      · rintro ⟨h, hcaught⟩
        cases h
        rcases document_error hdocument with rfl | rfl
        · exact absurd (by decide) hcaught
        · exact .targetsDeep htargets hdocument
      · intro h
        cases h with
        | targetsDeep htargets' hdocument' =>
          rw [htargets] at htargets'
          cases htargets'
          rw [hdocument] at hdocument'
          cases hdocument'
          exact ⟨rfl, by decide⟩
        | later hfiles => exact absurd hfiles (hnone _)
        | manifestNumber hfiles => exact absurd hfiles (hnone _)
        | targetNumber hfiles => exact absurd hfiles (hnone _)
    | ok targets =>
      have hdeep : ∀ bytes', contentAt members [lit "targets.json"] = some bytes' →
          document interp bytes' ≠ .error .recursion := by
        intro bytes' hbytes' herror
        rw [htargets] at hbytes'
        cases hbytes'
        rw [hdocument] at herror
        cases herror
      have hsame : ∀ targets', FilesRead interp members targets' → targets' = targets := by
        rintro targets' ⟨⟨bytes', hbytes', hdocument'⟩, -⟩
        rw [htargets] at hbytes'
        cases hbytes'
        rw [hdocument] at hdocument'
        exact (Except.ok.inj hdocument').symm
      cases hscripts : scripts dest tree with
      | error e =>
        have hnone : ¬ ScriptsRead members := by
          intro hread
          obtain ⟨dict, hdict⟩ := (scripts_ok_iff hshows).2 hread
          rw [hdict] at hscripts
          cases hscripts
        constructor
        · rintro ⟨h, hcaught⟩
          cases h
          exact absurd (caught_scripts hscripts) hcaught
        · intro h
          cases h with
          | targetsDeep htargets' hdocument' => exact absurd hdocument' (hdeep _ htargets')
          | later hfiles => exact absurd hfiles.scripts hnone
          | manifestNumber hfiles => exact absurd hfiles.scripts hnone
          | targetNumber hfiles => exact absurd hfiles.scripts hnone
      | ok dict =>
        have hfiles : FilesRead interp members targets :=
          ⟨⟨targetBytes, htargets, hdocument⟩, (scripts_ok_iff hshows).1 ⟨dict, hscripts⟩⟩
        rw [bundleFrom_escapes_iff]
        constructor
        · rintro (⟨hlater, rfl⟩ | ⟨hnewer, hlarge, rfl⟩ | ⟨hmanifest, hlarge, rfl⟩)
          · exact .later hfiles hlater
          · exact .manifestNumber hfiles hnewer hlarge
          · exact .targetNumber hfiles hmanifest hlarge
        · intro h
          cases h with
          | targetsDeep htargets' hdocument' => exact absurd hdocument' (hdeep _ htargets')
          | later _ hlater => exact Or.inl ⟨hlater, rfl⟩
          | manifestNumber _ hnewer hlarge => exact Or.inr (Or.inl ⟨hnewer, hlarge, rfl⟩)
          | targetNumber hfiles' hmanifest hlarge =>
            obtain rfl := hsame _ hfiles'
            exact Or.inr (Or.inr ⟨hmanifest, hlarge, rfl⟩)

end Escapes

/-! ## Every upload -/

section Answered

variable {dest : Path} {tree : Unzip.Tree} {members : List Member} {exc : Exc}

theorem versionOf_of_document {bytes : Bytes} {raw : JsonValue}
    (h : document interp bytes = .ok raw) :
    versionOf interp bytes = readInt interp raw (lit "schema_version") := by
  rw [versionOf, h]
  rfl

theorem document_of_versionOf {bytes : Bytes} {version : Int}
    (h : versionOf interp bytes = .ok version) : ∃ raw, document interp bytes = .ok raw := by
  obtain ⟨raw, hraw, -⟩ := bind_ok_iff.1 h
  exact ⟨raw, hraw⟩

theorem schemaVersion_of_manifestFrom {raw : JsonValue} {manifest : RunManifest}
    (h : manifestFrom interp raw = .ok manifest) :
    readInt interp raw (lit "schema_version") = .ok manifest.schemaVersion := by
  obtain ⟨v, -, h⟩ := bind_ok_iff.1 h
  obtain ⟨later, -, h⟩ := bind_ok_iff.1 h
  cases later with
  | true => cases h
  | false =>
    obtain ⟨version, hversion, h⟩ := bind_ok_iff.1 h
    rw [hversion]
    iterate 9 obtain ⟨_, -, h⟩ := bind_ok_iff.1 h
    cases h
    rfl

theorem manifestFrom_of_readBundle {bundle : RunBundle}
    (h : readBundle interp floatOfText dest tree = .ok bundle) :
    ∃ bytes raw, readFile tree (dest ++ [lit "manifest.json"]) = .ok bytes ∧
      document interp bytes = .ok raw ∧ manifestFrom interp raw = .ok bundle.manifest := by
  obtain ⟨bytes, hbytes, h⟩ := bind_ok_iff.1 h
  obtain ⟨raw, hraw, h⟩ := bind_ok_iff.1 h
  obtain ⟨targetBytes, -, h⟩ := bind_ok_iff.1 h
  obtain ⟨targetsRaw, -, h⟩ := bind_ok_iff.1 h
  obtain ⟨dict, -, h⟩ := bind_ok_iff.1 h
  obtain ⟨manifest, hmanifest, h⟩ := bind_ok_iff.1 h
  obtain ⟨items, -, h⟩ := bind_ok_iff.1 h
  obtain ⟨targets, -, h⟩ := bind_ok_iff.1 h
  cases h
  exact ⟨bytes, raw, hbytes, hraw, hmanifest⟩

theorem checkSchemaVersion_of_file {bytes : Bytes}
    (h : tree.get? (dest ++ [lit "manifest.json"]) = some (.file bytes)) :
    checkSchemaVersion interp dest tree =
      match versionOf interp bytes with
      | .ok version =>
        if bundleSchemaVersion < version then .error (.apiError (.newerSchema version)) else .ok ()
      | .error exc =>
        if exc ∈ [Exc.value, .type, .key] then .error (.apiError (.manifestUnreadable exc))
        else .error (.escaped exc) := by
  rw [checkSchemaVersion, h]

theorem supported_of_readExtracted {bundle : RunBundle}
    (h : readExtracted interp floatOfText dest tree = .ok bundle) :
    bundle.manifest.schemaVersion ≤ bundleSchemaVersion := by
  obtain ⟨_, hcheck, h⟩ := bind_ok_iff.1 h
  have hread : readBundle interp floatOfText dest tree = .ok bundle := by
    split at h
    · rename_i heq
      cases h
      exact heq
    · split at h <;> cases h
  obtain ⟨bytes, raw, hbytes, hraw, hmanifest⟩ := manifestFrom_of_readBundle hread
  have hfile : tree.get? (dest ++ [lit "manifest.json"]) = some (.file bytes) := by
    unfold readFile at hbytes
    split at hbytes <;> cases hbytes
    assumption
  rw [checkSchemaVersion_of_file hfile, versionOf_of_document hraw,
    schemaVersion_of_manifestFrom hmanifest] at hcheck
  by_contra hlater
  simp only [if_pos (not_le.1 hlater)] at hcheck
  cases hcheck

theorem checkSchemaVersion_ok_iff :
    checkSchemaVersion interp dest tree = .ok () ↔
      ∃ bytes version, tree.get? (dest ++ [lit "manifest.json"]) = some (.file bytes) ∧
        versionOf interp bytes = .ok version ∧ version ≤ bundleSchemaVersion := by
  constructor
  · intro h
    unfold checkSchemaVersion at h
    split at h
    · rename_i bytes hplace
      split at h
      · rename_i version hversion
        split at h
        · cases h
        · rename_i hle
          exact ⟨bytes, version, hplace, hversion, not_lt.1 hle⟩
      · split at h <;> cases h
    · cases h
  · rintro ⟨bytes, version, hplace, hversion, hle⟩
    rw [checkSchemaVersion_of_file hplace, hversion]
    exact if_neg (not_lt.2 hle)

theorem checkSchemaVersion_escaped_iff :
    checkSchemaVersion interp dest tree = .error (.escaped exc) ↔
      ∃ bytes, tree.get? (dest ++ [lit "manifest.json"]) = some (.file bytes) ∧
        VersionEscapes interp bytes exc := by
  constructor
  · intro h
    unfold checkSchemaVersion at h
    split at h
    · rename_i bytes hplace
      refine ⟨bytes, hplace, versionOf_escapes_iff.1 ?_⟩
      split at h
      · split at h <;> cases h
      · rename_i exc' hversion
        split at h
        · cases h
        · rename_i hmem
          cases h
          exact ⟨hversion, fun hplain => hmem (plain_iff_mem.2 hplain)⟩
    · cases h
  · rintro ⟨bytes, hplace, hescapes⟩
    obtain ⟨hversion, hplain⟩ := versionOf_escapes_iff.2 hescapes
    rw [checkSchemaVersion_of_file hplace, hversion]
    exact if_neg fun hmem => hplain (plain_iff_mem.1 hmem)

theorem readExtracted_of_check (hcheck : checkSchemaVersion interp dest tree = .ok ()) :
    readExtracted interp floatOfText dest tree = .error (.escaped exc) ↔
      readBundle interp floatOfText dest tree = .error exc ∧ ¬ Caught exc := by
  rw [readExtracted, hcheck]
  simp only [bind, Except.bind]
  cases readBundle interp floatOfText dest tree with
  | ok bundle => exact ⟨fun h => (by cases h), fun h => (by cases h.1)⟩
  | error e =>
    by_cases hcaught : Caught e
    · simp only [if_pos hcaught]
      refine ⟨fun h => (by cases h), ?_⟩
      rintro ⟨h, hnot⟩
      cases h
      exact absurd hcaught hnot
    · simp only [if_neg hcaught]
      constructor
      · intro h
        cases h
        exact ⟨rfl, hcaught⟩
      · rintro ⟨h, -⟩
        cases h
        rfl

/-- What escapes from the directory, by the members that were extracted into it. -/
theorem readExtracted_escapes_iff (hshows : Shows dest tree members) :
    readExtracted interp floatOfText dest tree = .error (.escaped exc) ↔
      Escapes interp floatOfText members exc := by
  have hfile : ∀ bytes, tree.get? (dest ++ [lit "manifest.json"]) = some (.file bytes) ↔
      contentAt members [lit "manifest.json"] = some bytes := fun bytes => hshows.file _ bytes
  constructor
  · intro h
    cases hcheck : checkSchemaVersion interp dest tree with
    | error raised =>
      rw [readExtracted, hcheck] at h
      cases h
      obtain ⟨bytes, hplace, hescapes⟩ := checkSchemaVersion_escaped_iff.1 hcheck
      exact ⟨bytes, (hfile bytes).1 hplace, Or.inl hescapes⟩
    | ok _ =>
      obtain ⟨bytes, version, hplace, hversion, hle⟩ := checkSchemaVersion_ok_iff.1 hcheck
      obtain ⟨raw, hraw⟩ := document_of_versionOf hversion
      have hread := (readExtracted_of_check hcheck).1 h
      exact ⟨bytes, (hfile bytes).1 hplace, Or.inr ⟨raw, version, hraw, hversion, hle,
        (readBundle_escapes_iff hshows ((hfile bytes).1 hplace) hraw).1 hread⟩⟩
  · rintro ⟨bytes, hbytes, hversion | ⟨raw, version, hraw, hversion, hle, hescapes⟩⟩
    · have hcheck := checkSchemaVersion_escaped_iff.2 ⟨bytes, (hfile bytes).2 hbytes, hversion⟩
      rw [readExtracted, hcheck]
      rfl
    · have hcheck := checkSchemaVersion_ok_iff.2 ⟨bytes, version, (hfile bytes).2 hbytes, hversion, hle⟩
      exact (readExtracted_of_check hcheck).2 ((readBundle_escapes_iff hshows hbytes hraw).2 hescapes)

/-! ## The answers -/

/-- The upload is answered, and nothing is written outside the directory. -/
structure Answered (dest : Path) (result : Unzip.Tree × Except Raised RunBundle) : Prop where
  inside : Inside dest result.1
  answer : (∃ bundle, result.2 = .ok bundle ∧ bundle.manifest.schemaVersion ≤ bundleSchemaVersion) ∨
    ∃ refusal, result.2 = .error (.apiError refusal)

/-- The archive gets as far as its extraction. -/
structure Admitted (dest : Path) (members : List Member) : Prop where
  count : members.length ≤ maxMembers
  declared : (members.map Member.fileSize).sum ≤ maxDeclaredBytes
  safe : ∀ m ∈ members, m.isSafe dest = true

variable (interp floatOfText)

/-- Nothing but the API's own exceptions is raised: the archive is no archive or can be opened, what
gets as far as the extraction can be extracted, and nothing in its documents escapes. -/
structure Gentle (dest : Path) (archive : Bytes → Except ZipFault (List Member))
    (accepts : Path → Bool) (data : Bytes) : Prop where
  opens : ∀ zipFault, archive data = .error zipFault → zipFault = .badZipFile
  extracts : ∀ members, archive data = .ok members → Admitted dest members →
    Extractable accepts dest members
  reads : ∀ members, archive data = .ok members → Admitted dest members →
    ∀ exc, ¬ Escapes interp floatOfText members exc

variable {interp floatOfText} {archive : Bytes → Except ZipFault (List Member)}
  {accepts : Path → Bool} {data : Bytes}

/-- An archive that is not admitted is refused before anything is written. -/
theorem parseBundleZip_not_admitted (hmembers : archive data = .ok members)
    (hnot : ¬ Admitted dest members) :
    ∃ refusal, parseBundleZip interp floatOfText dest archive accepts data =
      (.empty, .error (.apiError refusal)) := by
  rw [parseBundleZip, hmembers]
  by_cases hlarge : maxMembers < members.length ∨ maxDeclaredBytes < (members.map Member.fileSize).sum
  · refine ⟨.tooLarge members.length (members.map Member.fileSize).sum, ?_⟩
    simp only [if_pos hlarge]
  · simp only [if_neg hlarge]
    cases hfind : members.find? fun m => !m.isSafe dest with
    | some m => exact ⟨_, rfl⟩
    | none =>
      push Not at hlarge
      refine absurd ⟨hlarge.1, hlarge.2, fun m hm => ?_⟩ hnot
      simpa using List.find?_eq_none.1 hfind m hm

theorem parseBundleZip_admitted (hmembers : archive data = .ok members)
    (h : Admitted dest members) :
    parseBundleZip interp floatOfText dest archive accepts data =
      match extractAll accepts dest .empty members with
      | (tree, some exc) => (tree, .error (.escaped exc))
      | (tree, none) => (tree, readExtracted interp floatOfText dest tree) := by
  have hsmall : ¬ (maxMembers < members.length ∨
      maxDeclaredBytes < (members.map Member.fileSize).sum) :=
    not_or.2 ⟨not_lt.2 h.count, not_lt.2 h.declared⟩
  have hfind : (members.find? fun m => !m.isSafe dest) = none :=
    List.find?_eq_none.2 fun m hm => by simpa using h.safe m hm
  rw [parseBundleZip, hmembers]
  simp only [if_neg hsmall, hfind]

theorem inside_parseBundleZip :
    Inside dest (parseBundleZip interp floatOfText dest archive accepts data).1 := by
  have hextracted : ∀ members, Inside dest (extractAll accepts dest Dict.empty members).1 :=
    fun members => inside_empty.extractAll
  unfold parseBundleZip
  split
  · exact inside_empty
  · exact inside_empty
  · rename_i members hmembers
    simp only
    split
    · exact inside_empty
    · split
      · exact inside_empty
      · have hinside := hextracted members
        split <;> rename_i heq <;> rw [heq] at hinside <;> exact hinside

/-- What `readExtracted` gives, unless something escapes. -/
theorem answer_readExtracted :
    ((∃ bundle, readExtracted interp floatOfText dest tree = .ok bundle ∧
        bundle.manifest.schemaVersion ≤ bundleSchemaVersion) ∨
      ∃ refusal, readExtracted interp floatOfText dest tree = .error (.apiError refusal)) ↔
      ∀ exc, readExtracted interp floatOfText dest tree ≠ .error (.escaped exc) := by
  cases hread : readExtracted interp floatOfText dest tree with
  | ok bundle =>
    exact ⟨fun _ exc h => (by cases h),
      fun _ => Or.inl ⟨bundle, rfl, supported_of_readExtracted hread⟩⟩
  | error raised =>
    cases raised with
    | apiError refusal => exact ⟨fun _ exc h => (by cases h), fun _ => Or.inr ⟨refusal, rfl⟩⟩
    | escaped exc =>
      refine ⟨?_, fun h => absurd rfl (h exc)⟩
      rintro (⟨bundle, h, -⟩ | ⟨refusal, h⟩)
      · cases h
      · cases h

/-- An upload is answered exactly when it is gentle. -/
theorem upload_answered_iff :
    Answered dest (parseBundleZip interp floatOfText dest archive accepts data) ↔
      Gentle interp floatOfText dest archive accepts data := by
  cases harchive : archive data with
  | error zipFault =>
    have hvacuous : Gentle interp floatOfText dest archive accepts data ↔ zipFault = .badZipFile := by
      refine ⟨fun h => h.opens zipFault harchive, fun h => ⟨?_, ?_, ?_⟩⟩
      · intro other hother
        rw [harchive] at hother
        cases hother
        exact h
      · intro members hmembers
        rw [harchive] at hmembers
        cases hmembers
      · intro members hmembers
        rw [harchive] at hmembers
        cases hmembers
    rw [hvacuous]
    constructor
    · intro h
      have hanswer := h.answer
      rw [parseBundleZip, harchive] at hanswer
      cases zipFault with
      | badZipFile => rfl
      | notImplemented =>
        rcases hanswer with ⟨bundle, hok, -⟩ | ⟨refusal, hrefused⟩
        · cases hok
        · cases hrefused
      | runtimeError =>
        rcases hanswer with ⟨bundle, hok, -⟩ | ⟨refusal, hrefused⟩
        · cases hok
        · cases hrefused
    · rintro rfl
      refine ⟨inside_parseBundleZip, Or.inr ⟨.notAnArchive, ?_⟩⟩
      rw [parseBundleZip, harchive]
  | ok members =>
    have hsame : ∀ members', archive data = .ok members' → members' = members := by
      intro members' hmembers'
      rw [harchive] at hmembers'
      exact (Except.ok.inj hmembers').symm
    have hopens : ∀ zipFault, archive data = .error zipFault → zipFault = .badZipFile := by
      intro zipFault herror
      rw [harchive] at herror
      cases herror
    by_cases hadmitted : Admitted dest members
    · have hgentle : Gentle interp floatOfText dest archive accepts data ↔
          Extractable accepts dest members ∧ ∀ exc, ¬ Escapes interp floatOfText members exc := by
        constructor
        · exact fun h => ⟨h.extracts members harchive hadmitted, h.reads members harchive hadmitted⟩
        · rintro ⟨hextractable, hreads⟩
          refine ⟨hopens, fun members' h' _ => ?_, fun members' h' _ => ?_⟩
          · rw [hsame members' h']
            exact hextractable
          · rw [hsame members' h']
            exact hreads
      have hanswered : Answered dest (parseBundleZip interp floatOfText dest archive accepts data) ↔
          _ := ⟨Answered.answer, Answered.mk inside_parseBundleZip⟩
      rw [hgentle, hanswered, parseBundleZip_admitted harchive hadmitted, ← extractAll_ok_iff]
      cases hextract : extractAll accepts dest Dict.empty members with
      | mk tree raised =>
        cases raised with
        | some exc =>
          constructor
          · rintro (⟨bundle, h, -⟩ | ⟨refusal, h⟩)
            · cases h
            · cases h
          · rintro ⟨h, -⟩
            cases h
        | none =>
          have hshows :=
            extractAll_shows (by rw [hextract] : (extractAll accepts dest Dict.empty members).2 = none)
          rw [hextract] at hshows
          refine answer_readExtracted.trans ?_
          rw [and_iff_right rfl]
          exact forall_congr' fun exc => not_congr (readExtracted_escapes_iff hshows)
    · obtain ⟨refusal, hrefused⟩ :
          ∃ refusal, parseBundleZip interp floatOfText dest archive accepts data =
            (.empty, .error (.apiError refusal)) := parseBundleZip_not_admitted harchive hadmitted
      constructor
      · refine fun _ => ⟨hopens, fun members' h' h => ?_, fun members' h' h => ?_⟩
        · rw [hsame members' h'] at h
          exact absurd h hadmitted
        · rw [hsame members' h'] at h
          exact absurd h hadmitted
      · refine fun _ => ⟨inside_parseBundleZip, Or.inr ⟨refusal, ?_⟩⟩
        rw [hrefused]

end Answered

end Conversions

/-- An archive with one member, `a`, whose checksum is wrong. -/
def damagedArchive : Bytes :=
  [80, 75, 3, 4, 20, 0, 0, 0, 0, 0, 0, 0, 33, 0, 131, 22, 220, 140, 1, 0, 0, 0, 1, 0, 0, 0, 1, 0,
    0, 0, 97, 121, 80, 75, 1, 2, 20, 3, 20, 0, 0, 0, 0, 0, 0, 0, 33, 0, 131, 22, 220, 140, 1, 0,
    0, 0, 1, 0, 0, 0, 1, 0, 0, 0, 0, 0, 0, 0, 0, 0, 0, 0, 128, 1, 0, 0, 0, 0, 97, 80, 75, 5, 6,
    0, 0, 0, 0, 1, 0, 1, 0, 47, 0, 0, 0, 32, 0, 0, 0, 0, 0]

/-- What `zipfile` makes of the damaged archive. -/
def damagedMembers (data : Bytes) : Except ZipFault (List Member) :=
  if data = damagedArchive then .ok [⟨lit "a", 1, .ok (.error .badZipFile)⟩] else .error .badZipFile

/-- The checksum is found to be wrong by `extractall`, outside of every clause. -/
theorem checksum_escapes :
    ¬ ∀ (interp : Interpreter) (floatOfText : PyStr → Option PyFloat) (dest : Path)
        (archive : Bytes → Except ZipFault (List Member)) (accepts : Path → Bool) (data : Bytes),
        Answered dest (parseBundleZip interp floatOfText dest archive accepts data) := by
  intro h
  have hanswer := (h bareInterpreter (fun _ => none) [lit "tmp", lit "tempest-bundle-x"] damagedMembers
    (fun _ => true) damagedArchive).answer
  have hraised : (parseBundleZip bareInterpreter (fun _ => none) [lit "tmp", lit "tempest-bundle-x"]
      damagedMembers (fun _ => true) damagedArchive).2 = .error (.escaped (.zip .badZipFile)) := by
    rfl
  rw [hraised] at hanswer
  rcases hanswer with ⟨bundle, hok, -⟩ | ⟨refusal, hrefused⟩
  · cases hok
  · cases hrefused

end Upload
end Tempest
