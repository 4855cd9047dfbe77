import Tempest.Python.Convert
import Tempest.Python.JsonLines

/-!
# Settings — `settings.json` under the environment (`settings.py`)

`load_settings` reads the file of the data directory, `_with_env` lays the environment over it, and
`load_effective_or_defaults` takes the defaults for a file that is refused with a `SettingsError`.
What else can be raised on the way (`Exc`) is not caught.
-/

namespace Tempest
namespace SettingsJson

open Python

def slash : CodePoint := codePoint 0x2F

/-! ## Settings and what is wrong with them -/

structure Settings where
  syncServerUrl : Option PyStr := none
  syncShareSource : Bool := false
  bundleBudgetBytes : Int := 0
  telemetryEnabled : Bool := false
  deriving DecidableEq

/-- The settings that a variable of the environment outranks. -/
inductive Field where
  | syncServerUrl
  | syncShareSource
  | bundleBudgetBytes
  | telemetryEnabled
  deriving DecidableEq

def Field.all : List Field := [.syncServerUrl, .syncShareSource, .bundleBudgetBytes, .telemetryEnabled]

def Field.name : Field → PyStr
  | .syncServerUrl => lit "sync_server_url"
  | .syncShareSource => lit "sync_share_source"
  | .bundleBudgetBytes => lit "bundle_budget_bytes"
  | .telemetryEnabled => lit "telemetry_enabled"

/-- `SettingsError`, with what its message shows. -/
inductive SettingsError where
  | unreadable
  | notJson (why : LoadsError)
  | notObject
  | versionType
  | newer (version : Int)
  | unknown (keys : List PyStr)
  | wrongType (key : PyStr)
  | budget (n : Int)
  | url (value : PyStr)
  deriving DecidableEq

inductive Exc where
  | settings (e : SettingsError)
  | unicodeDecode
  | recursion
  /-- The `RuntimeError` of `Path.home()`. -/
  | noHome
  deriving DecidableEq

inductive FileState where
  | absent
  /-- An `OSError` while it is read. -/
  | unreadable
  | bytes (content : Bytes)

/-- What the functions look at: the home directory is asked for whether or not it is needed. -/
structure World where
  home : Bool
  file : FileState
  env : Field → Option PyStr

/-! ## Validation -/

def maxBundleBudgetBytes : Int := 2147483647

def schemaVersion : Int := 1

/-- `value.strip().rstrip("/")`. -/
def trimmed (value : PyStr) : PyStr := (strip value).rdropWhile fun c => c = slash

def hasScheme (s : PyStr) : Bool := (lit "http://").isPrefixOf s || (lit "https://").isPrefixOf s

def normalizedUrl : Option PyStr → Except SettingsError (Option PyStr)
  | none => .ok none
  | some value =>
    if trimmed value = [] then .ok none
    else if hasScheme (trimmed value) then .ok (some (trimmed value))
    else .error (.url value)

def inBudget (n : Int) : Bool := 0 ≤ n && n ≤ maxBundleBudgetBytes

def validated (s : Settings) : Except SettingsError Settings :=
  if inBudget s.bundleBudgetBytes then
    (normalizedUrl s.syncServerUrl).map fun url => { s with syncServerUrl := url }
  else .error (.budget s.bundleBudgetBytes)

/-! ## The file -/

/-- The body of the loop over the items of the document. -/
def setField (s : Settings) (item : PyStr × JsonValue) : Except SettingsError Settings :=
  if item.1 = Field.syncServerUrl.name then
    match item.2 with
    | .null => .ok { s with syncServerUrl := none }
    | .str url => .ok { s with syncServerUrl := some url }
    | _ => .error (.wrongType item.1)
  else if item.1 = Field.bundleBudgetBytes.name then
    match item.2 with
    | .int n => .ok { s with bundleBudgetBytes := n }
    | _ => .error (.wrongType item.1)
  else
    match item.2 with
    | .bool b =>
      if item.1 = Field.syncShareSource.name then .ok { s with syncShareSource := b }
      else .ok { s with telemetryEnabled := b }
    | _ => .error (.wrongType item.1)

def isSetting (key : PyStr) : Bool := Field.all.any fun field => field.name = key

def settingsOf (document : List (PyStr × JsonValue)) : Except SettingsError Settings :=
  match (Dict.find (lit "version") document).getD (.int schemaVersion) with
  | .int version =>
    let rest := document.filter fun item => item.1 ≠ lit "version"
    let unknown := (rest.map Prod.fst).filter fun key => !isSetting key
    if schemaVersion < version then .error (.newer version)
    else if unknown ≠ [] then .error (.unknown (unknown.insertionSort (· ≤ ·)))
    else rest.foldlM setField {}
  | _ => .error .versionType

section Load

variable (interp : Interpreter)

def storedSettings (text : PyStr) : Except Exc Settings :=
  match loads interp text with
  | .ok (.obj document) => (settingsOf document).mapError .settings
  | .ok _ => .error (.settings .notObject)
  | .error .tooDeep => .error .recursion
  | .error why => .error (.settings (.notJson why))

/-- `load_settings` behind `path.read_text(encoding="utf-8")`. -/
def loadFile : FileState → Except Exc Settings
  | .absent => .ok {}
  | .unreadable => .error (.settings .unreadable)
  | .bytes content =>
    match decodeUtf8 content with
    | none => .error .unicodeDecode
    | some text => do
      let stored ← storedSettings interp (universalNewlines text)
      (validated stored).mapError .settings

def loadSettings (w : World) : Except Exc Settings :=
  if w.home then loadFile interp w.file else .error .noHome

/-! ## The environment -/

/-- `_env_override` of the URL. -/
def envUrl (w : World) : Except SettingsError (Option PyStr) := normalizedUrl (w.env .syncServerUrl)

/-- `_env_override` of the budget. -/
def envBudget (w : World) : Option Int :=
  ((w.env .bundleBudgetBytes).bind interp.intOfText).filter fun n => inBudget n

/-- `_env_override` of a switch. -/
def envFlag (w : World) (field : Field) : Option Bool := (w.env field).map fun raw => raw = lit "1"

/-- `_with_env`: the settings, and the fields that the environment forces. -/
def withEnv (w : World) (stored : Settings) : Except SettingsError (Settings × List Field) := do
  let url ← envUrl w
  let share := envFlag w .syncShareSource
  let budget := envBudget interp w
  let telemetry := envFlag w .telemetryEnabled
  return ({ syncServerUrl := url.or stored.syncServerUrl
            syncShareSource := share.getD stored.syncShareSource
            bundleBudgetBytes := budget.getD stored.bundleBudgetBytes
            telemetryEnabled := telemetry.getD stored.telemetryEnabled },
    Field.all.filter fun
      | .syncServerUrl => url.isSome
      | .syncShareSource => share.isSome
      | .bundleBudgetBytes => budget.isSome
      | .telemetryEnabled => telemetry.isSome)

def effectiveSettings (w : World) : Except Exc (Settings × List Field) := do
  let stored ← loadSettings interp w
  (withEnv interp w stored).mapError .settings

def loadEffectiveOrDefaults (w : World) : Except Exc Settings := do
  let stored ← match loadSettings interp w with
    | .ok stored => pure stored
    | .error (.settings _) => pure {}
    | .error e => .error e
  let effective ← (withEnv interp w stored).mapError .settings
  return effective.1

end Load

/-! ## Saving -/

def Settings.payload (s : Settings) : List (PyStr × Json) :=
  [(lit "version", .int schemaVersion), (Field.syncServerUrl.name, s.syncServerUrl.elim .null .str),
    (Field.syncShareSource.name, .bool s.syncShareSource),
    (Field.bundleBudgetBytes.name, .int s.bundleBudgetBytes),
    (Field.telemetryEnabled.name, .bool s.telemetryEnabled)]

/-- `json.dumps(fields, indent=2, sort_keys=True)` of fields that do not nest. -/
def dumpsIndented (fields : List (PyStr × Json)) : PyStr :=
  openObj :: (lit "\n  " ++ (join (comma :: lit "\n  ") ((sortByKey fields).map fieldText) ++
    (lit "\n" ++ [closeObj])))

/-- What `save_settings` leaves in the file. -/
def saveSettings (s : Settings) : Except SettingsError FileState := do
  let checked ← validated s
  return .bytes (utf8 (dumpsIndented checked.payload ++ lit "\n"))

/-! ## What is promised -/

section Promise

variable (interp : Interpreter) (w : World)

def base : Settings :=
  match loadSettings interp w with
  | .ok stored => stored
  | .error _ => {}

def validEnvUrl : Option PyStr :=
  match envUrl w with
  | .ok url => url
  | .error _ => none

/-- The environment outranks the file, the file the defaults. -/
structure Lawful (effective : Settings) : Prop where
  url : effective.syncServerUrl = (validEnvUrl w).or (base interp w).syncServerUrl
  share : effective.syncShareSource = (envFlag w .syncShareSource).getD (base interp w).syncShareSource
  budget : effective.bundleBudgetBytes = (envBudget interp w).getD (base interp w).bundleBudgetBytes
  telemetry :
    effective.telemetryEnabled = (envFlag w .telemetryEnabled).getD (base interp w).telemetryEnabled
  inRange : inBudget effective.bundleBudgetBytes = true
  normal : normalizedUrl effective.syncServerUrl = .ok effective.syncServerUrl

structure SettingsHold (s : Settings) : Prop where
  total : ∃ effective, loadEffectiveOrDefaults interp w = .ok effective ∧ Lawful interp w effective
  fileOnly : ∀ exc, effectiveSettings interp w = .error exc →
    (∃ e, exc = .settings e) ∧ loadSettings interp w = .error exc
  savedBack : ∀ checked file, validated s = .ok checked → saveSettings s = .ok file →
    loadSettings interp { w with file := file } = .ok checked

def Settled (url : PyStr) : Prop := ∀ h : trimmed url ≠ [], Python.isSpace ((trimmed url).getLast h) = false

structure SettingsClear (s : Settings) : Prop where
  home : w.home = true
  readable : ∀ content, w.file = .bytes content →
    ∃ text, decodeUtf8 content = some text ∧ loads interp (universalNewlines text) ≠ .error .tooDeep
  envUrl : ∀ raw, w.env .syncServerUrl = some raw →
    trimmed raw = [] ∨ hasScheme (trimmed raw) = true ∧ Settled raw
  fileUrl : (∀ raw, w.env .syncServerUrl = some raw → trimmed raw = []) →
    ∀ content text stored checked url, w.file = .bytes content → decodeUtf8 content = some text →
      storedSettings interp (universalNewlines text) = .ok stored → validated stored = .ok checked →
        stored.syncServerUrl = some url → Settled url
  savedUrl : ∀ checked url, validated s = .ok checked → s.syncServerUrl = some url →
    Settled url ∧ noSplitPair (trimmed url) = true

end Promise

/-! ## URLs -/

theorem trimmed_ne_nil {s : PyStr} (h : hasScheme s = true) : s ≠ [] := by
  rintro rfl
  exact absurd h (by decide)

theorem hasScheme_head {s : PyStr} (h : hasScheme s = true) : ∃ rest, s = codePoint 0x68 :: rest := by
  rw [hasScheme, Bool.or_eq_true, List.isPrefixOf_iff_prefix, List.isPrefixOf_iff_prefix] at h
  rcases h with ⟨rest, rfl⟩ | ⟨rest, rfl⟩
  · exact ⟨_, rfl⟩
  · exact ⟨_, rfl⟩

theorem normalizedUrl_eq_some {value url : PyStr} :
    normalizedUrl (some value) = .ok (some url) ↔ hasScheme (trimmed value) = true ∧
      url = trimmed value := by
  rw [normalizedUrl]
  split_ifs with hnil hscheme
  · constructor
    · intro h
      cases h
    · rintro ⟨hscheme, _⟩
      exact absurd hnil (trimmed_ne_nil hscheme)
  · simp [hscheme, eq_comm]
  · simp [hscheme]

theorem normalizedUrl_eq_none {value : PyStr} :
    normalizedUrl (some value) = .ok none ↔ trimmed value = [] := by
  rw [normalizedUrl]
  split_ifs with hnil hscheme <;> simp [hnil]

/-- Trimming what is left a second time takes the blanks behind which the slashes stood. -/
theorem trimmed_trimmed {url : PyStr} (h : hasScheme (trimmed url) = true) :
    trimmed (trimmed url) = trimmed url ↔ Settled url := by
  obtain ⟨rest, hhead⟩ := hasScheme_head h
  have hfront : (trimmed url).dropWhile Python.isSpace = trimmed url := by
    rw [hhead]
    exact List.dropWhile_cons_of_neg (by decide)
  have hslash : (trimmed url).rdropWhile (fun c => decide (c = slash)) = trimmed url :=
    List.rdropWhile_idempotent _ _
  have hsettled : (trimmed url).rdropWhile Python.isSpace = trimmed url ↔ Settled url := by
    rw [List.rdropWhile_eq_self_iff]
    simp only [Settled, Bool.not_eq_true]
  rw [← hsettled]
  have hagain : trimmed (trimmed url) =
      ((trimmed url).rdropWhile Python.isSpace).rdropWhile fun c => decide (c = slash) := by
    rw [trimmed, strip, stripBy, hfront]
  rw [hagain]
  constructor
  · intro heq
    refine (List.rdropWhile_prefix _ _).eq_of_length_le ?_
    calc (trimmed url).length
        = (((trimmed url).rdropWhile Python.isSpace).rdropWhile fun c =>
          decide (c = slash)).length := by rw [heq]
      _ ≤ ((trimmed url).rdropWhile Python.isSpace).length := (List.rdropWhile_prefix _ _).length_le
  · intro heq
    rw [heq, hslash]

theorem normalizedUrl_trimmed {url : PyStr} (h : hasScheme (trimmed url) = true) :
    normalizedUrl (some (trimmed url)) = .ok (some (trimmed url)) ↔ Settled url := by
  rw [normalizedUrl_eq_some, ← trimmed_trimmed h]
  constructor
  · intro hnormal
    exact hnormal.2.symm
  · intro heq
    rw [heq]
    exact ⟨h, rfl⟩

/-! ## Reading back what was saved -/

variable {checked s : Settings}

theorem validated_eq_ok : validated s = .ok checked ↔
    inBudget s.bundleBudgetBytes = true ∧
      ∃ url, normalizedUrl s.syncServerUrl = .ok url ∧ checked = { s with syncServerUrl := url } := by
  rw [validated]
  split_ifs with hbudget
  · cases hurl : normalizedUrl s.syncServerUrl with
    | ok url => simp [hbudget, Except.map, eq_comm]
    | error e => simp [Except.map]
  · simp [hbudget]

/-- The fields of the file in the order of their keys. -/
def Settings.sortedPayload (s : Settings) : List (PyStr × Json) :=
  [(Field.bundleBudgetBytes.name, .int s.bundleBudgetBytes),
    (Field.syncServerUrl.name, s.syncServerUrl.elim .null .str),
    (Field.syncShareSource.name, .bool s.syncShareSource),
    (Field.telemetryEnabled.name, .bool s.telemetryEnabled), (lit "version", .int schemaVersion)]

theorem sortByKey_payload (s : Settings) : sortByKey s.payload = s.sortedPayload := rfl

variable {interp : Interpreter}

theorem loads_dumpsIndented {fields : List (PyStr × Json)} (hne : sortByKey fields ≠ [])
    (hlong : ∀ p ∈ fields, p.2.hasLongInt = false) (hflat : ∀ p ∈ fields, p.2.height = 0) :
    loads interp (dumpsIndented fields ++ lit "\n") =
      .ok (.obj (assignAll ((sortByKey fields).map fun p => (p.1, p.2.wire)) [])) := by
  have hblanks : ∀ c ∈ lit "\n  ", isJsonSpace c = true := List.all_eq_true.1 rfl
  have hends : ∀ c ∈ lit "\n", isJsonSpace c = true := List.all_eq_true.1 rfl
  have hroom : ¬ interp.depth ≤ 0 := by
    have := interp.roomy
    omega
  have hreads : ∀ p ∈ sortByKey fields, ∀ stack,
      Python.Reads interp stack (dumpsSorted p.2) p.2.height p.2.wire :=
    fun p hp => reads_dumpsSorted p.2 (hlong p (mem_sortByKey.1 hp))
  have hrun := @run_fields interp [] _ hne hreads _ (.inl rfl) _ _ hblanks hends [] []
  have hopen : Machine.step interp ⟨[], .value⟩ openObj = .ok ⟨[.obj [] []], .firstKey⟩ :=
    step_openObj.trans (if_neg hroom)
  have hfirst := @run_blanks interp [.obj [] []] _ hblanks _ (.inr (.inl rfl))
  have hheight : fieldsHeight (sortByKey fields) = 0 :=
    Nat.le_zero.1 (fieldsHeight_le_iff.2 fun p hp => (hflat p (mem_sortByKey.1 hp)).le)
  have hdone : Machine.run interp ⟨[], .value⟩ (dumpsIndented fields) =
      .ok ⟨[], .after (.obj (assignAll ((sortByKey fields).map fun p => (p.1, p.2.wire)) []))⟩ := by
    rw [dumpsIndented, run_cons hopen, run_append_ok hfirst]
    rcases hrun with ⟨hdeep, _⟩ | hrun
    · rw [hheight, List.length_nil] at hdeep
      exact absurd (Nat.lt_succ_iff.1 hdeep) hroom
    · exact hrun
  rw [loads, run_append_ok hdone]
  rfl

theorem dumpsIndented_plain {fields : List (PyStr × Json)} {c : CodePoint}
    (h : c ∈ dumpsIndented fields ++ lit "\n") : AsciiPlain c ∨ c = lineFeed := by
  have hblanks : ∀ c ∈ lit "\n  ", AsciiPlain c ∨ c = lineFeed := by
    intro c hc
    have hall : (lit "\n  ").all (fun c => decide (AsciiPlain c) || c = lineFeed) = true := rfl
    simpa using List.all_eq_true.1 hall c hc
  have hfeed : ∀ c ∈ lit "\n", AsciiPlain c ∨ c = lineFeed := fun c hc => .inr (List.mem_singleton.1 hc)
  have hmark : AsciiPlain openObj ∧ AsciiPlain closeObj ∧ AsciiPlain comma := by decide
  rw [dumpsIndented, List.cons_append, List.mem_cons, List.mem_append, List.mem_append, List.mem_append,
    List.mem_append, List.mem_singleton] at h
  rcases h with rfl | (hc | hc | hc | rfl) | hc
  · exact .inl hmark.1
  · exact hblanks c hc
  · rcases mem_join hc with hsep | ⟨part, hpart, hc⟩
    · rcases List.mem_cons.1 hsep with rfl | hsep
      · exact .inl hmark.2.2
      · exact hblanks c hsep
    · obtain ⟨p, _, rfl⟩ := List.mem_map.1 hpart
      refine .inl (plain_append (plain_append (plain_jsonStr p.1) ?_) (plain_dumpsSorted p.2) c hc)
      exact plain_of_all rfl
  · exact hfeed c hc
  · exact .inl hmark.2.1
  · exact hfeed c hc

theorem settingsOf_saved (s : Settings) :
    settingsOf (assignAll (s.sortedPayload.map fun p => (p.1, p.2.wire)) []) =
      .ok { s with syncServerUrl := s.syncServerUrl.map wireText } := by
  obtain ⟨url, share, budget, telemetry⟩ := s
  cases url with
  | none | some _ => rfl

theorem schemaVersion_short : intTooLong schemaVersion = false := by
  simp [intTooLong, schemaVersion, maxStrDigits]

theorem intTooLong_of_inBudget {n : Int} (h : inBudget n = true) : intTooLong n = false := by
  rw [inBudget, Bool.and_eq_true, decide_eq_true_iff, decide_eq_true_iff, maxBundleBudgetBytes] at h
  have hdigits : (Nat.digits 10 n.natAbs).length ≤ 10 := by
    rw [Nat.digits_length_le_iff (by decide)]
    omega
  rw [intTooLong, decide_eq_false_iff_not, maxStrDigits]
  omega

/-- What was saved is read, its URL as JSON carries it, and validated. -/
theorem loadFile_saved (h : inBudget s.bundleBudgetBytes = true) :
    loadFile interp (.bytes (utf8 (dumpsIndented s.payload ++ lit "\n"))) =
      (validated { s with syncServerUrl := s.syncServerUrl.map wireText }).mapError .settings := by
  have hencodable : encodable (dumpsIndented s.payload ++ lit "\n") = true := by
    refine List.all_eq_true.2 fun c hc => ?_
    rcases dumpsIndented_plain hc with hplain | rfl
    · have hlow := hplain.2
      have hnone : isSurrogate c = false := by
        simp only [isSurrogate, isHighSurrogate, isLowSurrogate, Bool.or_eq_false_iff,
          Bool.and_eq_false_iff,
          decide_eq_false_iff_not]
        omega
      rw [hnone]
      rfl
    · rfl
  have hreturn : carriageReturn ∉ dumpsIndented s.payload ++ lit "\n" := by
    intro hc
    rcases dumpsIndented_plain hc with hplain | heq
    · exact absurd hplain (by decide)
    · exact absurd heq (by decide)
  have hloads : loads interp (dumpsIndented s.payload ++ lit "\n") =
      .ok (.obj (assignAll (s.sortedPayload.map fun p => (p.1, p.2.wire)) [])) := by
    rw [← sortByKey_payload]
    have hlong := intTooLong_of_inBudget h
    refine loads_dumpsIndented (List.cons_ne_nil _ _) ?_ ?_
    · cases hurl : s.syncServerUrl <;> simp [Settings.payload, hurl, Json.hasLongInt, hlong,
      schemaVersion_short]
    · cases hurl : s.syncServerUrl <;> simp [Settings.payload, hurl, Json.height]
  rw [loadFile, decodeUtf8_utf8 hencodable]
  simp only [universalNewlines_eq_iff.2 hreturn, storedSettings, hloads, settingsOf_saved]
  rfl

theorem trimmed_infix (s : PyStr) : trimmed s <:+: s := by
  have hslash : trimmed s <+: strip s := List.rdropWhile_prefix _ _
  have hback : strip s <+: s.dropWhile Python.isSpace := List.rdropWhile_prefix _ _
  exact (hslash.trans hback).isInfix.trans (List.dropWhile_suffix Python.isSpace).isInfix

theorem noSplitPair_right {s t : PyStr} (h : noSplitPair (s ++ t) = true) : noSplitPair t = true := by
  induction s with
  | nil => exact h
  | cons c s ih =>
    refine ih ?_
    cases hrest : s ++ t with
    | nil => rfl
    | cons d rest =>
      rw [List.cons_append, hrest, noSplitPair, Bool.and_eq_true] at h
      exact h.2

theorem noSplitPair_left {s t : PyStr} (h : noSplitPair (s ++ t) = true) : noSplitPair s = true := by
  induction s with
  | nil => rfl
  | cons c s ih =>
    have hs := ih (noSplitPair_right (s := [c]) h)
    cases s with
    | nil => rfl
    | cons d s =>
      rw [List.cons_append, List.cons_append, noSplitPair, Bool.and_eq_true] at h
      rw [noSplitPair, Bool.and_eq_true]
      exact ⟨h.1, hs⟩

/-- A trimmed URL is read back as it was saved when trimming it again leaves it and JSON does. -/
theorem normalizedUrl_wireText {url : PyStr} (h : hasScheme (trimmed url) = true) :
    normalizedUrl (some (wireText (trimmed url))) = .ok (some (trimmed url)) ↔
      Settled url ∧ noSplitPair (trimmed url) = true := by
  constructor
  · intro hread
    have hpart := trimmed_infix (wireText (trimmed url))
    rw [← (normalizedUrl_eq_some.1 hread).2] at hpart
    obtain ⟨front, back, hwhole⟩ := hpart
    have hjoined : noSplitPair (trimmed url) = true := by
      refine noSplitPair_right (s := front) (noSplitPair_left (t := back) ?_)
      rw [hwhole]
      exact noSplitPair_ofUtf16 _
    rw [wireText_of_noSplitPair hjoined] at hread
    exact ⟨(normalizedUrl_trimmed h).1 hread, hjoined⟩
  · rintro ⟨hsettled, hjoined⟩
    rw [wireText_of_noSplitPair hjoined]
    exact (normalizedUrl_trimmed h).2 hsettled

variable {w : World}

theorem savedBack_iff (hhome : w.home = true) (s : Settings) :
    (∀ checked file, validated s = .ok checked → saveSettings s = .ok file →
      loadSettings interp { w with file := file } = .ok checked) ↔
      ∀ checked url, validated s = .ok checked → s.syncServerUrl = some url →
        Settled url ∧ noSplitPair (trimmed url) = true := by
  cases hvalid : validated s with
  | error e => simp
  | ok checked =>
    obtain ⟨hbudget, url, hurl, rfl⟩ := validated_eq_ok.1 hvalid
    have hsave : saveSettings s = .ok (.bytes (utf8 (dumpsIndented
        (Settings.payload { s with syncServerUrl := url }) ++ lit "\n"))) := by
      rw [saveSettings, hvalid]
      rfl
    have hload : loadSettings interp { w with file := .bytes (utf8 (dumpsIndented
        (Settings.payload { s with syncServerUrl := url }) ++ lit "\n")) } =
          (validated { s with syncServerUrl := url.map wireText }).mapError .settings := by
      rw [loadSettings, if_pos hhome]
      exact loadFile_saved hbudget
    -- loading gives the saved settings when the URL, as JSON carries it, is normalized to itself
    have hback : (validated { s with syncServerUrl := url.map wireText }).mapError Exc.settings =
        .ok { s with syncServerUrl := url } ↔ normalizedUrl (url.map wireText) = .ok url := by
      rw [validated, if_pos hbudget]
      cases normalizedUrl (url.map wireText) with
      | error e => simp [Except.map, Except.mapError]
      | ok again => simp [Except.map, Except.mapError]
    trans normalizedUrl (url.map wireText) = .ok url
    · rw [← hback, ← hload]
      constructor
      · intro h
        exact h _ _ rfl hsave
      · rintro h checked file ⟨⟩ hfile
        rw [hsave] at hfile
        cases hfile
        exact h
    · cases hfield : s.syncServerUrl with
      | none =>
        rw [hfield] at hurl
        cases hurl
        exact iff_of_true rfl fun _ _ _ h => nomatch h
      | some value =>
        rw [hfield] at hurl
        cases url with
        | none =>
          have hblank := normalizedUrl_eq_none.1 hurl
          refine iff_of_true rfl ?_
          rintro _ _ _ ⟨⟩
          exact ⟨fun h => absurd hblank h, by rw [hblank]; rfl⟩
        | some url =>
          obtain ⟨hscheme, rfl⟩ := normalizedUrl_eq_some.1 hurl
          rw [Option.map_some, normalizedUrl_wireText hscheme]
          constructor
          · rintro h _ _ _ ⟨⟩
            exact h
          · intro h
            exact h _ _ rfl rfl

/-! ## The effective settings -/

theorem of_mapError_settings {α : Type} {x : Except SettingsError α} {exc : Exc}
    (h : x.mapError Exc.settings = .error exc) : ∃ e, exc = .settings e := by
  cases x with
  | ok a => cases h
  | error e =>
    cases h
    exact ⟨e, rfl⟩

theorem storedSettings_settings_iff {interp : Interpreter} {text : PyStr} :
    (∀ exc, storedSettings interp text = .error exc → ∃ e, exc = .settings e) ↔
      loads interp text ≠ .error .tooDeep := by
  unfold storedSettings
  cases loads interp text with
  | ok v =>
    refine iff_of_true ?_ (by simp)
    intro exc hexc
    cases v with
    | obj document => exact of_mapError_settings hexc
    | _ =>
      cases hexc
      exact ⟨_, rfl⟩
  | error why => cases why <;> simp

theorem loadFile_bytes {content : Bytes} {text : PyStr} (h : decodeUtf8 content = some text) :
    loadFile interp (.bytes content) =
      (storedSettings interp (universalNewlines text)).bind fun stored =>
        (validated stored).mapError .settings := by
  rw [loadFile, h]
  rfl

/-- The only errors of a file that are no `SettingsError` come from its bytes and its nesting. -/
theorem loadFile_settings_iff {file : FileState} :
    (∀ exc, loadFile interp file = .error exc → ∃ e, exc = .settings e) ↔
      ∀ content, file = .bytes content →
        ∃ text, decodeUtf8 content = some text ∧
          loads interp (universalNewlines text) ≠ .error .tooDeep := by
  cases file with
  | absent | unreadable => simp [loadFile]
  | bytes content =>
    cases hdecode : decodeUtf8 content with
    | none => simp [loadFile, hdecode]
    | some text =>
      have hstored := @storedSettings_settings_iff interp (universalNewlines text)
      constructor
      · rintro h _ ⟨⟩
        refine ⟨text, hdecode, hstored.1 fun exc hexc => h exc ?_⟩
        rw [loadFile_bytes hdecode, hexc]
        rfl
      · intro h exc hexc
        obtain ⟨text', htext, hdeep⟩ := h content rfl
        obtain rfl : text = text' := Option.some.inj (hdecode.symm.trans htext)
        rw [loadFile_bytes hdecode] at hexc
        cases hread : storedSettings interp (universalNewlines text) with
        | error e =>
          rw [hread] at hexc
          cases hexc
          exact hstored.2 hdeep _ hread
        | ok stored =>
          rw [hread] at hexc
          exact of_mapError_settings hexc

theorem loadSettings_settings_iff :
    (∀ exc, loadSettings interp w = .error exc → ∃ e, exc = .settings e) ↔
      w.home = true ∧ ∀ content, w.file = .bytes content →
        ∃ text, decodeUtf8 content = some text ∧
          loads interp (universalNewlines text) ≠ .error .tooDeep := by
  rw [← loadFile_settings_iff]
  by_cases hhome : w.home = true
  · rw [loadSettings, if_pos hhome]
    exact ⟨fun h => ⟨hhome, h⟩, fun h => h.2⟩
  · rw [loadSettings, if_neg hhome]
    simp [hhome]

theorem loadFile_bytes_ok {content : Bytes} :
    loadFile interp (.bytes content) = .ok checked ↔ ∃ text stored, decodeUtf8 content = some text ∧
      storedSettings interp (universalNewlines text) = .ok stored ∧ validated stored = .ok checked := by
  cases hdecode : decodeUtf8 content with
  | none => simp [loadFile, hdecode]
  | some text =>
    rw [loadFile_bytes hdecode]
    cases hstored : storedSettings interp (universalNewlines text) with
    | error e => simp [Except.bind, hstored]
    | ok stored => cases hvalid : validated stored <;> simp [Except.bind, Except.mapError, hstored, hvalid]

theorem base_inBudget (interp : Interpreter) (w : World) :
    inBudget (base interp w).bundleBudgetBytes = true := by
  have hdefault : inBudget ({} : Settings).bundleBudgetBytes = true := by decide
  cases hload : loadSettings interp w with
  | error e =>
    rw [base, hload]
    exact hdefault
  | ok stored =>
    rw [base, hload]
    rw [loadSettings] at hload
    split_ifs at hload
    cases hfile : w.file with
    | absent =>
      rw [hfile] at hload
      cases hload
      exact hdefault
    | unreadable =>
      rw [hfile] at hload
      cases hload
    | bytes content =>
      rw [hfile] at hload
      obtain ⟨_, _, _, _, hvalid⟩ := loadFile_bytes_ok.1 hload
      obtain ⟨hbudget, _, _, rfl⟩ := validated_eq_ok.1 hvalid
      exact hbudget

theorem withEnv_eq {interp : Interpreter} {w : World} {stored : Settings} {url : Option PyStr}
    (h : envUrl w = .ok url) : ∃ fields, withEnv interp w stored = .ok
      ({ syncServerUrl := url.or stored.syncServerUrl
         syncShareSource := (envFlag w .syncShareSource).getD stored.syncShareSource
         bundleBudgetBytes := (envBudget interp w).getD stored.bundleBudgetBytes
         telemetryEnabled := (envFlag w .telemetryEnabled).getD stored.telemetryEnabled }, fields) := by
  rw [withEnv, h]
  exact ⟨_, rfl⟩

/-- A `SettingsError` is swallowed, and the environment is laid over what is left. -/
theorem loadEffectiveOrDefaults_eq
    (h : ∀ exc, loadSettings interp w = .error exc → ∃ e, exc = .settings e) :
    loadEffectiveOrDefaults interp w =
      ((withEnv interp w (base interp w)).mapError Exc.settings).map Prod.fst := by
  have hlast : ∀ x : Except Exc (Settings × List Field),
      (x >>= fun effective => pure effective.1) = x.map Prod.fst := by
    intro x
    cases x <;> rfl
  rw [loadEffectiveOrDefaults, base]
  cases hload : loadSettings interp w with
  | ok stored => exact hlast _
  | error exc =>
    obtain ⟨e, rfl⟩ := h exc hload
    exact hlast _

theorem loadEffectiveOrDefaults_ok_iff {effective : Settings} :
    loadEffectiveOrDefaults interp w = .ok effective ↔
      (∀ exc, loadSettings interp w = .error exc → ∃ e, exc = .settings e) ∧
        ∃ url, envUrl w = .ok url ∧ effective =
          { syncServerUrl := url.or (base interp w).syncServerUrl
            syncShareSource := (envFlag w .syncShareSource).getD (base interp w).syncShareSource
            bundleBudgetBytes := (envBudget interp w).getD (base interp w).bundleBudgetBytes
            telemetryEnabled :=
              (envFlag w .telemetryEnabled).getD (base interp w).telemetryEnabled } := by
  by_cases hload : ∀ exc, loadSettings interp w = .error exc → ∃ e, exc = .settings e
  · rw [loadEffectiveOrDefaults_eq hload]
    cases hurl : envUrl w with
    | error e => simp [withEnv, hurl, bind, Except.bind, Except.mapError, Except.map]
    | ok url =>
      obtain ⟨fields, hwith⟩ := @withEnv_eq interp w (base interp w) url hurl
      rw [hwith]
      constructor
      · rintro ⟨⟩
        exact ⟨hload, url, rfl, rfl⟩
      · rintro ⟨_, _, ⟨⟩, rfl⟩
        rfl
  · refine iff_of_false ?_ fun h => hload h.1
    intro hok
    refine hload fun exc hexc => ?_
    rw [loadEffectiveOrDefaults, hexc] at hok
    cases exc with
    | settings e => exact ⟨e, rfl⟩
    | _ => cases hok

theorem validated_normal_iff (h : validated s = .ok checked) :
    normalizedUrl checked.syncServerUrl = .ok checked.syncServerUrl ↔
      ∀ url, s.syncServerUrl = some url → Settled url := by
  obtain ⟨_, url, hurl, rfl⟩ := validated_eq_ok.1 h
  cases hfield : s.syncServerUrl with
  | none =>
    rw [hfield] at hurl
    cases hurl
    exact iff_of_true rfl fun _ h => nomatch h
  | some value =>
    rw [hfield] at hurl
    cases url with
    | none =>
      have hblank := normalizedUrl_eq_none.1 hurl
      refine iff_of_true rfl ?_
      rintro _ ⟨⟩ h
      exact absurd hblank h
    | some url =>
      obtain ⟨hscheme, rfl⟩ := normalizedUrl_eq_some.1 hurl
      refine (normalizedUrl_trimmed hscheme).trans ⟨?_, fun h => h value rfl⟩
      rintro h _ ⟨⟩
      exact h

theorem base_normal_iff (hhome : w.home = true) :
    normalizedUrl (base interp w).syncServerUrl = .ok (base interp w).syncServerUrl ↔
      ∀ content text stored checked url, w.file = .bytes content → decodeUtf8 content = some text →
        storedSettings interp (universalNewlines text) = .ok stored → validated stored = .ok checked →
          stored.syncServerUrl = some url → Settled url := by
  cases hload : loadSettings interp w with
  | error exc =>
    rw [base, hload]
    refine iff_of_true rfl ?_
    intro content text stored checked url hfile htext hstored hvalid
    rw [loadSettings, if_pos hhome, hfile,
      loadFile_bytes_ok.2 ⟨text, stored, htext, hstored, hvalid⟩] at hload
    cases hload
  | ok loaded =>
    rw [base, hload]
    rw [loadSettings, if_pos hhome] at hload
    cases hfile : w.file with
    | absent =>
      rw [hfile] at hload
      cases hload
      exact iff_of_true rfl fun _ _ _ _ _ h => nomatch h
    | unreadable =>
      rw [hfile] at hload
      cases hload
    | bytes content =>
      rw [hfile] at hload
      obtain ⟨text, stored, htext, hstored, hvalid⟩ := loadFile_bytes_ok.1 hload
      have hsame : (∀ content' text' stored' checked url, FileState.bytes content = .bytes content' →
          decodeUtf8 content' = some text' →
            storedSettings interp (universalNewlines text') = .ok stored' →
              validated stored' = .ok checked → stored'.syncServerUrl = some url → Settled url) ↔
          ∀ url, stored.syncServerUrl = some url → Settled url := by
        constructor
        · intro h url hurl
          exact h _ _ _ _ url rfl htext hstored hvalid hurl
        · rintro h content' text' stored' checked url ⟨⟩ htext' hstored' _ hurl
          obtain rfl := Option.some.inj (htext.symm.trans htext')
          obtain rfl := Except.ok.inj (hstored.symm.trans hstored')
          exact h url hurl
      rw [hsame]
      exact validated_normal_iff hvalid

/-! ## When the promise holds -/

theorem envUrl_eq_none : envUrl w = .ok none ↔
    ∀ raw, w.env .syncServerUrl = some raw → trimmed raw = [] := by
  rw [envUrl]
  cases w.env .syncServerUrl with
  | none => exact iff_of_true rfl fun _ h => nomatch h
  | some raw =>
    rw [normalizedUrl_eq_none]
    constructor
    · rintro hblank _ ⟨⟩
      exact hblank
    · intro h
      exact h raw rfl

theorem envUrl_settled_iff : (∃ url, envUrl w = .ok url ∧
      ∀ value, url = some value → normalizedUrl (some value) = .ok (some value)) ↔
    ∀ raw, w.env .syncServerUrl = some raw →
      trimmed raw = [] ∨ hasScheme (trimmed raw) = true ∧ Settled raw := by
  constructor
  · rintro ⟨url, hurl, hsettled⟩ raw hraw
    rw [envUrl, hraw] at hurl
    cases url with
    | none => exact .inl (normalizedUrl_eq_none.1 hurl)
    | some value =>
      obtain ⟨hscheme, rfl⟩ := normalizedUrl_eq_some.1 hurl
      exact .inr ⟨hscheme, (normalizedUrl_trimmed hscheme).1 (hsettled _ rfl)⟩
  · intro h
    cases hraw : w.env .syncServerUrl with
    | none => exact ⟨none, by rw [envUrl, hraw]; rfl, fun _ h => nomatch h⟩
    | some raw =>
      rw [envUrl, hraw]
      rcases h raw hraw with hblank | ⟨hscheme, hsettled⟩
      · exact ⟨none, normalizedUrl_eq_none.2 hblank, fun _ h => nomatch h⟩
      · refine ⟨some (trimmed raw), normalizedUrl_eq_some.2 ⟨hscheme, rfl⟩, ?_⟩
        rintro _ ⟨⟩
        exact (normalizedUrl_trimmed hscheme).2 hsettled

/-- The promise holds exactly where the file can be decoded and is not nested too deep, the home is known
and the URLs are accepted and settled. -/
theorem settingsHold_iff (interp : Interpreter) (w : World) (s : Settings) :
    SettingsHold interp w s ↔ SettingsClear interp w s := by
  constructor
  · intro h
    obtain ⟨effective, heffective, hlaw⟩ := h.total
    obtain ⟨hfile, url, hurl, rfl⟩ := loadEffectiveOrDefaults_ok_iff.1 heffective
    obtain ⟨hhome, hreadable⟩ := loadSettings_settings_iff.1 hfile
    have hnormal := hlaw.normal
    refine ⟨hhome, hreadable, envUrl_settled_iff.1 ⟨url, hurl, ?_⟩, ?_,
      (savedBack_iff hhome s).1 h.savedBack⟩
    · rintro value rfl
      exact hnormal
    · intro hblank
      rw [envUrl_eq_none.2 hblank] at hurl
      cases hurl
      exact (base_normal_iff hhome).1 hnormal
  · intro h
    have hfile := loadSettings_settings_iff.2 ⟨h.home, h.readable⟩
    obtain ⟨url, hurl, hsettled⟩ := envUrl_settled_iff.2 h.envUrl
    refine ⟨⟨_, loadEffectiveOrDefaults_ok_iff.2 ⟨hfile, url, hurl, rfl⟩, ?_⟩, ?_,
      (savedBack_iff h.home s).2 h.savedUrl⟩
    · have hvalid : validEnvUrl w = url := by rw [validEnvUrl, hurl]
      refine ⟨by rw [hvalid], rfl, rfl, rfl, ?_, ?_⟩
      · cases hbudget : envBudget interp w with
        | none => exact base_inBudget interp w
        | some n => exact (Option.filter_eq_some_iff.1 hbudget).2
      · cases url with
        | none => exact (base_normal_iff h.home).2 (h.fileUrl (envUrl_eq_none.1 hurl))
        | some value => exact hsettled value rfl
    · intro exc hexc
      rw [effectiveSettings] at hexc
      cases hload : loadSettings interp w with
      | error e =>
        rw [hload] at hexc
        cases hexc
        exact ⟨hfile _ hload, rfl⟩
      | ok stored =>
        obtain ⟨fields, hwith⟩ := @withEnv_eq interp w stored url hurl
        rw [hload] at hexc
        change (withEnv interp w stored).mapError Exc.settings = .error exc at hexc
        rw [hwith] at hexc
        cases hexc

/-! ## Where it fails -/

def noEnv : Field → Option PyStr := fun _ => none

def latinBytes : World := ⟨true, .bytes [byte 0xFF], noEnv⟩

/-- A URL that the environment gives without its scheme. -/
def schemeless : World :=
  ⟨true, .absent, fun field => if field = .syncServerUrl then some (lit "sync.example.com") else none⟩

def blankBeforeSlash : Settings := { syncServerUrl := some (lit "http://sync.example.com /") }

/-- A file that is no UTF-8 and a URL without a scheme are raised, and a saved URL comes back changed. -/
theorem settings_raise :
    loadEffectiveOrDefaults bareInterpreter latinBytes = .error .unicodeDecode ∧
      loadEffectiveOrDefaults bareInterpreter schemeless =
        .error (.settings (.url (lit "sync.example.com"))) ∧
      ¬ SettingsHold bareInterpreter latinBytes {} ∧ ¬ SettingsHold bareInterpreter schemeless {} ∧
      ¬ SettingsHold bareInterpreter ⟨true, .absent, noEnv⟩ blankBeforeSlash := by
  have hlatin : loadEffectiveOrDefaults bareInterpreter latinBytes = .error .unicodeDecode := by
    decide
  have hscheme : loadEffectiveOrDefaults bareInterpreter schemeless =
      .error (.settings (.url (lit "sync.example.com"))) := by
    decide
  refine ⟨hlatin, hscheme, ?_, ?_, ?_⟩
  · intro h
    obtain ⟨effective, heffective, _⟩ := h.total
    rw [hlatin] at heffective
    cases heffective
  · intro h
    obtain ⟨effective, heffective, _⟩ := h.total
    rw [hscheme] at heffective
    cases heffective
  · intro h
    have hvalid : validated blankBeforeSlash =
        .ok { syncServerUrl := some (lit "http://sync.example.com ") } := by decide
    have hback := (savedBack_iff rfl blankBeforeSlash).1 h.savedBack _ _ hvalid rfl
    exact absurd (hback.1 (by decide)) (by decide)

end SettingsJson
end Tempest
