import Tempest.Agent.Judged
import Tempest.Python.Toml
import Tempest.Python.Utf8

/-!
# Contracts — the file a contract lives in (`agent/contracts.py`)

A task's contract is rendered as TOML under a slug of the task id, and read back with
`tomllib.loads`.  The store is the files with their bytes; `accepts` says which names the file system
takes.
-/

namespace Tempest

open Python

/-! ## Rendering -/

/-- `IntentContract`, with its version. -/
structure VersionedContract extends IntentContract where
  version : Int

def isSlugChar (c : CodePoint) : Bool :=
  (0x30 ≤ c.val && c.val ≤ 0x39) || (0x41 ≤ c.val && c.val ≤ 0x5A) ||
    (0x61 ≤ c.val && c.val ≤ 0x7A) || c.val = 0x2E || c.val = 0x5F || c.val = 0x2D

/-- `_slug` of `contracts.py`. -/
def contractSlug (taskId : PyStr) : PyStr :=
  let cleaned := stripBy (fun c => c.val = 0x2E || c.val = 0x2D)
    (taskId.map fun c => if isSlugChar c then c else codePoint 0x2D)
  if cleaned = [] then lit "task" else cleaned

def pathFor (taskId : PyStr) : PyStr :=
  lit ".tempest/contracts/" ++ contractSlug taskId ++ lit ".toml"

/-- `value.replace(c, by)`. -/
def replaceChar (c : CodePoint) (text : PyStr) (value : PyStr) : PyStr :=
  value.flatMap fun d => if d = c then text else [d]

def tomlString (value : PyStr) : PyStr :=
  let escaped := replaceChar carriageReturn (lit "\\r") (replaceChar lineFeed (lit "\\n")
    (replaceChar dquote (lit "\\\"") (replaceChar backslash (lit "\\\\") value)))
  dquote :: (escaped ++ [dquote])

def contractHeader : List PyStr :=
  ["# Tempest intent contract — this file is yours to edit.",
    "#",
    "# It says which symbols are ALLOWED to change behaviour and which must not. Tempest",
    "# proves the change either way; this decides how each divergence is presented:",
    "#",
    "#   may_change       -> a divergence here is INTENDED",
    "#   must_not_change  -> a divergence here is UNINTENDED, and is a failure",
    "#   anything else    -> UNCLASSIFIED, and is shown most prominently of all, because",
    "#                       nobody predicted it",
    "#",
    "# Names are fully qualified. End one with `.*` to mean a module or class.",
    "# There is deliberately no way to say 'everything may change'.",
    ""].map lit

def patternLine (pattern : PyStr) : PyStr := lit "    " ++ tomlString pattern ++ lit ","

def VersionedContract.lines (c : VersionedContract) : List PyStr :=
  contractHeader ++
    [lit "version = " ++ intText c.version, lit "intent = " ++ tomlString c.intent, [],
      lit "may_change = ["] ++ c.mayChange.map patternLine ++
    [lit "]", [], lit "must_not_change = ["] ++ c.mustNotChange.map patternLine ++ [lit "]", []]

/-- `render`; the version has to have a text. -/
def VersionedContract.render (c : VersionedContract) : Option PyStr :=
  if intTooLong c.version then none else some (join [lineFeed] c.lines)

/-! ## The store -/

structure ContractFiles (accepts : PyStr → Bool) where
  files : PyStr → Option Bytes
  named : ∀ path, files path ≠ none → accepts path = true

inductive SaveError where
  /-- The `ValueError` of a version with too many digits. -/
  | longVersion
  /-- The `OSError` of a name the file system refuses. -/
  | fileName
  /-- `UnicodeEncodeError`. -/
  | unencodable
  deriving DecidableEq

section Store

variable {accepts : PyStr → Bool}

def ContractFiles.write (store : ContractFiles accepts) (path : PyStr) (h : accepts path = true)
    (bytes : Bytes) : ContractFiles accepts where
  files := Function.update store.files path (some bytes)
  named := by
    intro other hsome
    by_cases heq : other = path
    · rw [heq, h]
    · rw [Function.update_of_ne heq] at hsome
      exact store.named other hsome

/-- `save`: the file is opened, and emptied, before its text is encoded. -/
def save (store : ContractFiles accepts) (taskId : PyStr) (c : VersionedContract) :
    ContractFiles accepts × Except SaveError PyStr :=
  match c.render with
  | none => (store, .error .longVersion)
  | some text =>
    if h : accepts (pathFor taskId) = true then
      if encodable text then (store.write (pathFor taskId) h (utf8 text), .ok (pathFor taskId))
      else (store.write (pathFor taskId) h [], .error .unencodable)
    else (store, .error .fileName)

def saveAll (store : ContractFiles accepts) (saves : List (PyStr × VersionedContract)) :
    ContractFiles accepts :=
  saves.foldl (fun store s => (save store s.1 s.2).1) store

def lastSaved (saves : List (PyStr × VersionedContract)) (taskId : PyStr) : Option VersionedContract :=
  saves.foldl (fun last s => if s.1 = taskId then some s.2 else last) none

/-! ## Loading -/

/-- `int` of a string, which keeps the same limit on the digits. -/
structure TextConversion where
  intOf : PyStr → Option Int
  short : ∀ s n, intOf s = some n → intTooLong n = false

inductive LoadError where
  | undecodable
  | toml (e : Toml.TomlError)
  | intentNoString
  | noStringList (field : PyStr)
  | version
  | contract (e : ContractError)
  deriving DecidableEq

/-- The message of a `ContractError`; `exc` is what `tomllib` says. -/
def LoadError.text (source exc : PyStr) : LoadError → Option PyStr
  | .toml .malformed => some (source ++ lit " is not valid TOML: " ++ exc)
  | .intentNoString => some (source ++ lit ": `intent` must be a string")
  | .noStringList field => some (source ++ lit ": `" ++ field ++ lit "` must be a list of strings")
  | .contract e => some e.text
  | _ => none

def tomlText : Toml.Value → Option PyStr
  | .str s => some s
  | _ => none

def stringList (value : Option Toml.Value) (field : PyStr) : Except LoadError (List PyStr) :=
  match value with
  | none => .ok []
  | some (.arr items) =>
    match items.mapM tomlText with
    | some texts => .ok texts
    | none => .error (.noStringList field)
  | some _ => .error (.noStringList field)

/-- `int(doc.get("version", 1))`. -/
def versionOf (conv : TextConversion) (value : Option Toml.Value) : Except LoadError Int :=
  match value with
  | none => .ok 1
  | some (.int n) => .ok n
  | some (.str s) =>
    match conv.intOf s with
    | some n => .ok n
    | none => .error .version
  | some (.arr _) => .error .version

def fromDocument (conv : TextConversion) (doc : Dict PyStr Toml.Value) :
    Except LoadError VersionedContract :=
  match doc.get? (lit "intent") with
  | some (.str intent) => do
    let mayChange ← stringList (doc.get? (lit "may_change")) (lit "may_change")
    let mustNotChange ← stringList (doc.get? (lit "must_not_change")) (lit "must_not_change")
    let version ← versionOf conv (doc.get? (lit "version"))
    match IntentContract.make intent mayChange mustNotChange with
    | .ok c => .ok ⟨c, version⟩
    | .error e => .error (.contract e)
  | _ => .error .intentNoString

def load (conv : TextConversion) (store : ContractFiles accepts) (taskId : PyStr) :
    Except LoadError (Option VersionedContract) :=
  match store.files (pathFor taskId) with
  | none => .ok none
  | some bytes =>
    match decodeUtf8 bytes with
    | none => .error .undecodable
    | some text =>
      match Toml.loads (universalNewlines text) with
      | .error e => .error (.toml e)
      | .ok doc => (fromDocument conv doc).map some

/-! ## What a rendered text is read as -/

section Rendered

open Toml (Reader Value)

def basicChar (c : CodePoint) : PyStr :=
  if c = backslash then lit "\\\\"
  else if c = dquote then lit "\\\""
  else if c = lineFeed then lit "\\n"
  else if c = carriageReturn then lit "\\r"
  else [c]

/-- The character is escaped, or a basic string may hold it as it is. -/
def storable (c : CodePoint) : Bool :=
  !Toml.isControl c || c = lineFeed || c = carriageReturn

theorem tomlString_eq (value : PyStr) :
    tomlString value = dquote :: ((value.map basicChar).flatten ++ [dquote]) := by
  have hescaped : replaceChar carriageReturn (lit "\\r") (replaceChar lineFeed (lit "\\n")
      (replaceChar dquote (lit "\\\"") (replaceChar backslash (lit "\\\\") value))) =
        value.flatMap basicChar := by
    simp only [replaceChar, List.flatMap_assoc]
    refine congrArg (fun f => List.flatMap f value) (funext fun c => ?_)
    by_cases hslash : c = backslash
    · subst hslash
      rfl
    by_cases hquote : c = dquote
    · subst hquote
      rfl
    by_cases hfeed : c = lineFeed
    · subst hfeed
      rfl
    by_cases hreturn : c = carriageReturn
    · subst hreturn
      rfl
    simp [basicChar, hslash, hquote, hfeed, hreturn]
  rw [tomlString, hescaped, List.flatMap_def]

theorem basicChar_piece (c : CodePoint) : Toml.StringPiece (basicChar c) := by
  unfold basicChar
  split_ifs with hslash hquote
  · exact .escape _
  · exact .escape _
  · exact .escape _
  · exact .escape _
  · exact .plain hquote hslash

theorem unescape_basicChar (c : CodePoint) (s : PyStr) : Toml.unescape (basicChar c ++ s) =
    if storable c then (Toml.unescape s).map (c :: ·) else none := by
  have hescape : ∀ d u : CodePoint, d.val ≠ 0x75 → d.val ≠ 0x55 → Toml.escapeOf d = some u →
      Toml.unescape (backslash :: d :: s) = (Toml.unescape s).map (u :: ·) := by
    intro d u hd hd' hu
    rw [Toml.unescape.eq_def]
    simp only [if_true, hd, hd', if_false, hu]
    cases Toml.unescape s <;> rfl
  by_cases hslash : c = backslash
  · subst hslash
    exact hescape backslash backslash (by decide) (by decide) (by decide)
  by_cases hquote : c = dquote
  · subst hquote
    exact hescape dquote dquote (by decide) (by decide) (by decide)
  by_cases hfeed : c = lineFeed
  · subst hfeed
    exact hescape (codePoint 0x6E) lineFeed (by decide) (by decide) (by decide)
  by_cases hreturn : c = carriageReturn
  · subst hreturn
    exact hescape (codePoint 0x72) carriageReturn (by decide) (by decide) (by decide)
  -- every other character stands as it is
  have hplain : basicChar c = [c] := by simp [basicChar, hslash, hquote, hfeed, hreturn]
  have hstorable : storable c = !Toml.isControl c := by simp [storable, hfeed, hreturn]
  rw [hplain, hstorable, List.singleton_append]
  cases s with
  | nil => cases hcontrol : Toml.isControl c <;> simp [Toml.unescape, hslash, hcontrol]
  | cons d s =>
    rw [Toml.unescape.eq_def]
    simp only [hslash, if_false]
    cases Toml.isControl c <;> cases Toml.unescape (d :: s) <;> rfl

theorem unescape_basicChars (s : PyStr) : Toml.unescape (s.map basicChar).flatten =
    if s.all storable then some s else none := by
  induction s with
  | nil => rfl
  | cons c s ih =>
    rw [List.map_cons, List.flatten_cons, unescape_basicChar, ih, List.all_cons]
    cases storable c <;> cases s.all storable <;> rfl

theorem run_tomlString (doc : Dict PyStr Value) (key : PyStr) (arrays : List (List Value)) (s : PyStr) :
    Reader.run ⟨doc, .value key arrays⟩ (tomlString s) =
      if s.all storable then Toml.complete doc key arrays (.str s) else .error .malformed := by
  have hpieces : ∀ p ∈ s.map basicChar, Toml.StringPiece p := by
    intro p hp
    obtain ⟨c, _, rfl⟩ := List.mem_map.1 hp
    exact basicChar_piece c
  rw [tomlString_eq, Toml.run_string hpieces, unescape_basicChars]
  cases s.all storable <;> rfl

/-- The lines of an array of strings, up to its end. -/
theorem run_patternLines (doc : Dict PyStr Value) (key : PyStr) (patterns : List PyStr)
    (items : List Value) :
    Reader.run ⟨doc, .value key [items]⟩ ((patterns.map patternLine).flatMap (· ++ [lineFeed])) =
      if patterns.all fun p => p.all storable then
        .ok ⟨doc, .value key [(patterns.map Value.str).reverse ++ items]⟩
      else .error .malformed := by
  induction patterns generalizing items with
  | nil => rfl
  | cons p patterns ih =>
    have hline : patternLine p ++ [lineFeed] =
        lit "    " ++ (tomlString p ++ (lit "," ++ [lineFeed])) := by simp [patternLine]
    have hblanks : Reader.run ⟨doc, .value key [items]⟩ (lit "    ") =
        .ok ⟨doc, .value key [items]⟩ := rfl
    rw [List.map_cons, List.flatMap_cons, hline, List.append_assoc, Toml.run_append_ok hblanks,
      List.append_assoc, Toml.run_append, run_tomlString, List.all_cons]
    cases p.all storable with
    | false => rfl
    | true =>
      have hend : Reader.run ⟨doc, .item key (.str p :: items) []⟩ (lit "," ++ [lineFeed]) =
          .ok ⟨doc, .value key [.str p :: items]⟩ := rfl
      simp only [if_true, Toml.complete, Except.bind, Bool.true_and]
      rw [Toml.run_append_ok hend, ih]
      simp

/-- A whole array, from behind its equals sign. -/
theorem run_patterns {doc : Dict PyStr Value} {key : PyStr} (hkey : doc.contains key = false)
    (patterns : List PyStr) :
    Reader.run ⟨doc, .value key []⟩ (lit "[" ++ [lineFeed] ++
      ((patterns.map patternLine).flatMap (· ++ [lineFeed]) ++ (lit "]" ++ [lineFeed]))) =
        if patterns.all fun p => p.all storable then
          .ok ⟨doc.set key (.arr (patterns.map Value.str)), .line⟩
        else .error .malformed := by
  have hopen : Reader.run ⟨doc, .value key []⟩ (lit "[" ++ [lineFeed]) =
      .ok ⟨doc, .value key [[]]⟩ := rfl
  rw [Toml.run_append_ok hopen, Toml.run_append, run_patternLines]
  cases patterns.all fun p => p.all storable with
  | false => rfl
  | true =>
    have hstep : Reader.step ⟨doc, .value key [(patterns.map Value.str).reverse]⟩ closeArr =
        .ok ⟨doc.set key (.arr (patterns.map Value.str)), .endOfLine⟩ := by
      have hclose : Toml.isBlank closeArr = false ∧ closeArr ≠ dquote ∧ closeArr ≠ openArr ∧
          closeArr ≠ lineFeed ∧ closeArr ≠ Toml.hash := by decide
      simp [Reader.step, Toml.complete, hclose, hkey]
    simp only [if_true, Except.bind, List.append_nil]
    exact (Toml.run_cons hstep).trans rfl

theorem join_lines (lines : List PyStr) :
    join [lineFeed] (lines ++ [[]]) = lines.flatMap (· ++ [lineFeed]) := by
  induction lines with
  | nil => rfl
  | cons line lines ih =>
    rw [List.flatMap_cons, ← ih]
    cases lines <;> rfl

def VersionedContract.texts (c : VersionedContract) : List PyStr :=
  c.intent :: (c.mayChange ++ c.mustNotChange)

def VersionedContract.document (c : VersionedContract) : Dict PyStr Value :=
  (((Dict.empty.set (lit "version") (.int c.version)).set (lit "intent") (.str c.intent)).set
    (lit "may_change") (.arr (c.mayChange.map Value.str))).set
      (lit "must_not_change") (.arr (c.mustNotChange.map Value.str))

theorem render_eq (c : VersionedContract) : join [lineFeed] c.lines =
    contractHeader.flatMap (· ++ [lineFeed]) ++
      ((lit "version" ++ lit " = ") ++ ((intText c.version ++ [lineFeed]) ++
        ((lit "intent" ++ lit " = ") ++ (tomlString c.intent ++ ([lineFeed, lineFeed] ++
          ((lit "may_change" ++ lit " = ") ++
            ((lit "[" ++ [lineFeed] ++ ((c.mayChange.map patternLine).flatMap (· ++ [lineFeed]) ++
              (lit "]" ++ [lineFeed]))) ++
            ([lineFeed] ++
              ((lit "must_not_change" ++ lit " = ") ++
                (lit "[" ++ [lineFeed] ++ ((c.mustNotChange.map patternLine).flatMap (· ++ [lineFeed]) ++
                  (lit "]" ++ [lineFeed])))))))))))) := by
  have hversion : lit "version = " = lit "version" ++ lit " = " := by decide
  have hintent : lit "intent = " = lit "intent" ++ lit " = " := by decide
  have hmay : lit "may_change = [" = lit "may_change" ++ lit " = " ++ lit "[" := by decide
  have hmust : lit "must_not_change = [" = lit "must_not_change" ++ lit " = " ++ lit "[" := by decide
  have hlines : c.lines = (contractHeader ++
      [lit "version = " ++ intText c.version, lit "intent = " ++ tomlString c.intent, [],
        lit "may_change = ["] ++ c.mayChange.map patternLine ++
      [lit "]", [], lit "must_not_change = ["] ++ c.mustNotChange.map patternLine ++ [lit "]"]) ++ [[]] := by
    simp [VersionedContract.lines]
  rw [hlines, join_lines, hversion, hintent, hmay, hmust]
  simp only [List.flatMap_append, List.flatMap_cons, List.flatMap_nil, List.append_assoc,
    List.append_nil, List.nil_append, List.cons_append]

/-- A rendered contract is read as its document, unless a text holds a character that is neither
escaped nor allowed. -/
theorem loads_render (c : VersionedContract) (hversion : intTooLong c.version = false) :
    Toml.loads (join [lineFeed] c.lines) =
      if c.texts.all fun s => s.all storable then .ok c.document else .error .malformed := by
  have hheader : contractHeader.all Toml.isRemark = true := by
    simp only [contractHeader, List.map_cons, List.map_nil]
    repeat rw [lit_ofList rfl]
    decide
  have hrun : Reader.run ⟨.empty, .line⟩ (join [lineFeed] c.lines) =
      if c.texts.all fun s => s.all storable then .ok ⟨c.document, .line⟩ else .error .malformed := by
    have hnew : ∀ d : Dict PyStr Value, ∀ k k' : PyStr, ∀ v, k' ≠ k → d.contains k' = false →
        (d.set k v).contains k' = false := by
      intro d k k' v hne hd
      rw [Dict.contains, Dict.get?_set, if_neg hne]
      exact hd
    have hempty : ∀ k, (Dict.empty : Dict PyStr Value).contains k = false := fun _ => rfl
    have hintent := hnew .empty (lit "version") (lit "intent") (.int c.version) (by decide) (hempty _)
    have hmay := hnew _ (lit "intent") (lit "may_change") (.str c.intent) (by decide)
      (hnew .empty (lit "version") _ (.int c.version) (by decide) (hempty _))
    have hmust := hnew _ (lit "may_change") (lit "must_not_change")
      (.arr (c.mayChange.map Value.str)) (by decide) (hnew _ (lit "intent") _ (.str c.intent) (by decide)
        (hnew .empty (lit "version") _ (.int c.version) (by decide) (hempty _)))
    have hstring := run_tomlString (Dict.empty.set (lit "version") (.int c.version)) (lit "intent") []
      c.intent
    simp only [Toml.complete, hintent, Bool.false_eq_true, if_false] at hstring
    have hblank : ∀ d : Dict PyStr Value,
        Reader.run ⟨d, .endOfLine⟩ [lineFeed, lineFeed] = .ok ⟨d, .line⟩ := fun _ => rfl
    rw [render_eq, Toml.run_append_ok (Toml.run_remarks hheader),
      Toml.run_append_ok (Toml.run_key (by decide) (by decide)),
      Toml.run_append_ok (Toml.run_integerLine hversion rfl),
      Toml.run_append_ok (Toml.run_key (by decide) (by decide)), Toml.run_append_ite hstring,
      Toml.run_append_ok (hblank _), Toml.run_append_ok (Toml.run_key (by decide) (by decide)),
      Toml.run_append_ite (run_patterns hmay _), Toml.run_append_ok Toml.run_blankLine,
      Toml.run_append_ok (Toml.run_key (by decide) (by decide)), run_patterns hmust,
      VersionedContract.texts, List.all_cons, List.all_append]
    cases c.intent.all storable with
    | false => simp only [Bool.false_and, Bool.false_eq_true, if_false]
    | true =>
      cases c.mayChange.all fun p => p.all storable with
      | false => simp only [Bool.false_and, Bool.true_and, Bool.false_eq_true, if_true, if_false]
      | true => simp only [Bool.true_and, if_true, VersionedContract.document]
  rw [Toml.loads, hrun]
  split_ifs <;> rfl

theorem stringList_map (texts : List PyStr) (field : PyStr) :
    stringList (some (.arr (texts.map Value.str))) field = .ok texts := by
  have hmap : (texts.map Value.str).mapM tomlText = some texts := by
    induction texts with
    | nil => rfl
    | cons t texts ih => simp [tomlText, ih]
  simp [stringList, hmap]

theorem fromDocument_document (conv : TextConversion) (c : VersionedContract) :
    fromDocument conv c.document = .ok c := by
  have hget : ∀ k k' : PyStr, k' ≠ k → ∀ (d : Dict PyStr Value) v, (d.set k v).get? k' = d.get? k' :=
    fun k k' hne d v => by rw [Dict.get?_set, if_neg hne]
  have hself : ∀ (d : Dict PyStr Value) k v, (d.set k v).get? k = some v :=
    fun d k v => by rw [Dict.get?_set, if_pos rfl]
  have hintent : c.document.get? (lit "intent") = some (.str c.intent) := by
    rw [VersionedContract.document, hget _ _ (by decide), hget _ _ (by decide), hself]
  have hmay : c.document.get? (lit "may_change") = some (.arr (c.mayChange.map Value.str)) := by
    rw [VersionedContract.document, hget _ _ (by decide), hself]
  have hmust : c.document.get? (lit "must_not_change") =
      some (.arr (c.mustNotChange.map Value.str)) := by
    rw [VersionedContract.document, hself]
  have hversion : c.document.get? (lit "version") = some (.int c.version) := by
    rw [VersionedContract.document, hget _ _ (by decide), hget _ _ (by decide), hget _ _ (by decide),
      hself]
  simp only [fromDocument, hintent, hmay, hmust, hversion, stringList_map, versionOf, bind,
    Except.bind, make_of_meant c.stated c.meant]

/-! ## The characters of a rendered text -/

/-- A character of the fixed parts of a contract file. -/
def fixedChar (c : CodePoint) : Bool := (c.val < 0x80 && c ≠ carriageReturn) || c.val = 0x2014

/-- A property of the fixed characters holds of a rendered text where it holds of what stands for the
characters of the contract's own texts. -/
theorem all_render {p : CodePoint → Bool} (hfixed : ∀ c, fixedChar c = true → p c = true)
    (c : VersionedContract) : (join [lineFeed] c.lines).all p =
      c.texts.all fun s => s.all fun d => (basicChar d).all p := by
  have hconstant : ∀ {s : PyStr}, s.all fixedChar = true → s.all p = true := fun h =>
    List.all_eq_true.2 fun d hd => hfixed d (List.all_eq_true.1 h d hd)
  have hheader : (contractHeader.flatMap (· ++ [lineFeed])).all p = true := by
    refine hconstant ?_
    simp only [contractHeader, List.map_cons, List.map_nil]
    repeat rw [lit_ofList rfl]
    decide +kernel
  have hint : (intText c.version).all p = true := hconstant <| List.all_eq_true.2 fun d hd => by
    have hchar : IntChar d := intChar_of_mem_intText hd
    have hne : d ≠ carriageReturn := by
      rintro rfl
      revert hchar
      unfold IntChar
      decide
    unfold IntChar at hchar
    simp only [fixedChar, hne, Bool.or_eq_true, Bool.and_eq_true, decide_eq_true_eq, ne_eq,
      not_false_eq_true, and_true]
    omega
  have hquoted : ∀ s, (tomlString s).all p = s.all fun d => (basicChar d).all p := by
    intro s
    have hquote : p dquote = true := hfixed dquote (by decide)
    simp [tomlString_eq, hquote, List.all_flatten, List.all_map, Function.comp_def]
  have hlines : ∀ patterns : List PyStr,
      ((patterns.map patternLine).flatMap (· ++ [lineFeed])).all p =
        patterns.all fun s => s.all fun d => (basicChar d).all p := by
    intro patterns
    have hblanks : (lit "    ").all p = true := hconstant (by decide)
    have hend : (lit "," ++ [lineFeed]).all p = true := hconstant (by decide)
    rw [List.all_append, Bool.and_eq_true] at hend
    simp only [List.flatMap_map, patternLine, List.all_flatMap, List.all_append, hblanks, hquoted,
      hend.1, hend.2, Bool.true_and, Bool.and_true]
  have hfeed : ([lineFeed] : PyStr).all p = true := hconstant (by decide)
  have hfeeds : ([lineFeed, lineFeed] : PyStr).all p = true := hconstant (by decide)
  have hopen : (lit "[").all p = true := hconstant (by decide)
  have hclose : (lit "]").all p = true := hconstant (by decide)
  have hequals : (lit " = ").all p = true := hconstant (by decide)
  have hversion : (lit "version").all p = true := hconstant (by decide)
  have hintent : (lit "intent").all p = true := hconstant (by decide)
  have hmay : (lit "may_change").all p = true := hconstant (by decide)
  have hmust : (lit "must_not_change").all p = true := hconstant (by decide)
  rw [render_eq, VersionedContract.texts, List.all_cons, List.all_append]
  simp only [List.all_append, hheader, hint, hquoted, hlines, hfeed, hfeeds, hopen, hclose, hequals,
    hversion, hintent, hmay, hmust, Bool.true_and, Bool.and_true]

theorem carriageReturn_notMem_render (c : VersionedContract) :
    carriageReturn ∉ join [lineFeed] c.lines := by
  have hall : (join [lineFeed] c.lines).all (fun d => d ≠ carriageReturn) = true := by
    rw [all_render (fun d hd => ?_), List.all_eq_true]
    · intro s _
      refine List.all_eq_true.2 fun d _ => ?_
      unfold basicChar
      split_ifs with _ _ _ hreturn
      · decide
      · decide
      · decide
      · decide
      · simpa using hreturn
    · simp only [fixedChar, Bool.or_eq_true, Bool.and_eq_true, decide_eq_true_eq] at hd ⊢
      rcases hd with ⟨_, hne⟩ | hdash
      · exact hne
      · rintro rfl
        revert hdash
        decide
  intro hmem
  simpa using List.all_eq_true.1 hall _ hmem

theorem encodable_render (c : VersionedContract) :
    encodable (join [lineFeed] c.lines) = c.texts.all encodable := by
  have hchar : ∀ d, ((basicChar d).all fun d => !isSurrogate d) = !isSurrogate d := by
    intro d
    unfold basicChar
    split_ifs with hslash hquote hfeed hreturn
    · rw [hslash]; decide
    · rw [hquote]; decide
    · rw [hfeed]; decide
    · rw [hreturn]; decide
    · simp
  rw [encodable, all_render fun d hd => ?_]
  · simp only [hchar]
    rfl
  · simp only [fixedChar, Bool.or_eq_true, Bool.and_eq_true, decide_eq_true_eq] at hd
    simp only [isSurrogate, isHighSurrogate, isLowSurrogate, Bool.not_eq_true', Bool.or_eq_false_iff,
      Bool.and_eq_false_iff, decide_eq_false_iff_not]
    omega

end Rendered

/-! ## What a save leaves to load -/

variable {conv : TextConversion} {store : ContractFiles accepts} {taskId : PyStr}
  {c : VersionedContract}

/-- The version has a text, and no text holds a surrogate or a control character that is left as it
is. -/
def VersionedContract.writable (c : VersionedContract) : Bool :=
  !intTooLong c.version && c.texts.all fun s => encodable s && s.all storable

theorem writable_eq (c : VersionedContract) : c.writable =
    (!intTooLong c.version && (c.texts.all encodable && c.texts.all fun s => s.all storable)) := by
  rw [VersionedContract.writable, Bool.eq_iff_iff]
  simp only [Bool.and_eq_true, List.all_eq_true, forall_and]

theorem short_of_load (h : load conv store taskId = .ok (some c)) : intTooLong c.version = false := by
  unfold load at h
  split at h
  · cases h
  · split at h
    · cases h
    · split at h
      · cases h
      next doc hdoc =>
        cases hfrom : fromDocument conv doc with
        | error e => simp [hfrom, Except.map] at h
        | ok c' =>
          simp only [hfrom, Except.map, Except.ok.injEq, Option.some.injEq] at h
          subst h
          unfold fromDocument at hfrom
          split at hfrom
          · obtain ⟨_, _, hmay⟩ := bind_ok_iff.1 hfrom
            obtain ⟨_, _, hmust⟩ := bind_ok_iff.1 hmay
            obtain ⟨version, hversion, hmake⟩ := bind_ok_iff.1 hmust
            have hshort : intTooLong version = false := by
              unfold versionOf at hversion
              split at hversion
              · cases hversion
                decide
              next n hget =>
                cases hversion
                exact Toml.loads_short hdoc _ _ hget
              next s hget =>
                split at hversion
                next n hn =>
                  cases hversion
                  exact conv.short _ _ hn
                · cases hversion
              · cases hversion
            split at hmake
            · cases hmake
              exact hshort
            · cases hmake
          · cases hfrom

theorem load_write (h : accepts (pathFor taskId) = true) (text : PyStr)
    (hencodable : encodable text = true) :
    load conv (store.write (pathFor taskId) h (utf8 text)) taskId =
      match Toml.loads (universalNewlines text) with
      | .error e => .error (.toml e)
      | .ok doc => (fromDocument conv doc).map some := by
  simp [load, ContractFiles.write, decodeUtf8_utf8 hencodable]

/-- A contract is loaded as it was saved where the file system takes the name and the contract is
writable. -/
theorem load_save_iff : load conv (save store taskId c).1 taskId = .ok (some c) ↔
    accepts (pathFor taskId) = true ∧ c.writable = true := by
  rw [writable_eq]
  cases hlong : intTooLong c.version with
  | true =>
    refine iff_of_false (fun hload => ?_) (by simp)
    rw [short_of_load hload] at hlong
    cases hlong
  | false =>
    have hrender : c.render = some (join [lineFeed] c.lines) := by
      simp [VersionedContract.render, hlong]
    by_cases haccepts : accepts (pathFor taskId) = true
    · simp only [save, hrender, haccepts, dif_pos, encodable_render, Bool.not_false, Bool.true_and,
        true_and]
      cases hencodable : c.texts.all encodable with
      | true =>
        simp only [if_true]
        rw [load_write haccepts _ (by rw [encodable_render, hencodable]),
          universalNewlines_eq_iff.2 (carriageReturn_notMem_render c), loads_render c hlong]
        cases c.texts.all fun s => s.all storable with
        | true => simp [fromDocument_document, Except.map]
        | false => simp
      | false =>
        -- the file was emptied
        simp only [Bool.false_eq_true, if_false, Bool.false_and, iff_false]
        have hempty : utf8 [] = [] := rfl
        rw [← hempty, load_write haccepts [] rfl]
        exact fun h => nomatch h
    · -- there is no file of the name
      have hnone : store.files (pathFor taskId) = none := by
        by_contra hsome
        exact haccepts (store.named _ hsome)
      simp only [save, hrender, haccepts]
      simp [load, hnone]

/-! ## Every task's contract -/

structure KeepsEvery (conv : TextConversion) (store : ContractFiles accepts)
    (saves : List (PyStr × VersionedContract)) : Prop where
  loaded : ∀ taskId c, lastSaved saves taskId = some c →
    load conv (saveAll store saves) taskId = .ok (some c)
  apart : ∀ s ∈ saves, ∀ s' ∈ saves, s.1 ≠ s'.1 → pathFor s.1 ≠ pathFor s'.1

theorem pathFor_eq_iff {id id' : PyStr} :
    pathFor id = pathFor id' ↔ contractSlug id = contractSlug id' := by
  simp [pathFor]

theorem files_save_of_ne {path : PyStr} (h : path ≠ pathFor taskId) :
    (save store taskId c).1.files path = store.files path := by
  unfold save
  split
  · rfl
  · split_ifs
    · exact Function.update_of_ne h _ _
    · exact Function.update_of_ne h _ _
    · rfl

theorem lastSaved_append (saves : List (PyStr × VersionedContract)) (s : PyStr × VersionedContract)
    (taskId : PyStr) : lastSaved (saves ++ [s]) taskId =
      if s.1 = taskId then some s.2 else lastSaved saves taskId := by
  simp [lastSaved]

/-- The file of a task is the one its last save left, where no other task writes it. -/
theorem load_saveAll {saves : List (PyStr × VersionedContract)}
    (hapart : ∀ s ∈ saves, s.1 ≠ taskId → pathFor taskId ≠ pathFor s.1)
    (hlast : lastSaved saves taskId = some c) :
    ∃ before : ContractFiles accepts,
      load conv (saveAll store saves) taskId = load conv (save before taskId c).1 taskId := by
  induction saves using List.reverseRecOn with
  | nil => cases hlast
  | append_singleton saves s ih =>
    rw [lastSaved_append] at hlast
    have hall : saveAll store (saves ++ [s]) = (save (saveAll store saves) s.1 s.2).1 := by
      simp [saveAll]
    split_ifs at hlast with hid
    · cases hlast
      exact ⟨saveAll store saves, by rw [hall, hid]⟩
    · have hpath := hapart s (List.mem_append_right saves (List.mem_singleton.2 rfl)) hid
      obtain ⟨before, hbefore⟩ :=
        ih (fun s' hs' => hapart s' (List.mem_append_left [s] hs')) hlast
      refine ⟨before, ?_⟩
      rw [← hbefore, hall]
      simp only [load, files_save_of_ne hpath]

/-- The store keeps every task's contract exactly where the tasks' slugs differ and the last contract
of each is writable under a name the file system takes. -/
theorem keepsEvery_iff {saves : List (PyStr × VersionedContract)} : KeepsEvery conv store saves ↔
    (∀ s ∈ saves, ∀ s' ∈ saves, contractSlug s.1 = contractSlug s'.1 → s.1 = s'.1) ∧
      ∀ taskId c, lastSaved saves taskId = some c →
        accepts (pathFor taskId) = true ∧ c.writable = true := by
  have hapart : (∀ s ∈ saves, ∀ s' ∈ saves, s.1 ≠ s'.1 → pathFor s.1 ≠ pathFor s'.1) ↔
      ∀ s ∈ saves, ∀ s' ∈ saves, contractSlug s.1 = contractSlug s'.1 → s.1 = s'.1 := by
    simp only [ne_eq, not_imp_not, pathFor_eq_iff]
  have hsaved : ∀ {taskId : PyStr} {c : VersionedContract}, lastSaved saves taskId = some c →
      ∃ s ∈ saves, s.1 = taskId := by
    intro taskId c hlast
    clear hapart
    induction saves using List.reverseRecOn with
    | nil => cases hlast
    | append_singleton saves s ih =>
      rw [lastSaved_append] at hlast
      split_ifs at hlast with hid
      · exact ⟨s, by simp, hid⟩
      · obtain ⟨s', hs', hid'⟩ := ih hlast
        exact ⟨s', by simp [hs'], hid'⟩
  have hload : (∀ s ∈ saves, ∀ s' ∈ saves, s.1 ≠ s'.1 → pathFor s.1 ≠ pathFor s'.1) →
      ∀ taskId c, lastSaved saves taskId = some c →
        (load conv (saveAll store saves) taskId = .ok (some c) ↔
          accepts (pathFor taskId) = true ∧ c.writable = true) := by
    intro hfiles taskId c hlast
    obtain ⟨s, hs, rfl⟩ := hsaved hlast
    obtain ⟨before, hbefore⟩ : ∃ before : ContractFiles accepts,
        load conv (saveAll store saves) s.1 = load conv (save before s.1 c).1 s.1 :=
      load_saveAll (fun s' hs' hne => hfiles s hs s' hs' (Ne.symm hne)) hlast
    rw [hbefore, load_save_iff]
  rw [← hapart]
  constructor
  · intro hkeeps
    exact ⟨hkeeps.apart, fun taskId c hlast =>
      (hload hkeeps.apart taskId c hlast).1 (hkeeps.loaded taskId c hlast)⟩
  · intro h
    exact ⟨fun taskId c hlast => (hload h.1 taskId c hlast).2 (h.2 taskId c hlast), h.1⟩

end Store

/-- A repository without contracts, on a file system that takes every name. -/
def noContracts : ContractFiles fun _ => true := ⟨fun _ => none, fun _ _ => rfl⟩

def noConversion : TextConversion := ⟨fun _ => none, fun _ _ h => nomatch h⟩

def refundVersion : VersionedContract where
  toIntentContract := refundContract
  version := 1

def pagedContract : VersionedContract where
  intent := lit "fix the refund" ++ [codePoint 0x0C] ++ lit "and nothing else"
  mayChange := []
  mustNotChange := []
  stated := by decide
  meant := meant_nil
  version := 1

/-- A form feed in the intent leaves a file that is not loaded, and two ids can have one slug. -/
theorem contracts_lost :
    ¬ KeepsEvery noConversion noContracts [(lit "refund", pagedContract)] ∧
      ¬ KeepsEvery noConversion noContracts
        [(lit "fix/refund", refundVersion), (lit "fix-refund", pagedContract)] := by
  constructor
  · intro hkeeps
    have hload := hkeeps.loaded (lit "refund") pagedContract rfl
    rw [saveAll, List.foldl_cons, List.foldl_nil, load_save_iff] at hload
    exact absurd hload.2 (by decide)
  · intro hkeeps
    exact hkeeps.apart _ List.mem_cons_self _ (List.mem_cons_of_mem _ (List.mem_singleton.2 rfl))
      (by decide) (by decide)

end Tempest
