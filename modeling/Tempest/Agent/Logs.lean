import Tempest.Agent.Journal
import Tempest.Python.Convert
import Tempest.Python.JsonLines

/-!
# Logs — the journal and the ledger as files (`agent/journal.py`, `inference/cost.py`)

Both append one object a line and read all lines back.  Behind an append that a crash broke off they
read what is complete exactly when the break is clean: a torn line makes every later read raise, and
the next record goes on in the same line.
-/

namespace Tempest

open Python

/-! ## The journal -/

structure EntryRow where
  id : PyStr
  seq : Int
  kind : PyStr
  summary : PyStr
  files : List PyStr
  undone : Bool
  deriving DecidableEq

inductive LogReadError where
  | log (error : LogError)
  /-- `KeyError`. -/
  | missing (key : PyStr)
  | int (error : IntError)
  /-- `decimal.InvalidOperation`. -/
  | decimal
  deriving DecidableEq

def JournalRecord.fields : JournalRecord → List (PyStr × Json)
  | .action id seq kind summary files =>
    [(lit "id", .str id), (lit "seq", .int seq), (lit "kind", .str kind), (lit "summary", .str summary),
      (lit "files", .arr (files.map fun f => .str (join [slash] f)))]
  | .undo id => [(lit "undo", .str id)]

def JournalRecord.unprintable : JournalRecord → Bool
  | .action _ seq _ _ _ => intTooLong seq
  | .undo _ => false

/-- A record that `_append` has written. -/
structure WrittenRecord where
  record : JournalRecord
  printable : record.unprintable = false

theorem itemsHeight_strs {α : Type} (f : α → PyStr) (items : List α) :
    itemsHeight (items.map fun a => .str (f a)) = 0 := by
  induction items with
  | nil => rfl
  | cons a items ih =>
    rw [List.map_cons, itemsHeight, ih]
    rfl

theorem hasLongIntItems_strs {α : Type} (f : α → PyStr) (items : List α) :
    hasLongIntItems (items.map fun a => .str (f a)) = false := by
  rw [hasLongIntItems_iff]
  intro item hitem
  obtain ⟨a, -, rfl⟩ := List.mem_map.mp hitem
  rfl

def WrittenRecord.log (r : WrittenRecord) : LogRecord where
  fields := r.record.fields
  lettered := by
    cases r.record <;> exact lettered_of_all (List.cons_ne_nil _ _) rfl
  printable := by
    obtain ⟨record, hprintable⟩ := r
    cases record with
    | action id seq kind summary files =>
      have hseq : intTooLong seq = false := hprintable
      simp [JournalRecord.fields, Json.hasLongInt, hasLongIntFields, hasLongIntItems_strs, hseq]
    | undo id => rfl
  shallow := by
    cases r.record with
    | action id seq kind summary files =>
      simp [JournalRecord.fields, Json.height, fieldsHeight, itemsHeight_strs]
    | undo id => exact Nat.le_succ 1

section Journal

variable (interp : Interpreter)

/-- `record[key]`. -/
def fieldOf (key : String) (fields : List (PyStr × JsonValue)) : Except LogReadError JsonValue :=
  match Dict.find (lit key) fields with
  | some v => .ok v
  | none => .error (.missing (lit key))

/-- `str(record["undo"])` of the records that have one. -/
def undoneOf (records : List (List (PyStr × JsonValue))) : List PyStr :=
  records.filterMap fun fields => (Dict.find (lit "undo") fields).map (JsonValue.text interp)

def entryRow (undone : List PyStr) (fields : List (PyStr × JsonValue)) : Except LogReadError EntryRow := do
  let files := match Dict.find (lit "files") fields with
    | some (.arr items) => items.map (JsonValue.text interp)
    | _ => []
  let id := (← fieldOf "id" fields).text interp
  let seq ← ((← fieldOf "seq" fields).toInt interp).mapError .int
  let kind := (← fieldOf "kind" fields).text interp
  let summary := (← fieldOf "summary" fields).text interp
  return ⟨id, seq, kind, summary, files, decide (id ∈ undone)⟩

/-- The loop of `entries`. -/
def entryRows (undone : List PyStr) : List (List (PyStr × JsonValue)) → Except LogReadError (List EntryRow)
  | [] => .ok []
  | fields :: records =>
    if (Dict.find (lit "undo") fields).isSome then entryRows undone records
    else do
      let row ← entryRow interp undone fields
      return row :: (← entryRows undone records)

/-- `entries`, of a log file. -/
def readEntries (file : Bytes) : Except LogReadError (List EntryRow) := do
  let records ← (readLog interp file).mapError .log
  entryRows interp (undoneOf interp records) records

end Journal

def undoneIdsOf (records : List WrittenRecord) : List PyStr :=
  records.filterMap fun r =>
    match r.record with
    | .action _ _ _ _ _ => none
    | .undo id => some (wireText id)

def loggedEntries (records : List WrittenRecord) : List EntryRow :=
  records.filterMap fun r =>
    match r.record with
    | .action id seq kind summary files =>
      some ⟨wireText id, seq, wireText kind, wireText summary,
        files.map fun f => wireText (join [slash] f),
        decide (wireText id ∈ undoneIdsOf records)⟩
    | .undo _ => none

/-! ## The ledger -/

/-- `str` of a decimal and `Decimal` of a text; a decimal comes back from its own text. -/
structure DecimalText where
  textOf : ℚ → PyStr
  valueOf : PyStr → Option ℚ
  plain : ∀ d, noSplitPair (textOf d) = true
  back : ∀ d : ℚ, (∃ (n : Int) (k : Nat), d = n / 10 ^ k) → valueOf (textOf d) = some d

/-- A charge that `spend` has written. -/
structure WrittenCharge where
  charge : Charge
  dollars : Option ℚ
  decimal : ∀ d ∈ dollars, ∃ (n : Int) (k : Nat), d = n / 10 ^ k
  printable : charge.unprintable = false

def WrittenCharge.fields (decimals : DecimalText) (c : WrittenCharge) : List (PyStr × Json) :=
  [(lit "provider", .str c.charge.provider), (lit "model", .str c.charge.model),
    (lit "input_tokens", .int c.charge.inputTokens), (lit "output_tokens", .int c.charge.outputTokens),
    (lit "cached_input_tokens", .int c.charge.cachedInputTokens),
    (lit "dollars", match c.dollars with
      | none => .null
      | some d => .str (decimals.textOf d)),
    (lit "task", .str (c.charge.key .task)), (lit "session", .str (c.charge.key .session)),
    (lit "day", .str (c.charge.key .day))]

def WrittenCharge.log (decimals : DecimalText) (c : WrittenCharge) : LogRecord where
  fields := c.fields decimals
  lettered := lettered_of_all (List.cons_ne_nil _ _) rfl
  printable := by
    have hprintable := c.printable
    simp only [Charge.unprintable, Bool.or_eq_false_iff] at hprintable
    obtain ⟨⟨hinput, houtput⟩, hcached⟩ := hprintable
    cases hdollars : c.dollars <;>
      simp [WrittenCharge.fields, Json.hasLongInt, hasLongIntFields, hdollars, hinput, houtput, hcached]
  shallow := by
    cases hdollars : c.dollars <;> simp [WrittenCharge.fields, Json.height, fieldsHeight, hdollars]

/-- What has been spent, for counts of any sign. -/
structure SpendTotal where
  inputTokens : Int := 0
  outputTokens : Int := 0
  dollars : Option ℚ := none
  unpricedCharges : Nat := 0

def SpendTotal.plus (s : SpendTotal) (inputTokens outputTokens : Int) (dollars : Option ℚ) : SpendTotal :=
  match dollars with
  | none =>
    { s with
      inputTokens := s.inputTokens + inputTokens
      outputTokens := s.outputTokens + outputTokens
      unpricedCharges := s.unpricedCharges + 1 }
  | some d =>
    { s with
      inputTokens := s.inputTokens + inputTokens
      outputTokens := s.outputTokens + outputTokens
      dollars := some (decimalAdd (s.dollars.getD 0) d) }

def Spend.total (s : Spend) : SpendTotal := ⟨s.inputTokens, s.outputTokens, s.dollars, s.unpricedCharges⟩

section Ledger

variable (interp : Interpreter) (decimals : DecimalText) (scope : Scope) (key : PyStr)

/-- `int(record.get(name, 0))`. -/
def countOf (name : String) (fields : List (PyStr × JsonValue)) : Except LogReadError Int :=
  (((Dict.find (lit name) fields).getD (.int 0)).toInt interp).mapError .int

/-- `record.get(scope) == key`. -/
def keyedBy (fields : List (PyStr × JsonValue)) : Bool :=
  match Dict.find scope.text fields with
  | some (.str s) => s = key
  | _ => false

/-- One turn of the loop of `totals`. -/
def addRecord (s : SpendTotal) (fields : List (PyStr × JsonValue)) : Except LogReadError SpendTotal := do
  let input ← countOf interp "input_tokens" fields
  let output ← countOf interp "output_tokens" fields
  match (Dict.find (lit "dollars") fields).getD .null with
  | .null => return s.plus input output none
  | raw =>
    match decimals.valueOf (raw.text interp) with
    | some d => return s.plus input output (some d)
    | none => .error .decimal

/-- The loop of `totals`. -/
def addRecords (s : SpendTotal) : List (List (PyStr × JsonValue)) → Except LogReadError SpendTotal
  | [] => .ok s
  | fields :: records =>
    if keyedBy scope key fields then do addRecords (← addRecord interp decimals s fields) records
    else addRecords s records

/-- `totals`, of a ledger file. -/
def readTotals (file : Bytes) : Except LogReadError SpendTotal := do
  let records ← (readLog interp file).mapError .log
  addRecords interp decimals scope key {} records

end Ledger

/-! ## What is read of what was written -/

section Written

variable (interp : Interpreter)

theorem value_action {id kind summary : PyStr} {seq : Nat} {files : List FilePath}
    (h : JournalRecord.unprintable (.action id seq kind summary files) = false) :
    (WrittenRecord.log ⟨.action id seq kind summary files, h⟩).value =
      [(lit "files", .arr (wireJsons (files.map fun f => .str (join [slash] f)))),
        (lit "id", .str (wireText id)), (lit "kind", .str (wireText kind)), (lit "seq", .int seq),
        (lit "summary", .str (wireText summary))] := rfl

theorem texts_wireJsons (files : List FilePath) :
    (wireJsons (files.map fun f => .str (join [slash] f))).map (JsonValue.text interp) =
      files.map fun f => wireText (join [slash] f) := by
  rw [wireJsons_eq_map, List.map_map, List.map_map]
  rfl

theorem undoneOf_written (records : List WrittenRecord) :
    undoneOf interp (records.map fun r => r.log.value) = undoneIdsOf records := by
  rw [undoneOf, undoneIdsOf, List.filterMap_map]
  refine List.filterMap_congr fun r _ => ?_
  obtain ⟨record, h⟩ := r
  cases record <;> rfl

theorem entryRows_written (records : List WrittenRecord) (undone : List PyStr) :
    entryRows interp undone (records.map fun r => r.log.value) =
      .ok (records.filterMap fun r =>
        match r.record with
        | .action id seq kind summary files =>
          some ⟨wireText id, seq, wireText kind, wireText summary,
            files.map fun f => wireText (join [slash] f), decide (wireText id ∈ undone)⟩
        | .undo _ => none) := by
  induction records with
  | nil => rfl
  | cons r records ih =>
    obtain ⟨record, h⟩ := r
    cases record with
    | undo id =>
      have hundo : (Dict.find (lit "undo") (WrittenRecord.log ⟨.undo id, h⟩).value).isSome = true := rfl
      rw [List.map_cons, entryRows, if_pos hundo, ih]
      rfl
    | action id seq kind summary files =>
      have hrow : entryRow interp undone (WrittenRecord.log ⟨.action id seq kind summary files,
        h⟩).value =
          .ok ⟨wireText id, seq, wireText kind, wireText summary,
            files.map fun f => wireText (join [slash] f), decide (wireText id ∈ undone)⟩ := by
        rw [value_action, ← texts_wireJsons interp files]
        rfl
      have hnew : ¬ (Dict.find (lit "undo")
          (WrittenRecord.log ⟨.action id seq kind summary files, h⟩).value).isSome = true := by
        rw [value_action]
        exact Bool.false_ne_true
      rw [List.map_cons, entryRows, if_neg hnew, hrow, ih]
      rfl

theorem value_charge (decimals : DecimalText) (c : WrittenCharge) : (c.log decimals).value =
    [(lit "cached_input_tokens", .int c.charge.cachedInputTokens), (lit "day", .str (wireText (c.charge.key .day))),
      (lit "dollars", Json.wire (match c.dollars with
        | none => .null
        | some d => .str (decimals.textOf d))),
      (lit "input_tokens", .int c.charge.inputTokens), (lit "model", .str (wireText c.charge.model)),
      (lit "output_tokens", .int c.charge.outputTokens), (lit "provider", .str (wireText c.charge.provider)),
      (lit "session", .str (wireText (c.charge.key .session))), (lit "task", .str (wireText (c.charge.key .task)))] :=
  rfl

theorem total_plus (s : Spend) (input output : Nat) (dollars : Option ℚ) :
    s.total.plus input output dollars = (s.plus input output dollars).total := by
  cases dollars <;> rfl

theorem addRecord_written (decimals : DecimalText) (s : Spend) (c : WrittenCharge) :
    addRecord interp decimals s.total (c.log decimals).value =
      .ok (s.add (c.charge.entry c.dollars)).total := by
  rw [value_charge]
  cases hdollars : c.dollars with
  | none => exact congrArg Except.ok (total_plus s _ _ none)
  | some d =>
    have hback : decimals.valueOf (wireText (decimals.textOf d)) = some d := by
      rw [wireText_of_noSplitPair (decimals.plain d)]
      exact decimals.back d (c.decimal d (by rw [hdollars]; rfl))
    change (match decimals.valueOf (wireText (decimals.textOf d)) with
      | some d => Except.ok (s.total.plus c.charge.inputTokens c.charge.outputTokens (some d))
      | none => Except.error LogReadError.decimal) = _
    rw [hback]
    exact congrArg Except.ok (total_plus s _ _ (some d))

theorem keyedBy_written (decimals : DecimalText) (scope : Scope) (key : PyStr) (c : WrittenCharge) :
    keyedBy scope key (c.log decimals).value = decide (wireText (c.charge.key scope) = key) := by
  cases scope <;> rfl

theorem addRecords_written (decimals : DecimalText) (scope : Scope) (key : PyStr)
    (charges : List WrittenCharge) (s : Spend) :
    addRecords interp decimals scope key s.total (charges.map fun c => (c.log decimals).value) =
      .ok (((charges.map fun c => c.charge.entry c.dollars).filter fun e => e.key scope = key).foldl
        Spend.add s).total := by
  induction charges generalizing s with
  | nil => rfl
  | cons c charges ih =>
    rw [List.map_cons, addRecords, keyedBy_written, List.map_cons]
    by_cases hkey : wireText (c.charge.key scope) = key
    · have hkeep : (c.charge.entry c.dollars).key scope = key := hkey
      rw [if_pos (decide_eq_true hkey), List.filter_cons_of_pos (by simpa using hkeep),
        addRecord_written]
      exact ih _
    · have hskip : ¬ (c.charge.entry c.dollars).key scope = key := hkey
      rw [if_neg fun h => hkey (of_decide_eq_true h), List.filter_cons_of_neg (by simpa using hskip)]
      exact ih s

end Written

/-! ## Crashes -/

section Crash

variable (interp : Interpreter) {k : Nat}

theorem readEntries_clean_iff (records : List WrittenRecord) (last : WrittenRecord)
    (later : List WrittenRecord) :
    readEntries interp (tornLog (records.map WrittenRecord.log) last.log k
      (later.map WrittenRecord.log)) =
        .ok (loggedEntries (records ++ completed WrittenRecord.log last k ++ later)) ↔
      CleanBreak last.log k later := by
  constructor
  · intro h
    by_contra hbroken
    obtain ⟨e, hread⟩ := readLog_broken interp WrittenRecord.log records hbroken
    rw [readEntries, hread] at h
    cases h
  · intro h
    rw [readEntries, readLog_kept interp WrittenRecord.log records h]
    change entryRows interp (undoneOf interp
      ((records ++ completed WrittenRecord.log last k ++ later).map
      fun r => r.log.value)) _ = _
    rw [undoneOf_written]
    exact entryRows_written interp _ _

theorem readTotals_clean_iff (decimals : DecimalText) (charges : List WrittenCharge)
    (last : WrittenCharge)
    (later : List WrittenCharge) :
    (∀ scope key, readTotals interp decimals scope key
        (tornLog (charges.map (WrittenCharge.log decimals)) (last.log decimals) k
          (later.map (WrittenCharge.log decimals))) =
      .ok (totals ((charges ++ completed (WrittenCharge.log decimals) last k ++ later).map
        fun c => c.charge.entry c.dollars) scope key).total) ↔
      CleanBreak (last.log decimals) k later := by
  constructor
  · intro h
    by_contra hbroken
    obtain ⟨e, hread⟩ := readLog_broken interp (WrittenCharge.log decimals) charges hbroken
    have htotals := h .task []
    rw [readTotals, hread] at htotals
    cases htotals
  · intro h scope key
    rw [readTotals, readLog_kept interp (WrittenCharge.log decimals) charges h]
    exact addRecords_written interp decimals scope key _ {}

end Crash

def openedRecord : WrittenRecord := ⟨.action (lit "1") 0 (lit "edit") (lit "e") [[lit "a"]], by decide⟩

def undoneRecord : WrittenRecord := ⟨.undo (lit "1"), rfl⟩

end Tempest
