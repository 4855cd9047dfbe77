import Tempest.Bundle.Bundle

/-!
# Roundtrip — when a bundle is read back as it was written

Reading after writing yields the bundle with every text sent through JSON and every script sent
through a text file (`manifestFrom_wire`, `targetFrom_wire`, `get?_readScripts`).  The reader takes
only `*.py` files, and takes all of them: `reads_back_iff` is the exact condition under which
nothing is lost, added or changed.
-/

namespace Tempest

open Python Document

/-! ## The records through the file -/

theorem mapM_ok {α β : Type} {f : α → Except (ReadError Key) β} {g : α → β} {xs : List α}
    (h : ∀ x ∈ xs, f x = .ok (g x)) : xs.mapM f = .ok (xs.map g) := by
  induction xs with
  | nil => rfl
  | cons x xs ih =>
    have hhead := h x List.mem_cons_self
    have hrest := ih fun y hy => h y (List.mem_cons_of_mem x hy)
    simp [List.mapM_cons, hhead, hrest, bind, Except.bind, pure, Except.pure]

def DivergenceRecord.wire (d : DivergenceRecord) : DivergenceRecord :=
  { d with
    detail := wireText d.detail
    argsLiteral := wireText d.argsLiteral
    kwargsLiteral := wireText d.kwargsLiteral
    minimizedArgs := d.minimizedArgs.map wireText
    minimizedKwargs := d.minimizedKwargs.map wireText
    shrinkPath := d.shrinkPath.map wireText
    baseSummary := wireText d.baseSummary
    headSummary := wireText d.headSummary
    reproFilename := d.reproFilename.map wireText
    aiNarrative := d.aiNarrative.map wireText }

def TargetRecord.wire (t : TargetRecord) : TargetRecord :=
  { t with
    filePath := wireText t.filePath
    module := wireText t.module
    qualname := wireText t.qualname
    reasonDetail := t.reasonDetail.map wireText
    divergences := t.divergences.map DivergenceRecord.wire }

def RunManifest.wire (m : RunManifest) : RunManifest :=
  { m with
    engineVersion := wireText m.engineVersion
    repo := wireText m.repo
    baseSha := wireText m.baseSha
    headSha := wireText m.headSha
    createdAt := wireText m.createdAt
    baseDeps := wireText m.baseDeps
    headDeps := wireText m.headDeps
    sandboxTier := wireText m.sandboxTier
    sandboxAssurance := wireText m.sandboxAssurance }

section Enum

variable {α : Type} [TextEnum α]

theorem wire_enumDoc (a : α) : (enumDoc a).wire = enumDoc a := by
  simp only [enumDoc, Document.wire, wireText_text]

theorem asText_enumDoc (a : α) : (enumDoc a).asText = .ok (TextEnum.text a) := rfl

end Enum

theorem asText_str (s : PyStr) : (Document.str s : JsonFile).asText = .ok s := rfl

theorem asNat_int (n : Nat) : asNat (.int n) = .ok n := rfl

theorem reasonFrom_wire (reason : Option ReasonCode) :
    reasonFrom (Document.ofText? (reason.map (wireText ∘ TextEnum.text))) = .ok reason := by
  cases reason with
  | none => rfl
  | some code =>
    have htext : (TextEnum.text code : PyStr) ≠ [] := by cases code <;> decide
    have hcode : ofText ReasonCode (TextEnum.text code) = (.ok code : Except (ReadError Key) _) :=
      ofText_text code
    have hwire := wireText_text code
    cases hlist : (TextEnum.text code : PyStr) with
    | nil => exact absurd hlist htext
    | cons c rest =>
      rw [hlist] at hcode hwire
      simp [reasonFrom, Document.ofText?, asText?, hlist, hwire, hcode, bind, Except.bind, pure,
        Except.pure]

theorem divergenceFrom_wire (d : DivergenceRecord) : divergenceFrom d.asdict.wire = .ok d.wire := by
  have hpath : d.shrinkPath.mapM
      (asText ∘ Document.wire ∘ Document.str : PyStr → Except (ReadError Key) PyStr) =
      .ok (d.shrinkPath.map wireText) := mapM_ok fun _ _ => rfl
  simp only [DivergenceRecord.asdict, Document.wire, wireFields, wire_enumDoc, wireAll_eq_map,
    wire_ofText?, divergenceFrom]
  simp only [getItem_here, getItem_there, get?_here, get?_there, ne_eq, reduceCtorEq, not_false_eq_true]
  simp [bind, Except.bind, pure, Except.pure, asText_enumDoc, ofText_text, asText_str, asList,
    DivergenceRecord.wire, hpath]

theorem targetFrom_wire (t : TargetRecord) : targetFrom t.asdict.wire = .ok t.wire := by
  have hdivergences : t.divergences.mapM
      (divergenceFrom ∘ Document.wire ∘ DivergenceRecord.asdict) =
      .ok (t.divergences.map DivergenceRecord.wire) :=
    mapM_ok fun d _ => divergenceFrom_wire d
  have hreason := reasonFrom_wire t.reasonCode
  simp only [TargetRecord.asdict, Document.wire, wireFields, wire_enumDoc, wireAll_eq_map,
    wire_ofText?, targetFrom]
  simp only [getItem_here, getItem_there, ne_eq, reduceCtorEq, not_false_eq_true]
  simp [bind, Except.bind, pure, Except.pure, asText_enumDoc, ofText_text, asText_str, asList,
    asFloat, asNat_int, TargetRecord.wire, hdivergences, hreason]

theorem manifestFrom_wire (m : RunManifest) :
    manifestFrom m.asdict.wire =
      if bundleSchemaVersion < m.schemaVersion then .error (.newer m.schemaVersion)
      else .ok m.wire := by
  simp only [RunManifest.asdict, Document.wire, wireFields, wire_enumDoc, manifestFrom]
  simp only [getItem_here, getItem_there, get?_here, get?_there, ne_eq, reduceCtorEq,
    not_false_eq_true]
  by_cases h : bundleSchemaVersion < m.schemaVersion
  · simp [bind, Except.bind, asInt, h]
  · simp [bind, Except.bind, pure, Except.pure, asInt, h, asText_enumDoc, ofText_text, asText_str,
      RunManifest.wire]

/-! ## Texts that come back as they were -/

def DivergenceRecord.texts (d : DivergenceRecord) : List PyStr :=
  [d.detail, d.argsLiteral, d.kwargsLiteral, d.baseSummary, d.headSummary] ++ d.shrinkPath ++
    d.minimizedArgs.toList ++ d.minimizedKwargs.toList ++ d.reproFilename.toList ++
    d.aiNarrative.toList

def TargetRecord.texts (t : TargetRecord) : List PyStr :=
  [t.filePath, t.module, t.qualname] ++ t.reasonDetail.toList ++
    t.divergences.flatMap DivergenceRecord.texts

def RunManifest.texts (m : RunManifest) : List PyStr :=
  [m.engineVersion, m.repo, m.baseSha, m.headSha, m.createdAt, m.baseDeps, m.headDeps,
    m.sandboxTier, m.sandboxAssurance]

def RunBundle.texts (b : RunBundle) : List PyStr :=
  b.manifest.texts ++ b.targets.flatMap TargetRecord.texts

def TargetRecord.counts (t : TargetRecord) : List Int :=
  [t.inputsRun, t.equivalentInputs, t.unprovableInputs]

/-- The integers of the two JSON files. -/
def RunBundle.counts (b : RunBundle) : List Int :=
  [b.manifest.schemaVersion, b.manifest.budgetMaxInputs] ++ b.targets.flatMap TargetRecord.counts

theorem option_map_wireText_iff {s : Option PyStr} :
    s.map wireText = s ↔ ∀ t ∈ s.toList, noSplitPair t = true := by
  cases s with
  | none => simp
  | some s => simp [wireText_eq_iff]

theorem map_eq_self_iff {α : Type} {f : α → α} {xs : List α} :
    xs.map f = xs ↔ ∀ x ∈ xs, f x = x := by
  induction xs with
  | nil => simp
  | cons x xs ih => simp [ih]

theorem DivergenceRecord.wire_eq_iff (d : DivergenceRecord) :
    d.wire = d ↔ ∀ s ∈ d.texts, noSplitPair s = true := by
  have hpath : d.shrinkPath.map wireText = d.shrinkPath ↔
      ∀ s ∈ d.shrinkPath, noSplitPair s = true := by
    rw [map_eq_self_iff]
    exact forall₂_congr fun s _ => wireText_eq_iff
  cases d with
  | mk divergenceClass severity detail argsLiteral kwargsLiteral minimizedArgs minimizedKwargs
      shrinkPath baseSummary headSummary reproFilename aiNarrative =>
      simp only [DivergenceRecord.wire, DivergenceRecord.mk.injEq, true_and, wireText_eq_iff,
        option_map_wireText_iff, hpath, DivergenceRecord.texts, List.forall_mem_append,
        List.forall_mem_cons]
      tauto

theorem TargetRecord.wire_eq_iff (t : TargetRecord) :
    t.wire = t ↔ ∀ s ∈ t.texts, noSplitPair s = true := by
  have hdivergences : t.divergences.map DivergenceRecord.wire = t.divergences ↔
      ∀ s ∈ t.divergences.flatMap DivergenceRecord.texts, noSplitPair s = true := by
    rw [map_eq_self_iff, List.forall_mem_flatMap]
    exact forall₂_congr fun d _ => d.wire_eq_iff
  cases t with
  | mk filePath module qualname lang classification verdict reasonCode reasonDetail inputsRun
      equivalentInputs unprovableInputs changedLineCoverage divergences =>
      simp only [TargetRecord.wire, TargetRecord.mk.injEq, true_and, wireText_eq_iff,
        option_map_wireText_iff, hdivergences, TargetRecord.texts, List.forall_mem_append,
        List.forall_mem_cons]
      tauto

theorem RunManifest.wire_eq_iff (m : RunManifest) :
    m.wire = m ↔ ∀ s ∈ m.texts, noSplitPair s = true := by
  cases m with
  | mk schemaVersion engineVersion repo baseSha headSha createdAt verdict baseDeps headDeps
      budgetMaxInputs sandboxTier sandboxAssurance =>
      simp only [RunManifest.wire, RunManifest.mk.injEq, true_and, wireText_eq_iff,
        RunManifest.texts, List.forall_mem_cons]
      simp

/-! ## Integers that can be printed -/

theorem hasLongInt_strings (texts : List PyStr) :
    itemsHaveLongInt (texts.map Document.str : List JsonFile) = false := by
  simp [itemsHaveLongInt_eq_any, Document.hasLongInt]

theorem hasLongInt_enumDoc {α : Type} [TextEnum α] (a : α) : (enumDoc a).hasLongInt = false := rfl

theorem DivergenceRecord.hasLongInt_asdict (d : DivergenceRecord) : d.asdict.hasLongInt = false := by
  simp [DivergenceRecord.asdict, Document.hasLongInt, fieldsHaveLongInt, hasLongInt_enumDoc,
    hasLongInt_strings]

theorem TargetRecord.hasLongInt_asdict (t : TargetRecord) :
    t.asdict.hasLongInt = t.counts.any intTooLong := by
  have hdivergences : itemsHaveLongInt (t.divergences.map DivergenceRecord.asdict) = false := by
    simp [itemsHaveLongInt_eq_any, DivergenceRecord.hasLongInt_asdict]
  simp [TargetRecord.asdict, Document.hasLongInt, fieldsHaveLongInt, hasLongInt_enumDoc,
    hdivergences, TargetRecord.counts]

theorem RunManifest.hasLongInt_asdict (m : RunManifest) :
    m.asdict.hasLongInt = [m.schemaVersion, m.budgetMaxInputs].any intTooLong := by
  simp [RunManifest.asdict, Document.hasLongInt, fieldsHaveLongInt, hasLongInt_enumDoc]

theorem targets_hasLongInt (targets : List TargetRecord) :
    (Document.arr (targets.map TargetRecord.asdict)).hasLongInt =
      (targets.flatMap TargetRecord.counts).any intTooLong := by
  simp [Document.hasLongInt, itemsHaveLongInt_eq_any, TargetRecord.hasLongInt_asdict,
    List.any_flatMap, Function.comp_def]

/-! ## The scripts -/

/-- The directory can store the script under its name. -/
def Storable (p : PyStr × PyStr) : Prop := fileNameOk p.1 = true ∧ encodable p.2 = true

theorem writeScripts_ok_iff {scripts : List (PyStr × PyStr)} {dir dir' : Dict PyStr PyStr} :
    writeScripts scripts dir = .ok dir' ↔ (∀ p ∈ scripts, Storable p) ∧ dir' = dir.setAll scripts := by
  induction scripts generalizing dir with
  | nil =>
    simp only [writeScripts, Dict.setAll, List.foldl_nil, Except.ok.injEq]
    constructor
    · intro h
      refine ⟨?_, h.symm⟩
      intro p hp
      cases hp
    · exact fun h => h.2.symm
  | cons p scripts ih =>
    rcases p with ⟨name, content⟩
    rw [List.forall_mem_cons]
    by_cases hname : fileNameOk name = true
    · by_cases hcontent : encodable content = true
      · simp [writeScripts, Storable, hname, hcontent, ih, Dict.setAll]
      · simp [writeScripts, Storable, hname, hcontent]
    · simp [writeScripts, Storable, hname]

/-- What a script's name is read back as, among the files of the directory. -/
theorem get?_readScripts {dir : Dict PyStr PyStr} {name text : PyStr} :
    (readScripts (some dir)).get? name = some text ↔
      isPyFile name = true ∧ ∃ content, dir.get? name = some content ∧
        universalNewlines content = text := by
  simp only [readScripts, Dict.get?_eq_some_iff, Dict.mem_items_mapValues, Dict.mem_items_sorted,
    Dict.mem_items_filterKeys]
  constructor
  · rintro ⟨content, ⟨hmem, hpy⟩, htext⟩
    exact ⟨hpy, content, hmem, htext⟩
  · rintro ⟨hpy, content, hmem, htext⟩
    exact ⟨content, ⟨hmem, hpy⟩, htext⟩

section Written

variable {scripts dir : Dict PyStr PyStr} {name content : PyStr}

theorem get?_written (h : (name, content) ∈ scripts.items) :
    (dir.setAll scripts.sorted.items).get? name = some content :=
  Dict.get?_setAll_of_mem scripts.sorted.nodup (Dict.mem_items_sorted.2 h)

theorem get?_untouched (h : name ∉ scripts.keys) :
    (dir.setAll scripts.sorted.items).get? name = dir.get? name := by
  apply Dict.get?_setAll_of_notMem
  intro hmem
  rcases List.mem_map.1 hmem with ⟨p, hp, rfl⟩
  exact h (List.mem_map_of_mem (Dict.mem_items_sorted.1 hp))

end Written

/-- The scripts come back, and nothing else with them. -/
def ScriptsKept (scripts dir : Dict PyStr PyStr) : Prop :=
  ∀ name, (readScripts (some (dir.setAll scripts.sorted.items))).get? name = scripts.get? name

theorem scriptsKept_iff {scripts dir : Dict PyStr PyStr} :
    ScriptsKept scripts dir ↔
      (∀ p ∈ scripts.items, isPyFile p.1 = true ∧ carriageReturn ∉ p.2) ∧
        ∀ name ∈ dir.keys, isPyFile name = true → name ∈ scripts.keys := by
  constructor
  · intro hkept
    refine ⟨?_, ?_⟩
    · rintro ⟨name, content⟩ hmem
      have hread := (hkept name).trans (Dict.get?_eq_some_iff.2 hmem)
      rcases get?_readScripts.1 hread with ⟨hpy, stored, hstored, htext⟩
      have hsame : stored = content := by
        rw [get?_written hmem] at hstored
        exact (Option.some.inj hstored).symm
      rw [hsame] at htext
      exact ⟨hpy, universalNewlines_eq_iff.1 htext⟩
    · -- a file of an earlier bundle would be read as a script of this one
      intro name hname hpy
      by_contra hnot
      cases hold : dir.get? name with
      | none => exact Dict.get?_eq_none_iff.1 hold hname
      | some content =>
        have hread : (readScripts (some (dir.setAll scripts.sorted.items))).get? name =
            some (universalNewlines content) :=
          get?_readScripts.2 ⟨hpy, content, (get?_untouched hnot).trans hold, rfl⟩
        have hscript := (hkept name).symm.trans hread
        rw [Dict.get?_eq_none_iff.2 hnot] at hscript
        cases hscript
  · rintro ⟨hscripts, hstale⟩ name
    cases hscript : scripts.get? name with
    | some content =>
      have hmem := Dict.get?_eq_some_iff.1 hscript
      have hscript := hscripts _ hmem
      exact get?_readScripts.2 ⟨hscript.1, content, get?_written hmem,
        universalNewlines_eq_iff.2 hscript.2⟩
    | none =>
      have hnot := Dict.get?_eq_none_iff.1 hscript
      cases hread : (readScripts (some (dir.setAll scripts.sorted.items))).get? name with
      | none => rfl
      | some text =>
        rcases get?_readScripts.1 hread with ⟨hpy, stored, hstored, _⟩
        rw [get?_untouched hnot] at hstored
        have hold : name ∈ dir.keys := List.mem_map_of_mem (Dict.get?_eq_some_iff.1 hstored)
        exact absurd (hstale name hold hpy) hnot

/-! ## The bundle -/

def ReadsBack (b : RunBundle) (dir : BundleDir) : Prop :=
  ∃ dir' b', writeBundle b dir = .ok dir' ∧ readBundle dir' = .ok b' ∧ b'.manifest = b.manifest ∧
    b'.targets = b.targets ∧ ∀ name, b'.reproScripts.get? name = b.reproScripts.get? name

structure Portable (b : RunBundle) (dir : BundleDir) : Prop where
  schema : b.manifest.schemaVersion ≤ bundleSchemaVersion
  counts : ∀ n ∈ b.counts, intTooLong n = false
  texts : ∀ s ∈ b.texts, noSplitPair s = true
  storable : ∀ p ∈ b.reproScripts.items, Storable p
  scripts : ∀ p ∈ b.reproScripts.items, isPyFile p.1 = true ∧ carriageReturn ∉ p.2
  stale : ∀ name ∈ (dir.repros.getD .empty).keys, isPyFile name = true → name ∈ b.reproScripts.keys

def RunBundle.written (b : RunBundle) (dir : BundleDir) : BundleDir where
  manifest := some b.manifest.asdict.wire
  targets := some (Document.arr (b.targets.map TargetRecord.asdict)).wire
  repros := some ((dir.repros.getD .empty).setAll b.reproScripts.sorted.items)

theorem counts_iff {b : RunBundle} :
    (∀ n ∈ b.counts, intTooLong n = false) ↔ b.manifest.asdict.hasLongInt = false ∧
      (Document.arr (b.targets.map TargetRecord.asdict)).hasLongInt = false := by
  rw [RunManifest.hasLongInt_asdict, targets_hasLongInt, RunBundle.counts, List.forall_mem_append,
    List.any_eq_false, List.any_eq_false]
  simp only [Bool.not_eq_true]

theorem writeBundle_ok_iff {b : RunBundle} {dir dir' : BundleDir}
    (h : checkIntegrity b = .ok ()) :
    writeBundle b dir = .ok dir' ↔ (∀ n ∈ b.counts, intTooLong n = false) ∧
      (∀ p ∈ b.reproScripts.items, Storable p) ∧ dir' = b.written dir := by
  have hsorted : (∀ p ∈ b.reproScripts.sorted.items, Storable p) ↔
      ∀ p ∈ b.reproScripts.items, Storable p :=
    forall_congr' fun p => imp_congr_left Dict.mem_items_sorted
  rw [counts_iff, ← hsorted]
  cases hmanifest : b.manifest.asdict.hasLongInt with
  | true => simp [writeBundle, h, dumpDocument, hmanifest, bind, Except.bind]
  | false =>
    cases htargets : (Document.arr (b.targets.map TargetRecord.asdict)).hasLongInt with
    | true => simp [writeBundle, h, dumpDocument, hmanifest, htargets, bind, Except.bind]
    | false =>
      cases hscripts : writeScripts b.reproScripts.sorted.items (dir.repros.getD .empty) with
      | error e =>
        have hnot : ¬ ∀ p ∈ b.reproScripts.sorted.items, Storable p := by
          intro hall
          have hok := writeScripts_ok_iff.2
            ⟨hall, (rfl : (dir.repros.getD .empty).setAll b.reproScripts.sorted.items = _)⟩
          rw [hscripts] at hok
          cases hok
        simp only [writeBundle, h, dumpDocument, hmanifest, htargets, hscripts, hnot, bind,
          Except.bind, Bool.false_eq_true, if_false, false_and, and_false, reduceCtorEq]
      | ok repros =>
        have hstored := writeScripts_ok_iff.1 hscripts
        simp only [writeBundle, h, dumpDocument, hmanifest, htargets, hscripts, bind,
          Except.bind, pure, Except.pure, Bool.false_eq_true, if_false, Except.ok.injEq]
        rw [hstored.2]
        constructor
        · exact fun hdir => ⟨⟨trivial, trivial⟩, hstored.1, hdir.symm⟩
        · exact fun hdir => hdir.2.2.symm

theorem readBundle_written (b : RunBundle) (dir : BundleDir) :
    readBundle (b.written dir) =
      if bundleSchemaVersion < b.manifest.schemaVersion then
        .error (.newer b.manifest.schemaVersion)
      else
        .ok
          { manifest := b.manifest.wire
            targets := b.targets.map TargetRecord.wire
            reproScripts := readScripts (b.written dir).repros } := by
  have htargets : b.targets.mapM (targetFrom ∘ Document.wire ∘ TargetRecord.asdict) =
      .ok (b.targets.map TargetRecord.wire) :=
    mapM_ok fun t _ => targetFrom_wire t
  simp only [readBundle, RunBundle.written, manifestFrom_wire]
  by_cases hschema : bundleSchemaVersion < b.manifest.schemaVersion
  · simp [hschema, bind, Except.bind]
  · simp [hschema, bind, Except.bind, pure, Except.pure, Document.wire, wireAll_eq_map, asList,
      htargets]

theorem texts_iff {b : RunBundle} :
    (∀ s ∈ b.texts, noSplitPair s = true) ↔
      b.manifest.wire = b.manifest ∧ b.targets.map TargetRecord.wire = b.targets := by
  rw [RunBundle.texts, List.forall_mem_append, List.forall_mem_flatMap, RunManifest.wire_eq_iff,
    map_eq_self_iff]
  apply and_congr_right'
  exact forall₂_congr fun t _ => t.wire_eq_iff.symm

theorem scriptsKept_of_readsBack {b : RunBundle} {dir : BundleDir} (h : checkIntegrity b = .ok ())
    (hreads : ReadsBack b dir) : ScriptsKept b.reproScripts (dir.repros.getD .empty) := by
  rcases hreads with ⟨dir', b', hwrite, hread, _, _, hscripts⟩
  rcases (writeBundle_ok_iff h).1 hwrite with ⟨_, _, rfl⟩
  rw [readBundle_written] at hread
  by_cases hschema : bundleSchemaVersion < b.manifest.schemaVersion
  · simp [hschema] at hread
  · rw [if_neg hschema] at hread
    cases hread
    exact hscripts

/-- A bundle that passes the check is read back as it was written exactly when it is portable. -/
theorem reads_back_iff {b : RunBundle} {dir : BundleDir} (h : checkIntegrity b = .ok ()) :
    ReadsBack b dir ↔ Portable b dir := by
  constructor
  · intro hreads
    have hkept := scriptsKept_iff.1 (scriptsKept_of_readsBack h hreads)
    rcases hreads with ⟨dir', b', hwrite, hread, hmanifest, htargets, _⟩
    rcases (writeBundle_ok_iff h).1 hwrite with ⟨hcounts, hstorable, rfl⟩
    rw [readBundle_written] at hread
    by_cases hschema : bundleSchemaVersion < b.manifest.schemaVersion
    · simp [hschema] at hread
    · rw [if_neg hschema] at hread
      cases hread
      exact ⟨not_lt.1 hschema, hcounts, texts_iff.2 ⟨hmanifest, htargets⟩, hstorable, hkept.1,
        hkept.2⟩
  · intro hportable
    have hwrite := (@writeBundle_ok_iff b dir _ h).2
      ⟨hportable.counts, hportable.storable, rfl⟩
    have hread := readBundle_written b dir
    rw [if_neg (not_lt.2 hportable.schema)] at hread
    have htexts := texts_iff.1 hportable.texts
    have hkept := scriptsKept_iff.2 ⟨hportable.scripts, hportable.stale⟩
    exact ⟨_, _, hwrite, hread, htexts.1, htexts.2, hkept⟩

/-- One divergent target whose only script is a comment. -/
def oneScript (lang : Lang) (name : PyStr) : RunBundle where
  manifest :=
    { schemaVersion := bundleSchemaVersion, engineVersion := lit "1.0", repo := lit "repo",
      baseSha := lit "a", headSha := lit "b", createdAt := lit "2026-01-01T00:00:00+00:00",
      verdict := .divergent, baseDeps := [], headDeps := [], budgetMaxInputs := 300,
      sandboxTier := lit "T2", sandboxAssurance := lit "strong" }
  targets :=
    [{ filePath := lit "a", module := lit "a", qualname := lit "f", lang := lang,
       classification := .pureCandidate, verdict := .divergent, reasonCode := none,
       reasonDetail := none, inputsRun := 1, equivalentInputs := 0, unprovableInputs := 0,
       changedLineCoverage := 1,
       divergences :=
         [{ divergenceClass := .returnValue, severity := .normal, detail := [],
            argsLiteral := lit "[1]", kwargsLiteral := lit "{}",
            minimizedArgs := some (lit "[1]"), minimizedKwargs := some (lit "{}"),
            shrinkPath := [], baseSummary := lit "returned 1", headSummary := lit "returned 2",
            reproFilename := some name, aiNarrative := none }] }]
  reproScripts := Dict.empty.set name (lit "// repro")

def freshDir : BundleDir := ⟨none, none, none⟩

theorem reads_back_python : ReadsBack (oneScript .python (lit "a_f_0.py")) freshDir :=
  (reads_back_iff rfl).2
    { schema := le_rfl
      counts := by decide
      texts := by decide
      storable := by
        intro p hp
        obtain rfl := List.mem_singleton.1 hp
        exact ⟨by decide, by decide⟩
      scripts := by decide
      stale := fun name hname => nomatch hname }

/-- The reader leaves out the script of a TypeScript target. -/
theorem typescript_script_lost :
    checkIntegrity (oneScript .typescript (lit "a_f_0.mjs")) = .ok () ∧
      ¬ ReadsBack (oneScript .typescript (lit "a_f_0.mjs")) freshDir := by
  have hchecked : checkIntegrity (oneScript .typescript (lit "a_f_0.mjs")) = .ok () := rfl
  refine ⟨hchecked, ?_⟩
  intro hreads
  have hkept := scriptsKept_iff.1 (scriptsKept_of_readsBack hchecked hreads)
  have hpy := (hkept.1 (lit "a_f_0.mjs", lit "// repro") List.mem_cons_self).1
  exact absurd hpy (by decide)

end Tempest
