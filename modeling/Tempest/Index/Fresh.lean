import Tempest.Index.Structure
import Tempest.Process.Keyed

/-!
# Fresh — the incremental index and a fresh one (`index/structure.py`, `build`)

The tables stand for a list of symbols under their paths (`contents`); on it a file that is parsed
again is a `Keyed.refresh` and a deleted one a `Keyed.drop`.  A run of builds whose steps are `Steady`
leaves what a build on empty tables leaves.
-/

namespace Tempest

open Python

/-! ## What the tables stand for -/

def pathOf (files : List FileRow) (id : Nat) : PyStr :=
  ((files.find? fun f => f.id = id).map FileRow.path).getD []

def callsOf (calls : List CallRow) (id : Nat) : List (Identifier × Nat) :=
  (calls.filter fun c => c.callerId = id).map fun c => (c.callee, c.line)

def Index.view (index : Index) (s : SymbolRow) : PyStr × ParsedSymbol :=
  (pathOf index.files s.fileId, ⟨s.toSymbolColumns, callsOf index.calls s.id⟩)

/-- The symbols under their paths, in the order of their rows. -/
def Index.contents (index : Index) : List (PyStr × ParsedSymbol) := index.symbols.map index.view

def rowKey (row : PyStr × ParsedSymbol) : PyStr × PyStr := row.2.key

def Index.fileOf (index : Index) (path : PyStr) : Option FileRow :=
  index.files.find? fun f => f.path = path

/-- The constraints of the schema, and counters that no id has passed. -/
structure Index.Valid (index : Index) : Prop where
  fileIds : (index.files.map FileRow.id).Nodup
  filePaths : (index.files.map FileRow.path).Nodup
  fileBound : ∀ f ∈ index.files, f.id ≤ index.fileSeq
  symbolIds : (index.symbols.map SymbolRow.id).Nodup
  symbolBound : ∀ s ∈ index.symbols, s.id ≤ index.symbolSeq
  owned : ∀ s ∈ index.symbols, ∃ f ∈ index.files, f.id = s.fileId
  called : ∀ c ∈ index.calls, ∃ s ∈ index.symbols, s.id = c.callerId

section Tables

variable {index : Index} {path : PyStr}

theorem eq_of_nodup_map {α β : Type} {f : α → β} {xs : List α} (h : (xs.map f).Nodup) {x y : α}
    (hx : x ∈ xs) (hy : y ∈ xs) (heq : f x = f y) : x = y :=
  List.inj_on_of_nodup_map h hx hy heq

theorem pathOf_eq (h : (index.files.map FileRow.id).Nodup) {f : FileRow} (hf : f ∈ index.files) :
    pathOf index.files f.id = f.path := by
  cases hfind : index.files.find? fun g => g.id = f.id with
  | none => simpa using List.find?_eq_none.1 hfind f hf
  | some g =>
    have hid : g.id = f.id := by simpa using List.find?_some hfind
    have hg := List.mem_of_find?_eq_some hfind
    rw [pathOf, hfind, eq_of_nodup_map h hg hf hid]
    rfl

theorem fileOf_eq_some_iff (h : (index.files.map FileRow.path).Nodup) {f : FileRow} :
    index.fileOf path = some f ↔ f ∈ index.files ∧ f.path = path := by
  constructor
  · intro hfind
    exact ⟨List.mem_of_find?_eq_some hfind, by simpa using List.find?_some hfind⟩
  · rintro ⟨hf, rfl⟩
    cases hfind : index.fileOf f.path with
    | none => simpa using List.find?_eq_none.1 hfind f hf
    | some g =>
      have hpath : g.path = f.path := by simpa using List.find?_some hfind
      rw [eq_of_nodup_map h (List.mem_of_find?_eq_some hfind) hf hpath]

/-! ## Deleting -/

theorem callsOf_deleteSymbols {gone : SymbolRow → Bool} {s : SymbolRow} (hvalid : index.Valid)
    (hs : s ∈ index.symbols) (hkept : gone s = false) :
    callsOf (index.deleteSymbols gone).calls s.id = callsOf index.calls s.id := by
  have hid : s.id ∉ (index.symbols.filter gone).map SymbolRow.id := by
    intro hmem
    obtain ⟨s', hs', heq⟩ := List.mem_map.1 hmem
    have hmem' := List.mem_filter.1 hs'
    rw [eq_of_nodup_map hvalid.symbolIds hmem'.1 hs heq, hkept] at hmem'
    cases hmem'.2
  simp only [callsOf, Index.deleteSymbols, List.filter_map, List.filter_filter, List.map_map]
  refine congrArg₂ _ (funext fun c => rfl) (List.filter_congr fun c _ => ?_)
  by_cases hc : c.callerId = s.id
  · simp [hc, hid]
  · simp [hc]

theorem valid_deleteSymbols (hvalid : index.Valid) (gone : SymbolRow → Bool) :
    (index.deleteSymbols gone).Valid where
  fileIds := hvalid.fileIds
  filePaths := hvalid.filePaths
  fileBound := hvalid.fileBound
  symbolIds := hvalid.symbolIds.sublist (List.filter_sublist.map _)
  symbolBound := fun s hs => hvalid.symbolBound s (List.mem_filter.1 hs).1
  owned := fun s hs => hvalid.owned s (List.mem_filter.1 hs).1
  called := by
    intro c hc
    obtain ⟨c', hc', rfl⟩ := List.mem_map.1 hc
    obtain ⟨hmem, hnot⟩ := List.mem_filter.1 hc'
    obtain ⟨s, hs, hid⟩ := hvalid.called c' hmem
    refine ⟨s, List.mem_filter.2 ⟨hs, ?_⟩, hid⟩
    cases hgone : gone s with
    | false => rfl
    | true =>
      have : c'.callerId ∈ (index.symbols.filter gone).map SymbolRow.id :=
        hid ▸ List.mem_map_of_mem (List.mem_filter.2 ⟨hs, hgone⟩)
      simp [this] at hnot

/-- The symbols that are left look as they did. -/
theorem contents_deleteSymbols (hvalid : index.Valid) (gone : SymbolRow → Bool) :
    (index.deleteSymbols gone).contents =
      (index.symbols.filter fun s => !gone s).map index.view := by
  refine List.map_congr_left fun s hs => ?_
  obtain ⟨hmem, hkept⟩ := List.mem_filter.1 hs
  have hcalls := callsOf_deleteSymbols hvalid hmem (by simpa using hkept)
  simp only [Index.view, hcalls]
  rfl

theorem valid_deleteFile (hvalid : index.Valid) (id : Nat) : (index.deleteFile id).Valid where
  fileIds := hvalid.fileIds.sublist (List.filter_sublist.map _)
  filePaths := hvalid.filePaths.sublist (List.filter_sublist.map _)
  fileBound := fun f hf => hvalid.fileBound f (List.mem_filter.1 hf).1
  symbolIds := (valid_deleteSymbols hvalid _).symbolIds
  symbolBound := (valid_deleteSymbols hvalid _).symbolBound
  owned := by
    intro s hs
    obtain ⟨hmem, hkept⟩ := List.mem_filter.1 hs
    obtain ⟨f, hf, hid⟩ := hvalid.owned s hmem
    have hne : s.fileId ≠ id := by simpa using hkept
    exact ⟨f, List.mem_filter.2 ⟨hf, by simpa [hid] using hne⟩, hid⟩
  called := (valid_deleteSymbols hvalid _).called

/-- A deleted file takes the symbols under its path with it. -/
theorem contents_deleteFile (hvalid : index.Valid) {f : FileRow} (hf : f ∈ index.files) :
    (index.deleteFile f.id).contents = Keyed.drop Prod.fst index.contents f.path := by
  have hpath : ∀ s ∈ index.symbols, (s.fileId = f.id ↔ pathOf index.files s.fileId = f.path) := by
    intro s hs
    obtain ⟨g, hg, hid⟩ := hvalid.owned s hs
    rw [← hid, pathOf_eq hvalid.fileIds hg]
    exact ⟨fun heq => by rw [eq_of_nodup_map hvalid.fileIds hg hf heq],
      fun heq => by rw [eq_of_nodup_map hvalid.filePaths hg hf heq]⟩
  have hview : ∀ s ∈ index.symbols, s.fileId ≠ f.id →
      (index.deleteFile f.id).view s = (index.deleteSymbols fun s => s.fileId = f.id).view s := by
    intro s hs hne
    obtain ⟨g, hg, hid⟩ := hvalid.owned s hs
    have hkept : g ∈ (index.deleteFile f.id).files :=
      List.mem_filter.2 ⟨hg, by simpa [hid] using hne⟩
    have hthere := pathOf_eq (valid_deleteFile hvalid f.id).fileIds hkept
    have hhere := pathOf_eq hvalid.fileIds hg
    rw [hid] at hthere hhere
    simp only [Index.view]
    rw [hthere]
    exact congrArg₂ Prod.mk hhere.symm rfl
  calc (index.deleteFile f.id).contents
      = (index.deleteSymbols fun s => s.fileId = f.id).contents := by
        refine List.map_congr_left fun s hs => ?_
        obtain ⟨hmem, hkept⟩ := List.mem_filter.1 hs
        exact hview s hmem (by simpa using hkept)
    _ = (index.symbols.filter fun s => !(decide (s.fileId = f.id))).map index.view :=
        contents_deleteSymbols hvalid _
    _ = Keyed.drop Prod.fst index.contents f.path := by
        rw [Keyed.drop, Index.contents, List.filter_map]
        refine congrArg _ (List.filter_congr fun s hs => ?_)
        rw [Bool.eq_iff_iff]
        simp only [Index.view, Function.comp_apply, Bool.not_eq_true', decide_eq_false_iff_not,
          hpath s hs]
        exact decide_eq_true_iff.symm

theorem fileOf_deleteFile (hvalid : index.Valid) {f : FileRow} (hf : f ∈ index.files) :
    (index.deleteFile f.id).fileOf path = if path = f.path then none else index.fileOf path := by
  have hpaths := (valid_deleteFile hvalid f.id).filePaths
  have hmem : ∀ g, g ∈ (index.deleteFile f.id).files ↔ g ∈ index.files ∧ g.id ≠ f.id := by
    intro g
    simp [Index.deleteFile]
  refine Option.ext fun g => ?_
  rw [fileOf_eq_some_iff hpaths, hmem]
  split_ifs with hpath
  · simp only [iff_false, not_and, and_imp]
    intro hg hne heq
    exact hne (by rw [eq_of_nodup_map hvalid.filePaths hg hf (heq.trans hpath)])
  · rw [fileOf_eq_some_iff hvalid.filePaths]
    refine ⟨fun ⟨⟨hg, _⟩, heq⟩ => ⟨hg, heq⟩, fun ⟨hg, heq⟩ => ⟨⟨hg, fun hid => hpath ?_⟩, heq⟩⟩
    rw [← heq, eq_of_nodup_map hvalid.fileIds hg hf hid]

/-! ## Inserting -/

theorem fileOf_eq_none_iff : index.fileOf path = none ↔ path ∉ index.files.map FileRow.path := by
  rw [Index.fileOf, List.find?_eq_none]
  simp

theorem valid_insertFile (hvalid : index.Valid) (hnew : index.fileOf path = none)
    (digest : PyStr) (lines : Nat) : (index.insertFile path digest lines).Valid where
  fileIds := by
    have hfresh : index.fileSeq + 1 ∉ index.files.map FileRow.id := by
      intro hmem
      obtain ⟨f, hf, hid⟩ := List.mem_map.1 hmem
      have := hvalid.fileBound f hf
      omega
    simpa [Index.insertFile, List.nodup_append] using
      ⟨hvalid.fileIds, fun f hf heq => hfresh (heq ▸ List.mem_map_of_mem hf)⟩
  filePaths := by
    have hfresh := fileOf_eq_none_iff.1 hnew
    simpa [Index.insertFile, List.nodup_append] using
      ⟨hvalid.filePaths, fun f hf heq => hfresh (heq ▸ List.mem_map_of_mem hf)⟩
  fileBound := by
    intro f hf
    rcases List.mem_append.1 hf with hold | hnew
    · exact (hvalid.fileBound f hold).trans (Nat.le_succ _)
    · rw [List.mem_singleton.1 hnew]
      exact le_refl _
  symbolIds := hvalid.symbolIds
  symbolBound := hvalid.symbolBound
  owned := by
    intro s hs
    obtain ⟨f, hf, hid⟩ := hvalid.owned s hs
    exact ⟨f, List.mem_append_left _ hf, hid⟩
  called := hvalid.called

theorem contents_insertFile (hvalid : index.Valid) (hnew : index.fileOf path = none)
    (digest : PyStr) (lines : Nat) :
    (index.insertFile path digest lines).contents = index.contents := by
  refine List.map_congr_left fun s hs => ?_
  obtain ⟨f, hf, hid⟩ := hvalid.owned s hs
  have hthere := pathOf_eq (valid_insertFile hvalid hnew digest lines).fileIds
    (List.mem_append_left _ hf)
  have hhere := pathOf_eq hvalid.fileIds hf
  rw [hid] at hthere hhere
  exact congrArg₂ Prod.mk (hthere.trans hhere.symm) rfl

theorem fileOf_insertFile (digest : PyStr) (lines : Nat) (other : PyStr)
    (hnew : index.fileOf path = none) :
    (index.insertFile path digest lines).fileOf other =
      if other = path then some ⟨index.fileSeq + 1, path, digest, lines⟩ else index.fileOf other := by
  simp only [Index.fileOf, Index.insertFile, List.find?_append]
  split_ifs with heq
  · subst heq
    rw [Index.fileOf] at hnew
    simp [hnew]
  · have hne : path ≠ other := fun h => heq h.symm
    simp [hne]

variable {fileId : Nat} {parsed : ParsedSymbol}

theorem valid_insertSymbol (hvalid : index.Valid) (hfile : ∃ f ∈ index.files, f.id = fileId) :
    (Index.insertSymbol fileId index parsed).Valid := by
  have hdeleted := valid_deleteSymbols hvalid fun s => s.key = parsed.key
  refine ⟨hdeleted.fileIds, hdeleted.filePaths, hdeleted.fileBound, ?_, ?_, ?_, ?_⟩
  · have hfresh : index.symbolSeq + 1 ∉
        ((index.deleteSymbols fun s => s.key = parsed.key).symbols.map SymbolRow.id) := by
      intro hmem
      obtain ⟨s, hs, hid⟩ := List.mem_map.1 hmem
      have hbound := hdeleted.symbolBound s hs
      rw [hid] at hbound
      exact absurd hbound (Nat.not_succ_le_self _)
    simp only [Index.insertSymbol, List.map_append, List.nodup_append]
    refine ⟨hdeleted.symbolIds, by simp, fun k hk k' hk' heq => hfresh ?_⟩
    rw [List.map_singleton, List.mem_singleton] at hk'
    rw [heq, hk'] at hk
    exact hk
  · intro s hs
    rcases List.mem_append.1 hs with hold | hnew
    · exact (hdeleted.symbolBound s hold).trans (Nat.le_succ _)
    · rw [List.mem_singleton.1 hnew]
      exact le_refl _
  · intro s hs
    rcases List.mem_append.1 hs with hold | hnew
    · exact hdeleted.owned s hold
    · rw [List.mem_singleton.1 hnew]
      exact hfile
  · intro c hc
    rcases List.mem_append.1 hc with hold | hnew
    · obtain ⟨s, hs, hid⟩ := hdeleted.called c hold
      exact ⟨s, List.mem_append_left _ hs, hid⟩
    · obtain ⟨call, _, rfl⟩ := List.mem_map.1 hnew
      exact ⟨_, List.mem_append_right _ (List.mem_singleton.2 rfl), rfl⟩

/-- A symbol comes with its calls, in the place of the one with its key. -/
theorem contents_insertSymbol (hvalid : index.Valid) :
    (Index.insertSymbol fileId index parsed).contents =
      Keyed.upsert rowKey index.contents (pathOf index.files fileId, parsed) := by
  have hdeleted := valid_deleteSymbols hvalid fun s => s.key = parsed.key
  -- the calls with the new id are the new ones
  have hstale : ∀ c ∈ (index.deleteSymbols fun s => s.key = parsed.key).calls,
      c.callerId ≠ index.symbolSeq + 1 := by
    intro c hc heq
    obtain ⟨s, hs, hid⟩ := hdeleted.called c hc
    have hbound : s.id ≤ index.symbolSeq := hdeleted.symbolBound s hs
    omega
  have hold : ∀ s ∈ (index.deleteSymbols fun s => s.key = parsed.key).symbols,
      (Index.insertSymbol fileId index parsed).view s =
        (index.deleteSymbols fun s => s.key = parsed.key).view s := by
    intro s hs
    have hbound : s.id ≤ index.symbolSeq := hdeleted.symbolBound s hs
    have hnone : (parsed.calls.map fun c => (⟨index.symbolSeq + 1, c.1, none, c.2⟩ : CallRow)).filter
        (fun c => c.callerId = s.id) = [] := by
      refine List.filter_eq_nil_iff.2 fun c hc => ?_
      obtain ⟨call, _, rfl⟩ := List.mem_map.1 hc
      have hne : index.symbolSeq + 1 ≠ s.id := by omega
      simpa using hne
    have hcalls : callsOf (Index.insertSymbol fileId index parsed).calls s.id =
        callsOf (index.deleteSymbols fun s => s.key = parsed.key).calls s.id := by
      simp only [callsOf, Index.insertSymbol, List.filter_append]
      rw [show (index.deleteSymbols fun s => s.key = parsed.key).symbolSeq = index.symbolSeq from rfl,
        hnone, List.append_nil]
    simp only [Index.view, hcalls]
    rfl
  have hnew : (Index.insertSymbol fileId index parsed).view
      ⟨parsed.toSymbolColumns, index.symbolSeq + 1, fileId⟩ = (pathOf index.files fileId, parsed) := by
    have hnone : (index.deleteSymbols fun s => s.key = parsed.key).calls.filter
        (fun c => c.callerId = index.symbolSeq + 1) = [] :=
      List.filter_eq_nil_iff.2 fun c hc => by simpa using hstale c hc
    have hcalls : callsOf (Index.insertSymbol fileId index parsed).calls (index.symbolSeq + 1) =
        parsed.calls := by
      simp only [callsOf, Index.insertSymbol, List.filter_append]
      rw [hnone, List.nil_append]
      simp [show (index.deleteSymbols fun s => s.key = parsed.key).symbolSeq = index.symbolSeq from rfl,
        List.filter_map, Function.comp_def]
    simp only [Index.view, hcalls]
    rfl
  calc (Index.insertSymbol fileId index parsed).contents
      = (index.deleteSymbols fun s => s.key = parsed.key).symbols.map
          (Index.insertSymbol fileId index parsed).view ++
        [(Index.insertSymbol fileId index parsed).view
          ⟨parsed.toSymbolColumns, index.symbolSeq + 1, fileId⟩] := List.map_append
    _ = (index.deleteSymbols fun s => s.key = parsed.key).contents ++
        [(pathOf index.files fileId, parsed)] := by
        rw [hnew, List.map_congr_left hold]
        rfl
    _ = Keyed.upsert rowKey index.contents (pathOf index.files fileId, parsed) := by
        rw [contents_deleteSymbols hvalid, Keyed.upsert, Index.contents, List.filter_map]
        refine congrArg₂ _ (congrArg _ (List.filter_congr fun s _ => ?_)) rfl
        rw [Bool.eq_iff_iff]
        simp only [rowKey, Index.view, Function.comp_apply, Bool.not_eq_true', decide_eq_false_iff_not]
        exact decide_eq_true_iff.symm

end Tables

/-! ## One file -/

section Build

variable {tools : IndexTools} {snap : Snapshot} {index : Index} {path : PyStr}

def fileRows (tools : IndexTools) (path module source : PyStr) : List (PyStr × ParsedSymbol) :=
  (parseSymbols tools.parse source module).map fun s => (path, s)

theorem insertSymbols_spec {f : FileRow} (parsed : List ParsedSymbol) (hvalid : index.Valid)
    (hf : f ∈ index.files) :
    (parsed.foldl (Index.insertSymbol f.id) index).Valid ∧
      (parsed.foldl (Index.insertSymbol f.id) index).files = index.files ∧
        (parsed.foldl (Index.insertSymbol f.id) index).contents =
          Keyed.upsertAll rowKey index.contents (parsed.map fun s => (f.path, s)) := by
  induction parsed generalizing index with
  | nil => exact ⟨hvalid, rfl, rfl⟩
  | cons s parsed ih =>
    have hinserted : (Index.insertSymbol f.id index s).Valid := valid_insertSymbol hvalid ⟨f, hf, rfl⟩
    obtain ⟨hrest, hfiles, hcontents⟩ :=
      ih hinserted (show f ∈ (Index.insertSymbol f.id index s).files from hf)
    refine ⟨hrest, hfiles, ?_⟩
    rw [List.foldl_cons, hcontents, contents_insertSymbol hvalid, pathOf_eq hvalid.fileIds hf]
    rfl

theorem fileOf_of_mem_contents (hvalid : index.Valid) {row : PyStr × ParsedSymbol}
    (h : row ∈ index.contents) : index.fileOf row.1 ≠ none := by
  obtain ⟨s, hs, rfl⟩ := List.mem_map.1 h
  obtain ⟨f, hf, hid⟩ := hvalid.owned s hs
  have hpath : (index.view s).1 = f.path := by
    rw [Index.view, ← hid]
    exact pathOf_eq hvalid.fileIds hf
  rw [hpath, (fileOf_eq_some_iff hvalid.filePaths).2 ⟨hf, rfl⟩]
  exact Option.some_ne_none f

/-- What is left of a file before it is inserted again: nothing, and the rest as it was. -/
theorem cleared_spec (hvalid : index.Valid) {cleared : Index}
    (hcleared : cleared = match index.fileOf path with
      | some row => index.deleteFile row.id
      | none => index) :
    cleared.Valid ∧ cleared.contents = Keyed.drop Prod.fst index.contents path ∧
      ∀ other, cleared.fileOf other = if other = path then none else index.fileOf other := by
  cases hfile : index.fileOf path with
  | none =>
    rw [hfile] at hcleared
    subst hcleared
    refine ⟨hvalid, (List.filter_eq_self.2 fun row hrow => ?_).symm, fun other => ?_⟩
    · have hne : row.1 ≠ path := fun heq => fileOf_of_mem_contents hvalid hrow (heq ▸ hfile)
      simpa using hne
    · split_ifs with heq
      · rw [heq, hfile]
      · rfl
  | some row =>
    rw [hfile] at hcleared
    subst hcleared
    obtain ⟨hrow, hpath⟩ := (fileOf_eq_some_iff hvalid.filePaths).1 hfile
    refine ⟨valid_deleteFile hvalid row.id, ?_, fun other => ?_⟩
    · rw [contents_deleteFile hvalid hrow, hpath]
    · rw [fileOf_deleteFile hvalid hrow, hpath]

/-- A file that is parsed again has its new symbols and no others. -/
theorem reparse_spec (hvalid : index.Valid) (module source : PyStr) :
    (reparse tools module path source (index.fileOf path) index).Valid ∧
      (reparse tools module path source (index.fileOf path) index).contents =
        Keyed.refresh rowKey Prod.fst index.contents (path, fileRows tools path module source) ∧
      (∀ other, other ≠ path →
        (reparse tools module path source (index.fileOf path) index).fileOf other =
          index.fileOf other) ∧
      ((reparse tools module path source (index.fileOf path) index).fileOf path).map FileRow.digest =
        some (tools.digestOf source) := by
  obtain ⟨hcleared, hcontents, hfileOf⟩ := @cleared_spec index path hvalid _ rfl
  generalize hcleared' : (match index.fileOf path with
      | some row => index.deleteFile row.id
      | none => index) = cleared at hcleared hcontents hfileOf
  have hnew : cleared.fileOf path = none := by rw [hfileOf, if_pos rfl]
  have hinserted := valid_insertFile hcleared hnew (tools.digestOf source) (lineCount source)
  have hfile : (⟨cleared.fileSeq + 1, path, tools.digestOf source, lineCount source⟩ : FileRow) ∈
      (cleared.insertFile path (tools.digestOf source) (lineCount source)).files :=
    List.mem_append_right _ (List.mem_singleton.2 rfl)
  obtain ⟨hdone, hfiles, hrows⟩ :=
    insertSymbols_spec (parseSymbols tools.parse source module) hinserted hfile
  have hreparse : reparse tools module path source (index.fileOf path) index =
      (parseSymbols tools.parse source module).foldl (Index.insertSymbol (cleared.fileSeq + 1))
        (cleared.insertFile path (tools.digestOf source) (lineCount source)) := by
    rw [← hcleared']
    rfl
  have hfileOf' : ∀ other, (reparse tools module path source (index.fileOf path) index).fileOf other =
      (cleared.insertFile path (tools.digestOf source) (lineCount source)).fileOf other := by
    intro other
    rw [hreparse, Index.fileOf, hfiles]
    rfl
  refine ⟨hreparse ▸ hdone, ?_, fun other hne => ?_, ?_⟩
  · rw [hreparse, hrows, contents_insertFile hcleared hnew, hcontents]
    rfl
  · rw [hfileOf', fileOf_insertFile _ _ _ hnew, if_neg hne, hfileOf, if_neg hne]
  · rw [hfileOf', fileOf_insertFile _ _ _ hnew, if_pos rfl]
    rfl

/-! ## All files -/

def reparsedRows (tools : IndexTools) (known : List FileRow) (snap : Snapshot)
    (entry : PyStr × Option PyStr) : Option (PyStr × List (PyStr × ParsedSymbol)) :=
  match entry with
  | (_, none) => none
  | (path, some source) =>
    if (known.find? fun f => f.path = path).any fun f => f.digest = tools.digestOf source then none
    else some (path, fileRows tools path (snap.moduleForPath path) source)

/-- The loop over the files refreshes the contents file by file and leaves the other files alone. -/
theorem buildFiles_spec {known : List FileRow} (entries : List (PyStr × Option PyStr))
    (state : BuildState) (hvalid : state.index.Valid) (hnodup : (entries.map Prod.fst).Nodup)
    (hknown : ∀ e ∈ entries, (known.find? fun f => f.path = e.1) = state.index.fileOf e.1) :
    (entries.foldl (buildFile tools known snap) state).index.Valid ∧
      (entries.foldl (buildFile tools known snap) state).index.contents =
        (entries.filterMap (reparsedRows tools known snap)).foldl (Keyed.refresh rowKey Prod.fst)
          state.index.contents ∧
      (∀ path, path ∉ entries.map Prod.fst →
        (entries.foldl (buildFile tools known snap) state).index.fileOf path =
          state.index.fileOf path) ∧
      ∀ e ∈ entries,
        ((entries.foldl (buildFile tools known snap) state).index.fileOf e.1).map FileRow.digest =
          match e.2 with
          | none => (state.index.fileOf e.1).map FileRow.digest
          | some source => some (tools.digestOf source) := by
  induction entries generalizing state with
  | nil => exact ⟨hvalid, rfl, fun _ _ => rfl, fun e he => nomatch he⟩
  | cons e entries ih =>
    rw [List.map_cons, List.nodup_cons] at hnodup
    obtain ⟨hhere, hlater⟩ := List.forall_mem_cons.1 hknown
    -- one file: either nothing happens or it is parsed again
    have hstep : (buildFile tools known snap state e).index.Valid ∧
        (buildFile tools known snap state e).index.contents =
          (reparsedRows tools known snap e).elim state.index.contents
            (Keyed.refresh rowKey Prod.fst state.index.contents) ∧
        (∀ path, path ≠ e.1 →
          (buildFile tools known snap state e).index.fileOf path = state.index.fileOf path) ∧
        ((buildFile tools known snap state e).index.fileOf e.1).map FileRow.digest =
          match e.2 with
          | none => (state.index.fileOf e.1).map FileRow.digest
          | some source => some (tools.digestOf source) := by
      obtain ⟨path, text⟩ := e
      cases text with
      | none => exact ⟨hvalid, rfl, fun _ _ => rfl, rfl⟩
      | some source =>
        simp only [buildFile, reparsedRows]
        rw [hhere]
        split_ifs with hsame
        · refine ⟨hvalid, rfl, fun _ _ => rfl, ?_⟩
          cases hfile : state.index.fileOf path with
          | none => simp [hfile] at hsame
          | some f =>
            have hdigest : f.digest = tools.digestOf source := by simpa [hfile] using hsame
            simp [hdigest]
        · exact reparse_spec hvalid (snap.moduleForPath path) source
    obtain ⟨hvalid', hcontents, hothers, hdigest⟩ := hstep
    have hknown' : ∀ e' ∈ entries, (known.find? fun f => f.path = e'.1) =
        (buildFile tools known snap state e).index.fileOf e'.1 := by
      intro e' he'
      have hne : e'.1 ≠ e.1 := fun heq => hnodup.1 (heq ▸ List.mem_map_of_mem he')
      rw [hothers _ hne, hlater e' he']
    obtain ⟨hdone, hfinal, hkept, hdigests⟩ :=
      ih (buildFile tools known snap state e) hvalid' hnodup.2 hknown'
    refine ⟨hdone, ?_, fun path hpath => ?_, List.forall_mem_cons.2 ⟨?_, fun e' he' => ?_⟩⟩
    · rw [List.foldl_cons, hfinal, hcontents, List.filterMap_cons]
      cases reparsedRows tools known snap e <;> rfl
    · rw [List.map_cons, List.mem_cons, not_or] at hpath
      rw [List.foldl_cons, hkept path hpath.2, hothers path hpath.1]
    · rw [List.foldl_cons, hkept e.1 hnodup.1, hdigest]
    · have hne : e'.1 ≠ e.1 := fun heq => hnodup.1 (heq ▸ List.mem_map_of_mem he')
      rw [List.foldl_cons, hdigests e' he', hothers _ hne]

/-- Files that are gone take their symbols with them. -/
theorem deleteFiles_spec (gone : List FileRow) (hvalid : index.Valid)
    (hnodup : (gone.map FileRow.path).Nodup) (hgone : ∀ f ∈ gone, f ∈ index.files) :
    (gone.foldl (fun index f => index.deleteFile f.id) index).Valid ∧
      (gone.foldl (fun index f => index.deleteFile f.id) index).contents =
        (gone.map FileRow.path).foldl (Keyed.drop Prod.fst) index.contents ∧
      ∀ path, (gone.foldl (fun index f => index.deleteFile f.id) index).fileOf path =
        if path ∈ gone.map FileRow.path then none else index.fileOf path := by
  induction gone generalizing index with
  | nil => exact ⟨hvalid, rfl, fun path => by simp⟩
  | cons f gone ih =>
    rw [List.map_cons, List.nodup_cons] at hnodup
    obtain ⟨hf, hrest⟩ := List.forall_mem_cons.1 hgone
    have hkept : ∀ g ∈ gone, g ∈ (index.deleteFile f.id).files := by
      intro g hg
      refine List.mem_filter.2 ⟨hrest g hg, ?_⟩
      have hne : g.id ≠ f.id := by
        intro hid
        rw [eq_of_nodup_map hvalid.fileIds (hrest g hg) hf hid] at hg
        exact hnodup.1 (List.mem_map_of_mem hg)
      simpa using hne
    obtain ⟨hdone, hcontents, hfileOf⟩ := ih (valid_deleteFile hvalid f.id) hnodup.2 hkept
    refine ⟨hdone, ?_, fun path => ?_⟩
    · rw [List.foldl_cons, hcontents, contents_deleteFile hvalid hf]
      rfl
    · rw [List.foldl_cons, hfileOf, fileOf_deleteFile hvalid hf, List.map_cons]
      by_cases hpath : path = f.path
      · simp [hpath]
      · simp [hpath]

theorem valid_resolveCalls (hvalid : index.Valid) : (resolveCalls index).1.Valid where
  fileIds := hvalid.fileIds
  filePaths := hvalid.filePaths
  fileBound := hvalid.fileBound
  symbolIds := hvalid.symbolIds
  symbolBound := hvalid.symbolBound
  owned := hvalid.owned
  called := by
    intro c hc
    obtain ⟨c', hc', rfl⟩ := List.mem_map.1 hc
    exact hvalid.called c' hc'

theorem contents_resolveCalls (index : Index) : (resolveCalls index).1.contents = index.contents := by
  refine List.map_congr_left fun s _ => ?_
  have hcalls : callsOf (resolveCalls index).1.calls s.id = callsOf index.calls s.id := by
    simp only [callsOf, resolveCalls, List.filter_map, List.map_map]
    rfl
  simp only [Index.view, hcalls]
  rfl

/-- `build` refreshes the contents with the files that changed and drops those that are gone. -/
theorem build_spec (hvalid : index.Valid) :
    (build tools index snap).1.Valid ∧
      (build tools index snap).1.contents =
        ((index.files.filter fun f => f.path ∉ snap.pythonFiles.map Prod.fst).map FileRow.path).foldl
          (Keyed.drop Prod.fst)
          ((snap.pythonFiles.filterMap (reparsedRows tools index.files snap)).foldl
            (Keyed.refresh rowKey Prod.fst) index.contents) ∧
      (∀ path, path ∉ snap.pythonFiles.map Prod.fst →
        (build tools index snap).1.fileOf path = none) ∧
      ∀ e ∈ snap.pythonFiles, ((build tools index snap).1.fileOf e.1).map FileRow.digest =
        match e.2 with
        | none => (index.fileOf e.1).map FileRow.digest
        | some source => some (tools.digestOf source) := by
  have hnodup : (snap.pythonFiles.map Prod.fst).Nodup :=
    snap.distinct.sublist (List.filter_sublist.map _)
  obtain ⟨hloop, hcontents, hothers, hdigests⟩ := @buildFiles_spec tools snap
    index.files snap.pythonFiles ⟨index, 0, 0, 0, []⟩ hvalid hnodup fun e _ => rfl
  have hgone : ∀ f ∈ index.files.filter fun f => f.path ∉ snap.pythonFiles.map Prod.fst,
      f ∈ (snap.pythonFiles.foldl (buildFile tools index.files snap)
        ⟨index, 0, 0, 0, []⟩).index.files := by
    intro f hf
    obtain ⟨hmem, hpath⟩ := List.mem_filter.1 hf
    have hfile := hothers f.path (by simpa using hpath)
    rw [(fileOf_eq_some_iff hvalid.filePaths).2 ⟨hmem, rfl⟩] at hfile
    exact ((fileOf_eq_some_iff hloop.filePaths).1 hfile).1
  obtain ⟨hcleaned, hdropped, hfileOf⟩ := deleteFiles_spec
    (index.files.filter fun f => f.path ∉ snap.pythonFiles.map Prod.fst) hloop
    (hvalid.filePaths.sublist (List.filter_sublist.map _)) hgone
  refine ⟨valid_resolveCalls hcleaned, ?_, fun path hpath => ?_, fun e he => ?_⟩
  · rw [build, contents_resolveCalls, hdropped, hcontents]
  · have hlookup := hfileOf path
    rw [hothers path hpath] at hlookup
    refine hlookup.trans ?_
    split_ifs with hmem
    · rfl
    · rw [fileOf_eq_none_iff]
      intro hin
      obtain ⟨f, hf, rfl⟩ := List.mem_map.1 hin
      exact hmem (List.mem_map_of_mem (List.mem_filter.2 ⟨hf, by simpa using hpath⟩))
  · have hnot : e.1 ∉ (index.files.filter fun f => f.path ∉ snap.pythonFiles.map Prod.fst).map
        FileRow.path := by
      intro hmem
      obtain ⟨f, hf, hpath⟩ := List.mem_map.1 hmem
      have hout := (List.mem_filter.1 hf).2
      rw [hpath] at hout
      simp [List.mem_map_of_mem he] at hout
    have hlookup := hfileOf e.1
    rw [if_neg hnot] at hlookup
    exact (congrArg (Option.map FileRow.digest) hlookup).trans (hdigests e he)

end Build

/-! ## Runs of builds -/

/-- The text and the module a file was last parsed with. -/
abbrev Parsed := PyStr → Option (PyStr × PyStr)

def recordBuild (tools : IndexTools) (parsed : Parsed) (snap : Snapshot) : Parsed := fun path =>
  match snap.pythonFiles.find? fun e => e.1 = path with
  | none => none
  | some (_, none) => parsed path
  | some (_, some source) =>
    match parsed path with
    | some (old, module) =>
      if tools.digestOf old = tools.digestOf source then some (old, module)
      else some (source, snap.moduleForPath path)
    | none => some (source, snap.moduleForPath path)

def rowsOfEntry (tools : IndexTools) (snap : Snapshot) (entry : PyStr × Option PyStr) :
    List (PyStr × ParsedSymbol) :=
  match entry with
  | (_, none) => []
  | (path, some source) => fileRows tools path (snap.moduleForPath path) source

def currentRows (tools : IndexTools) (snap : Snapshot) : List (PyStr × ParsedSymbol) :=
  snap.pythonFiles.flatMap (rowsOfEntry tools snap)

/-- A build after which the index is a fresh one: no two symbols have one module and qualified name, a
file that cannot be read had no symbols, and a file whose digest is the stored one has the symbols it
had. -/
structure Steady (tools : IndexTools) (parsed : Parsed) (snap : Snapshot) : Prop where
  distinct : ((currentRows tools snap).map rowKey).Nodup
  unreadable : ∀ path, (path, none) ∈ snap.pythonFiles → ∀ source module,
    parsed path = some (source, module) → parseSymbols tools.parse source module = []
  unchanged : ∀ path source, (path, some source) ∈ snap.pythonFiles → ∀ old module,
    parsed path = some (old, module) → tools.digestOf old = tools.digestOf source →
      parseSymbols tools.parse old module =
        parseSymbols tools.parse source (snap.moduleForPath path)

def SteadyRun (tools : IndexTools) : Parsed → List Snapshot → Prop
  | _, [] => True
  | parsed, snap :: snaps =>
    Steady tools parsed snap ∧ SteadyRun tools (recordBuild tools parsed snap) snaps

structure Tracks (tools : IndexTools) (index : Index) (parsed : Parsed) : Prop where
  valid : index.Valid
  digests : ∀ path, (index.fileOf path).map FileRow.digest =
    (parsed path).map fun p => tools.digestOf p.1
  rows : ∀ row, row ∈ index.contents ↔ ∃ source module, parsed row.1 = some (source, module) ∧
    row.2 ∈ parseSymbols tools.parse source module
  keys : (index.contents.map rowKey).Nodup

section Runs

variable {tools : IndexTools} {index : Index} {parsed : Parsed} {snap : Snapshot}

theorem mem_currentRows {row : PyStr × ParsedSymbol} : row ∈ currentRows tools snap ↔
    ∃ source, (row.1, some source) ∈ snap.pythonFiles ∧
      row.2 ∈ parseSymbols tools.parse source (snap.moduleForPath row.1) := by
  constructor
  · intro h
    obtain ⟨⟨path, text⟩, he, hrow⟩ := List.mem_flatMap.1 h
    cases text with
    | none => cases hrow
    | some source =>
      obtain ⟨s, hs, rfl⟩ := List.mem_map.1 hrow
      exact ⟨source, he, hs⟩
  · rintro ⟨source, he, hrow⟩
    exact List.mem_flatMap.2 ⟨_, he, List.mem_map.2 ⟨row.2, hrow, rfl⟩⟩

theorem find_pythonFiles {e : PyStr × Option PyStr} (he : e ∈ snap.pythonFiles) :
    (snap.pythonFiles.find? fun e' => e'.1 = e.1) = some e := by
  have hnodup : (snap.pythonFiles.map Prod.fst).Nodup :=
    snap.distinct.sublist (List.filter_sublist.map _)
  cases hfind : snap.pythonFiles.find? fun e' => e'.1 = e.1 with
  | none => simpa using List.find?_eq_none.1 hfind e he
  | some e' =>
    have hpath : e'.1 = e.1 := by simpa using List.find?_some hfind
    rw [eq_of_nodup_map hnodup (List.mem_of_find?_eq_some hfind) he hpath]

theorem reparsedRows_some {path source : PyStr} (htracks : Tracks tools index parsed) :
    reparsedRows tools index.files snap (path, some source) =
      if (parsed path).any fun p => tools.digestOf p.1 = tools.digestOf source then none
      else some (path, fileRows tools path (snap.moduleForPath path) source) := by
  have hdigest := htracks.digests path
  have hany : ((index.files.find? fun f => f.path = path).any fun f =>
      f.digest = tools.digestOf source) =
        (parsed path).any fun p => tools.digestOf p.1 = tools.digestOf source := by
    rw [Index.fileOf] at hdigest
    cases hfile : index.files.find? fun f => f.path = path with
    | none =>
      rw [hfile] at hdigest
      cases hparsed : parsed path with
      | none => rfl
      | some p => simp [hparsed] at hdigest
    | some f =>
      rw [hfile] at hdigest
      cases hparsed : parsed path with
      | none => simp [hparsed] at hdigest
      | some p =>
        have heq : f.digest = tools.digestOf p.1 := by simpa [hparsed] using hdigest
        simp [heq]
  rw [reparsedRows, hany]

/-- What is parsed again is part of what the files hold now. -/
theorem reparsed_sublist (known : List FileRow) (entries : List (PyStr × Option PyStr)) :
    List.Sublist ((entries.filterMap (reparsedRows tools known snap)).flatMap Prod.snd)
        (entries.flatMap (rowsOfEntry tools snap)) ∧
      List.Sublist ((entries.filterMap (reparsedRows tools known snap)).map Prod.fst)
        (entries.map Prod.fst) := by
  induction entries with
  | nil => exact ⟨List.Sublist.refl _, List.Sublist.refl _⟩
  | cons e entries ih =>
    rw [List.filterMap_cons, List.flatMap_cons, List.map_cons]
    have hhere : ∀ update, reparsedRows tools known snap e = some update →
        update = (e.1, rowsOfEntry tools snap e) := by
      intro update hupdate
      obtain ⟨path, text⟩ := e
      cases text with
      | none => cases hupdate
      | some source =>
        simp only [reparsedRows] at hupdate
        split_ifs at hupdate
        cases hupdate
        rfl
    cases hupdate : reparsedRows tools known snap e with
    | none => exact ⟨ih.1.trans (List.sublist_append_right _ _), ih.2.cons _⟩
    | some update =>
      rw [hhere update hupdate, List.flatMap_cons, List.map_cons]
      exact ⟨(List.Sublist.refl _).append ih.1, ih.2.cons_cons _⟩

/-- After a steady build the index holds the symbols of the readable files. -/
theorem mem_contents_build (htracks : Tracks tools index parsed) (hsteady : Steady tools parsed snap)
    (row : PyStr × ParsedSymbol) :
    row ∈ (build tools index snap).1.contents ↔ row ∈ currentRows tools snap := by
  have hnodup : (snap.pythonFiles.map Prod.fst).Nodup :=
    snap.distinct.sublist (List.filter_sublist.map _)
  have hupdate : ∀ update, update ∈ snap.pythonFiles.filterMap (reparsedRows tools index.files snap) →
      ∃ path source, (path, some source) ∈ snap.pythonFiles ∧
        update = (path, fileRows tools path (snap.moduleForPath path) source) ∧
        ((parsed path).any fun p => tools.digestOf p.1 = tools.digestOf source) = false := by
    intro update hmem
    obtain ⟨⟨path, text⟩, he, hrow⟩ := List.mem_filterMap.1 hmem
    cases text with
    | none => cases hrow
    | some source =>
      rw [reparsedRows_some htracks] at hrow
      split_ifs at hrow with hsame
      cases hrow
      exact ⟨path, source, he, rfl, by simpa using hsame⟩
  have hsub := @reparsed_sublist tools snap index.files snap.pythonFiles
  have howned : ∀ update ∈ snap.pythonFiles.filterMap (reparsedRows tools index.files snap),
      ∀ r ∈ update.2, r.1 = update.1 := by
    intro update hmem r hr
    obtain ⟨path, source, _, rfl, _⟩ := hupdate update hmem
    obtain ⟨s, _, rfl⟩ := List.mem_map.1 hr
    rfl
  rw [(build_spec htracks.valid).2.1, Keyed.mem_dropAll, Keyed.mem_refreshAll
    (hsteady.distinct.sublist (hsub.1.map rowKey)) (hnodup.sublist hsub.2) howned]
  have hpaths : ∀ {path : PyStr} {text : Option PyStr}, (path, text) ∈ snap.pythonFiles →
      path ∉ (index.files.filter fun f => f.path ∉ snap.pythonFiles.map Prod.fst).map FileRow.path := by
    intro path text he hmem
    obtain ⟨f, hf, rfl⟩ := List.mem_map.1 hmem
    have hout := (List.mem_filter.1 hf).2
    simp only [decide_eq_true_eq] at hout
    exact hout (List.mem_map_of_mem he)
  constructor
  · rintro ⟨⟨hold, hkept⟩ | ⟨update, hmem, hnew⟩, hgone⟩
    · -- an old row of a file that is still there and was not parsed again
      obtain ⟨old, module, hparsed, hrow⟩ := (htracks.rows row).1 hold
      have hfile := fileOf_of_mem_contents htracks.valid hold
      obtain ⟨f, hfind⟩ := Option.ne_none_iff_exists'.1 hfile
      obtain ⟨hf, hpath⟩ := (fileOf_eq_some_iff htracks.valid.filePaths).1 hfind
      have hseen : row.1 ∈ snap.pythonFiles.map Prod.fst := by
        by_contra hnot
        refine hgone (List.mem_map.2 ⟨f, List.mem_filter.2 ⟨hf, ?_⟩, hpath⟩)
        simpa [hpath] using hnot
      obtain ⟨⟨path, text⟩, he, hpath'⟩ := List.mem_map.1 hseen
      simp only at hpath'
      subst hpath'
      cases text with
      | none =>
        rw [hsteady.unreadable row.1 he old module hparsed] at hrow
        cases hrow
      | some source =>
        by_cases hsame : tools.digestOf old = tools.digestOf source
        · rw [hsteady.unchanged row.1 source he old module hparsed hsame] at hrow
          exact mem_currentRows.2 ⟨source, he, hrow⟩
        · have hmem : (row.1, fileRows tools row.1 (snap.moduleForPath row.1) source) ∈
              snap.pythonFiles.filterMap (reparsedRows tools index.files snap) := by
            refine List.mem_filterMap.2 ⟨_, he, ?_⟩
            rw [reparsedRows_some htracks, hparsed]
            simp [hsame]
          exact absurd rfl (hkept _ hmem).1
    · obtain ⟨path, source, he, rfl, _⟩ := hupdate update hmem
      exact List.mem_flatMap.2 ⟨_, he, hnew⟩
  · intro hrow
    obtain ⟨source, he, hsymbol⟩ := mem_currentRows.1 hrow
    refine ⟨?_, hpaths he⟩
    cases hsame : (parsed row.1).any fun p => tools.digestOf p.1 = tools.digestOf source with
    | false =>
      refine .inr ⟨(row.1, fileRows tools row.1 (snap.moduleForPath row.1) source), ?_,
        List.mem_map.2 ⟨row.2, hsymbol, rfl⟩⟩
      refine List.mem_filterMap.2 ⟨_, he, ?_⟩
      rw [reparsedRows_some htracks, hsame]
      rfl
    | true =>
      -- the file was left alone, and no update has its path or one of its keys
      obtain ⟨p, hp, hdigest⟩ := (Option.any_eq_true _ _).1 hsame
      have hdigest' : tools.digestOf p.1 = tools.digestOf source := by simpa using hdigest
      have hold : row ∈ index.contents := by
        refine (htracks.rows row).2 ⟨p.1, p.2, hp, ?_⟩
        rw [hsteady.unchanged row.1 source he p.1 p.2 hp hdigest']
        exact hsymbol
      refine .inl ⟨hold, fun update hmem => ?_⟩
      obtain ⟨path, source', he', rfl, hchanged⟩ := hupdate update hmem
      have hne : row.1 ≠ path := by
        intro heq
        have hentry := eq_of_nodup_map hnodup he he' heq
        cases hentry
        rw [hsame] at hchanged
        cases hchanged
      refine ⟨hne, fun other hother hkey => hne ?_⟩
      have hcurrent : other ∈ currentRows tools snap := List.mem_flatMap.2 ⟨_, he', hother⟩
      have heq := eq_of_nodup_map hsteady.distinct hrow hcurrent hkey
      obtain ⟨s, _, hs⟩ := List.mem_map.1 hother
      rw [heq, ← hs]

theorem keys_build (htracks : Tracks tools index parsed) :
    ((build tools index snap).1.contents.map rowKey).Nodup := by
  rw [(build_spec htracks.valid).2.1]
  have hdrop : ∀ (paths : List PyStr) (table : List (PyStr × ParsedSymbol)),
      (table.map rowKey).Nodup →
        ((paths.foldl (Keyed.drop Prod.fst) table).map rowKey).Nodup := by
    intro paths
    induction paths with
    | nil => exact fun _ h => h
    | cons path paths ih => exact fun table h => ih _ (Keyed.nodup_drop h)
  have hrefresh : ∀ (updates : List (PyStr × List (PyStr × ParsedSymbol)))
      (table : List (PyStr × ParsedSymbol)), (table.map rowKey).Nodup →
        ((updates.foldl (Keyed.refresh rowKey Prod.fst) table).map rowKey).Nodup := by
    intro updates
    induction updates with
    | nil => exact fun _ h => h
    | cons update updates ih => exact fun table h => ih _ (Keyed.nodup_upsertAll (Keyed.nodup_drop h))
  exact hdrop _ _ (hrefresh _ _ htracks.keys)

theorem tracks_build (htracks : Tracks tools index parsed) (hsteady : Steady tools parsed snap) :
    Tracks tools (build tools index snap).1 (recordBuild tools parsed snap) := by
  obtain ⟨hvalid, _, hgone, hdigests⟩ := @build_spec tools snap index htracks.valid
  have hnodup : (snap.pythonFiles.map Prod.fst).Nodup :=
    snap.distinct.sublist (List.filter_sublist.map _)
  have hseen : ∀ path, (∃ e ∈ snap.pythonFiles, e.1 = path) ∨ path ∉ snap.pythonFiles.map Prod.fst := by
    intro path
    by_cases hmem : path ∈ snap.pythonFiles.map Prod.fst
    · exact .inl (List.mem_map.1 hmem)
    · exact .inr hmem
  have habsent : ∀ path, path ∉ snap.pythonFiles.map Prod.fst →
      recordBuild tools parsed snap path = none := by
    intro path hpath
    have hnone : (snap.pythonFiles.find? fun e => e.1 = path) = none := by
      refine List.find?_eq_none.2 fun e he => ?_
      have hne : e.1 ≠ path := fun heq => hpath (heq ▸ List.mem_map_of_mem he)
      simpa using hne
    simp [recordBuild, hnone]
  refine ⟨hvalid, fun path => ?_, fun row => ?_, keys_build htracks⟩
  · rcases hseen path with ⟨⟨path, text⟩, he, rfl⟩ | hpath
    · rw [hdigests _ he]
      simp only [recordBuild, find_pythonFiles he]
      cases text with
      | none => exact htracks.digests path
      | some source =>
        cases hparsed : parsed path with
        | none => rfl
        | some p =>
          simp only
          split_ifs with hsame
          · simp [hsame]
          · rfl
    · rw [hgone path hpath, habsent path hpath]
      rfl
  · rw [mem_contents_build htracks hsteady, mem_currentRows]
    rcases hseen row.1 with ⟨⟨path, text⟩, he, hpath⟩ | hpath
    · simp only at hpath
      subst hpath
      cases text with
      | none =>
        -- nothing is known of the file now, and nothing was in it before
        constructor
        · rintro ⟨source, he', _⟩
          have hentry := eq_of_nodup_map hnodup he he' rfl
          cases hentry
        · rintro ⟨source, module, hrecord, hrow⟩
          simp only [recordBuild, find_pythonFiles he] at hrecord
          rw [hsteady.unreadable row.1 he source module hrecord] at hrow
          cases hrow
      | some source =>
        have hcurrent : (∃ source', (row.1, some source') ∈ snap.pythonFiles ∧
            row.2 ∈ parseSymbols tools.parse source' (snap.moduleForPath row.1)) ↔
              row.2 ∈ parseSymbols tools.parse source (snap.moduleForPath row.1) := by
          refine ⟨fun ⟨source', he', hrow⟩ => ?_, fun hrow => ⟨source, he, hrow⟩⟩
          have hentry := eq_of_nodup_map hnodup he he' rfl
          cases hentry
          exact hrow
        rw [hcurrent]
        simp only [recordBuild, find_pythonFiles he]
        cases hparsed : parsed row.1 with
        | none => simp
        | some p =>
          obtain ⟨old, module⟩ := p
          simp only
          split_ifs with hsame
          · rw [← hsteady.unchanged row.1 source he old module hparsed hsame]
            simp
          · simp
    · rw [habsent row.1 hpath]
      refine iff_of_false ?_ (by simp)
      rintro ⟨source, he, _⟩
      exact hpath (List.mem_map_of_mem he)

theorem tracks_empty : Tracks tools .empty fun _ => none where
  valid := by constructor <;> simp [Index.empty]
  digests := fun _ => rfl
  rows := fun row => by simp [Index.contents, Index.empty]
  keys := List.nodup_nil

/-! ## The rows without their ids -/

def Index.symbolSet (index : Index) : Set (PyStr × SymbolColumns) :=
  {v | ∃ s ∈ index.symbols, ∃ f ∈ index.files, f.id = s.fileId ∧ v = (f.path, s.toSymbolColumns)}

structure CallView where
  caller : PyStr × SymbolColumns
  callee : Identifier
  resolved : Option (PyStr × SymbolColumns)
  line : Nat

def Index.Named (index : Index) (id : Nat) (v : PyStr × SymbolColumns) : Prop :=
  ∃ s ∈ index.symbols, ∃ f ∈ index.files, s.id = id ∧ f.id = s.fileId ∧
    v = (f.path, s.toSymbolColumns)

def Index.callSet (index : Index) : Set CallView :=
  {v | ∃ c ∈ index.calls, index.Named c.callerId v.caller ∧ v.callee = c.callee ∧ v.line = c.line ∧
    match c.calleeId, v.resolved with
    | none, none => True
    | some id, some w => index.Named id w
    | _, _ => False}

def uniqueRow (contents : List (PyStr × ParsedSymbol)) (name : PyStr) :
    Option (PyStr × SymbolColumns) :=
  match contents.filter fun row => row.2.qualname = name with
  | [row] => some (row.1, row.2.toSymbolColumns)
  | _ => none

theorem uniqueRow_perm {xs ys : List (PyStr × ParsedSymbol)} (h : xs.Perm ys) (name : PyStr) :
    uniqueRow xs name = uniqueRow ys name := by
  have hfilter := h.filter fun row => decide (row.2.qualname = name)
  unfold uniqueRow
  generalize (xs.filter fun row => decide (row.2.qualname = name)) = as at hfilter ⊢
  generalize (ys.filter fun row => decide (row.2.qualname = name)) = bs at hfilter ⊢
  match as, bs, hfilter.length_eq with
  | [], [], _ => rfl
  | [a], [b], _ =>
    have heq : [a] = [b] := List.singleton_perm.1 hfilter
    rw [heq]
  | _ :: _ :: _, _ :: _ :: _, _ => rfl

theorem view_path (hvalid : index.Valid) {s : SymbolRow} {f : FileRow} (hf : f ∈ index.files)
    (hid : f.id = s.fileId) : (index.view s).1 = f.path := by
  rw [Index.view, ← hid]
  exact pathOf_eq hvalid.fileIds hf

theorem named_iff (hvalid : index.Valid) {id : Nat} {v : PyStr × SymbolColumns} :
    index.Named id v ↔ ∃ s ∈ index.symbols, s.id = id ∧
      v = ((index.view s).1, s.toSymbolColumns) := by
  constructor
  · rintro ⟨s, hs, f, hf, hid, hfile, rfl⟩
    exact ⟨s, hs, hid, by rw [view_path hvalid hf hfile]⟩
  · rintro ⟨s, hs, hid, rfl⟩
    obtain ⟨f, hf, hfile⟩ := hvalid.owned s hs
    exact ⟨s, hs, f, hf, hid, hfile, by rw [view_path hvalid hf hfile]⟩

theorem mem_symbolSet (hvalid : index.Valid) {v : PyStr × SymbolColumns} :
    v ∈ index.symbolSet ↔ ∃ row ∈ index.contents, v = (row.1, row.2.toSymbolColumns) := by
  constructor
  · rintro ⟨s, hs, f, hf, hid, rfl⟩
    exact ⟨index.view s, List.mem_map_of_mem hs, by rw [view_path hvalid hf hid]; rfl⟩
  · rintro ⟨row, hrow, rfl⟩
    obtain ⟨s, hs, rfl⟩ := List.mem_map.1 hrow
    obtain ⟨f, hf, hid⟩ := hvalid.owned s hs
    exact ⟨s, hs, f, hf, hid, by rw [view_path hvalid hf hid]; rfl⟩

theorem resolved_iff (hvalid : index.Valid) (name : PyStr) (w : Option (PyStr × SymbolColumns)) :
    (match uniqueId index.symbols name, w with
      | none, none => True
      | some id, some w => index.Named id w
      | _, _ => False) ↔ w = uniqueRow index.contents name := by
  have hfilter : (index.contents.filter fun row => row.2.qualname = name) =
      (index.symbols.filter fun s => s.qualname = name).map index.view := by
    rw [Index.contents, List.filter_map]
    rfl
  have hmem : ∀ s ∈ index.symbols.filter fun s => s.qualname = name, s ∈ index.symbols :=
    fun s hs => (List.mem_filter.1 hs).1
  unfold uniqueId uniqueRow
  rw [hfilter]
  generalize (index.symbols.filter fun s => s.qualname = name) = found at hmem
  match found, w with
  | [], none => simp
  | [], some w => simp
  | [s], none => simp
  | [s], some w =>
    have hs := hmem s (List.mem_singleton.2 rfl)
    simp only [List.map_cons, List.map_nil, Option.some.injEq]
    rw [named_iff hvalid]
    constructor
    · rintro ⟨s', hs', hid, rfl⟩
      rw [eq_of_nodup_map hvalid.symbolIds hs' hs hid]
      rfl
    · rintro rfl
      exact ⟨s, hs, rfl, rfl⟩
  | _ :: _ :: _, none => simp
  | _ :: _ :: _, some w => simp

theorem mem_callSet (hvalid : index.Valid)
    (hresolved : ∀ c ∈ index.calls, c.calleeId = uniqueId index.symbols c.callee.val) {v : CallView} :
    v ∈ index.callSet ↔ ∃ row ∈ index.contents, ∃ call ∈ row.2.calls,
      v = ⟨(row.1, row.2.toSymbolColumns), call.1, uniqueRow index.contents call.1.val, call.2⟩ := by
  constructor
  · rintro ⟨c, hc, hcaller, hcallee, hline, hw⟩
    obtain ⟨s, hs, hid, hview⟩ := (named_iff hvalid).1 hcaller
    rw [hresolved c hc, resolved_iff hvalid] at hw
    refine ⟨index.view s, List.mem_map_of_mem hs, (c.callee, c.line), ?_, ?_⟩
    · exact List.mem_map.2 ⟨c, List.mem_filter.2 ⟨hc, by simp [hid]⟩, rfl⟩
    · obtain ⟨caller, callee, resolved, line⟩ := v
      simp only at hcallee hline hview hw
      rw [hview, hcallee, hline, hw]
      rfl
  · rintro ⟨row, hrow, call, hcall, rfl⟩
    obtain ⟨s, hs, rfl⟩ := List.mem_map.1 hrow
    obtain ⟨c, hc, rfl⟩ := List.mem_map.1 hcall
    obtain ⟨hmem, hid⟩ := List.mem_filter.1 hc
    refine ⟨c, hmem, (named_iff hvalid).2 ⟨s, hs, (by simpa using hid : c.callerId = s.id).symm, rfl⟩,
      rfl, rfl, ?_⟩
    rw [hresolved c hmem]
    exact (resolved_iff hvalid _ _).2 rfl

/-! ## The incremental index is the fresh one -/

/-- The rows are those of a build on empty tables, and every symbol of every readable file has one. -/
structure SameAsFresh (tools : IndexTools) (index : Index) (snap : Snapshot) : Prop where
  symbols : index.symbolSet = (build tools .empty snap).1.symbolSet
  calls : index.callSet = (build tools .empty snap).1.callSet
  every : ∀ path source, (path, some source) ∈ snap.pythonFiles →
    ∀ s ∈ parseSymbols tools.parse source (snap.moduleForPath path),
      (path, s.toSymbolColumns) ∈ index.symbolSet

def buildAll (tools : IndexTools) (index : Index) (snaps : List Snapshot) : Index :=
  snaps.foldl (fun index snap => (build tools index snap).1) index

theorem resolved_build (c : CallRow) (hc : c ∈ (build tools index snap).1.calls) :
    c.calleeId = uniqueId (build tools index snap).1.symbols c.callee.val := by
  obtain ⟨c', _, rfl⟩ := List.mem_map.1 hc
  rfl

theorem sameAsFresh_build (htracks : Tracks tools index parsed) (hsteady : Steady tools parsed snap) :
    SameAsFresh tools (build tools index snap).1 snap := by
  have hempty : Steady tools (fun _ => none) snap :=
    ⟨hsteady.distinct, (fun _ _ _ _ h => nomatch h), (fun _ _ _ _ _ h => nomatch h)⟩
  have hindex := mem_contents_build htracks hsteady
  have hfresh := mem_contents_build tracks_empty hempty
  have hvalid := (tracks_build htracks hsteady).valid
  have hvalid' := (tracks_build tracks_empty hempty).valid
  have hperm : (build tools index snap).1.contents.Perm (build tools .empty snap).1.contents :=
    (List.perm_ext_iff_of_nodup (keys_build htracks).of_map (keys_build tracks_empty).of_map).2
      fun row => (hindex row).trans (hfresh row).symm
  refine ⟨Set.ext fun v => ?_, Set.ext fun v => ?_, fun path source he s hs => ?_⟩
  · rw [mem_symbolSet hvalid, mem_symbolSet hvalid']
    simp only [hindex, hfresh]
  · rw [mem_callSet hvalid resolved_build, mem_callSet hvalid' resolved_build]
    simp only [hindex, hfresh, uniqueRow_perm hperm]
  · rw [mem_symbolSet hvalid]
    exact ⟨(path, s), (hindex _).2 (mem_currentRows.2 ⟨source, he, hs⟩), rfl⟩

theorem tracks_buildAll {snaps : List Snapshot} (htracks : Tracks tools index parsed)
    (hsteady : SteadyRun tools parsed snaps) :
    ∃ parsed', Tracks tools (buildAll tools index snaps) parsed' ∧
      ∀ snap, SteadyRun tools parsed (snaps ++ [snap]) → Steady tools parsed' snap := by
  induction snaps generalizing index parsed with
  | nil => exact ⟨parsed, htracks, fun snap h => h.1⟩
  | cons first snaps ih =>
    obtain ⟨parsed', htracks', hlast⟩ := ih (tracks_build htracks hsteady.1) hsteady.2
    exact ⟨parsed', htracks', fun snap h => hlast snap h.2⟩

theorem steadyRun_of_append {snaps : List Snapshot} (h : SteadyRun tools parsed (snaps ++ [snap])) :
    SteadyRun tools parsed snaps := by
  induction snaps generalizing parsed with
  | nil => trivial
  | cons first snaps ih => exact ⟨h.1, ih h.2⟩

/-- In a run of steady builds the index is the fresh one after every build. -/
theorem buildAll_fresh {snaps : List Snapshot} {snap : Snapshot}
    (h : SteadyRun tools (fun _ => none) (snaps ++ [snap])) :
    SameAsFresh tools (buildAll tools .empty (snaps ++ [snap])) snap := by
  obtain ⟨parsed, htracks, hlast⟩ := tracks_buildAll tracks_empty (steadyRun_of_append h)
  have happend : buildAll tools .empty (snaps ++ [snap]) =
      (build tools (buildAll tools .empty snaps) snap).1 := by
    simp [buildAll]
  rw [happend]
  exact sameAsFresh_build htracks (hlast snap h)

end Runs

/-! ## Two runs -/

def totalSource (digit : PyStr) : PyStr := lit "def total():\n    return " ++ digit ++ lit "\n"

def totalTools : IndexTools where
  parse := fun source =>
    if source = totalSource (lit "1") ∨ source = totalSource (lit "2") then
      some [.definition .function ⟨lit "total", by decide⟩ 1 2 [] [] [] [.other []]]
    else some []
  digestOf := fun source =>
    if source = totalSource (lit "1") then lit "c81bd5ea1f1e7d01" else lit "1da6aea67eaa1455"

/-- Files of the module `billing`, at the top and under the source root `src`. -/
def billingAt (entries : List (PyStr × Option PyStr)) (h : (entries.map Prod.fst).Nodup) : Snapshot where
  entries := entries
  distinct := h
  ignored := fun _ => false
  moduleForPath := fun _ => lit "billing"

def billingOnce (digit : PyStr) : Snapshot :=
  billingAt [(lit "billing.py", some (totalSource digit))] (List.nodup_singleton _)

theorem steady_billingOnce {parsed : Parsed} (digit : PyStr)
    (hdistinct : ((currentRows totalTools (billingOnce digit)).map rowKey).Nodup)
    (hunchanged : ∀ old module, parsed (lit "billing.py") = some (old, module) →
      totalTools.digestOf old ≠ totalTools.digestOf (totalSource digit)) :
    Steady totalTools parsed (billingOnce digit) where
  distinct := hdistinct
  unreadable := by
    intro path h
    cases List.mem_singleton.1 (List.mem_filter.1 h).1
  unchanged := by
    intro path source h old module hparsed hdigest
    have hentry := List.mem_singleton.1 (List.mem_filter.1 h).1
    cases hentry
    exact absurd hdigest (hunchanged old module hparsed)

/-- The file is edited between two builds. -/
theorem buildAll_fresh_edited :
    SameAsFresh totalTools
      (buildAll totalTools .empty ([billingOnce (lit "1")] ++ [billingOnce (lit "2")]))
      (billingOnce (lit "2")) := by
  refine buildAll_fresh ⟨steady_billingOnce _ (by decide) (fun _ _ h => nomatch h),
    steady_billingOnce _ (by decide) (fun old module h => ?_), trivial⟩
  have hrecord : recordBuild totalTools (fun _ => none) (billingOnce (lit "1")) (lit "billing.py") =
      some (totalSource (lit "1"), lit "billing") := by decide
  cases hrecord.symm.trans h
  decide

/-- A second file of the module takes the symbol's row, and leaves none when it is deleted. -/
theorem total_has_no_row :
    ¬ SameAsFresh totalTools
      (buildAll totalTools .empty
        ([billingAt [(lit "billing.py", some (totalSource (lit "1"))),
          (lit "src/billing.py", some (totalSource (lit "1")))] (by decide)] ++
            [billingOnce (lit "1")]))
      (billingOnce (lit "1")) := by
  intro hsame
  have hempty : (buildAll totalTools .empty
      ([billingAt [(lit "billing.py", some (totalSource (lit "1"))),
        (lit "src/billing.py", some (totalSource (lit "1")))] (by decide)] ++
          [billingOnce (lit "1")])).symbols.isEmpty = true := by decide
  obtain ⟨s, hs, _⟩ := hsame.every (lit "billing.py") (totalSource (lit "1")) (by decide)
    ⟨⟨lit "billing", lit "total", lit "function", 1, 2, lit "()", []⟩, []⟩ (List.mem_singleton.2 rfl)
  rw [List.isEmpty_iff.1 hempty] at hs
  cases hs

end Tempest
