import Tempest.Compose.Imports
import Tempest.Prove.Contained
import Tempest.Python.Fnmatch
import Tempest.Targets.Git

/-!
# Reprove — the incremental proof of a new selection (`compose/compose.py`, `reprove`)

The dirty files are proved again and the records of the others are carried.  What the new proof leaves
out is said by the carried paths, used as patterns.
-/

namespace Tempest

open Python

/-! ## The code -/

def isIgnored (relPath : PyStr) (globs : List PyStr) : Bool :=
  globs.any fun glob => fnmatchcase relPath glob

/-- `changed_between`, of what `git diff --name-only` prints. -/
def changedBetween (listing : PyStr) : Finset PyStr :=
  (((Python.splitLines listing).map Python.strip).filter fun line => line ≠ []).toFinset

/-- `all_paths`, the files of the working tree, and `ast.parse`. -/
structure Workspace where
  allPaths : List PyStr
  worktree : PyStr → Option PyStr
  parse : PyStr → Except ParseError ImportNode

/-- The `.py` files of `all_paths` that are in the working tree. -/
def Workspace.sources (w : Workspace) : Sources where
  texts := Dict.empty.setAll (w.allPaths.filterMap fun path =>
    if pySuffix.isSuffixOf path then (w.worktree path).map fun text => (path, text) else none)
  parse := w.parse

/-- `Incremental`.  `records` is kept as its two parts, the records of the new proof and those that are
carried. -/
structure Incremental where
  proved : List TargetRecord
  kept : List TargetRecord
  reproved : List PyStr
  carried : List PyStr
  bundleId : PyStr

def Incremental.records (i : Incremental) : List TargetRecord := i.proved ++ i.kept

inductive ReproveError where
  | parse (error : ParseError)
  | prove (error : PipelineError)

/-- The proof of the new head with the ignore globs that are given. -/
def ProveRun.ignoring (r : ProveRun) (globs : List PyStr) : ProveRun :=
  { r with ignored := fun path => isIgnored path globs }

/-- `base_sha[:12]..head_sha[:12]`. -/
def RunManifest.bundleId (m : RunManifest) : PyStr :=
  m.baseSha.take 12 ++ lit ".." ++ m.headSha.take 12

def carriedOf (sources : Sources) (dirty : Finset PyStr) : List PyStr :=
  (sources.texts.keys.toFinset \ dirty).sort (· ≤ ·)

def reprove (w : Workspace) (listing : PyStr) (previous : List TargetRecord) (r : ProveRun) :
    Except ReproveError Incremental :=
  match w.sources.importGraph with
  | .error e => .error (.parse e)
  | .ok graph =>
    let dirty := affected (changedBetween listing) graph
    let carried := carriedOf w.sources dirty
    if dirty = ∅ then .ok ⟨[], previous, [], carried, []⟩
    else
      match runProve (r.ignoring carried) with
      | .error e => .error (.prove e)
      | .ok out =>
        .ok ⟨out.1.targets, previous.filter fun record => record.filePath ∈ carried,
          dirty.sort (· ≤ ·), carried, out.1.manifest.bundleId⟩

/-! ## The listing -/

/-- A path that `git` prints as it is and that has no blank at its ends. -/
structure PlainPath (path : PyStr) : Prop where
  some : path ≠ []
  unquoted : Git.needsQuotes path = false
  stripped : Python.strip path = path

def listed (path : PyStr) : PyStr := Python.strip (Git.quote [] path)

theorem isLineBreak_of_isPrinted {c : CodePoint} (h : Git.isPrinted c = true) :
    isLineBreak c = false := by
  simp only [Git.isPrinted, Bool.and_eq_true, decide_eq_true_eq] at h
  simp only [isLineBreak, Bool.or_eq_false_iff, Bool.and_eq_false_iff, decide_eq_false_iff_not]
  omega

theorem mem_changedBetween {paths : List PyStr} {line : PyStr} :
    line ∈ changedBetween (Git.nameOnly paths) ↔ line ≠ [] ∧ ∃ path ∈ paths, listed path = line := by
  have hlines : ∀ line ∈ paths.map (Git.quote []), line.all (fun c => !isLineBreak c) = true := by
    intro line hline
    obtain ⟨path, _, rfl⟩ := List.mem_map.1 hline
    have hprinted := List.all_eq_true.1 (Git.isPrinted_quote path)
    exact List.all_eq_true.2 fun c hc => by rw [isLineBreak_of_isPrinted (hprinted c hc)]; rfl
  have hlisting : Git.nameOnly paths =
      (paths.map (Git.quote [])).flatMap fun line => line ++ [lineFeed] := by
    rw [Git.nameOnly, List.flatMap_map]
  rw [changedBetween, hlisting, splitLines_lines hlines, List.map_map]
  simp [and_comm, listed]

theorem strip_sublist (s : PyStr) : (Python.strip s).Sublist s := by
  have hright := List.rdropWhile_prefix Python.isSpace (s.dropWhile Python.isSpace)
  exact hright.sublist.trans (List.dropWhile_suffix Python.isSpace).sublist

/-- Text between quotation marks is not stripped. -/
theorem strip_marked (inside : PyStr) :
    Python.strip (codePoint 0x22 :: inside ++ [codePoint 0x22]) =
      codePoint 0x22 :: inside ++ [codePoint 0x22] := by
  have hmark : Python.isSpace (codePoint 0x22) = false := by decide
  rw [Python.strip, stripBy, List.cons_append, List.dropWhile_cons_of_neg (by simp [hmark]),
    ← List.cons_append, List.rdropWhile_concat_neg _ _ _ (by simp [hmark])]

variable {path : PyStr}

theorem listed_quoted (h : Git.needsQuotes path = true) :
    (listed path).head? = some (codePoint 0x22) ∧ path.length < (listed path).length := by
  obtain ⟨inside, hlength, hquote⟩ := Git.quote_marked h
  rw [listed, hquote, strip_marked]
  refine ⟨rfl, ?_⟩
  simp only [List.cons_append, List.length_cons, List.length_append, List.length_nil]
  omega

theorem listed_unquoted (h : Git.needsQuotes path = false) :
    listed path = Python.strip path := by
  rw [listed, Git.quote_plain h, List.nil_append]

/-- A map of a finite set onto itself that makes nothing longer leaves every length as it is. -/
theorem length_eq_of_image {S : Finset PyStr} {f : PyStr → PyStr} (himage : S.image f = S)
    (hlength : ∀ p ∈ S, (f p).length ≤ p.length) : ∀ p ∈ S, (f p).length = p.length := by
  have hinj : Set.InjOn f S := Finset.card_image_iff.1 (by rw [himage])
  have hsum : ∑ p ∈ S, (f p).length = ∑ p ∈ S, p.length := by
    calc ∑ p ∈ S, (f p).length = ∑ q ∈ S.image f, q.length := (Finset.sum_image hinj).symm
      _ = ∑ p ∈ S, p.length := by rw [himage]
  exact (Finset.sum_eq_sum_iff_of_le hlength).1 hsum

theorem needsQuotes_of_head? (h : path.head? = some (codePoint 0x22)) :
    Git.needsQuotes path = true := by
  refine List.any_eq_true.2 ⟨codePoint 0x22, List.mem_of_mem_head? h, by decide⟩

/-- The listing names the changed files exactly when every one of their paths is plain. -/
theorem changedBetween_iff {paths : List PyStr} :
    changedBetween (Git.nameOnly paths) = paths.toFinset ↔ ∀ path ∈ paths, PlainPath path := by
  constructor
  · intro h
    have hmem : ∀ path ∈ paths, path ∈ changedBetween (Git.nameOnly paths) :=
      fun path hpath => h ▸ List.mem_toFinset.2 hpath
    have hsub : paths.toFinset ⊆ paths.toFinset.image listed := by
      intro path hpath
      obtain ⟨_, q, hq, rfl⟩ := mem_changedBetween.1 (hmem path (List.mem_toFinset.1 hpath))
      exact Finset.mem_image_of_mem listed (List.mem_toFinset.2 hq)
    have himage : paths.toFinset.image listed = paths.toFinset :=
      (Finset.eq_of_subset_of_card_le hsub Finset.card_image_le).symm
    have hunquoted : ∀ path ∈ paths, Git.needsQuotes path = false := by
      -- the longest quoted path would be listed as a longer one
      by_contra hnot
      simp only [not_forall, Bool.not_eq_false] at hnot
      obtain ⟨quoted, hquoted, hneeds⟩ := hnot
      obtain ⟨path, hpath, hmax⟩ := Finset.exists_max_image
        (paths.toFinset.filter fun p => Git.needsQuotes p) List.length
        ⟨quoted, Finset.mem_filter.2 ⟨List.mem_toFinset.2 hquoted, hneeds⟩⟩
      obtain ⟨hmem', hneeds'⟩ := Finset.mem_filter.1 hpath
      obtain ⟨hhead, hlonger⟩ := listed_quoted hneeds'
      have hlisted : listed path ∈ paths.toFinset := himage ▸ Finset.mem_image_of_mem listed hmem'
      have hle := hmax (listed path) (Finset.mem_filter.2 ⟨hlisted, needsQuotes_of_head? hhead⟩)
      omega
    have hstripped : ∀ path ∈ paths, Python.strip path = path := by
      intro path hpath
      have hle : ∀ p ∈ paths.toFinset, (listed p).length ≤ p.length := by
        intro p hp
        rw [listed_unquoted (hunquoted p (List.mem_toFinset.1 hp))]
        exact (strip_sublist p).length_le
      have heq := length_eq_of_image himage hle path (List.mem_toFinset.2 hpath)
      rw [listed_unquoted (hunquoted path hpath)] at heq
      exact (strip_sublist path).eq_of_length heq
    exact fun path hpath =>
      ⟨(mem_changedBetween.1 (hmem path hpath)).1, hunquoted path hpath, hstripped path hpath⟩
  · intro h
    ext path
    rw [mem_changedBetween, List.mem_toFinset]
    have hlisted : ∀ q ∈ paths, listed q = q :=
      fun q hq => (listed_unquoted (h q hq).unquoted).trans (h q hq).stripped
    constructor
    · rintro ⟨_, q, hq, rfl⟩
      rwa [hlisted q hq]
    · intro hpath
      exact ⟨(h path hpath).some, path, hpath, hlisted path hpath⟩

/-! ## The targets of a run -/

def TargetRecord.key (t : TargetRecord) : PyStr × PyStr := (t.filePath, t.qualname)

def Work.key : Work → PyStr × PyStr
  | .finished t _ _ => (t.filePath, t.symbol)
  | .tsProven t _ => (t.filePath, t.symbol)
  | .stated record => record.key

def keysAt (path : PyStr) (works : List Work) : List (PyStr × PyStr) :=
  (works.map Work.key).filter fun key => key.1 = path

/-- What is relied on of `_ts_records`: without files there are no records, and the targets that are
reported for a file do not depend on the other files. -/
structure TsPerFile (ts : List FileDiff → Except Raised (List Work)) : Prop where
  noFiles : ts [] = .ok []
  perFile : ∀ ds ds' ws ws' path, ts ds = .ok ws → ts ds' = .ok ws' →
    (ds.filter fun d => d.path = path) = (ds'.filter fun d => d.path = path) →
      keysAt path ws = keysAt path ws'

theorem key_record (ctx : RunContext) (work : Work) (scripts : Dict PyStr PyStr) :
    (work.record ctx scripts).1.key = work.key := by
  cases work <;> rfl

variable {r : ProveRun}

theorem keys_of_runProve {out : RunBundle × BundleDir} (h : runProve r = .ok out) :
    ∃ works, r.works = .ok works ∧ out.1.targets.map TargetRecord.key = works.map Work.key := by
  obtain ⟨works, hworks, _, rfl⟩ := runProve_ok_iff.1 h
  refine ⟨works, hworks, ?_⟩
  have htargets : (r.bundle works).targets = (runRecords r.context works .empty).1 := rfl
  rw [htargets, runRecords_fst, List.map_map]
  exact List.map_congr_left fun work _ => key_record r.context work .empty

def Plan.filePath : Plan → PyStr
  | .stated record => record.filePath
  | .proof _ target _ => target.filePath

theorem filePath_of_plan {mined : List Constant} {d : FileDiff} {head : Node} {sym : SymbolSpan}
    {plan : Plan} (h : r.plan mined d head sym = .ok plan) : plan.filePath = d.path := by
  simp only [ProveRun.plan] at h
  split at h
  · cases h
    rfl
  · split_ifs at h
    · split at h <;> cases h <;> rfl
    · cases h
      rfl
    · cases h
      rfl

theorem filePath_of_fileWorks {mined : List Constant} {d : FileDiff} {works : List Work}
    (h : r.fileWorks mined d = .ok works) : ∀ work ∈ works, work.key.1 = d.path := by
  intro work hwork
  obtain ⟨trees, _, hmap⟩ := bind_ok_iff.1 h
  obtain ⟨sym, _, hsym⟩ := (mem_mapM_ok hmap).1 hwork
  rw [ProveRun.symbolWork] at hsym
  split at hsym
  · cases hsym
  · next plan hplan =>
    rw [← filePath_of_plan hplan]
    cases plan with
    | stated record =>
      cases hsym
      rfl
    | proof impure target lab =>
      rw [Plan.run] at hsym
      split at hsym
      · cases hsym
      · split at hsym <;> cases hsym
        rfl

theorem keysAt_append (path : PyStr) (ws ws' : List Work) :
    keysAt path (ws ++ ws') = keysAt path ws ++ keysAt path ws' := by
  simp [keysAt]

theorem keysAt_python (path : PyStr) {mined : List Constant} {ds : List FileDiff}
    {made : List (List Work)} (h : ds.mapM (r.fileWorks mined) = .ok made) :
    ∃ here, (ds.filter fun d => d.path = path).mapM (r.fileWorks mined) = .ok here ∧
      keysAt path made.flatten = keysAt path here.flatten := by
  have hall := mapM_ok_iff.1 h
  clear h
  induction hall with
  | nil => exact ⟨[], rfl, rfl⟩
  | @cons d works ds made hd _ ih =>
    obtain ⟨here, hhere, hkeys⟩ := ih
    by_cases hpath : d.path = path
    · refine ⟨works :: here, ?_, ?_⟩
      · rw [List.filter_cons_of_pos (by simpa using hpath)]
        exact mapM_ok_iff.2 (.cons hd (mapM_ok_iff.1 hhere))
      · rw [List.flatten_cons, List.flatten_cons, keysAt_append, keysAt_append, hkeys]
    · refine ⟨here, ?_, ?_⟩
      · rwa [List.filter_cons_of_neg (by simpa using hpath)]
      · have hnone : keysAt path works = [] := by
          refine List.filter_eq_nil_iff.2 fun key hkey => ?_
          obtain ⟨work, hwork, rfl⟩ := List.mem_map.1 hkey
          simpa [filePath_of_fileWorks hd work hwork] using hpath
        rw [List.flatten_cons, keysAt_append, hnone, List.nil_append, hkeys]

theorem tsWorks_eq (hts : TsPerFile r.ts) (diffs : List FileDiff) :
    r.tsWorks diffs = r.ts (diffs.filter r.isTypeScript) := by
  rw [ProveRun.tsWorks]
  split
  · next h => rw [h, hts.noFiles]
  · next d ds h => rw [h]

/-- Two runs that differ in what they ignore report the same targets of a path where the files of the
path that are in scope are the same. -/
theorem keysAt_works (hts : TsPerFile r.ts) {ignored : PyStr → Bool} {works works' : List Work}
    (hworks : r.works = .ok works)
    (hworks' : ProveRun.works { r with ignored := ignored } = .ok works')
    (hpath : ignored path = r.ignored path) : keysAt path works' = keysAt path works := by
  obtain ⟨diffs, mined, python, ts, hdiffs, hmined, hpython, hts', rfl⟩ := works_ok_iff.1 hworks
  obtain ⟨diffs', mined', python', ts'', hdiffs', hmined', hpython', hts'', rfl⟩ :=
    works_ok_iff.1 hworks'
  obtain rfl := Except.ok.inj (hdiffs.symm.trans hdiffs')
  obtain rfl := Except.ok.inj (hmined.symm.trans hmined')
  have hscope : ∀ keep : FileDiff → Bool,
      ((diffs.filter fun d => ProveRun.inScope { r with ignored := ignored } d && keep d).filter
          fun d => d.path = path) =
        (diffs.filter fun d => r.inScope d && keep d).filter fun d => d.path = path := by
    intro keep
    rw [List.filter_filter, List.filter_filter]
    refine List.filter_congr fun d _ => ?_
    by_cases hd : d.path = path
    · simp [ProveRun.inScope, hd, hpath]
    · simp [hd]
  rw [keysAt_append, keysAt_append]
  congr 1
  · obtain ⟨here, hhere, hkeys⟩ := keysAt_python path hpython
    obtain ⟨here', hhere', hkeys'⟩ := keysAt_python path hpython'
    have hsame := hscope fun d => !isTs d.path
    have heq : here' = here := by
      have hmap : (((diffs.filter r.isPython).filter fun d => d.path = path).mapM
          (r.fileWorks mined)) = .ok here' := by
        have hrun := hhere'
        rw [show (diffs.filter (ProveRun.isPython { r with ignored := ignored })) =
          diffs.filter fun d =>
            ProveRun.inScope { r with ignored := ignored } d && !isTs d.path from rfl,
          hsame] at hrun
        exact hrun
      exact Except.ok.inj (hmap.symm.trans hhere)
    rw [hkeys, hkeys', heq]
  · rw [tsWorks_eq hts] at hts'
    have hts3 : r.ts (diffs.filter (ProveRun.isTypeScript { r with ignored := ignored })) =
      .ok ts'' := by
      rw [← hts'']
      exact (tsWorks_eq (r := { r with ignored := ignored }) hts diffs).symm
    exact hts.perFile _ _ _ _ path hts3 hts' (hscope fun d => isTs d.path)

theorem keysAt_ignored (hts : TsPerFile r.ts) {works : List Work} (hworks : r.works = .ok works)
    (hpath : r.ignored path = true) : keysAt path works = [] := by
  obtain ⟨diffs, mined, python, ts, _, _, hpython, htsWorks, rfl⟩ := works_ok_iff.1 hworks
  have hscope : ∀ keep : FileDiff → Bool,
      ((diffs.filter fun d => r.inScope d && keep d).filter fun d => d.path = path) = [] := by
    intro keep
    rw [List.filter_filter]
    refine List.filter_eq_nil_iff.2 fun d _ hd => ?_
    simp only [Bool.and_eq_true, decide_eq_true_eq] at hd
    simp [ProveRun.inScope, hd.1, hpath] at hd
  obtain ⟨here, hhere, hkeys⟩ := keysAt_python path hpython
  rw [show diffs.filter r.isPython = diffs.filter fun d => r.inScope d && !isTs d.path from rfl,
    hscope fun d => !isTs d.path] at hhere
  cases hhere
  rw [tsWorks_eq hts] at htsWorks
  have hnone := hts.perFile _ [] _ _ path htsWorks hts.noFiles (hscope fun d => isTs d.path)
  rw [keysAt_append, hkeys, hnone]
  rfl

/-! ## One record a target -/

section Counts

variable {r : ProveRun} {full out : RunBundle × BundleDir} {key : PyStr × PyStr}

theorem count_keysAt (works : List Work) (key : PyStr × PyStr) :
    (keysAt key.1 works).count key = (works.map Work.key).count key := by
  rw [keysAt, List.count_filter (by simp)]

theorem ignored_of_mem (hts : TsPerFile r.ts) (hfull : runProve r = .ok full)
    (hkey : key ∈ full.1.targets.map TargetRecord.key) : r.ignored key.1 = false := by
  obtain ⟨works, hworks, hkeys⟩ := keys_of_runProve hfull
  rw [hkeys] at hkey
  by_contra hignored
  have hnone := keysAt_ignored hts hworks (Bool.eq_true_of_not_eq_false hignored)
  have hmem : key ∈ keysAt key.1 works := List.mem_filter.2 ⟨hkey, by simp⟩
  rw [hnone] at hmem
  cases hmem

/-- What a proof with ignore globs reports of a target of the full proof. -/
theorem count_ignoring (hts : TsPerFile r.ts) (hfull : runProve r = .ok full) {globs : List PyStr}
    (hout : runProve (r.ignoring globs) = .ok out)
    (hkey : key ∈ full.1.targets.map TargetRecord.key) :
    (out.1.targets.map TargetRecord.key).count key =
      if isIgnored key.1 globs then 0 else (full.1.targets.map TargetRecord.key).count key := by
  obtain ⟨works, hworks, hkeys⟩ := keys_of_runProve hfull
  obtain ⟨works', hworks', hkeys'⟩ := keys_of_runProve hout
  have hscope := ignored_of_mem hts hfull hkey
  rw [hkeys, hkeys', ← count_keysAt, ← count_keysAt]
  cases hglob : isIgnored key.1 globs with
  | true =>
    have hnone := keysAt_ignored (r := r.ignoring globs) hts hworks' hglob
    rw [hnone]
    rfl
  | false =>
    rw [keysAt_works hts hworks hworks' (hglob.trans hscope.symm)]
    rfl

theorem count_kept (previous : List TargetRecord) (carried : List PyStr) (key : PyStr × PyStr) :
    ((previous.filter fun record => record.filePath ∈ carried).map TargetRecord.key).count key =
      if key.1 ∈ carried then (previous.map TargetRecord.key).count key else 0 := by
  induction previous with
  | nil => simp
  | cons t previous ih =>
    by_cases ht : t.filePath ∈ carried
    · rw [List.filter_cons_of_pos (by simpa using ht), List.map_cons, List.count_cons, ih, List.map_cons,
        List.count_cons]
      by_cases hkey : t.key = key
      · subst hkey
        simp [TargetRecord.key, ht]
      · simp [hkey]
    · rw [List.filter_cons_of_neg (by simpa using ht), ih, List.map_cons, List.count_cons]
      by_cases hkey : t.key = key
      · subst hkey
        simp [TargetRecord.key, ht]
      · simp [hkey]

end Counts

/-! ## Every target once -/

/-- What `reprove` answers for the dirty files: the globs ignore the carried files and no dirty one,
and every target of the full proof has one record, of the new proof where its file is dirty and a
previous one where it is not. -/
structure KeepsOne (r : ProveRun) (dirty : Finset PyStr) (full previous : List TargetRecord)
    (inc : Incremental) : Prop where
  globs : dirty ≠ ∅ → (∀ path ∈ inc.carried, isIgnored path inc.carried = true) ∧
    ∀ path ∈ dirty, isIgnored path inc.carried = false
  proves : dirty ≠ ∅ → ∃ out, runProve (r.ignoring inc.carried) = .ok out ∧ inc.proved = out.1.targets
  unchanged : ∀ t ∈ inc.kept, t ∈ previous
  fresh : ∀ key ∈ full.map TargetRecord.key, key.1 ∈ dirty →
    (inc.proved.map TargetRecord.key).count key = 1 ∧ (inc.kept.map TargetRecord.key).count key = 0
  stays : ∀ key ∈ full.map TargetRecord.key, key.1 ∉ dirty →
    (inc.proved.map TargetRecord.key).count key = 0 ∧ (inc.kept.map TargetRecord.key).count key = 1

/-- The files that `git` lists are those that changed, and `reprove` keeps one record a target for
what they can reach. -/
def ReprovesOnce (w : Workspace) (changed : List PyStr) (previous : List TargetRecord)
    (r : ProveRun) (full : List TargetRecord) : Prop :=
  changedBetween (Git.nameOnly changed) = changed.toFinset ∧
    ∃ graph inc, w.sources.importGraph = .ok graph ∧
      reprove w (Git.nameOnly changed) previous r = .ok inc ∧
      KeepsOne r (affected changed.toFinset graph) full previous inc

/-- What the dirty and the carried files must be like: a carried path matches one of the carried paths
as a pattern and a dirty one none, the files of the full proof are dirty or carried, a target of a dirty
file is reported once, and the new proof returns. -/
structure Separated (r : ProveRun) (dirty : Finset PyStr) (carried : List PyStr)
    (full : List TargetRecord) : Prop where
  matched : ∀ path ∈ carried, isIgnored path carried = true
  unmatched : ∀ path ∈ dirty, isIgnored path carried = false
  covered : ∀ key ∈ full.map TargetRecord.key, key.1 ∈ dirty ∨ key.1 ∈ carried
  once : ∀ key ∈ full.map TargetRecord.key, key.1 ∈ dirty → (full.map TargetRecord.key).count key = 1
  returns : ∃ out, runProve (r.ignoring carried) = .ok out

/-- The changed paths are plain, the sources can be parsed, and where anything is dirty it is
separated from what is carried. -/
structure Reprovable (sources : Sources) (changed : List PyStr) (r : ProveRun)
    (full : List TargetRecord) : Prop where
  plain : ∀ path ∈ changed, PlainPath path
  parses : ∀ item ∈ sources.texts.items, sources.parse item.2 ≠ .error .tooDeep
  separated : ∀ graph, sources.importGraph = .ok graph → affected changed.toFinset graph ≠ ∅ →
    Separated r (affected changed.toFinset graph)
      (carriedOf sources (affected changed.toFinset graph)) full

theorem mem_carriedOf {sources : Sources} {dirty : Finset PyStr} :
    path ∈ carriedOf sources dirty ↔ path ∈ sources.texts.keys ∧ path ∉ dirty := by
  rw [carriedOf, Finset.mem_sort, Finset.mem_sdiff, List.mem_toFinset]

/-- Paths without `*`, `?` and `[` ignore themselves and nothing else. -/
theorem isIgnored_plain {globs : List PyStr}
    (h : ∀ glob ∈ globs, glob.any Fnmatch.isMagic = false) : isIgnored path globs = true ↔
      path ∈ globs := by
  simp only [isIgnored, List.any_eq_true]
  constructor
  · rintro ⟨glob, hglob, hmatch⟩
    have hplain : ∀ c ∈ glob, Fnmatch.isMagic c = false := by simpa using h glob hglob
    rwa [(Fnmatch.fnmatchcase_plain hplain).1 hmatch]
  · intro hpath
    have hplain : ∀ c ∈ path, Fnmatch.isMagic c = false := by simpa using h path hpath
    exact ⟨path, hpath, (Fnmatch.fnmatchcase_plain hplain).2 rfl⟩

/-- Carried paths without such characters are matched, and no dirty path is. -/
theorem matched_of_plain {dirty : Finset PyStr} {carried : List PyStr}
    (hplain : ∀ path ∈ carried, path.any Fnmatch.isMagic = false)
    (hdisjoint : ∀ path ∈ dirty, path ∉ carried) :
    (∀ path ∈ carried, isIgnored path carried = true) ∧ ∀ path ∈ dirty,
      isIgnored path carried = false := by
  refine ⟨fun path hpath => (isIgnored_plain hplain).2 hpath, fun path hpath => ?_⟩
  exact Bool.eq_false_iff.2 fun h => hdisjoint path hpath ((isIgnored_plain hplain).1 h)

section Main

variable {w : Workspace} {changed : List PyStr} {previous : List TargetRecord} {r : ProveRun}
  {full : RunBundle × BundleDir} {dirty : Finset PyStr}

/-- What `reprove` answers when something is dirty. -/
def provedAgain (w : Workspace) (dirty : Finset PyStr) (previous : List TargetRecord)
    (out : RunBundle × BundleDir) : Incremental :=
  ⟨out.1.targets, previous.filter fun record => record.filePath ∈ carriedOf w.sources dirty,
    dirty.sort (· ≤ ·), carriedOf w.sources dirty, out.1.manifest.bundleId⟩

theorem keepsOne_of_separated (hfull : runProve r = .ok full) (hts : TsPerFile r.ts)
    (hprevious : ∀ key ∈ full.1.targets.map TargetRecord.key, key.1 ∉ dirty →
      (previous.map TargetRecord.key).count key = 1)
    (h : Separated r dirty (carriedOf w.sources dirty) full.1.targets)
    {out : RunBundle × BundleDir} (hout : runProve (r.ignoring (carriedOf w.sources dirty)) = .ok out) :
    KeepsOne r dirty full.1.targets previous (provedAgain w dirty previous out) where
  globs _ := ⟨h.matched, h.unmatched⟩
  proves _ := ⟨out, hout, rfl⟩
  unchanged t ht := (List.mem_filter.1 ht).1
  fresh key hkey hin := by
    have hnot : key.1 ∉ carriedOf w.sources dirty := fun hc => (mem_carriedOf.1 hc).2 hin
    rw [provedAgain, count_ignoring hts hfull hout hkey, h.unmatched key.1 hin, count_kept, if_neg hnot]
    exact ⟨h.once key hkey hin, rfl⟩
  stays key hkey hout' := by
    have hcarried := (h.covered key hkey).resolve_left hout'
    rw [provedAgain, count_ignoring hts hfull hout hkey, h.matched key.1 hcarried, count_kept,
      if_pos hcarried]
    exact ⟨rfl, hprevious key hkey hout'⟩

/-- What one record a target says about the dirty and the carried files. -/
theorem separated_of_keepsOne (hfull : runProve r = .ok full) (hts : TsPerFile r.ts)
    (hdirty : dirty ≠ ∅) {out : RunBundle × BundleDir}
    (hout : runProve (r.ignoring (carriedOf w.sources dirty)) = .ok out)
    (h : KeepsOne r dirty full.1.targets previous (provedAgain w dirty previous out)) :
    Separated r dirty (carriedOf w.sources dirty) full.1.targets where
  matched := (h.globs hdirty).1
  unmatched := (h.globs hdirty).2
  covered key hkey := by
    by_contra hneither
    rw [not_or] at hneither
    have hkept := (h.stays key hkey hneither.1).2
    rw [provedAgain, count_kept, if_neg hneither.2] at hkept
    cases hkept
  once key hkey hin := by
    have hcount := (h.fresh key hkey hin).1
    rw [provedAgain, count_ignoring hts hfull hout hkey] at hcount
    split_ifs at hcount
    exact hcount
  returns := ⟨out, hout⟩

/-- With nothing dirty the previous records are the answer. -/
theorem keepsOne_of_empty {carried : List PyStr}
    (hprevious : ∀ key ∈ full.1.targets.map TargetRecord.key, key.1 ∉ (∅ : Finset PyStr) →
      (previous.map TargetRecord.key).count key = 1) :
    KeepsOne r ∅ full.1.targets previous ⟨[], previous, [], carried, []⟩ where
  globs h := absurd rfl h
  proves h := absurd rfl h
  unchanged _ ht := ht
  fresh key _ hin := absurd hin (Finset.notMem_empty key.1)
  stays key hkey hout := ⟨rfl, hprevious key hkey hout⟩

/-- One record a target is kept exactly when the inputs are reprovable, whatever complete records there
are from before. -/
theorem reprovesOnce_iff (hfull : runProve r = .ok full) (hts : TsPerFile r.ts)
    (hprevious : ∀ graph, w.sources.importGraph = .ok graph →
      ∀ key ∈ full.1.targets.map TargetRecord.key, key.1 ∉ affected changed.toFinset graph →
        (previous.map TargetRecord.key).count key = 1) :
    ReprovesOnce w changed previous r full.1.targets ↔
      Reprovable w.sources changed r full.1.targets := by
  constructor
  · rintro ⟨hchanged, graph, inc, hgraph, hreprove, hkeeps⟩
    refine ⟨changedBetween_iff.1 hchanged, importGraph_ok_iff.1 ⟨graph, hgraph⟩, ?_⟩
    intro graph' hgraph' hdirty
    obtain rfl := Except.ok.inj (hgraph.symm.trans hgraph')
    simp only [reprove, hgraph, hchanged, if_neg hdirty] at hreprove
    split at hreprove
    · cases hreprove
    · next out hout =>
      cases hreprove
      exact separated_of_keepsOne hfull hts hdirty hout hkeeps
  · rintro ⟨hplain, hparses, hseparated⟩
    have hchanged := changedBetween_iff.2 hplain
    obtain ⟨graph, hgraph⟩ := importGraph_ok_iff.2 hparses
    by_cases hdirty : affected changed.toFinset graph = ∅
    · have hanswer : reprove w (Git.nameOnly changed) previous r =
          .ok ⟨[], previous, [], carriedOf w.sources ∅, []⟩ := by
        simp only [reprove, hgraph, hchanged, hdirty, if_true]
      refine ⟨hchanged, graph, _, hgraph, hanswer, ?_⟩
      rw [hdirty]
      exact keepsOne_of_empty (hdirty ▸ hprevious graph hgraph)
    · have hseparate := hseparated graph hgraph hdirty
      obtain ⟨out, hout⟩ := hseparate.returns
      have hanswer : reprove w (Git.nameOnly changed) previous r =
          .ok (provedAgain w (affected changed.toFinset graph) previous out) := by
        simp only [reprove, hgraph, hchanged, if_neg hdirty, hout, provedAgain]
      refine ⟨hchanged, graph, _, hgraph, hanswer, ?_⟩
      exact keepsOne_of_separated hfull hts (hprevious graph hgraph) hseparate hout

end Main

/-! ## Two files with one def each -/

/-- The work on a file of `brokenRun` that can be parsed. -/
def statedWork (path : PyStr) : Work :=
  .stated (unprovenRecord path (moduleNameFor path []) onlyDef .pureCandidate .sandboxUnavailable
    (lit "no sandbox tier is available"))

def modifiedLine (path : PyStr) : FileDiff := ⟨path, .modified, {1}, {1}⟩

theorem fileWorks_stated (diff : PyStr) (h : path ≠ lit "b.py") :
    (brokenRun diff).fileWorks [] (modifiedLine path) = .ok [statedWork path] := by
  have htrees : (brokenRun diff).trees (modifiedLine path) = .ok onlyTrees := by
    have hhead : (brokenRun diff).headFile path = some (utf8 oneDef) := by
      simp only [brokenRun, if_neg h]
    have hread : readText path (some (utf8 oneDef)) = .ok oneDef := rfl
    have hbase : (brokenRun diff).baseFile path = some (utf8 oneDef) := rfl
    have hparse : (brokenRun diff).parseText path oneDef = .ok onlyTrees.head := rfl
    simp only [ProveRun.trees, modifiedLine, hhead, hbase, hread, bind, Except.bind, hparse]
    rfl
  refine bind_ok_iff.2 ⟨onlyTrees, htrees, ?_⟩
  have hvisited : visited onlyTrees.base onlyTrees.head (modifiedLine path) = [onlyDef] :=
    visited_onlyDef
  rw [hvisited]
  rfl

/-- The run over files of `brokenRun` that can be parsed states a record for each that is in scope. -/
theorem works_stated {diff : PyStr} {paths : List PyStr} (ignored : PyStr → Bool)
    (hdiffs : (brokenRun diff).diffs = .ok (paths.map modifiedLine))
    (hpaths : ∀ path ∈ paths, path ≠ lit "b.py" ∧ isTs path = false) :
    ProveRun.works { brokenRun diff with ignored := ignored } =
      .ok ((paths.filter fun path => !ignored path).map statedWork) := by
  have hpython : (paths.map modifiedLine).filter
      (ProveRun.isPython { brokenRun diff with ignored := ignored }) =
        (paths.filter fun path => !ignored path).map modifiedLine := by
    rw [List.filter_map]
    refine congrArg _ (List.filter_congr fun path hpath => ?_)
    simp [ProveRun.isPython, ProveRun.inScope, modifiedLine, (hpaths path hpath).2]
  have hts : (paths.map modifiedLine).filter
      (ProveRun.isTypeScript { brokenRun diff with ignored := ignored }) = [] := by
    refine List.filter_eq_nil_iff.2 fun d hd => ?_
    obtain ⟨path, hpath, rfl⟩ := List.mem_map.1 hd
    simp [ProveRun.isTypeScript, modifiedLine, (hpaths path hpath).2]
  refine works_ok_iff.2 ⟨_, [],
    (paths.filter fun path => !ignored path).map fun path => [statedWork path],
    [], hdiffs, rfl, ?_, ?_, ?_⟩
  · rw [hpython]
    refine mapM_ok_iff.2 ?_
    rw [List.forall₂_map_left_iff, List.forall₂_map_right_iff, List.forall₂_same]
    exact fun path hpath => fileWorks_stated diff (hpaths path (List.mem_filter.1 hpath).1).1
  · rw [ProveRun.tsWorks, hts]
  · rw [List.append_nil, ← List.flatMap_def, List.map_eq_flatMap]

theorem tsPerFile_none : TsPerFile fun _ => .ok [] where
  noFiles := rfl
  perFile ds ds' ws ws' path h h' _ := by
    cases h
    cases h'
    rfl

/-- The files of the repository; nothing imports anything. -/
def twoFiles (first second : PyStr) : Workspace where
  allPaths := [first, second]
  worktree := fun _ => some []
  parse := fun _ => .ok (.other [])

def statedRecords (paths : List PyStr) : List TargetRecord :=
  paths.map fun path => ((statedWork path).record plainContext .empty).1

theorem scripts_stated (paths : List PyStr) (scripts : Dict PyStr PyStr) :
    (runRecords plainContext (paths.map statedWork) scripts).2 = scripts := by
  induction paths generalizing scripts with
  | nil => rfl
  | cons path paths ih => exact ih scripts

theorem runProve_stated (diff : PyStr) (paths : List PyStr) (ignored : PyStr → Bool)
    (hdiffs : (brokenRun diff).diffs = .ok (paths.map modifiedLine))
    (hpaths : ∀ path ∈ paths, path ≠ lit "b.py" ∧ isTs path = false)
    (hcounts : ∀ n ∈ ((brokenRun diff).bundle
      ((paths.filter fun path => !ignored path).map statedWork)).counts, intTooLong n = false) :
    ∃ out, runProve { brokenRun diff with ignored := ignored } = .ok out ∧
      out.1.targets = statedRecords (paths.filter fun path => !ignored path) := by
  refine ⟨_, runProve_ok_iff.2 ⟨_, works_stated ignored hdiffs hpaths, ⟨hcounts, ?_⟩, rfl⟩, ?_⟩
  · intro script hscript
    have hscripts := scripts_stated (paths.filter fun path => !ignored path) .empty
    have hmem : script ∈ (runRecords plainContext
      ((paths.filter fun path => !ignored path).map statedWork) .empty).2.items := hscript
    rw [hscripts] at hmem
    cases hmem
  · have htargets := runRecords_fst plainContext
      ((paths.filter fun path => !ignored path).map statedWork) .empty
    rw [List.map_map] at htargets
    exact htargets

/-- The change of `a.py` and `c.py`. -/
def plainDiff : PyStr := fileHunk "a.py" ++ fileHunk "c.py"

def plainFiles : Workspace := twoFiles (lit "a.py") (lit "c.py")

/-- With `c.py` changed since the previous proof, `a.py` keeps its record and `c.py` gets a new one. -/
theorem reprovesOnce_plain :
    ∃ full, runProve (brokenRun plainDiff) = .ok full ∧
      ReprovesOnce plainFiles [lit "c.py"] (statedRecords [lit "a.py", lit "c.py"])
        (brokenRun plainDiff) full.1.targets := by
  obtain ⟨full, hfull, htargets⟩ := runProve_stated plainDiff [lit "a.py", lit "c.py"] (fun _ => false) rfl
    (by decide) (by decide)
  have hgraph : plainFiles.sources.importGraph = .ok [(lit "a.py", ∅), (lit "c.py", ∅)] := by rfl
  have hdirty : affected [lit "c.py"].toFinset [(lit "a.py", ∅), (lit "c.py", ∅)] = {lit "c.py"} := by
    decide
  have hcarried : carriedOf plainFiles.sources {lit "c.py"} = [lit "a.py"] := by
    have hkeys : plainFiles.sources.texts.keys.toFinset \ {lit "c.py"} = {lit "a.py"} := by decide
    rw [carriedOf, hkeys, Finset.sort_singleton]
  have hkeys : full.1.targets.map TargetRecord.key = [(lit "a.py", lit "f"), (lit "c.py", lit "f")] := by
    rw [htargets]
    decide
  have hprevious : ∀ key ∈ [(lit "a.py", lit "f"), (lit "c.py", lit "f")],
      ((statedRecords [lit "a.py", lit "c.py"]).map TargetRecord.key).count key = 1 := by decide
  refine ⟨full, hfull, (reprovesOnce_iff hfull tsPerFile_none ?_).2 ⟨?_, ?_, ?_⟩⟩
  · intro graph _ key hkey _
    exact hprevious key (hkeys ▸ hkey)
  · intro path hpath
    rw [List.mem_singleton.1 hpath]
    exact ⟨by decide, by decide, by decide⟩
  · intro item _
    exact fun h => by cases h
  · intro graph hgraph' _
    obtain rfl := Except.ok.inj (hgraph.symm.trans hgraph')
    rw [hdirty, hcarried]
    obtain ⟨out, hout, _⟩ := runProve_stated plainDiff [lit "a.py", lit "c.py"]
      (fun path => isIgnored path [lit "a.py"]) rfl (by decide) (by decide)
    have hcovered : ∀ key ∈ [(lit "a.py", lit "f"), (lit "c.py", lit "f")],
        key.1 ∈ ({lit "c.py"} : Finset PyStr) ∨ key.1 ∈ [lit "a.py"] := by decide
    have honce : ∀ key ∈ [(lit "a.py", lit "f"), (lit "c.py", lit "f")],
        [(lit "a.py", lit "f"), (lit "c.py", lit "f")].count key = 1 := by decide
    have hglobs : (∀ path ∈ [lit "a.py"], isIgnored path [lit "a.py"] = true) ∧
        ∀ path ∈ ({lit "c.py"} : Finset PyStr), isIgnored path [lit "a.py"] = false :=
      matched_of_plain (by decide) (by decide)
    exact {
      matched := hglobs.1
      unmatched := hglobs.2
      covered := fun key hkey => hcovered key (hkeys ▸ hkey)
      once := fun key hkey _ => by rw [hkeys] at hkey ⊢; exact honce key hkey
      returns := ⟨out, hout⟩ }

/-- The change of `[a].py` and `c.py`. -/
def bracketDiff : PyStr := fileHunk "[a].py" ++ fileHunk "c.py"

def bracketFiles : Workspace := twoFiles (lit "[a].py") (lit "c.py")

theorem bracketFiles_graph :
    bracketFiles.sources.importGraph = .ok [(lit "[a].py", ∅), (lit "c.py", ∅)] := by
  rfl

theorem bracketFiles_dirty :
    affected (changedBetween (Git.nameOnly [lit "c.py"])) [(lit "[a].py", ∅), (lit "c.py", ∅)] =
      {lit "c.py"} := by
  decide

theorem bracketFiles_carried : carriedOf bracketFiles.sources {lit "c.py"} = [lit "[a].py"] := by
  have hkeys : bracketFiles.sources.texts.keys.toFinset \ {lit "c.py"} = {lit "[a].py"} := by
    decide
  rw [carriedOf, hkeys, Finset.sort_singleton]

/-- With `c.py` changed since the previous proof, `[a].py` is carried; its path does not match itself as
a pattern, so it is also proved again and has two records. -/
theorem bracket_listed_twice :
    ∃ full inc, runProve (brokenRun bracketDiff) = .ok full ∧
      reprove bracketFiles (Git.nameOnly [lit "c.py"]) (statedRecords [lit "[a].py", lit "c.py"])
        (brokenRun bracketDiff) = .ok inc ∧
      (inc.records.map TargetRecord.key).count (lit "[a].py", lit "f") = 2 ∧
      ¬ReprovesOnce bracketFiles [lit "c.py"] (statedRecords [lit "[a].py", lit "c.py"])
        (brokenRun bracketDiff) full.1.targets := by
  obtain ⟨full, hfull, _⟩ := runProve_stated bracketDiff [lit "[a].py", lit "c.py"] (fun _ => false) rfl
    (by decide) (by decide)
  obtain ⟨out, hout, htargets⟩ := runProve_stated bracketDiff [lit "[a].py", lit "c.py"]
    (fun path => isIgnored path [lit "[a].py"]) rfl (by decide) (by decide)
  have hscope : ([lit "[a].py", lit "c.py"].filter fun path => !isIgnored path [lit "[a].py"]) =
      [lit "[a].py", lit "c.py"] := by decide
  rw [hscope] at htargets
  have hout' : runProve ((brokenRun bracketDiff).ignoring [lit "[a].py"]) = .ok out := hout
  have hnonempty : ({lit "c.py"} : Finset PyStr) ≠ ∅ := Finset.singleton_ne_empty _
  have hanswer : reprove bracketFiles (Git.nameOnly [lit "c.py"])
      (statedRecords [lit "[a].py", lit "c.py"]) (brokenRun bracketDiff) =
        .ok (provedAgain bracketFiles {lit "c.py"} (statedRecords [lit "[a].py", lit "c.py"]) out) := by
    simp only [reprove, bracketFiles_graph, bracketFiles_dirty, bracketFiles_carried, if_neg hnonempty,
      hout', provedAgain]
  refine ⟨full, _, hfull, hanswer, ?_, ?_⟩
  · have hcount : ((statedRecords [lit "[a].py", lit "c.py"] ++
        (statedRecords [lit "[a].py", lit "c.py"]).filter fun record =>
          record.filePath ∈ [lit "[a].py"]).map TargetRecord.key).count (lit "[a].py", lit "f") = 2 := by
      decide
    rw [Incremental.records, provedAgain, bracketFiles_carried, htargets]
    exact hcount
  · rintro ⟨hchanged, graph, inc, hgraph, hinc, hkeeps⟩
    obtain rfl := Except.ok.inj (bracketFiles_graph.symm.trans hgraph)
    obtain rfl := Except.ok.inj (hanswer.symm.trans hinc)
    rw [← hchanged, bracketFiles_dirty] at hkeeps
    have hmatched := (hkeeps.globs hnonempty).1 (lit "[a].py")
    rw [provedAgain, bracketFiles_carried] at hmatched
    have hnot : isIgnored (lit "[a].py") [lit "[a].py"] ≠ true := by decide
    exact hnot (hmatched List.mem_cons_self)

end Tempest
