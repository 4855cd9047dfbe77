import Tempest.Agent.Files
import Tempest.Execute.Evidence
import Tempest.Prove.Contained
import Tempest.Python.PathFinder

/-!
# OwnFile — the file that changed and the file that runs (`execute/runner.py`, `prove.py`)

A changed file is handed to the workers as a dotted name.  `moduleNameFor` strips a root off its path,
`sysPathFor` lists the directories of a checkout, and Python's path finder takes the first module that
answers; nothing compares its file with the one that changed.  `own_file_iff` says for which files the
name leads back: no directory of the path may have a package or a module of that name at a lesser depth,
or as deep and earlier.
-/

namespace Tempest
namespace OwnFile

open Python PathFinder

/-! ## The import system of a worker -/

/-- The interpreter that runs the workers: the names that are built in or imported before the target,
the modules below them, of which some have no file, the suffixes of extension modules and its own search
path. -/
structure WorkerPython where
  taken : PyStr → Bool
  takenModule : List PyStr → Option (Option FilePath)
  extensions : List PyStr
  site : List FilePath

/-- The suffixes in the order in which a directory is asked for them. -/
def WorkerPython.suffixes (py : WorkerPython) : List PyStr :=
  py.extensions ++ [lit ".py", lit ".pyc"]

def WorkerPython.moduleFile (py : WorkerPython) (files : FileTree) (dir : FilePath) (name : PyStr) :
    Option FilePath :=
  (py.suffixes.map fun suffix => dir ++ [name ++ suffix]).find? files.isFile

/-- `FileFinder.find_spec`. -/
def WorkerPython.look (py : WorkerPython) (files : FileTree) (dir : FilePath) (name : PyStr) :
    Seen FilePath FilePath :=
  let inner := dir ++ [name]
  let isDir := decide (files.node inner = some .dir)
  match if isDir then py.moduleFile files inner (lit "__init__") else none with
  | some init => .package init inner
  | none =>
    match py.moduleFile files dir name with
    | some file => .module file
    | none => if isDir then .portion inner else .nothing

/-- The parts of a dotted name; a relative name and the empty one cannot be imported. -/
def absolute (module : PyStr) : Option (PyStr × List PyStr) :=
  match module.splitOn (codePoint 0x2E) with
  | [] => none
  | first :: rest => if first = [] then none else some (first, rest)

/-- The `__file__` of `importlib.import_module(module)`, if there is such a module, as far as the files
say. -/
def WorkerPython.imports (py : WorkerPython) (files : FileTree) (path : List FilePath)
    (module : PyStr) : Option (Option FilePath) :=
  match absolute module with
  | none => none
  | some (first, rest) =>
    if py.taken first then py.takenModule (first :: rest)
    else (PathFinder.load (py.look files) path (first :: rest)).map some

/-! ## A run -/

/-- A materialized revision, with the `[roots].source` of its own `tempest.toml`. -/
structure Checkout where
  root : FilePath
  sourceRoots : List PyStr

def Checkout.sysPathFor (c : Checkout) (files : FileTree) : List FilePath :=
  c.root ::
    (((c.root ++ [lit "src"]) :: c.sourceRoots.map fun root => c.root ++ pathParts root) ++
      [c.root ++ [lit ".tempest-deps"]]).filter fun dir => decide (files.node dir = some .dir)

def Checkout.file (c : Checkout) (relPath : PyStr) : FilePath := c.root ++ pathParts relPath

/-- What a run reads to find modules: the files of the machine, the interpreter and the scratch mount
of its workers, both checkouts, and the source roots it was configured with.  What the interpreter has
imported by itself is in no checkout. -/
structure Setting where
  files : FileTree
  python : WorkerPython
  scratch : FilePath
  base : Checkout
  head : Checkout
  sourceRoots : List PyStr
  outside : ∀ names file, python.takenModule names = some (some file) →
    ¬ base.root <+: file ∧ ¬ head.root <+: file

def Setting.module (s : Setting) (relPath : PyStr) : PyStr := moduleNameFor relPath s.sourceRoots

/-- `sys.path` of a worker: the scratch mount, the directories of the checkout, its own. -/
def Setting.path (s : Setting) (c : Checkout) : List FilePath :=
  s.scratch :: c.sysPathFor s.files ++ s.python.site

def Setting.imported (s : Setting) (c : Checkout) (relPath : PyStr) : Option (Option FilePath) :=
  s.python.imports s.files (s.path c) (s.module relPath)

/-- The workers of a target of a changed file.  They answer as they like, but a module that imports has
been found, and generation introspects the module of the head. -/
structure Workers (s : Setting) (relPath : PyStr) where
  pure : PureWorkers
  impure : ImpureWorkers
  failure : SynthesisFailure
  literals : Except SynthesisFailure (List Literals)
  baseFound : pure.baseImport = none → s.imported s.base relPath ≠ none
  headFound : pure.headImport = none → s.imported s.head relPath ≠ none
  recordFound : impure.recordImport = none → s.imported s.base relPath ≠ none
  replayFound : ∀ rows, impure.replayImport rows = none → s.imported s.base relPath ≠ none
  replayHeadFound : ∀ rows, impure.headImport rows = none → s.imported s.head relPath ≠ none

def Workers.inputs {s : Setting} {relPath : PyStr} (w : Workers s relPath) :
    Except SynthesisFailure (List Literals) :=
  w.pure.inputs w.failure w.literals

/-- A target that was run to an outcome, through the executable pair that is its own or that of its
adapter. -/
structure Proof (s : Setting) (relPath : PyStr) where
  workers : Workers s relPath
  isImpure : Bool
  runModule : PyStr
  runQualname : PyStr
  changedLines : Finset Nat
  budget : Budget
  cfg : CompareConfig
  outcome : TargetOutcome
  ran : (if isImpure then
      proveImpureTarget runModule runQualname workers.impure.lab changedLines cfg workers.inputs
    else proveTarget runModule runQualname workers.pure.lab changedLines budget cfg
      workers.inputs) = .ok outcome

def Proof.Proven {s : Setting} {relPath : PyStr} (p : Proof s relPath) : Prop :=
  p.outcome.verdict ≠ .unproven

/-- A proven target ran the file that changed, on both revisions, and two changed files with one name
are not both proven. -/
structure RunsItself (s : Setting) (changed : List PyStr) : Prop where
  own : ∀ relPath ∈ changed, ∀ p : Proof s relPath, p.Proven →
    s.imported s.base relPath = some (some (s.base.file relPath)) ∧
      s.imported s.head relPath = some (some (s.head.file relPath))
  apart : ∀ relPath ∈ changed, ∀ relPath' ∈ changed, pathParts relPath ≠ pathParts relPath' →
    s.module relPath = s.module relPath' →
      ∀ (p : Proof s relPath) (p' : Proof s relPath'), ¬ (p.Proven ∧ p'.Proven)

/-! ## When the name leads back -/

/-- The name of a changed file leads to a file of the checkout: it is not taken, and the directory that
decides has the file under it. -/
def Setting.LeadsTo (s : Setting) (c : Checkout) (relPath : PyStr) (file : FilePath) : Prop :=
  ∃ first rest, absolute (s.module relPath) = some (first, rest) ∧ s.python.taken first = false ∧
    Leads (s.python.look s.files) (s.path c) (first :: rest) file

def Setting.Lost (s : Setting) (c : Checkout) (relPath : PyStr) : Prop :=
  ∀ first rest, absolute (s.module relPath) = some (first, rest) →
    if s.python.taken first then s.python.takenModule (first :: rest) = none
    else ∀ file, ¬ Leads (s.python.look s.files) (s.path c) (first :: rest) file

variable {s : Setting} {relPath : PyStr}

theorem lost_iff {c : Checkout} :
    s.imported c relPath = none ↔ s.Lost c relPath := by
  unfold Setting.imported WorkerPython.imports Setting.Lost
  cases hname : absolute (s.module relPath) with
  | none => simp
  | some parts =>
    rcases parts with ⟨first, rest⟩
    by_cases htaken : s.python.taken first = true
    · simp [htaken]
    · simp [htaken, ← load_eq_some_iff, Option.eq_none_iff_forall_ne_some]

theorem leadsTo_iff {c : Checkout} (hc : c = s.base ∨ c = s.head) :
    s.imported c relPath = some (some (c.file relPath)) ↔ s.LeadsTo c relPath (c.file relPath) := by
  unfold Setting.imported WorkerPython.imports Setting.LeadsTo
  cases hname : absolute (s.module relPath) with
  | none => simp
  | some parts =>
    rcases parts with ⟨first, rest⟩
    by_cases htaken : s.python.taken first = true
    · -- a name that is taken is that of a file elsewhere
      have hoff : s.python.takenModule (first :: rest) ≠ some (some (c.file relPath)) := by
        intro hfile
        have houtside := s.outside _ _ hfile
        rcases hc with rfl | rfl
        · exact houtside.1 (List.prefix_append _ _)
        · exact houtside.2 (List.prefix_append _ _)
      simp [htaken, hoff]
    · simp [htaken, load_eq_some_iff]

/-! ## Targets that are proven -/

/-- Generation declines a target whose module cannot be imported from the head. -/
theorem unproven_of_lost (p : Proof s relPath) (h : s.imported s.head relPath = none) : ¬ p.Proven := by
  have hfails : p.workers.pure.headImport ≠ none := fun hnone => p.workers.headFound hnone h
  obtain ⟨failure, hfailure⟩ := Option.ne_none_iff_exists'.1 hfails
  have hinputs : p.workers.inputs = .error p.workers.failure := by
    simp only [Workers.inputs, PureWorkers.inputs, hfailure]
  have hran := p.ran
  rw [hinputs] at hran
  intro hproven
  split_ifs at hran
  · have houtcome := Except.ok.inj hran
    exact hproven (houtcome ▸ rfl)
  · have houtcome := Except.ok.inj hran
    exact hproven (houtcome ▸ rfl)

def lostBase : PureWorkers := { quietPure with baseImport := some (.other []) }

theorem compare_lost : ∃ d, compare (fatalObservation (some [])) (quietBody.observation 0) exact =
    .diverged d := ⟨_, rfl⟩

theorem lostBase_proves (input : Literals) :
    ∃ outcome, proveTarget (lit "m") (lit "f") lostBase.lab ∅ {} exact (.ok [input]) = .ok outcome ∧
      outcome.verdict = .divergent := by
  obtain ⟨d, hdiverged⟩ := compare_lost
  have hbase : ∀ attempt, lostBase.lab.freshBase 0 attempt = fatalObservation (some []) :=
    fun _ => single_unimported (.other []) fun _ => quietBody
  have hhead : ∀ attempt, lostBase.lab.freshHead 0 attempt = quietBody.observation 0 :=
    fun _ => single_imported fun _ => quietBody
  let row : Row := ⟨input, fatalObservation (some []), quietBody.observation 0,
    pureRerun exact (lostBase.lab.freshBase 0) (lostBase.lab.freshHead 0)⟩
  have hrows : pureRows lostBase.lab ∅ {} exact [input] = .ok [row] := by
    have hrunBase : lostBase.lab.runBase 0 [input] = [fatalObservation (some [])] := by
      have hbatch : batch (some (.other [])) (fun _ => quietBody) 1 =
          [fatalObservation (some [])] := by
        simp [batch_unimported, unimportedAt, ImportFailure.line]
        rfl
      exact hbatch
    have hrunHead : lostBase.lab.runHead 0 [input] = [quietBody.observation 0] := by
      have hbatch : batch none (fun _ => quietBody) 1 = [quietBody.observation 0] := by
        simp [batch_imported]
      exact hbatch
    simp [pureRows, pureRuns, hrunBase, hrunHead, zipRows, row]
  -- every fresh pair diverges as the batch did, and each side agrees with itself
  have hrerun : ∀ attempt, row.rerun attempt = ⟨some d, true, true⟩ := by
    intro attempt
    have hsame : compare (fatalObservation (some [])) (fatalObservation (some [])) exact = .equal := rfl
    simp [row, pureRerun, hbase, hhead, hdiverged, hsame, compare_quiet]
  have hconfirmed : confirmDivergence row.rerun = .confirmed := by
    simp [confirmDivergence, confirmAttempts, List.range_succ, hrerun, confirmFrom]
  obtain ⟨base, hsummaryBase⟩ : ∃ text, observationSummary row.base = .ok text := ⟨_, rfl⟩
  obtain ⟨head, hsummaryHead⟩ : ∃ text, observationSummary row.head = .ok text := ⟨_, rfl⟩
  have hsubmission : submission exact true row {} = some d := by
    simp [submission, row, hdiverged, maxConfirmations]
  let after : LoopState :=
    { seenClasses := [(row.input.1, d.divergenceClass)], confirmed := [found row d base head] }
  have hturn : proveRow exact true row {} = .ok (after, false) := by
    have hcompare : compare row.base row.head exact = .diverged d := hdiverged
    simp only [proveRow, hcompare, hsubmission, hconfirmed, hsummaryBase, hsummaryHead]
    rfl
  have hprove : proveTarget (lit "m") (lit "f") lostBase.lab ∅ {} exact (.ok [input]) =
      .ok (deriveOutcome (lit "m") (lit "f") after 1 (coverage ∅ [row.head])) := by
    simp only [proveTarget, hrows, conclude, proveLoop, hturn]
    rfl
  exact ⟨_, hprove, rfl⟩

/-- Whatever the name leads to on the head: there are workers whose target is proven. -/
theorem exists_proven {s : Setting} {relPath : PyStr} (hhead : s.imported s.head relPath ≠ none) :
    ∃ p : Proof s relPath, p.Proven := by
  have hfails : ∀ {P : Prop}, some (ImportFailure.other []) = none → P := fun h => (by cases h)
  by_cases hbase : s.imported s.base relPath = none
  · obtain ⟨outcome, hran, hverdict⟩ := lostBase_proves (lit "()", lit "\x7b\x7d")
    let workers : Workers s relPath := ⟨lostBase, alikeWorkers (some (.other [])),
      ⟨.harnessSynthesisFailed, []⟩, .ok [(lit "()", lit "\x7b\x7d")], hfails, fun _ => hhead, hfails,
      fun _ => hfails, fun _ => hfails⟩
    refine ⟨⟨workers, false, lit "m", lit "f", ∅, {}, exact, outcome, hran⟩, ?_⟩
    simp [Proof.Proven, hverdict]
  · have hbatch : batch none (fun _ => quietBody) 1 = [quietBody.observation 0] := by
      simp [batch_imported]
    obtain ⟨outcome, hran, hverdict⟩ := pure_single hbatch (lit "()", lit "\x7b\x7d")
    let workers : Workers s relPath := ⟨quietPure, alikeWorkers (some (.other [])),
      ⟨.harnessSynthesisFailed, []⟩, .ok [(lit "()", lit "\x7b\x7d")], fun _ => hbase, fun _ => hhead,
      hfails, fun _ => hfails, fun _ => hfails⟩
    refine ⟨⟨workers, false, lit "m", lit "f", ∅, {}, exact, outcome, hran⟩, ?_⟩
    simp [Proof.Proven, hverdict]

/-! ## The file that runs -/

/-- The name leads nowhere on the head, or back to the file on both revisions. -/
def Setting.Unshadowed (s : Setting) (relPath : PyStr) : Prop :=
  s.Lost s.head relPath ∨
    s.LeadsTo s.base relPath (s.base.file relPath) ∧ s.LeadsTo s.head relPath (s.head.file relPath)

theorem own_of_proven (h : s.Unshadowed relPath) (p : Proof s relPath) (hproven : p.Proven) :
    s.imported s.base relPath = some (some (s.base.file relPath)) ∧
      s.imported s.head relPath = some (some (s.head.file relPath)) := by
  rcases h with hlost | ⟨hbase, hhead⟩
  · exact absurd hproven (unproven_of_lost p (lost_iff.2 hlost))
  · exact ⟨(leadsTo_iff (Or.inl rfl)).2 hbase, (leadsTo_iff (Or.inr rfl)).2 hhead⟩

theorem runsItself_of_unshadowed {changed : List PyStr}
    (h : ∀ relPath ∈ changed, s.Unshadowed relPath) : RunsItself s changed := by
  constructor
  · exact fun relPath hmem p hproven => own_of_proven (h relPath hmem) p hproven
  · rintro relPath hmem relPath' hmem' hne hname p p' ⟨hproven, hproven'⟩
    have hown := (own_of_proven (h relPath hmem) p hproven).2
    have hown' := (own_of_proven (h relPath' hmem') p' hproven').2
    -- one name is one file of the head
    have hsame : s.imported s.head relPath = s.imported s.head relPath' := by
      simp only [Setting.imported, hname]
    have hfiles : s.head.file relPath = s.head.file relPath' :=
      Option.some.inj (Option.some.inj (hown.symm.trans (hsame.trans hown')))
    exact hne (List.append_cancel_left hfiles)

theorem unshadowed_of_own
    (h : ∀ p : Proof s relPath, p.Proven →
      s.imported s.base relPath = some (some (s.base.file relPath)) ∧
        s.imported s.head relPath = some (some (s.head.file relPath))) : s.Unshadowed relPath := by
  by_cases hhead : s.imported s.head relPath = none
  · exact Or.inl (lost_iff.1 hhead)
  · obtain ⟨p, hproven⟩ := exists_proven hhead
    obtain ⟨hownBase, hownHead⟩ := h p hproven
    exact Or.inr ⟨(leadsTo_iff (Or.inl rfl)).1 hownBase, (leadsTo_iff (Or.inr rfl)).1 hownHead⟩

/-- For every layout and all changed files: what is proven ran itself exactly when the name of each file
leads nowhere on the head, or on both revisions to the file, because no other directory of the search
path has a package or a module of that name at a lesser depth, or as deep and before it. -/
theorem own_file_iff (s : Setting) (changed : List PyStr) :
    RunsItself s changed ↔ ∀ relPath ∈ changed,
      s.Lost s.head relPath ∨
        s.LeadsTo s.base relPath (s.base.file relPath) ∧
          s.LeadsTo s.head relPath (s.head.file relPath) :=
  ⟨fun h relPath hmem => unshadowed_of_own (h.own relPath hmem), runsItself_of_unshadowed⟩

/-! ## A run of the pipeline -/

def Setting.Answers (s : Setting) (relPath : PyStr) (lab : TargetLab) : Prop :=
  ∃ w : Workers s relPath, lab.pureLab = w.pure.lab ∧ lab.impureLab = w.impure.lab ∧
    lab.inputs = .ok w.inputs

/-! ## A module at the root before the one under `src/` -/

/-- A tree of empty files, none of which stands where another needs a directory. -/
def treeOf (paths : List FilePath) (hnamed : [] ∉ paths)
    (hapart : ∀ p ∈ paths, ∀ q ∈ paths, p <+: q → p = q) : FileTree where
  node p :=
    if p ∈ paths then some (.file [])
    else if p = [] ∨ ∃ q ∈ paths, p <+: q then some .dir
    else none
  top := by rw [if_neg hnamed, if_pos (Or.inl rfl)]
  rooted := by
    intro p name h
    have hbelow : ∃ q ∈ paths, p ++ [name] <+: q := by
      by_contra hnone
      have hnot : p ++ [name] ∉ paths := fun hmem => hnone ⟨_, hmem, List.prefix_refl _⟩
      rw [if_neg hnot, if_neg (by simp [hnone])] at h
      exact h rfl
    obtain ⟨q, hq, hlong⟩ := hbelow
    have hprefix : p <+: q := (List.prefix_append p [name]).trans hlong
    have hnot : p ∉ paths := by
      intro hmem
      obtain rfl := hapart p hmem q hq hprefix
      simpa using hlong.length_le
    rw [if_neg hnot, if_pos (Or.inr ⟨q, hq, hprefix⟩)]

def shadowedFiles : List FilePath :=
  [[lit "b", lit "mod.py"], [lit "b", lit "src", lit "mod.py"], [lit "h", lit "mod.py"],
    [lit "h", lit "src", lit "mod.py"]]

/-- `mod.py` and `src/mod.py`, in both revisions. -/
def shadowed : Setting where
  files := treeOf shadowedFiles (by decide) (by decide)
  python := ⟨fun _ => false, fun _ => none, [], []⟩
  scratch := [lit "s"]
  base := ⟨[lit "b"], []⟩
  head := ⟨[lit "h"], []⟩
  sourceRoots := []
  outside _ _ h := by cases h

theorem imported_shadowed :
    shadowed.imported shadowed.head (lit "src/mod.py") =
      some (some [lit "h", lit "mod.py"]) := by
  decide

/-- The file under `src/` is proven by what the one at the root does. -/
theorem proven_by_another_file : ¬ ∀ (s : Setting) (changed : List PyStr), RunsItself s changed := by
  intro h
  have himported := imported_shadowed
  obtain ⟨p, hproven⟩ := @exists_proven shadowed (lit "src/mod.py") (by simp [himported])
  have hown := ((h shadowed [lit "src/mod.py"]).own _ List.mem_cons_self p hproven).2
  rw [himported] at hown
  exact absurd hown (by decide)

end OwnFile
end Tempest
