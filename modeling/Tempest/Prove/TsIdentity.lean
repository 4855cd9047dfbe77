import Tempest.Process.Fallible
import Tempest.Prove.TsRecords
import Tempest.Targets.Analyze

/-!
# TsIdentity — which declaration a TypeScript record is about

A selected declaration is handed on as a dotted name.  `valuePools` looks the name up among the
functions of the file, the worker among the exports of the module, and the selection itself keeps one
declaration of a name and one of a line.  `judgedAsThemselves_iff` says what the file and the change
have to be like for every changed declaration to get its own record, inputs and calls.
-/

namespace Tempest

open Python

namespace TsIdentity

open Analyze (CollectedSymbol)

/-! ## The setting -/

/-- A name that a module exports, the declaration behind it, and the function the module has under it
where that is one of the file. -/
structure TsExport where
  name : PyStr
  declaration : TsNode
  function : Option TsNode

/-- A file that parses: its functions start one after the other, and no name is exported twice. -/
structure TsSource where
  tree : TsNode
  moduleExports : List TsExport
  ordered : (Analyze.collectSymbols tree).Pairwise fun a b => a.startOffset < b.startOffset
  distinct : (moduleExports.map TsExport.name).Nodup

namespace TsSource

def symbols (source : TsSource) : List CollectedSymbol := Analyze.collectSymbols source.tree

def exportedNodes (source : TsSource) (n : TsNode) : Bool :=
  source.moduleExports.any fun e => e.declaration = n

/-- `mod[name]`, where that is a function. -/
def functionNamed (source : TsSource) (name : PyStr) : Option TsNode :=
  (source.moduleExports.find? fun e => e.name = name).bind TsExport.function

/-- The declaration whose parameters `valuePools` describes. -/
def pooled (source : TsSource) (name : PyStr) : Option CollectedSymbol :=
  source.symbols.find? fun s => s.symbol = name

end TsSource

def sent (t : Analyze.SelectedTarget) : TsSelected where
  filePath := t.filePath
  symbol := t.symbol
  kind := t.kind.text
  classification := TextEnum.text t.classification
  reasonDetail := t.reasonDetail
  span := some t.span

/-- The head, and the workers: what they answer is up to the declaration whose parameters the inputs
are made for and the function that is called. -/
structure TsRepository (ω : Type) where
  sourceRoots : List PyStr
  sandbox : TsSandbox
  reader : TsReader ω
  source : PyStr → TsSource
  unknownSymbol : PyStr → PyStr → PyStr
  workers : FileDiff → CollectedSymbol → Option TsNode → Except PyStr (TsLab ω)

namespace TsRepository

variable {ω : Type} (r : TsRepository ω)

/-- The changed functions of a file, as the sidecar picks them. -/
def changed (d : FileDiff) : List CollectedSymbol :=
  Analyze.enclosingSymbols (r.source d.path).symbols (d.changedHeadLines.sort (· ≤ ·))

def target (p : FileDiff × CollectedSymbol) : TsSelected :=
  let source := r.source p.1.path
  sent (Analyze.classifySymbol p.2 p.1.path source.exportedNodes
    (Analyze.buildScanContext source.tree source.symbols))

def judgedIn (files : List FileDiff) : List (FileDiff × CollectedSymbol) :=
  files.flatMap fun d => (r.changed d).map fun s => (d, s)

def stage : TsStage ω where
  sourceRoots := r.sourceRoots
  sandbox := r.sandbox
  select files := .ok ((r.judgedIn files).map r.target)
  reader := r.reader
  lab d symbol :=
    match (r.source d.path).pooled symbol with
    | none => .error (r.unknownSymbol d.path symbol)
    | some s => r.workers d s ((r.source d.path).functionNamed symbol)

/-- The declarations that are judged, in the order of their records. -/
def judged (files : List FileDiff) : List (FileDiff × CollectedSymbol) :=
  r.judgedIn (files.filter fun d => isRunnable d.path)

def judge (p : FileDiff × CollectedSymbol) : Except Raised Work :=
  match r.stage.refusal (r.target p) with
  | some (classification, code, detail) =>
    .ok (.stated (tsSymbolRecord p.1.path (moduleNameFor p.1.path r.sourceRoots) p.2.symbol
      classification code detail))
  | none => r.stage.proven p.1 (r.target p)

def unexercised (files : List FileDiff) : List Work :=
  (files.filter fun d => !isRunnable d.path).map fun d => .stated (r.stage.unexercised d)

end TsRepository

structure TsChange where
  files : List FileDiff
  distinct : (files.map FileDiff.path).Nodup

/-! ## What the claim asks for -/

/-- The declaration lies around the line and none inside it does. -/
def Around (symbols : List CollectedSymbol) (s : CollectedSymbol) (line : Nat) : Prop :=
  s ∈ symbols ∧ s.covers line = true ∧
    ∀ t ∈ symbols, t.node ∈ s.node.descendants → t.covers line = false

section Property

variable {ω : Type} (r : TsRepository ω) (change : TsChange)

def ChangedIn (d : FileDiff) (s : CollectedSymbol) : Prop :=
  d ∈ change.files ∧ isRunnable d.path = true ∧
    ∃ line ∈ d.changedHeadLines, Around (r.source d.path).symbols s line

def IsRecordOf (works : List Work) (p : FileDiff × CollectedSymbol) (i : Nat) : Prop :=
  (r.judged change.files)[i]? = some p ∧
    ∃ w, works[(r.unexercised change.files).length + i]? = some w ∧ r.judge p = .ok w

def Proved (p : FileDiff × CollectedSymbol) : Prop :=
  p ∈ r.judged change.files ∧ r.stage.refusal (r.target p) = none

structure JudgedAsThemselves : Prop where
  recorded : ∃ works, r.stage.records change.files = .ok works ∧
    ∀ d s, ChangedIn r change d s → ∃! i, IsRecordOf r change works (d, s) i
  described : ∀ d s, Proved r change (d, s) → (r.source d.path).pooled s.symbol = some s
  called : ∀ d s, Proved r change (d, s) →
    ∀ fn, (r.source d.path).functionNamed s.symbol = some fn → fn = s.node

/-! ## What it takes -/

/-- Some changed line has the declaration as the last to start around it, and no changed line behind
it has another one of that name. -/
def Chosen (d : FileDiff) (s : CollectedSymbol) : Prop :=
  Innermost.Noted CollectedSymbol.covers CollectedSymbol.startOffset CollectedSymbol.symbol
    (r.source d.path).symbols (d.changedHeadLines.sort (· ≤ ·)) s

/-- Chosen, exported, pure and of a kind that the workers can call. -/
def HandedOn (d : FileDiff) (s : CollectedSymbol) : Prop :=
  d ∈ change.files ∧ isRunnable d.path = true ∧ Chosen r d s ∧
    r.stage.refusal (r.target (d, s)) = none

def Confirms (d : FileDiff) (s : CollectedSymbol) : Prop :=
  ∀ lab, r.stage.lab d s.symbol = .ok lab → ∀ error,
    proveTsTarget r.reader lab d.path s.symbol ((r.target (d, s)).changedIn d) ≠
      .error (.importFailed error)

structure KeptApart : Prop where
  chosen : ∀ d s, ChangedIn r change d s → Chosen r d s
  confirms : ∀ d s, HandedOn r change d s → Confirms r d s
  first : ∀ d s, HandedOn r change d s → ∀ t ∈ (r.source d.path).symbols,
    t.startOffset < s.startOffset → t.symbol ≠ s.symbol
  ownExport : ∀ d s, HandedOn r change d s → ∀ e ∈ (r.source d.path).moduleExports,
    e.name = s.symbol → ∀ fn, e.function = some fn → fn = s.node

end Property

section Selection

theorem innermost_eq (line : Nat) (symbols : List CollectedSymbol) (best : Option CollectedSymbol) :
    Analyze.innermost line symbols best =
      Innermost.pick CollectedSymbol.covers CollectedSymbol.startOffset line symbols best := by
  induction symbols generalizing best with
  | nil => rfl
  | cons s symbols ih => rw [Analyze.innermost, Innermost.pick, ih, ih]

theorem choose_eq (symbols : List CollectedSymbol) :
    Analyze.choose symbols = Innermost.note CollectedSymbol.covers CollectedSymbol.startOffset
      CollectedSymbol.symbol symbols := by
  funext chosen line
  rw [Analyze.choose, Innermost.note, innermost_eq]
  cases Innermost.pick CollectedSymbol.covers CollectedSymbol.startOffset line symbols none <;> rfl

theorem increasing (d : FileDiff) : (d.changedHeadLines.sort (· ≤ ·)).Pairwise (· < ·) :=
  d.changedHeadLines.sortedLT_sort.pairwise

variable {ω : Type} {r : TsRepository ω} {d : FileDiff} {s : CollectedSymbol}

/-- The chosen items, before they are sorted. -/
theorem changed_perm :
    (r.changed d).Perm ((((d.changedHeadLines.sort (· ≤ ·)).foldl
      (Innermost.note CollectedSymbol.covers CollectedSymbol.startOffset CollectedSymbol.symbol
        (r.source d.path).symbols) .empty).items).map Prod.snd) := by
  have hsorted : (d.changedHeadLines.sort (· ≤ ·)).insertionSort (· ≤ ·) =
      d.changedHeadLines.sort (· ≤ ·) :=
    List.Pairwise.insertionSort_eq ((increasing d).imp le_of_lt)
  unfold TsRepository.changed Analyze.enclosingSymbols
  rw [hsorted, choose_eq]
  exact List.perm_insertionSort _ _

theorem mem_changed : s ∈ r.changed d ↔ Chosen r d s :=
  Innermost.mem_noted (r.source d.path).ordered (increasing d) changed_perm

theorem nodup_changed : (r.changed d).Nodup :=
  (Innermost.nodup_noted (increasing d) changed_perm).of_map

theorem mem_symbols_of_chosen (h : Chosen r d s) : s ∈ (r.source d.path).symbols := by
  obtain ⟨line, _, hlast, _⟩ := h
  exact hlast.1

theorem mem_judged {files : List FileDiff} :
    (d, s) ∈ r.judged files ↔ d ∈ files ∧ isRunnable d.path = true ∧ Chosen r d s := by
  simp only [TsRepository.judged, TsRepository.judgedIn, List.mem_flatMap, List.mem_filter,
    List.mem_map, Prod.mk.injEq]
  constructor
  · rintro ⟨d, ⟨hd, hrun⟩, s, hs, rfl, rfl⟩
    exact ⟨hd, hrun, mem_changed.1 hs⟩
  · rintro ⟨hd, hrun, hs⟩
    exact ⟨d, ⟨hd, hrun⟩, s, mem_changed.2 hs, rfl, rfl⟩

theorem nodup_judged (change : TsChange) : (r.judged change.files).Nodup := by
  have hfiles : (change.files.filter fun d => isRunnable d.path).Nodup :=
    change.distinct.of_map.filter _
  rw [TsRepository.judged, TsRepository.judgedIn, List.nodup_flatMap]
  refine ⟨?_, ?_⟩
  · intro d _
    exact nodup_changed.map fun a b heq => (Prod.mk.inj heq).2
  · apply hfiles.imp
    intro d d' hne p hp hp'
    obtain ⟨s, _, rfl⟩ := List.mem_map.1 hp
    obtain ⟨s', _, heq⟩ := List.mem_map.1 hp'
    exact hne (Prod.mk.inj heq).1.symm

end Selection

/-! ## The list of records -/

section Records

variable {ω : Type} {r : TsRepository ω}

theorem fileOfPath_of_mem {files : List FileDiff} (hdistinct : (files.map FileDiff.path).Nodup)
    {d : FileDiff} (hd : d ∈ files) : fileOfPath files d.path = some d := by
  have hsome : (fileOfPath files d.path).isSome = true := by
    rw [fileOfPath, List.find?_isSome]
    exact ⟨d, List.mem_reverse.2 hd, by simp⟩
  obtain ⟨d', hd'⟩ := Option.isSome_iff_exists.1 hsome
  have hmem : d' ∈ files := List.mem_reverse.1 (List.mem_of_find?_eq_some hd')
  have hpath : d'.path = d.path := by simpa using List.find?_some hd'
  have hsame : d' = d := List.inj_on_of_nodup_map hdistinct hmem hd hpath
  rw [hd', hsame]

theorem targetWork_eq {files : List FileDiff} (hdistinct : (files.map FileDiff.path).Nodup)
    {p : FileDiff × CollectedSymbol} (hp : p.1 ∈ files) :
    r.stage.targetWork files (r.target p) = (r.judge p).map fun w => [w] := by
  have hfile : fileOfPath files (r.target p).filePath = some p.1 := fileOfPath_of_mem hdistinct hp
  unfold TsStage.targetWork TsRepository.judge
  rw [hfile]
  cases hrefusal : r.stage.refusal (r.target p) with
  | none | some _ => rfl

theorem mapM_singletons {ε α β : Type} {f : α → Except ε (List β)} {g : α → Except ε β} {xs : List α}
    (h : ∀ x ∈ xs, f x = (g x).map fun y => [y]) :
    xs.mapM f = (xs.mapM g).map (List.map fun y => [y]) := by
  induction xs with
  | nil => rfl
  | cons x xs ih =>
    rw [List.mapM_cons, List.mapM_cons, h x List.mem_cons_self,
      ih fun y hy => h y (List.mem_cons_of_mem x hy)]
    cases g x with
    | error e => rfl
    | ok y => cases xs.mapM g <;> rfl

/-- `_ts_records`: one record for every file that no worker can run, and one for every declaration
that is judged, or what the first of them raises. -/
theorem records_eq (change : TsChange) :
    r.stage.records change.files =
      ((r.judged change.files).mapM r.judge).map (r.unexercised change.files ++ ·) := by
  have hworks : ((r.judged change.files).map r.target).mapM
      (r.stage.targetWork (change.files.filter fun d => isRunnable d.path)) =
        ((r.judged change.files).mapM r.judge).map (List.map fun w => [w]) := by
    rw [List.mapM_map]
    apply mapM_singletons
    rintro ⟨d, s⟩ hp
    have hd := mem_judged.1 hp
    apply targetWork_eq (change.distinct.sublist (List.filter_sublist.map _))
    exact List.mem_filter.2 ⟨hd.1, hd.2.1⟩
  have hjudged : r.judged change.files =
      r.judgedIn (change.files.filter fun d => isRunnable d.path) := rfl
  unfold TsStage.records
  rw [hjudged] at hworks ⊢
  cases hrun : change.files.filter fun d => isRunnable d.path with
  | nil =>
    simp only [TsRepository.judgedIn, List.flatMap_nil, List.mapM_nil]
    exact congrArg Except.ok (List.append_nil _).symm
  | cons d ds =>
    rw [hrun] at hworks
    have hselect : r.stage.select (d :: ds) = .ok ((r.judgedIn (d :: ds)).map r.target) := rfl
    simp only [hselect, hworks]
    cases (r.judgedIn (d :: ds)).mapM r.judge with
    | error e => rfl
    | ok works =>
      have hflat : (works.map fun w => [w]).flatten = works := by
        induction works with
        | nil => rfl
        | cons w works ih => simp [ih]
      exact congrArg (fun ws => Except.ok (r.unexercised change.files ++ ws)) hflat

end Records

/-! ## The lookups -/

/-- The pools are for the declaration itself where no earlier one has its name. -/
theorem pooled_eq_iff {source : TsSource} {s : CollectedSymbol} (hs : s ∈ source.symbols) :
    source.pooled s.symbol = some s ↔
      ∀ t ∈ source.symbols, t.startOffset < s.startOffset → t.symbol ≠ s.symbol := by
  have hordered : source.symbols.Pairwise fun a b => a.startOffset < b.startOffset := source.ordered
  rw [TsSource.pooled, List.find?_eq_some_iff_append]
  constructor
  · rintro ⟨_, before, after, hsplit, hbefore⟩ t ht hstart
    rw [hsplit] at ht hordered
    rcases List.mem_append.1 ht with hfirst | hrest
    · simpa using hbefore t hfirst
    · -- from the declaration on, nothing starts earlier
      have hafter := List.pairwise_cons.1 (List.pairwise_append.1 hordered).2.1
      rcases List.mem_cons.1 hrest with rfl | hlater
      · exact absurd hstart (lt_irrefl _)
      · exact absurd hstart (lt_asymm (hafter.1 t hlater))
  · intro hfirst
    obtain ⟨before, after, hsplit⟩ := List.append_of_mem hs
    refine ⟨by simp, before, after, hsplit, ?_⟩
    intro t ht
    have hstart : t.startOffset < s.startOffset := by
      rw [hsplit] at hordered
      exact (List.pairwise_append.1 hordered).2.2 t ht s List.mem_cons_self
    have hmem : t ∈ source.symbols := by
      rw [hsplit]
      exact List.mem_append_left _ ht
    simpa using hfirst t hmem hstart

theorem functionNamed_eq_iff {source : TsSource} {name : PyStr} {fn : TsNode} :
    source.functionNamed name = some fn ↔
      ∃ e ∈ source.moduleExports, e.name = name ∧ e.function = some fn := by
  rw [TsSource.functionNamed, Option.bind_eq_some_iff]
  constructor
  · rintro ⟨e, he, hfn⟩
    exact ⟨e, List.mem_of_find?_eq_some he, by simpa using List.find?_some he, hfn⟩
  · rintro ⟨e, he, rfl, hfn⟩
    refine ⟨e, ?_, hfn⟩
    have hsome : (source.moduleExports.find? fun e' => e'.name = e.name).isSome = true := by
      rw [List.find?_isSome]
      exact ⟨e, he, by simp⟩
    obtain ⟨e', he'⟩ := Option.isSome_iff_exists.1 hsome
    have hname : e'.name = e.name := by simpa using List.find?_some he'
    rw [he', List.inj_on_of_nodup_map source.distinct (List.mem_of_find?_eq_some he') he hname]

section Identity

variable {ω : Type} {r : TsRepository ω} {change : TsChange}

theorem handedOn_iff {d : FileDiff} {s : CollectedSymbol} :
    HandedOn r change d s ↔ Proved r change (d, s) := by
  rw [Proved, mem_judged, HandedOn, and_assoc, and_assoc]

theorem judge_of_refused {p : FileDiff × CollectedSymbol} (h : r.stage.refusal (r.target p) ≠ none) :
    ∃ w, r.judge p = .ok w := by
  unfold TsRepository.judge
  cases hrefusal : r.stage.refusal (r.target p) with
  | none => exact absurd hrefusal h
  | some reason => exact ⟨_, rfl⟩

/-- Of what the prover raises only a failed import in a confirmation is not caught. -/
theorem judge_of_proved {d : FileDiff} {s : CollectedSymbol}
    (h : r.stage.refusal (r.target (d, s)) = none) :
    (∃ w, r.judge (d, s) = .ok w) ↔ Confirms r d s := by
  have hjudge : r.judge (d, s) = r.stage.proven d (r.target (d, s)) := by
    unfold TsRepository.judge
    rw [h]
  have hsymbol : (r.target (d, s)).symbol = s.symbol := rfl
  rw [hjudge, Confirms]
  unfold TsStage.proven
  rw [hsymbol]
  cases hlab : r.stage.lab d s.symbol with
  | error error => simp
  | ok lab =>
    have hreader : r.stage.reader = r.reader := rfl
    simp only [hreader, Except.ok.injEq, forall_eq']
    cases houtcome : proveTsTarget r.reader lab d.path s.symbol ((r.target (d, s)).changedIn d) with
    | ok outcome => simp
    | error failure => cases failure <;> simp

end Identity

/-! ## Two functions in one statement -/

/-- `x => x` as the value of a variable. -/
def arrowAt (start : Nat) : TsNode :=
  .node .initializer (.functionLike ⟨.arrow, none, false, false, true, start, (1, 1)⟩)
    [.node .parameter .parameter [.node .name (.identifier (lit "x")) []],
      .node .body (.identifier (lit "x")) []]

def variableOf (name : PyStr) (value : TsNode) : TsNode :=
  .node .part .variableDeclaration [.node .name (.identifier name) [], value]

/-- `export const f = x => x, g = x => x;` -/
def siblingStatement : TsNode :=
  .node .part (.variableDeclarationList false (some (1, 1)))
    [variableOf (lit "f") (arrowAt 17), variableOf (lit "g") (arrowAt 29)]

def siblingSource : TsSource where
  tree := .node .part .varScope [siblingStatement]
  moduleExports :=
    [⟨lit "f", variableOf (lit "f") (arrowAt 17), some (arrowAt 17)⟩,
      ⟨lit "g", variableOf (lit "g") (arrowAt 29), some (arrowAt 29)⟩]
  ordered := by decide
  distinct := by decide

def arrowSymbol (name : PyStr) (start : Nat) : CollectedSymbol where
  node := arrowAt start
  parent := variableOf name (arrowAt start)
  symbol := name
  kind := .arrowConst
  span := (1, 1)
  startOffset := start
  nested := false
  isAsync := false
  isGenerator := false
  ownerClass := none
  isStatic := false

def siblingChange : TsChange where
  files := [⟨lit "a.ts", .modified, {1}, {1}⟩]
  distinct := by decide

def siblingRepository : TsRepository Unit where
  sourceRoots := []
  sandbox := .process
  reader := ⟨fun _ _ => .equal, fun _ => ∅, fun _ => [], fun _ => true⟩
  source := fun _ => siblingSource
  unknownSymbol := fun _ symbol => symbol
  workers := fun _ _ _ =>
    .ok ⟨[lit "[1]"], .ok fun _ => (), .ok fun _ => (), .ok fun _ => (), fun _ _ => .ok (),
      fun _ _ => .ok ()⟩

end TsIdentity

end Tempest
