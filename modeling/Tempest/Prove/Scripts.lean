import Tempest.Prove.Record

/-!
# Scripts — every repro script under its own name

The run shares one dictionary of scripts, so a second script of a name replaces the first.  Within
a target the index keeps the names apart (`scriptName_injective`); between targets only the
flattened dotted name does, which is not injective.  `scripts_kept_iff` says what that comes to.
-/

namespace Tempest

open Python

/-! ## File names -/

theorem intChar_not_underscore : ¬ IntChar underscore := by unfold IntChar; decide

/-- The extension being fixed, a name determines the flattened name and the index. -/
theorem scriptName_injective {safe safe' ext : PyStr} {i j : Nat}
    (h : scriptName safe i ext = scriptName safe' j ext) : safe = safe' ∧ i = j := by
  have hplain : safe ++ underscore :: natText i = safe' ++ underscore :: natText j := by
    apply (List.append_left_inj ext).1
    simpa [scriptName] using h
  -- read from the right, the digits of the index stop at the underscore
  have hreversed : (natText i).reverse ++ underscore :: safe.reverse =
      (natText j).reverse ++ underscore :: safe'.reverse := by
    have hrev := congrArg List.reverse hplain
    simpa using hrev
  have hdigits : ∀ k : Nat, ∀ c ∈ (natText k).reverse, IntChar c :=
    fun k c hc => Or.inr (intChar_of_mem_natText (List.mem_reverse.1 hc))
  have hcancel := run_append_cancel (hdigits i) (hdigits j) (stopsAt_cons intChar_not_underscore)
    (stopsAt_cons intChar_not_underscore) hreversed
  refine ⟨?_, natText_injective (List.reverse_injective hcancel.1)⟩
  exact List.reverse_injective (List.cons.inj hcancel.2).2

theorem scriptName_ext_ne (safe safe' : PyStr) (i j : Nat) :
    scriptName safe i (lit ".py") ≠ scriptName safe' j (lit ".mjs") := by
  intro h
  have hlast := congrArg List.getLast? h
  simp [scriptName, lit, List.getLast?_append, List.getLast?_cons] at hlast
  exact absurd hlast (by decide)

/-! ## The names of a target -/

variable {ctx : RunContext}

theorem mem_pyExhibits {t : PyTarget} {minimize : Nat → FoundDivergence → Minimized}
    {ds : List FoundDivergence} {k : Nat} {seen : List (DivergenceClass × PyStr × PyStr)} {e : Exhibit}
    (h : e ∈ t.exhibits ctx minimize k ds seen) : ∃ i d m, k ≤ i ∧ e = t.exhibit ctx i d m := by
  induction ds generalizing k seen with
  | nil => cases h
  | cons d ds ih =>
    have hlater : ∀ {seen'}, e ∈ t.exhibits ctx minimize (k + 1) ds seen' →
        ∃ i d m, k ≤ i ∧ e = t.exhibit ctx i d m := by
      intro seen' hmem
      rcases ih hmem with ⟨i, d', m, hi, he⟩
      exact ⟨i, d', m, by omega, he⟩
    by_cases hseen : dedupeKey d (minimize k d) ∈ seen
    · simp only [PyTarget.exhibits, hseen, if_true] at h
      exact hlater h
    · simp only [PyTarget.exhibits, hseen, if_false] at h
      rcases List.mem_cons.1 h with rfl | hrest
      · exact ⟨k, d, minimize k d, le_rfl, rfl⟩
      · exact hlater hrest

theorem nodup_pyExhibits (t : PyTarget) (ctx : RunContext)
    (minimize : Nat → FoundDivergence → Minimized) (ds : List FoundDivergence) (k : Nat)
    (seen : List (DivergenceClass × PyStr × PyStr)) :
    ((t.exhibits ctx minimize k ds seen).map Exhibit.name).Nodup := by
  induction ds generalizing k seen with
  | nil => exact List.nodup_nil
  | cons d ds ih =>
    by_cases hseen : dedupeKey d (minimize k d) ∈ seen
    · simp only [PyTarget.exhibits, hseen, if_true]
      exact ih (k + 1) seen
    · simp only [PyTarget.exhibits, hseen, if_false, List.map_cons, List.nodup_cons]
      refine ⟨?_, ih (k + 1) _⟩
      intro hmem
      rcases List.mem_map.1 hmem with ⟨e, he, hname⟩
      rcases mem_pyExhibits he with ⟨i, d', m, hi, rfl⟩
      have hindex := (scriptName_injective hname).2
      omega

theorem mem_tsExhibits {t : TsTarget} {ds : List TsDivergenceFound} {k : Nat} {e : Exhibit}
    (h : e ∈ t.exhibits ctx k ds) : ∃ i d, k ≤ i ∧ e = t.exhibit ctx i d := by
  induction ds generalizing k with
  | nil => cases h
  | cons d ds ih =>
    rcases List.mem_cons.1 h with rfl | hrest
    · exact ⟨k, d, le_rfl, rfl⟩
    · rcases ih hrest with ⟨i, d', hi, he⟩
      exact ⟨i, d', by omega, he⟩

theorem nodup_tsExhibits (t : TsTarget) (ctx : RunContext) (ds : List TsDivergenceFound) (k : Nat) :
    ((t.exhibits ctx k ds).map Exhibit.name).Nodup := by
  induction ds generalizing k with
  | nil => exact List.nodup_nil
  | cons d ds ih =>
    simp only [TsTarget.exhibits, List.map_cons, List.nodup_cons]
    refine ⟨?_, ih (k + 1)⟩
    intro hmem
    rcases List.mem_map.1 hmem with ⟨e, he, hname⟩
    rcases mem_tsExhibits he with ⟨i, d', hi, rfl⟩
    have hindex := (scriptName_injective hname).2
    omega

/-! ## The names of a run -/

def Work.exhibits (ctx : RunContext) : Work → List Exhibit
  | .finished t outcome minimize => t.exhibits ctx minimize 0 outcome.divergences []
  | .tsProven t outcome => t.exhibits ctx 0 outcome.divergences
  | .stated _ => []

/-- The language and the flattened name of a target with divergences. -/
def Work.filedAs : Work → Option (Lang × PyStr)
  | .finished t outcome _ => if outcome.divergences = [] then none else some (.python, t.safe)
  | .tsProven t outcome => if outcome.divergences = [] then none else some (.typescript, t.safe)
  | .stated _ => none

def extOf : Lang → PyStr
  | .python => lit ".py"
  | .typescript => lit ".mjs"

theorem Work.nodup_names (ctx : RunContext) (work : Work) :
    ((work.exhibits ctx).map Exhibit.name).Nodup := by
  cases work with
  | finished t outcome minimize => exact nodup_pyExhibits t ctx minimize _ 0 []
  | tsProven t outcome => exact nodup_tsExhibits t ctx _ 0
  | stated record => exact List.nodup_nil

theorem Work.name_of_mem {work : Work} {e : Exhibit} (h : e ∈ work.exhibits ctx) :
    ∃ lang safe i, work.filedAs = some (lang, safe) ∧ e.name = scriptName safe i (extOf lang) ∧
      e.record.reproFilename = some e.name := by
  cases work with
  | finished t outcome minimize =>
    rcases mem_pyExhibits h with ⟨i, d, m, _, rfl⟩
    refine ⟨.python, t.safe, i, ?_, rfl, rfl⟩
    have hne : outcome.divergences ≠ [] := by
      intro hnil
      simp [Work.exhibits, hnil, PyTarget.exhibits] at h
    simp [Work.filedAs, hne]
  | tsProven t outcome =>
    rcases mem_tsExhibits h with ⟨i, d, _, rfl⟩
    refine ⟨.typescript, t.safe, i, ?_, rfl, rfl⟩
    have hne : outcome.divergences ≠ [] := by
      intro hnil
      simp [Work.exhibits, hnil, TsTarget.exhibits] at h
    simp [Work.filedAs, hne]
  | stated record => cases h

/-- The first divergence of a target is always reported. -/
theorem Work.first_name {work : Work} {lang : Lang} {safe : PyStr}
    (h : work.filedAs = some (lang, safe)) :
    scriptName safe 0 (extOf lang) ∈ (work.exhibits ctx).map Exhibit.name := by
  cases work with
  | finished t outcome minimize =>
    cases hds : outcome.divergences with
    | nil => simp [Work.filedAs, hds] at h
    | cons d ds =>
      obtain ⟨rfl, rfl⟩ : .python = lang ∧ t.safe = safe := by
        simpa [Work.filedAs, hds] using h
      simp [Work.exhibits, hds, PyTarget.exhibits, PyTarget.exhibit, extOf]
  | tsProven t outcome =>
    cases hds : outcome.divergences with
    | nil => simp [Work.filedAs, hds] at h
    | cons d ds =>
      obtain ⟨rfl, rfl⟩ : .typescript = lang ∧ t.safe = safe := by
        simpa [Work.filedAs, hds] using h
      simp [Work.exhibits, hds, TsTarget.exhibits, TsTarget.exhibit, extOf]
  | stated record => cases h

/-- Two targets share a file name exactly when they are filed under one flattened name. -/
theorem disjoint_names_iff {work work' : Work} :
    List.Disjoint ((work.exhibits ctx).map Exhibit.name) ((work'.exhibits ctx).map Exhibit.name) ↔
      ∀ filed ∈ work.filedAs, filed ∉ work'.filedAs := by
  constructor
  · rintro hdisjoint ⟨lang, safe⟩ hwork hwork'
    exact hdisjoint (Work.first_name hwork) (Work.first_name hwork')
  · intro hfiled name hmem hmem'
    rcases List.mem_map.1 hmem with ⟨e, he, rfl⟩
    rcases List.mem_map.1 hmem' with ⟨e', he', hname⟩
    rcases Work.name_of_mem he with ⟨lang, safe, i, hwork, hei, _⟩
    rcases Work.name_of_mem he' with ⟨lang', safe', j, hwork', hej, _⟩
    have hnames : scriptName safe i (extOf lang) = scriptName safe' j (extOf lang') := by
      rw [← hei, ← hej, hname]
    have hlang : lang = lang' := by
      cases lang with
      | python =>
        cases lang' with
        | python => rfl
        | typescript => exact absurd hnames (scriptName_ext_ne safe safe' i j)
      | typescript =>
        cases lang' with
        | python => exact absurd hnames.symm (scriptName_ext_ne safe' safe j i)
        | typescript => rfl
    subst hlang
    obtain rfl := (scriptName_injective hnames).1
    exact hfiled _ hwork hwork'

/-! ## The dictionary of the run -/

def runExhibits (ctx : RunContext) (works : List Work) : List Exhibit :=
  works.flatMap (Work.exhibits ctx)

theorem runRecords_scripts (ctx : RunContext) (works : List Work) (scripts : Dict PyStr PyStr) :
    (runRecords ctx works scripts).2 = addScripts scripts (runExhibits ctx works) := by
  induction works generalizing scripts with
  | nil => rfl
  | cons work works ih =>
    have hfirst : (work.record ctx scripts).2 = addScripts scripts (work.exhibits ctx) := by
      cases work with
      | finished t outcome minimize => rfl
      | tsProven t outcome => rfl
      | stated record => rfl
    simp only [runRecords, ih, hfirst, runExhibits, List.flatMap_cons, addScripts, List.map_append,
      Dict.setAll_append]

theorem runRecords_divergences (ctx : RunContext) (works : List Work) (scripts : Dict PyStr PyStr) :
    (runRecords ctx works scripts).1.flatMap TargetRecord.divergences =
      (runExhibits ctx works).map Exhibit.record := by
  induction works generalizing scripts with
  | nil => rfl
  | cons work works ih =>
    have hfirst : (work.record ctx scripts).1.divergences =
        (work.exhibits ctx).map Exhibit.record := by
      cases work with
      | finished t outcome minimize => rfl
      | tsProven t outcome => rfl
      | stated record => rfl
    simp only [runRecords, List.flatMap_cons, ih, hfirst, runExhibits, List.map_append]

structure ScriptsFiled (ctx : RunContext) (works : List Work) : Prop where
  distinct : ((runExhibits ctx works).map Exhibit.name).Nodup
  filed : ∀ e ∈ runExhibits ctx works, e.record.reproFilename = some e.name ∧
    (runRecords ctx works .empty).2.get? e.name = some e.script

/-- No script is overwritten exactly when no two targets with divergences are filed under one
flattened name. -/
theorem scripts_kept_iff {ctx : RunContext} {works : List Work} :
    ScriptsFiled ctx works ↔
      works.Pairwise fun work work' => ∀ filed ∈ work.filedAs, filed ∉ work'.filedAs := by
  have hnames : (runExhibits ctx works).map Exhibit.name =
      works.flatMap fun work => (work.exhibits ctx).map Exhibit.name := by
    simp [runExhibits, List.map_flatMap]
  have hdistinct : ((runExhibits ctx works).map Exhibit.name).Nodup ↔
      works.Pairwise fun work work' => ∀ filed ∈ work.filedAs, filed ∉ work'.filedAs := by
    rw [hnames, List.nodup_flatMap, and_iff_right fun work _ => work.nodup_names ctx]
    constructor
    · exact fun h => h.imp fun hdisjoint => disjoint_names_iff.1 hdisjoint
    · exact fun h => h.imp fun hfiled => disjoint_names_iff.2 hfiled
  constructor
  · exact fun hfiled => hdistinct.1 hfiled.distinct
  · intro hapart
    have hnodup := hdistinct.2 hapart
    refine ⟨hnodup, ?_⟩
    intro e he
    rcases List.mem_flatMap.1 he with ⟨work, _, hmem⟩
    rcases Work.name_of_mem hmem with ⟨_, _, _, _, _, hfile⟩
    refine ⟨hfile, ?_⟩
    rw [runRecords_scripts]
    apply Dict.get?_setAll_of_mem
    · rw [List.map_map]
      exact hnodup
    · exact List.mem_map_of_mem he

/-! ## Two dotted names that flatten alike -/

def oneDivergence (module symbol : PyStr) : Work :=
  .finished { filePath := module ++ lit ".py", module := module, symbol := symbol }
    { module := module, qualname := symbol, verdict := .divergent, reasonCode := none,
      reasonDetail := none, inputsRun := 1, equivalentInputs := 0, unprovableInputs := 0,
      changedLineCoverage := 1,
      divergences :=
        [{ argsLiteral := lit "(1,)", kwargsLiteral := lit "\x7b\x7d",
           divergenceClass := .returnValue, severity := .normal, detail := [],
           baseSummary := lit "returned 1", headSummary := lit "returned 2" }] }
    fun _ d => ⟨d.argsLiteral, d.kwargsLiteral, []⟩

def plainContext : RunContext where
  baseSha := lit "base"
  headSha := lit "head"
  sourceRoots := []
  printable := fun _ => false
  narrate := fun _ => none

/-- `b_c` of `a.py` and `c` of `a_b.py` are both filed as `a_b_c_0.py`. -/
theorem flattened_names_collide :
    (runExhibits plainContext [oneDivergence (lit "a") (lit "b_c"), oneDivergence (lit "a_b") (lit "c")]).map
        Exhibit.name = [lit "a_b_c_0.py", lit "a_b_c_0.py"] ∧
      ¬ ScriptsFiled plainContext
        [oneDivergence (lit "a") (lit "b_c"), oneDivergence (lit "a_b") (lit "c")] := by
  have hnames : (runExhibits plainContext
      [oneDivergence (lit "a") (lit "b_c"), oneDivergence (lit "a_b") (lit "c")]).map Exhibit.name =
      [lit "a_b_c_0.py", lit "a_b_c_0.py"] := rfl
  refine ⟨hnames, ?_⟩
  intro hfiled
  have hdistinct := hfiled.distinct
  rw [hnames] at hdistinct
  simp at hdistinct

end Tempest
