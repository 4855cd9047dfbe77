import Tempest.Agent.Paths

/-!
# Listing — what `list_dir` and `search_text` leave out (`agent/tools.py`)

`_walk` goes through a directory like `os.walk`, prunes it at a depth and stops behind a number of
entries; the callers stop at limits of their own and say so.  A result that does not say it is
truncated is complete exactly when the walk prunes nothing that matters (`InSight`, `Reached`).
-/

namespace Tempest

open Python

/-! ## Directories -/

inductive Tree where
  | file (name : PyStr) (bytes : Option Bytes)
  | other (name : PyStr)
  /-- A link to a directory, which `os.walk` lists and does not follow. -/
  | dirLink (name : PyStr)
  | dir (name : PyStr) (readable : Bool) (children : List Tree)

namespace Tree

def name : Tree → PyStr
  | .file name _ => name
  | .other name => name
  | .dirLink name => name
  | .dir name _ _ => name

/-- `is_dir()`. -/
def isDir : Tree → Bool
  | .dirLink _ => true
  | .dir _ _ _ => true
  | _ => false

/-- A directory that is left out: `.git` or `node_modules`. -/
def skipped (t : Tree) : Bool := t.isDir && decide (t.name = dotGit ∨ t.name = lit "node_modules")

end Tree

/-- An entry with its path below the directory that is listed. -/
abbrev FoundEntry := FilePath × Tree

/-- An entry under a directory, outside the directories that are left out. -/
inductive Under : Tree → FilePath → Tree → Prop
  | entry {name : PyStr} {readable : Bool} {children : List Tree} {t : Tree} (hmem : t ∈ children)
      (hkept : t.skipped = false) : Under (.dir name readable children) [t.name] t
  | deeper {name : PyStr} {readable : Bool} {children : List Tree} {c t : Tree} {rel : FilePath}
      (hmem : c ∈ children) (hkept : c.skipped = false) (hbelow : Under c rel t) :
      Under (.dir name readable children) (c.name :: rel) t

/-- An entry that the walk comes to from a directory at a depth: every directory above it can be
read, and no directory is listed, or entered, from the deepest level. -/
inductive InSight (maxDepth : Int) : Nat → Tree → FilePath → Tree → Prop
  | entry {depth : Nat} {name : PyStr} {children : List Tree} {t : Tree} (hmem : t ∈ children)
      (hkept : t.skipped = false) (hdepth : t.isDir = true → (depth : Int) < maxDepth) :
      InSight maxDepth depth (.dir name true children) [t.name] t
  | deeper {depth : Nat} {name : PyStr} {children : List Tree} {c t : Tree} {rel : FilePath}
      (hmem : c ∈ children) (hkept : c.skipped = false) (hdepth : (depth : Int) < maxDepth)
      (hbelow : InSight maxDepth (depth + 1) c rel t) :
      InSight maxDepth depth (.dir name true children) (c.name :: rel) t

/-! ## The walk -/

structure Budgets where
  maxDirEntries : Int
  maxSearchMatches : Int
  maxWalkDepth : Int

/-- One round of `os.walk`: a directory, and what is taken from it. -/
structure Visit where
  path : FilePath
  files : List Tree
  dirs : List Tree

def Visit.entries (v : Visit) : List FoundEntry :=
  (v.files ++ v.dirs).map fun t => (v.path ++ [t.name], t)

def sortedByName (trees : List Tree) : List Tree := trees.insertionSort fun a b => a.name ≤ b.name

mutual

/-- The rounds of `os.walk` from a directory, with `dirnames` pruned as `_walk` does. -/
def visits (maxDepth : Int) (path : FilePath) : Tree → List Visit
  | .dir _ true children =>
    { path := path
      files := sortedByName (children.filter fun t => !t.isDir)
      dirs := if maxDepth ≤ path.length then []
        else sortedByName (children.filter fun t => t.isDir && !t.skipped) } ::
    (if maxDepth ≤ path.length then []
      else ((visitsBelow maxDepth path children).insertionSort fun a b => a.1 ≤ b.1).flatMap Prod.snd)
  | _ => []

def visitsBelow (maxDepth : Int) (path : FilePath) : List Tree → List (PyStr × List Visit)
  | [] => []
  | child :: children =>
    if child.skipped then visitsBelow maxDepth path children
    else (child.name, visits maxDepth (path ++ [child.name]) child) ::
      visitsBelow maxDepth path children

end

/-- The rounds are taken until more than `max_dir_entries` entries are found. -/
def collect (maxEntries : Int) : List FoundEntry → List Visit → List FoundEntry
  | found, [] => found
  | found, v :: rest =>
    if maxEntries < (found ++ v.entries).length then found ++ v.entries
    else collect maxEntries (found ++ v.entries) rest

/-- `_walk`; a directory that cannot be read is an `OSError` of `iterdir`, and nothing to `os.walk`. -/
def walk (budgets : Budgets) (recursive : Bool) (root : Tree) : Except PathFault (List FoundEntry) :=
  if recursive then .ok (collect budgets.maxDirEntries [] (visits budgets.maxWalkDepth [] root))
  else match root with
    | .dir _ true children => .ok ((sortedByName children).map fun t => ([t.name], t))
    | _ => .error .raised

/-! ## The two tools -/

/-- Items are shown until `cap` of them are; one more sets the flag. -/
def cappedFrom {α : Type} (cap : Int) : List α → List α → List α × Bool
  | shown, [] => (shown, false)
  | shown, item :: items =>
    if cap ≤ shown.length then (shown, true) else cappedFrom cap (shown ++ [item]) items

/-- What `_list_dir` lists, and whether it was cut short; `said` is the path as it was given. -/
def listItems (budgets : Budgets) (recursive : Bool) (said : PyStr) (root : Tree) :
    Except PathFault (List FoundEntry × Bool) :=
  if root.isDir then (walk budgets recursive root).map (cappedFrom budgets.maxDirEntries [])
  else .error (.refused (lit "not a directory: " ++ said))

def displayFound (f : FoundEntry) : PyStr :=
  join [slash] f.1 ++ if f.2.isDir then [slash] else []

/-- `_list_dir`, at the entry its path resolves to. -/
def listDir (budgets : Budgets) (recursive : Bool) (said : PyStr) (root : Tree) :
    Except PathFault ToolResult :=
  (listItems budgets recursive said root).map fun (shown, truncated) =>
    ⟨true, join [lineFeed] ((shown.map displayFound).insertionSort (· ≤ ·)), truncated⟩

structure Hit where
  file : FoundEntry
  number : Nat
  line : PyStr

def hitsOf (regex : PyStr → Bool) (f : FoundEntry) : List Hit :=
  match f.2 with
  | .file _ (some bytes) =>
    match decodeUtf8 bytes with
    | some text =>
      (((splitLines (universalNewlines text)).zipIdx 1).filter fun p => regex p.1).map
        fun p => ⟨f, p.2, p.1⟩
    | none => []
  | _ => []

/-- The loop of `_search_text` over the files. -/
def searchFiles (cap : Int) (regex : PyStr → Bool) : List Hit → List FoundEntry → List Hit × Bool
  | hits, [] => (hits, false)
  | hits, f :: files =>
    match cappedFrom cap hits (hitsOf regex f) with
    | (hits, true) => (hits, true)
    | (hits, false) => searchFiles cap regex hits files

def searchCap (budgets : Budgets) : Option Int → Int
  | some requested =>
    if 0 ≤ requested then min budgets.maxSearchMatches requested else budgets.maxSearchMatches
  | none => budgets.maxSearchMatches

/-- The files of a search: those of the walk, or the path itself if it is no directory. -/
def searched (budgets : Budgets) (root : Tree) : List FoundEntry :=
  if root.isDir then collect budgets.maxDirEntries [] (visits budgets.maxWalkDepth [] root)
  else [([], root)]

/-- What `_search_text` finds, and whether it was cut short. -/
def searchItems (budgets : Budgets) (regex : PyStr → Bool) (requested : Option Int) (root : Tree) :
    List Hit × Bool :=
  searchFiles (searchCap budgets requested) regex [] (searched budgets root)

/-- A line of the result of a search below `base`. -/
def displayHit (base : FilePath) (hit : Hit) : PyStr :=
  join [slash] (base ++ hit.file.1) ++ lit ":" ++ natText hit.number ++ lit ": " ++
    (strip hit.line).take 200

/-- `_search_text`, at the entry its path resolves to. -/
def searchText (budgets : Budgets) (compile : PyStr → Except PyStr (PyStr → Bool))
    (printable : CodePoint → Bool) (pattern : PyStr) (requested : Option Int) (base : FilePath)
    (root : Tree) : Except PathFault ToolResult :=
  match compile pattern with
  | .error e => .error (.refused (lit "invalid pattern " ++ reprStr printable pattern ++ lit ": " ++ e))
  | .ok regex =>
    let (hits, truncated) := searchItems budgets regex requested root
    .ok ⟨true, join [lineFeed] (hits.map (displayHit base)), truncated⟩

/-! ## What the walk finds -/

theorem mem_sortedByName {t : Tree} {trees : List Tree} : t ∈ sortedByName trees ↔ t ∈ trees :=
  (List.perm_insertionSort _ trees).mem_iff

/-- What a directory and the rounds below it find, before the walk stops. -/
def entriesOf (vs : List Visit) : List FoundEntry := vs.flatMap Visit.entries

theorem mem_entries {v : Visit} {rel : FilePath} {t : Tree} :
    (rel, t) ∈ v.entries ↔ (t ∈ v.files ∨ t ∈ v.dirs) ∧ rel = v.path ++ [t.name] := by
  simp only [Visit.entries, List.mem_map, List.mem_append, Prod.mk.injEq]
  constructor
  · rintro ⟨_, hmem, rfl, rfl⟩
    exact ⟨hmem, rfl⟩
  · rintro ⟨hmem, rfl⟩
    exact ⟨t, hmem, rfl, rfl⟩

theorem skipped_of_not_isDir {t : Tree} (h : t.isDir = false) : t.skipped = false := by
  simp [Tree.skipped, h]

theorem mem_entriesOf_dir {maxDepth : Int} {path rel : FilePath} {name : PyStr} {children : List Tree}
    {t : Tree} :
    (rel, t) ∈ entriesOf (visits maxDepth path (.dir name true children)) ↔
      (t ∈ children ∧ t.skipped = false ∧ (t.isDir = true → (path.length : Int) < maxDepth) ∧
        rel = path ++ [t.name]) ∨
      ((path.length : Int) < maxDepth ∧
        (rel, t) ∈ entriesOf ((visitsBelow maxDepth path children).flatMap Prod.snd)) := by
  have hperm : ((visitsBelow maxDepth path children).insertionSort fun a b => a.1 ≤ b.1).Perm
      (visitsBelow maxDepth path children) := List.perm_insertionSort _ _
  have hbelow : (rel, t) ∈ entriesOf (((visitsBelow maxDepth path children).insertionSort
      fun a b => a.1 ≤ b.1).flatMap Prod.snd) ↔
      (rel, t) ∈ entriesOf ((visitsBelow maxDepth path children).flatMap Prod.snd) := by
    simp only [entriesOf, List.mem_flatMap, hperm.mem_iff]
  by_cases hdeep : maxDepth ≤ path.length
  · have hnot : ¬ (path.length : Int) < maxDepth := not_lt.mpr hdeep
    simp only [visits, hdeep, if_true, entriesOf, List.flatMap_cons, List.flatMap_nil, List.append_nil,
      mem_entries, mem_sortedByName, List.mem_filter, Bool.not_eq_true', List.not_mem_nil, or_false,
      hnot, false_and]
    constructor
    · rintro ⟨⟨hmem, hfile⟩, rfl⟩
      exact ⟨hmem, skipped_of_not_isDir hfile, by simp [hfile], rfl⟩
    · rintro ⟨hmem, -, hdepth, rfl⟩
      exact ⟨⟨hmem, Bool.not_eq_true _ ▸ fun hdir => hdepth hdir⟩, rfl⟩
  · have hroom : (path.length : Int) < maxDepth := not_le.mp hdeep
    simp only [visits, hdeep, if_false]
    rw [entriesOf, List.flatMap_cons, List.mem_append, mem_entries]
    change _ ∨ (rel, t) ∈ entriesOf _ ↔ _
    rw [hbelow]
    simp only [mem_sortedByName, List.mem_filter, Bool.not_eq_true', Bool.and_eq_true, hroom,
      implies_true, true_and]
    refine or_congr ?_ Iff.rfl
    constructor
    · rintro ⟨⟨hmem, hfile⟩ | ⟨hmem, -, hkept⟩, rfl⟩
      · exact ⟨hmem, skipped_of_not_isDir hfile, rfl⟩
      · exact ⟨hmem, hkept, rfl⟩
    · rintro ⟨hmem, hkept, rfl⟩
      cases hdir : t.isDir with
      | false => exact ⟨.inl ⟨hmem, rfl⟩, rfl⟩
      | true => exact ⟨.inr ⟨hmem, rfl, hkept⟩, rfl⟩

mutual

theorem mem_visits {maxDepth : Int} {t : Tree} :
    ∀ (tree : Tree) {path rel : FilePath}, (rel, t) ∈ entriesOf (visits maxDepth path tree) ↔
      ∃ rest, rel = path ++ rest ∧ InSight maxDepth path.length tree rest t
  | .file _ _, _, _ | .other _, _, _ | .dirLink _, _, _ | .dir _ false _, _, _ => by
    simp only [visits, entriesOf, List.flatMap_nil, List.not_mem_nil, false_iff]
    rintro ⟨_, _, hsight⟩
    cases hsight
  | .dir name true children, path, rel => by
    rw [mem_entriesOf_dir, mem_visitsBelow children]
    constructor
    · rintro (⟨hmem, hkept, hdepth, rfl⟩ | ⟨hdepth, c, hmem, hkept, rest, rfl, hsight⟩)
      · exact ⟨[t.name], rfl, .entry hmem hkept hdepth⟩
      · exact ⟨c.name :: rest, rfl, .deeper hmem hkept hdepth hsight⟩
    · rintro ⟨rest, rfl, hsight⟩
      cases hsight with
      | entry hmem hkept hdepth => exact .inl ⟨hmem, hkept, hdepth, rfl⟩
      | deeper hmem hkept hdepth hbelow => exact .inr ⟨hdepth, _, hmem, hkept, _, rfl, hbelow⟩

theorem mem_visitsBelow {maxDepth : Int} {t : Tree} :
    ∀ (children : List Tree) {path rel : FilePath},
      (rel, t) ∈ entriesOf ((visitsBelow maxDepth path children).flatMap Prod.snd) ↔
        ∃ c ∈ children, c.skipped = false ∧
          ∃ rest, rel = path ++ c.name :: rest ∧ InSight maxDepth (path.length + 1) c rest t
  | [], _, _ => by simp [visitsBelow, entriesOf]
  | child :: children, path, rel => by
    have ih := @mem_visitsBelow maxDepth t children path rel
    simp only [List.exists_mem_cons_iff]
    cases hskipped : child.skipped with
    | true =>
      simp only [visitsBelow, hskipped, if_true, ih]
      simp
    | false =>
      simp only [visitsBelow, hskipped, Bool.false_eq_true, if_false, List.flatMap_cons]
      rw [entriesOf, List.flatMap_append, List.mem_append]
      change (rel, t) ∈ entriesOf _ ∨ (rel, t) ∈ entriesOf _ ↔ _
      rw [ih, mem_visits child]
      simp

end

/-! ## Where the walk stops -/

/-- The rounds that are taken: those before hold at most `max_dir_entries` entries. -/
def Taken (maxEntries : Int) (vs : List Visit) (f : FoundEntry) : Prop :=
  ∃ before v after, vs = before ++ v :: after ∧ f ∈ v.entries ∧
    (before = [] ∨ ((entriesOf before).length : Int) ≤ maxEntries)

theorem entriesOf_cons (v : Visit) (vs : List Visit) : entriesOf (v :: vs) = v.entries ++ entriesOf vs :=
  rfl

theorem mem_collect {maxEntries : Int} {f : FoundEntry} :
    ∀ (vs : List Visit) (found : List FoundEntry), f ∈ collect maxEntries found vs ↔
      f ∈ found ∨ ∃ before v after, vs = before ++ v :: after ∧ f ∈ v.entries ∧
        (before = [] ∨ ((found ++ entriesOf before).length : Int) ≤ maxEntries)
  | [], found => by simp [collect]
  | v :: rest, found => by
    have ih := @mem_collect maxEntries f rest (found ++ v.entries)
    unfold collect
    split
    next hfull =>
      rw [List.mem_append]
      refine or_congr Iff.rfl ⟨fun hmem => ⟨[], v, rest, rfl, hmem, .inl rfl⟩, ?_⟩
      rintro ⟨before, w, after, heq, hmem, hroom⟩
      cases before with
      | nil =>
        obtain ⟨rfl, -⟩ := List.cons.inj heq
        exact hmem
      | cons w' before =>
        obtain ⟨rfl, -⟩ := List.cons.inj heq
        have hroom := hroom.resolve_left (List.cons_ne_nil _ _)
        simp only [entriesOf_cons, List.length_append] at hroom hfull
        push_cast at hroom hfull
        omega
    next hroom =>
      rw [ih, List.mem_append, or_assoc]
      refine or_congr Iff.rfl ?_
      constructor
      · rintro (hmem | ⟨before, w, after, rfl, hmem, hbefore⟩)
        · exact ⟨[], v, rest, rfl, hmem, .inl rfl⟩
        · refine ⟨v :: before, w, after, rfl, hmem, .inr ?_⟩
          rcases hbefore with rfl | hbefore
          · simpa [entriesOf] using hroom
          · rwa [entriesOf_cons, ← List.append_assoc]
      · rintro ⟨before, w, after, heq, hmem, hbefore⟩
        cases before with
        | nil =>
          obtain ⟨rfl, -⟩ := List.cons.inj heq
          exact .inl hmem
        | cons w' before =>
          obtain ⟨rfl, rfl⟩ := List.cons.inj heq
          refine .inr ⟨before, w, after, rfl, hmem, .inr ?_⟩
          have hbefore := hbefore.resolve_left (List.cons_ne_nil _ _)
          rwa [entriesOf_cons, ← List.append_assoc] at hbefore

theorem mem_collect_nil {maxEntries : Int} {vs : List Visit} {f : FoundEntry} :
    f ∈ collect maxEntries [] vs ↔ Taken maxEntries vs f := by
  simp [mem_collect, Taken]

/-- The walk takes all the rounds, or stops behind some of them with more entries than the budget. -/
theorem collect_eq_or {maxEntries : Int} :
    ∀ (vs : List Visit) (found : List FoundEntry),
      collect maxEntries found vs = found ++ entriesOf vs ∨
        ∃ v taken rest, vs = v :: taken ++ rest ∧
          collect maxEntries found vs = found ++ entriesOf (v :: taken) ∧
          maxEntries < (collect maxEntries found vs).length
  | [], found => .inl (by simp [collect, entriesOf])
  | v :: rest, found => by
    unfold collect
    split
    next hfull => exact .inr ⟨v, [], rest, rfl, by simp [entriesOf], hfull⟩
    next =>
      rcases collect_eq_or rest (found ++ v.entries) with heq | ⟨w, taken, rest', rfl, heq, hfull⟩
      · exact .inl (by rw [heq, entriesOf_cons, List.append_assoc])
      · refine .inr ⟨v, w :: taken, rest', rfl, ?_, hfull⟩
        rw [heq, entriesOf_cons v, List.append_assoc]

theorem visitsBelow_of_skipped {maxDepth : Int} {path : FilePath} :
    ∀ {children : List Tree}, (∀ c ∈ children, c.skipped = true) →
      visitsBelow maxDepth path children = []
  | [], _ => rfl
  | child :: children, h => by
    rw [visitsBelow, if_pos (h child List.mem_cons_self)]
    exact visitsBelow_of_skipped fun c hc => h c (List.mem_cons_of_mem _ hc)

/-- A directory in which nothing is found has no rounds below it. -/
theorem visits_of_entries_nil {maxDepth : Int} {path : FilePath} {tree : Tree} {v : Visit}
    {rest : List Visit} (h : visits maxDepth path tree = v :: rest) (hnone : v.entries = []) :
    rest = [] := by
  cases tree with
  | file _ _ | other _ | dirLink _ => cases h
  | dir name readable children =>
    cases readable with
    | false => cases h
    | true =>
      obtain ⟨hv, rfl⟩ := List.cons.inj h
      split
      next => rfl
      next hdeep =>
        have hskipped : ∀ c ∈ children, c.skipped = true := by
          intro c hc
          have hmissing : (path ++ [c.name], c) ∉ v.entries := by
            rw [hnone]
            exact List.not_mem_nil
          rw [← hv, mem_entries] at hmissing
          by_contra hkept
          refine hmissing ⟨?_, rfl⟩
          simp only [hdeep, if_false, mem_sortedByName, List.mem_filter]
          cases hdir : c.isDir with
          | false => exact .inl ⟨hc, rfl⟩
          | true => exact .inr ⟨hc, by simpa using hkept⟩
        rw [visitsBelow_of_skipped hskipped]
        rfl

/-! ## Limits of the callers -/

section Capped

variable {α : Type} (cap : Int)

theorem cappedFrom_fst : ∀ (items shown : List α), (cappedFrom cap shown items).2 = false →
    (cappedFrom cap shown items).1 = shown ++ items
  | [], shown, _ => by simp [cappedFrom]
  | item :: items, shown, h => by
    unfold cappedFrom at h ⊢
    split
    next hfull => simp [hfull] at h
    next hroom =>
      rw [if_neg hroom] at h
      rw [cappedFrom_fst items _ h, List.append_assoc]
      rfl

/-- The flag is set when there is more than the cap. -/
theorem cappedFrom_snd : ∀ (items shown : List α), (cappedFrom cap shown items).2 = true ↔
    items ≠ [] ∧ cap < (shown ++ items).length
  | [], shown => by simp [cappedFrom]
  | item :: items, shown => by
    unfold cappedFrom
    split
    next hfull =>
      simp only [List.length_append, List.length_cons, ne_eq, reduceCtorEq, not_false_eq_true, true_and,
        true_iff]
      push_cast
      omega
    next hroom =>
      rw [cappedFrom_snd items]
      simp only [List.append_assoc, List.singleton_append, ne_eq, reduceCtorEq, not_false_eq_true,
        true_and, and_iff_right_iff_imp]
      rintro hmore rfl
      simp only [List.length_append, List.length_singleton] at hmore
      push_cast at hmore
      omega

theorem cappedFrom_cons (item : α) (items shown : List α) : cappedFrom cap shown (item :: items) =
    if cap ≤ shown.length then (shown, true) else cappedFrom cap (shown ++ [item]) items := rfl

/-- Items in two parts: the second is shown unless the first sets the flag. -/
theorem cappedFrom_append : ∀ (items later shown : List α), cappedFrom cap shown (items ++ later) =
    match cappedFrom cap shown items with
      | (shown, true) => (shown, true)
      | (shown, false) => cappedFrom cap shown later
  | [], later, shown => rfl
  | item :: items, later, shown => by
    rw [List.cons_append, cappedFrom_cons, cappedFrom_cons]
    split
    · rfl
    · exact cappedFrom_append items later _

end Capped

theorem searchFiles_eq (cap : Int) (regex : PyStr → Bool) :
    ∀ (files : List FoundEntry) (hits : List Hit),
      searchFiles cap regex hits files = cappedFrom cap hits (files.flatMap (hitsOf regex))
  | [], hits => rfl
  | f :: files, hits => by
    rw [List.flatMap_cons, cappedFrom_append, searchFiles]
    cases cappedFrom cap hits (hitsOf regex f) with
    | mk hits' flag =>
      cases flag with
      | true => rfl
      | false => exact searchFiles_eq cap regex files hits'

/-! ## Truncation is never silent -/

/-- A call of one of the two tools, at the entry its path resolves to. -/
inductive ListRequest where
  | listDir (recursive : Bool) (said : PyStr)
  | searchText (regex : PyStr → Bool) (requested : Option Int)

/-- What `list_dir` is asked for: the entries under a directory, or those in it. -/
def Listable (recursive : Bool) (root : Tree) (f : FoundEntry) : Prop :=
  if recursive then Under root f.1 f.2
  else ∃ name readable children, root = .dir name readable children ∧ f.2 ∈ children ∧ f.1 = [f.2.name]

/-- What `search_text` is asked to look at: the files under a directory, or the path itself. -/
def Sought (root : Tree) (f : FoundEntry) : Prop :=
  (root.isDir = false ∧ f = ([], root)) ∨ Under root f.1 f.2

def Unsilent (budgets : Budgets) (root : Tree) : ListRequest → Prop
  | .listDir recursive said => ∀ shown, listItems budgets recursive said root = .ok (shown, false) →
      ∀ f, Listable recursive root f → f ∈ shown
  | .searchText regex requested => ∀ hits, searchItems budgets regex requested root = (hits, false) →
      ∀ f, Sought root f → ∀ hit ∈ hitsOf regex f, hit ∈ hits

/-- The walk finds more than the caller shows, or it leaves out nothing that matters. -/
def LeavesNothingOut (budgets : Budgets) (root : Tree) : ListRequest → Prop
  | .listDir recursive _ => recursive = true →
      max 0 budgets.maxDirEntries < (entriesOf (visits budgets.maxWalkDepth [] root)).length ∨
        ∀ rel t, Under root rel t → InSight budgets.maxWalkDepth 0 root rel t
  | .searchText regex requested =>
    max 0 (searchCap budgets requested) < ((searched budgets root).flatMap (hitsOf regex)).length ∨
      ∀ f, Under root f.1 f.2 → hitsOf regex f ≠ [] →
        Taken budgets.maxDirEntries (visits budgets.maxWalkDepth [] root) f

theorem more_than_cap {α : Type} {cap : Int} {items : List α} :
    items ≠ [] ∧ cap < items.length ↔ max 0 cap < items.length := by
  cases items with
  | nil => simp
  | cons item items =>
    simp only [ne_eq, reduceCtorEq, not_false_eq_true, true_and, List.length_cons]
    push_cast
    omega

/-- The flag of a listing is set exactly when the rounds hold more entries than the budget. -/
theorem listing_flag (maxEntries maxDepth : Int) (root : Tree) :
    (cappedFrom maxEntries [] (collect maxEntries [] (visits maxDepth [] root))).2 = true ↔
      max 0 maxEntries < (entriesOf (visits maxDepth [] root)).length := by
  rw [cappedFrom_snd, ← more_than_cap, List.nil_append]
  rcases @collect_eq_or maxEntries (visits maxDepth [] root) [] with
    heq | ⟨v, taken, rest, hvisits, heq, hfull⟩
  · rw [heq, List.nil_append]
  · rw [List.nil_append] at heq
    have hall : entriesOf (visits maxDepth [] root) = entriesOf (v :: taken) ++ entriesOf rest := by
      rw [hvisits]
      exact List.flatMap_append
    have hmore : maxEntries < (entriesOf (visits maxDepth [] root)).length := by
      rw [heq] at hfull
      rw [hall, List.length_append]
      push_cast
      omega
    refine ⟨fun h => ⟨?_, hmore⟩, fun h => ⟨?_, hfull⟩⟩
    · rw [heq] at h
      rw [hall]
      exact List.append_ne_nil_of_left_ne_nil h.1 _
    · -- a walk that found nothing has no rounds to leave out
      rw [heq]
      intro hnone
      have hv : v.entries = [] := (List.append_eq_nil_iff.mp hnone).1
      have hrest : taken ++ rest = [] := visits_of_entries_nil hvisits hv
      rw [hall, hnone, (List.append_eq_nil_iff.mp hrest).2] at h
      exact h.1 rfl

theorem mem_visits_root {maxDepth : Int} {root t : Tree} {rel : FilePath} :
    (rel, t) ∈ entriesOf (visits maxDepth [] root) ↔ InSight maxDepth 0 root rel t := by
  rw [mem_visits]
  simp

theorem isDir_of_under {root t : Tree} {rel : FilePath} (h : Under root rel t) : root.isDir = true := by
  cases h <;> rfl

/-- In one directory everything is listed, unless the flag is set. -/
theorem listItems_flat (budgets : Budgets) (said : PyStr) (root : Tree) :
    Unsilent budgets root (.listDir false said) := by
  rintro shown h f ⟨name, readable, children, rfl, hmem, hrel⟩
  cases readable with
  | false => cases h
  | true =>
    have hrun := Except.ok.inj h
    have hshown := cappedFrom_fst budgets.maxDirEntries
      ((sortedByName children).map fun t => ([t.name], t)) [] (congrArg Prod.snd hrun)
    rw [hrun] at hshown
    change shown = _ at hshown
    rw [hshown, List.nil_append, List.mem_map]
    exact ⟨f.2, mem_sortedByName.mpr hmem, Prod.ext hrel.symm rfl⟩

/-- A recursive listing is complete where everything under the directory is in sight. -/
theorem listItems_recursive (budgets : Budgets) (said : PyStr) (root : Tree) :
    Unsilent budgets root (.listDir true said) ↔ LeavesNothingOut budgets root (.listDir true said) := by
  let all : List FoundEntry := entriesOf (visits budgets.maxWalkDepth [] root)
  let run : List FoundEntry × Bool := cappedFrom budgets.maxDirEntries []
    (collect budgets.maxDirEntries [] (visits budgets.maxWalkDepth [] root))
  have hflag : run.2 = true ↔ max 0 budgets.maxDirEntries < all.length :=
    listing_flag budgets.maxDirEntries budgets.maxWalkDepth root
  -- without the flag the walk took all its rounds, and all of them are shown
  have hshown (hnot : ¬ max 0 budgets.maxDirEntries < all.length) : run = (all, false) := by
    have hclear : run.2 = false := Bool.not_eq_true _ ▸ fun hset => hnot (hflag.mp hset)
    refine Prod.ext ?_ hclear
    have hfst : run.1 = _ := cappedFrom_fst _ _ _ hclear
    rw [List.nil_append] at hfst
    rcases @collect_eq_or budgets.maxDirEntries (visits budgets.maxWalkDepth [] root) [] with
      heq | ⟨v, taken, rest, hvisits, heq, hfull⟩
    · rw [hfst, heq, List.nil_append]
    · rw [List.nil_append] at heq
      have hall : all = entriesOf (v :: taken) ++ entriesOf rest := by
        change entriesOf (visits budgets.maxWalkDepth [] root) = _
        rw [hvisits]
        exact List.flatMap_append
      -- more than the budget and nothing shown: the budget is negative and there is nothing
      rw [heq] at hfull
      have hlength := congrArg List.length hall
      rw [List.length_append] at hlength
      have hnone : all.length = 0 := by omega
      have htaken : (entriesOf (v :: taken)).length = 0 := by omega
      rw [hfst, heq, List.length_eq_zero_iff.mp hnone, List.length_eq_zero_iff.mp htaken]
  have hitems (hdir : root.isDir = true) : listItems budgets true said root = .ok run := by
    unfold listItems
    rw [if_pos hdir]
    rfl
  constructor
  · intro h _
    by_cases hmore : max 0 budgets.maxDirEntries < all.length
    · exact .inl hmore
    · refine .inr fun rel t hunder => mem_visits_root.mp ?_
      exact h all ((hitems (isDir_of_under hunder)).trans (congrArg _ (hshown hmore))) (rel, t) hunder
  · intro h shown hrun f hunder
    have hunder : Under root f.1 f.2 := hunder
    rw [hitems (isDir_of_under hunder)] at hrun
    have hrun := Except.ok.inj hrun
    have hnot : ¬ max 0 budgets.maxDirEntries < all.length := fun hmore => by
      have := hflag.mpr hmore
      rw [hrun] at this
      cases this
    rw [hshown hnot] at hrun
    obtain rfl : all = shown := congrArg Prod.fst hrun
    exact mem_visits_root.mpr ((h rfl).resolve_left hnot f.1 f.2 hunder)

theorem mem_searched {budgets : Budgets} {root : Tree} {f : FoundEntry} : f ∈ searched budgets root ↔
    if root.isDir then Taken budgets.maxDirEntries (visits budgets.maxWalkDepth [] root) f
    else f = ([], root) := by
  unfold searched
  split
  · exact mem_collect_nil
  · exact List.mem_singleton

theorem file_of_mem_hitsOf {regex : PyStr → Bool} {f : FoundEntry} {hit : Hit}
    (h : hit ∈ hitsOf regex f) :
    hit.file = f := by
  unfold hitsOf at h
  split at h
  next =>
    split at h
    next =>
      obtain ⟨p, -, rfl⟩ := List.mem_map.mp h
      rfl
    next => exact absurd h List.not_mem_nil
  next => exact absurd h List.not_mem_nil

/-- A search is complete where the walk takes every file with a match. -/
theorem searchItems_complete (budgets : Budgets) (regex : PyStr → Bool) (requested : Option Int)
    (root : Tree) : Unsilent budgets root (.searchText regex requested) ↔
      LeavesNothingOut budgets root (.searchText regex requested) := by
  let all : List Hit := (searched budgets root).flatMap (hitsOf regex)
  have hrun : searchItems budgets regex requested root =
      cappedFrom (searchCap budgets requested) [] all := searchFiles_eq _ _ _ _
  have hflag : (searchItems budgets regex requested root).2 = true ↔
      max 0 (searchCap budgets requested) < all.length := by
    rw [hrun, cappedFrom_snd, List.nil_append, more_than_cap]
  constructor
  · intro h
    by_cases hmore : max 0 (searchCap budgets requested) < all.length
    · exact .inl hmore
    · have hclear : (searchItems budgets regex requested root).2 = false :=
        Bool.not_eq_true _ ▸ fun hset => hmore (hflag.mp hset)
      have hhits : (searchItems budgets regex requested root).1 = all := by
        rw [hrun] at hclear ⊢
        exact cappedFrom_fst _ _ _ hclear
      refine .inr fun f hunder hmatch => ?_
      obtain ⟨hit, hhit⟩ := List.exists_mem_of_ne_nil _ hmatch
      have hfound : hit ∈ all := h all (Prod.ext hhits hclear) f (.inr hunder) hit hhit
      obtain ⟨g, hg, hgit⟩ := List.mem_flatMap.mp hfound
      obtain rfl : f = g := (file_of_mem_hitsOf hhit).symm.trans (file_of_mem_hitsOf hgit)
      rw [mem_searched, if_pos (isDir_of_under hunder)] at hg
      exact hg
  · intro h hits hresult f hsought hit hhit
    have hnot : ¬ max 0 (searchCap budgets requested) < all.length := fun hmore => by
      have := hflag.mpr hmore
      rw [hresult] at this
      cases this
    have hhits : hits = all := by
      have := cappedFrom_fst (searchCap budgets requested) all []
      rw [← hrun, hresult] at this
      exact this rfl
    have hreached : f ∈ searched budgets root := by
      rw [mem_searched]
      rcases hsought with ⟨hfile, rfl⟩ | hunder
      · rw [hfile]
        rfl
      · rw [if_pos (isDir_of_under hunder)]
        exact h.resolve_left hnot f hunder (List.ne_nil_of_mem hhit)
    rw [hhits]
    exact List.mem_flatMap.mpr ⟨f, hreached, hhit⟩

/-- A listing or a search that is not flagged is complete, exactly when the walk finds more than the
caller shows or leaves out nothing that matters. -/
theorem unsilent_iff (budgets : Budgets) (root : Tree) (request : ListRequest) :
    Unsilent budgets root request ↔ LeavesNothingOut budgets root request := by
  cases request with
  | listDir recursive said =>
    cases recursive with
    | false => exact ⟨fun _ => nofun, fun _ => listItems_flat budgets said root⟩
    | true => exact listItems_recursive budgets said root
  | searchText regex requested => exact searchItems_complete budgets regex requested root

/-- Directories nested deeper than the walk goes: the deepest is not listed, and nothing says so. -/
theorem deep_directory_unlisted : ¬ ∀ (budgets : Budgets) (root : Tree) (request : ListRequest),
    Unsilent budgets root request := by
  intro h
  let deepest : Tree := .dir (lit "d") true []
  let root : Tree := .dir (lit "w") true
    [.dir (lit "a") true [.dir (lit "b") true [.dir (lit "c") true [deepest]]]]
  have hlisted := h ⟨500, 200, 3⟩ root (.listDir true (lit "."))
    [([lit "a"], _), ([lit "a", lit "b"], _), ([lit "a", lit "b", lit "c"], _)] (by rfl)
    ([lit "a", lit "b", lit "c", lit "d"], deepest)
    (.deeper List.mem_cons_self rfl (.deeper List.mem_cons_self rfl (.deeper List.mem_cons_self rfl
      (.entry List.mem_cons_self rfl))))
  simp at hlisted

end Tempest
