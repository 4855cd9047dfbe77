import Tempest.Agent.Paths
import Tempest.Python.FsDecode

/-!
# PathKeys — how a path is written in the ledger (`determinism/_shims.py`)

`normalizePath` is text for text: what begins with the working directory is written from `./` on,
anything else as it is.  `located_key` says that the result leads where the path leads, unless the
path goes on from the text of the working directory with anything but a slash.  So one key means one
file in one worktree; two spellings of a file may still have two keys.
-/

namespace Tempest
namespace PathKeys

open Python

/-- `os.fspath(path)`. -/
inductive PathArg where
  | str (text : PyStr)
  | bytes (data : Bytes)

def PathArg.text : PathArg → PyStr
  | .str text => text
  | .bytes data => decodeReplace data

def PathArg.name : PathArg → PyStr
  | .str text => text
  | .bytes data => fsdecode data

/-- `_normalize_path`; `cwd` is what `os.getcwd` gives, if it gives anything. -/
def normalizePath (cwd : Option PyStr) (path : PathArg) : PyStr :=
  match cwd with
  | none => path.text
  | some cwd =>
    if startsWith cwd path.text then
      lit "./" ++ (path.text.drop cwd.length).dropWhile fun c => c = slash
    else path.text

/-! ## Worktrees -/

/-- `/a/b`; there is nothing of the root of the filesystem itself. -/
def pathText (path : FilePath) : PyStr := path.flatMap fun name => slash :: name

/-- A worktree on disk, resolved as `os.getcwd` gives it. -/
structure Worktree (fs : Layout) where
  root : FilePath
  root_ne_nil : root ≠ []
  resolved : Resolved fs root
  named : ∀ name ∈ root, slash ∉ name

namespace Worktree

variable {fs : Layout} (w : Worktree fs)

def cwd : PyStr := pathText w.root

def key (path : PathArg) : PyStr := normalizePath (some w.cwd) path

def located (text : PyStr) : Option FilePath :=
  realpath fs (if startsWith [slash] text then text.splitOn slash else w.root ++ text.splitOn slash)

/-- The text goes on from that of the worktree inside a name: `/w/base-x` after `/w/base`. -/
def Beside (text : PyStr) : Prop :=
  ∃ c rest, text = w.cwd ++ c :: rest ∧ c ≠ slash

end Worktree

inductive PathArg.Readable : PathArg → Prop where
  | str (text : PyStr) : Readable (.str text)
  | bytes {text : PyStr} (h : encodable text) : Readable (.bytes (utf8 text))

theorem PathArg.Readable.text_eq {path : PathArg} (h : path.Readable) : path.text = path.name := by
  cases h with
  | str text => rfl
  | bytes h => exact (decodeReplace_utf8 h).trans (fsdecode_utf8 h).symm

/-! ## Tidy spellings -/

def absText (path : FilePath) : PyStr := if path = [] then [slash] else pathText path

/-- A text that spells the path it leads to: from `./` on, or absolute, without a link or a name too
many on its way. -/
inductive Worktree.Tidy {fs : Layout} (w : Worktree fs) : PyStr → FilePath → Prop where
  | dot {names : FilePath} (h : Resolved fs (w.root ++ names))
      (named : ∀ name ∈ names, slash ∉ name) :
      Tidy w (lit "./" ++ (pathText names).drop 1) (w.root ++ names)
  | below {names : FilePath} (h : Resolved fs (w.root ++ names))
      (named : ∀ name ∈ names, slash ∉ name) :
      Tidy w (w.cwd ++ pathText names) (w.root ++ names)
  | outside {path : FilePath} (h : Resolved fs path) (named : ∀ name ∈ path, slash ∉ name)
      (out : ¬ w.root <+: path) : Tidy w (absText path) path

/-- One location relative to the two worktrees, or one location outside of both. -/
def SamePlace {fs : Layout} (w w' : Worktree fs) (path path' : FilePath) : Prop :=
  (∃ names, path = w.root ++ names ∧ path' = w'.root ++ names) ∨
    ¬ w.root <+: path ∧ ¬ w'.root <+: path' ∧ path = path'

/-! ## The names of a text -/

theorem splitOn_pathText {path : FilePath} (h : ∀ name ∈ path, slash ∉ name) :
    (pathText path).splitOn slash = [] :: path := by
  induction path with
  | nil => exact List.splitOn_nil slash
  | cons name path ih =>
    simp only [List.mem_cons, forall_eq_or_imp] at h
    have hsplit : pathText (name :: path) = [] ++ slash :: (name ++ pathText path) := rfl
    rw [hsplit, List.splitOn_append_cons_self, List.splitOn_nil]
    cases path with
    | nil =>
      rw [pathText, List.flatMap_nil, List.append_nil, List.splitOn_eq_singleton h.1]
      rfl
    | cons next path =>
      have hnext : pathText (next :: path) = slash :: (next ++ pathText path) := rfl
      have hrest := ih h.2
      rw [hnext] at hrest ⊢
      rw [List.splitOn_append_cons_self, List.splitOn_eq_singleton h.1]
      have htail : [] :: (next ++ pathText path).splitOn slash = [] :: next :: path := by
        rw [← hrest]
        have hcons := List.splitOn_append_cons_self [] (next ++ pathText path) (a := slash)
        rw [List.nil_append, List.splitOn_nil] at hcons
        exact hcons.symm
      rw [(List.cons.inj htail).2]
      rfl

theorem pathText_injective {path path' : FilePath} (h : ∀ name ∈ path, slash ∉ name)
    (h' : ∀ name ∈ path', slash ∉ name) (heq : pathText path = pathText path') : path = path' := by
  have hsplit := congrArg (List.splitOn slash) heq
  rw [splitOn_pathText h, splitOn_pathText h'] at hsplit
  exact (List.cons.inj hsplit).2

theorem splitOn_dot (text : PyStr) :
    (lit "./" ++ text).splitOn slash = lit "." :: text.splitOn slash := by
  have hsplit : lit "./" ++ text = lit "." ++ slash :: text := rfl
  rw [hsplit, List.splitOn_append_cons_self]
  rfl

theorem splitOn_slash (text : PyStr) : (slash :: text).splitOn slash = [] :: text.splitOn slash := by
  have hsplit := List.splitOn_append_cons_self [] text (a := slash)
  rwa [List.nil_append, List.splitOn_nil] at hsplit

theorem not_startsWith_dot (text : PyStr) : startsWith [slash] (lit "./" ++ text) = false := rfl

theorem startsWith_pathText {path : FilePath} (h : path ≠ []) (text : PyStr) :
    startsWith [slash] (pathText path ++ text) = true := by
  cases path with
  | nil => exact absurd rfl h
  | cons name path => simp [startsWith, pathText]

/-! ## Where a text leads -/

section Following

variable {fs : Layout} {fuel : Nat}

theorem follow_skip {name : PyStr} (h : name = [] ∨ name = lit ".") (names : List PyStr)
    (path : FilePath) :
    (name :: names).foldlM (followName fs fuel) path = names.foldlM (followName fs fuel) path := by
  rw [List.foldlM_cons, followName_eq, if_pos h]
  rfl

/-- Leading slashes lead nowhere. -/
theorem follow_lstrip (text : PyStr) (path : FilePath) :
    ((text.dropWhile fun c => c = slash).splitOn slash).foldlM (followName fs fuel) path =
      (text.splitOn slash).foldlM (followName fs fuel) path := by
  induction text with
  | nil => rfl
  | cons c text ih =>
    by_cases hslash : c = slash
    · subst hslash
      rw [List.dropWhile_cons_of_pos (by simp), splitOn_slash, follow_skip (Or.inl rfl), ih]
    · rw [List.dropWhile_cons_of_neg (by simpa using hslash)]

end Following

namespace Worktree

variable {fs : Layout} {w : Worktree fs}

theorem realpath_below (w : Worktree fs) (names : List PyStr) :
    realpath fs (w.root ++ names) = names.foldlM (followName fs fs.length) w.root := by
  have hroot : w.root.foldlM (followName fs fs.length) [] = some w.root :=
    follow_resolved w.root w.resolved
  rw [realpath, List.foldlM_append, hroot]
  rfl

theorem located_dot (w : Worktree fs) (text : PyStr) :
    w.located (lit "./" ++ text) =
      (text.splitOn slash).foldlM (followName fs fs.length) w.root := by
  rw [located, not_startsWith_dot, if_neg (by decide), splitOn_dot, realpath_below,
    follow_skip (Or.inr rfl)]

/-- What is written after the text of the worktree leads on from the worktree. -/
theorem located_cwd_slash (w : Worktree fs) (text : PyStr) :
    w.located (w.cwd ++ slash :: text) =
      (text.splitOn slash).foldlM (followName fs fs.length) w.root := by
  rw [located, cwd, startsWith_pathText w.root_ne_nil, if_pos rfl, List.splitOn_append_cons_self,
    splitOn_pathText w.named, List.cons_append, realpath, follow_skip (Or.inl rfl)]
  exact realpath_below w _

theorem located_cwd (w : Worktree fs) : w.located w.cwd = some w.root := by
  have hstart := startsWith_pathText w.root_ne_nil []
  rw [List.append_nil] at hstart
  rw [located, cwd, hstart, if_pos rfl, splitOn_pathText w.named, realpath, follow_skip (Or.inl rfl)]
  exact follow_resolved w.root w.resolved

theorem located_key {path : PathArg} (h : ¬ w.Beside path.text) :
    w.located (w.key path) = w.located path.text := by
  simp only [key, normalizePath]
  by_cases hstart : startsWith w.cwd path.text
  · rw [if_pos hstart]
    obtain ⟨rest, hrest⟩ := List.isPrefixOf_iff_prefix.1 hstart
    rw [← hrest, List.drop_left, located_dot, follow_lstrip]
    cases rest with
    | nil =>
      rw [List.append_nil, located_cwd, List.splitOn_nil]
      exact follow_skip (Or.inl rfl) [] w.root
    | cons c rest =>
      have hslash : c = slash := by
        by_contra hother
        exact h ⟨c, rest, hrest.symm, hother⟩
      rw [hslash, located_cwd_slash, splitOn_slash, follow_skip (Or.inl rfl)]
  · rw [if_neg hstart]

/-! ## Keys of tidy spellings -/

theorem ne_nil_of_resolved {path : FilePath} (h : Resolved fs path) {name : PyStr}
    (hname : name ∈ path) : name ≠ [] := by
  obtain ⟨above, rest, rfl⟩ := List.append_of_mem hname
  exact (h above name ⟨rest, by simp⟩).1

theorem absText_ne_dot (path : FilePath) (text : PyStr) : absText path ≠ lit "./" ++ text := by
  intro heq
  have hstart : startsWith [slash] (absText path) = true := by
    unfold absText
    split_ifs with hnil
    · rfl
    · have hpath := startsWith_pathText hnil []
      rwa [List.append_nil] at hpath
  rw [heq, not_startsWith_dot] at hstart
  cases hstart

theorem pathText_drop_injective {names names' : FilePath} (h : ∀ name ∈ names, slash ∉ name)
    (h' : ∀ name ∈ names', slash ∉ name) (hne : ∀ name ∈ names, name ≠ [])
    (hne' : ∀ name ∈ names', name ≠ [])
    (heq : (pathText names).drop 1 = (pathText names').drop 1) : names = names' := by
  cases names with
  | nil =>
    cases names' with
    | nil => rfl
    | cons name names' =>
      have hnil : [] = name ++ pathText names' := heq
      exact absurd (List.append_eq_nil_iff.1 hnil.symm).1 (hne' name List.mem_cons_self)
  | cons name names =>
    cases names' with
    | nil =>
      have hnil : name ++ pathText names = [] := heq
      exact absurd (List.append_eq_nil_iff.1 hnil).1 (hne name List.mem_cons_self)
    | cons name' names' => exact pathText_injective h h' (congrArg (slash :: ·) heq)

theorem absText_injective {path path' : FilePath} (h : ∀ name ∈ path, slash ∉ name)
    (h' : ∀ name ∈ path', slash ∉ name) (hne : ∀ name ∈ path, name ≠ [])
    (hne' : ∀ name ∈ path', name ≠ []) (heq : absText path = absText path') : path = path' := by
  have hdrop : ∀ q : FilePath, (absText q).drop 1 = (pathText q).drop 1 := by
    intro q
    unfold absText
    split_ifs with hnil
    · rw [hnil]
      rfl
    · rfl
  apply pathText_drop_injective h h' hne hne'
  rw [← hdrop, ← hdrop, heq]

theorem tidy_located {text : PyStr} {path : FilePath} (h : w.Tidy text path) :
    w.located text = some path := by
  have hbelow : ∀ {names : FilePath}, Resolved fs (w.root ++ names) → (∀ name ∈ names, slash ∉ name) →
      (((pathText names).drop 1).splitOn slash).foldlM (followName fs fs.length) w.root =
        some (w.root ++ names) := by
    intro names hresolved hnamed
    cases names with
    | nil =>
      rw [List.append_nil]
      exact follow_skip (Or.inl rfl) [] w.root
    | cons name names =>
      have hsplit := splitOn_pathText hnamed
      have hcons : pathText (name :: names) = slash :: (pathText (name :: names)).drop 1 := rfl
      rw [hcons, splitOn_slash] at hsplit
      rw [(List.cons.inj hsplit).2]
      exact follow_resolved _ hresolved
  cases h with
  | dot h named => rw [located_dot, hbelow h named]
  | @below names h named =>
    cases names with
    | nil =>
      have hnone : w.cwd ++ pathText [] = w.cwd := List.append_nil _
      rw [hnone, located_cwd, List.append_nil]
    | cons name names =>
      have hcons : pathText (name :: names) = slash :: (pathText (name :: names)).drop 1 := rfl
      rw [hcons, located_cwd_slash, hbelow h named]
  | outside h named out =>
    unfold absText
    split_ifs with hnil
    · have hstart : startsWith [slash] [slash] = true := rfl
      have hsplit : [slash].splitOn slash = [[], []] := rfl
      rw [hnil, located, if_pos hstart, hsplit, realpath, follow_skip (Or.inl rfl)]
      exact follow_skip (Or.inl rfl) [] []
    · have hstart := startsWith_pathText hnil []
      rw [List.append_nil] at hstart
      rw [located, hstart, if_pos rfl, splitOn_pathText named, realpath, follow_skip (Or.inl rfl)]
      exact follow_resolved _ h

theorem not_startsWith_outside {path : FilePath} (named : ∀ name ∈ path, slash ∉ name)
    (out : ¬ w.root <+: path) (hbeside : ¬ w.Beside (absText path)) :
    startsWith w.cwd (absText path) = false := by
  rw [Bool.eq_false_iff]
  intro hstart
  obtain ⟨rest, hrest⟩ := List.isPrefixOf_iff_prefix.1 hstart
  have hnames : ∃ names, (absText path).splitOn slash = [] :: names ∧
      (w.root <+: names → w.root <+: path) := by
    by_cases hnil : path = []
    · refine ⟨[[]], by rw [hnil]; rfl, ?_⟩
      intro hprefix
      obtain ⟨rest, hroot⟩ := hprefix
      cases hw : w.root with
      | nil => exact absurd hw w.root_ne_nil
      | cons name names =>
        rw [hw] at hroot
        have hempty : name = [] := (List.cons.inj hroot).1
        have hmem : name ∈ w.root := hw ▸ List.mem_cons_self
        exact absurd hempty (ne_nil_of_resolved w.resolved hmem)
    · rw [absText, if_neg hnil]
      exact ⟨path, splitOn_pathText named, id⟩
  obtain ⟨names, hsplit, hprefix⟩ := hnames
  apply out
  apply hprefix
  rw [← hrest] at hsplit
  cases rest with
  | nil =>
    rw [List.append_nil, cwd, splitOn_pathText w.named] at hsplit
    exact ⟨[], by rw [List.append_nil, (List.cons.inj hsplit).2]⟩
  | cons c rest =>
    have hslash : c = slash := by
      by_contra hother
      exact hbeside ⟨c, rest, hrest.symm, hother⟩
    rw [hslash, List.splitOn_append_cons_self, cwd, splitOn_pathText w.named, List.cons_append]
      at hsplit
    exact ⟨_, (List.cons.inj hsplit).2⟩

theorem startsWith_cwd_dot (w : Worktree fs) (text : PyStr) :
    startsWith w.cwd (lit "./" ++ text) = false := by
  cases hw : w.root with
  | nil => exact absurd hw w.root_ne_nil
  | cons name names =>
    rw [cwd, hw]
    rfl

/-- A tidy text inside is written from `./` on, one outside as it is. -/
theorem tidy_key {path : PathArg} {place : FilePath} (h : w.Tidy path.text place)
    (hbeside : ¬ w.Beside path.text) :
    (∃ names, place = w.root ++ names ∧ (∀ name ∈ names, slash ∉ name) ∧ (∀ name ∈ names, name ≠ []) ∧
        w.key path = lit "./" ++ (pathText names).drop 1) ∨
      ¬ w.root <+: place ∧ (∀ name ∈ place, slash ∉ name) ∧ (∀ name ∈ place, name ≠ []) ∧
        w.key path = absText place := by
  generalize htext : path.text = text at h hbeside
  have hne : ∀ {names : FilePath}, Resolved fs (w.root ++ names) → ∀ name ∈ names, name ≠ [] :=
    fun hresolved name hname => ne_nil_of_resolved hresolved (List.mem_append_right _ hname)
  simp only [key, normalizePath, htext]
  cases h with
  | @dot names h named =>
    left
    refine ⟨names, rfl, named, hne h, ?_⟩
    rw [startsWith_cwd_dot, if_neg (by decide)]
  | @below names h named =>
    left
    refine ⟨names, rfl, named, hne h, ?_⟩
    have hstart : startsWith w.cwd (w.cwd ++ pathText names) = true :=
      List.isPrefixOf_iff_prefix.2 (List.prefix_append _ _)
    rw [hstart, if_pos rfl, List.drop_left]
    congr 1
    cases names with
    | nil => rfl
    | cons name names =>
      have hfirst := hne h name List.mem_cons_self
      have hslash := named name List.mem_cons_self
      cases name with
      | nil => exact absurd rfl hfirst
      | cons c name =>
        have hc : c ≠ slash := fun heq => hslash (heq ▸ List.mem_cons_self)
        have htail : pathText ((c :: name) :: names) =
            slash :: c :: (name ++ pathText names) := rfl
        rw [htail, List.dropWhile_cons_of_pos (by simp),
          List.dropWhile_cons_of_neg (by simpa using hc)]
        rfl
  | outside h named out =>
    right
    refine ⟨out, named, fun name hname => ne_nil_of_resolved h hname, ?_⟩
    rw [not_startsWith_outside named out hbeside, if_neg (by decide)]

end Worktree

/-- In one worktree one key leads to one file, however the paths are spelled.  Between two
worktrees the keys of tidy spellings agree exactly for the same location relative to both or outside
of both, and so do the keys of what follows the two worktrees' texts alike. -/
theorem key_names_file {fs : Layout} (w w' : Worktree fs) :
    (∀ p q : PathArg, p.Readable → q.Readable → ¬ w.Beside p.text → ¬ w.Beside q.text →
      w.key p = w.key q → w.located p.name = w.located q.name) ∧
    (∀ (p q : PathArg) (path path' : FilePath), p.Readable → q.Readable → ¬ w.Beside p.text →
      ¬ w'.Beside q.text → w.Tidy p.text path → w'.Tidy q.text path' →
        w.located p.name = some path ∧ w'.located q.name = some path' ∧
          (w.key p = w'.key q ↔ SamePlace w w' path path')) ∧
    ∀ text, w.key (.str (w.cwd ++ slash :: text)) = w'.key (.str (w'.cwd ++ slash :: text)) := by
  refine ⟨?_, ?_, ?_⟩
  · intro p q hp hq hpside hqside hkey
    rw [← hp.text_eq, ← hq.text_eq, ← Worktree.located_key hpside, hkey, Worktree.located_key hqside]
  · intro p q path path' hp hq hpside hqside hptidy hqtidy
    refine ⟨?_, ?_, ?_⟩
    · rw [← hp.text_eq]
      exact Worktree.tidy_located hptidy
    · rw [← hq.text_eq]
      exact Worktree.tidy_located hqtidy
    · rcases Worktree.tidy_key hptidy hpside with
        ⟨names, rfl, hnamed, hne, hkey⟩ | ⟨hout, hnamed, hne, hkey⟩
      · rcases Worktree.tidy_key hqtidy hqside with
          ⟨names', rfl, hnamed', hne', hkey'⟩ | ⟨hout', hnamed', hne', hkey'⟩
        · rw [hkey, hkey']
          constructor
          · intro heq
            have hsame := Worktree.pathText_drop_injective hnamed hnamed' hne hne'
              (List.append_cancel_left heq)
            exact Or.inl ⟨names, rfl, by rw [hsame]⟩
          · rintro (⟨both, hboth, hboth'⟩ | ⟨hout, -, -⟩)
            · rw [List.append_cancel_left hboth, List.append_cancel_left hboth']
            · exact absurd (List.prefix_append _ _) hout
        · rw [hkey, hkey']
          constructor
          · intro heq
            exact absurd heq.symm (Worktree.absText_ne_dot _ _)
          · rintro (⟨both, -, hboth'⟩ | ⟨hout, -, -⟩)
            · exact absurd ⟨both, hboth'.symm⟩ hout'
            · exact absurd (List.prefix_append _ _) hout
      · rcases Worktree.tidy_key hqtidy hqside with
          ⟨names', rfl, hnamed', hne', hkey'⟩ | ⟨hout', hnamed', hne', hkey'⟩
        · rw [hkey, hkey']
          constructor
          · intro heq
            exact absurd heq (Worktree.absText_ne_dot _ _)
          · rintro (⟨both, hboth, -⟩ | ⟨-, hout', -⟩)
            · exact absurd ⟨both, hboth.symm⟩ hout
            · exact absurd (List.prefix_append _ _) hout'
        · rw [hkey, hkey']
          constructor
          · intro heq
            exact Or.inr ⟨hout, hout', Worktree.absText_injective hnamed hnamed' hne hne' heq⟩
          · rintro (⟨both, hboth, -⟩ | ⟨-, -, heq⟩)
            · exact absurd ⟨both, hboth.symm⟩ hout
            · rw [heq]
  · intro text
    have hone : ∀ w : Worktree fs, w.key (.str (w.cwd ++ slash :: text)) =
        lit "./" ++ (slash :: text).dropWhile fun c => c = slash := by
      intro w
      have hstart : startsWith w.cwd (w.cwd ++ slash :: text) = true :=
        List.isPrefixOf_iff_prefix.2 (List.prefix_append _ _)
      simp only [Worktree.key, normalizePath, PathArg.text, hstart, if_true, List.drop_left]
    rw [hone w, hone w']

/-! ## Two worktrees side by side -/

theorem resolved_of_names {path : FilePath} (h : ∀ name ∈ path, name ≠ [] ∧ name ≠ lit "." ∧
    name ≠ lit ".." ∧ askable name = true) : Resolved [] path := by
  intro above name happended
  have hname := h name (happended.subset (List.mem_append_right above (List.mem_singleton_self name)))
  exact ⟨hname.1, hname.2.1, hname.2.2.1, hname.2.2.2, rfl⟩

def baseTree : Worktree [] where
  root := [lit "w", lit "base"]
  root_ne_nil := List.cons_ne_nil _ _
  resolved := resolved_of_names (by decide +kernel)
  named := by decide +kernel

def headTree : Worktree [] where
  root := [lit "w", lit "head"]
  root_ne_nil := List.cons_ne_nil _ _
  resolved := resolved_of_names (by decide +kernel)
  named := by decide +kernel

theorem key_names_file_trees :
    baseTree.key (.str (lit "/w/base/a")) = headTree.key (.str (lit "./a")) := by
  have hbase : baseTree.Tidy (lit "/w/base/a") (baseTree.root ++ [lit "a"]) :=
    @Worktree.Tidy.below _ baseTree [lit "a"] (resolved_of_names (by decide)) (by decide)
  have hhead : headTree.Tidy (lit "./a") (headTree.root ++ [lit "a"]) :=
    @Worktree.Tidy.dot _ headTree [lit "a"] (resolved_of_names (by decide)) (by decide)
  have hbeside : ¬ baseTree.Beside (lit "/w/base/a") := by
    rintro ⟨c, rest, htext, hother⟩
    have hrest : slash :: lit "a" = c :: rest := @List.append_cancel_left _ baseTree.cwd _ _ htext
    exact hother (List.cons.inj hrest).1.symm
  have hbeside' : ¬ headTree.Beside (lit "./a") := by
    rintro ⟨c, rest, htext, hother⟩
    cases (List.cons.inj htext).1
  have hspec := ((key_names_file baseTree headTree).2.1 (.str (lit "/w/base/a")) (.str (lit "./a"))
    _ _ (.str _) (.str _) hbeside hbeside' hbase hhead).2.2
  exact hspec.2 (Or.inl ⟨[lit "a"], rfl, rfl⟩)

/-- A sibling has the key of a file inside; one file has two keys; one key leads into base and out of
head; names that are no text share a key. -/
theorem key_names_no_file :
    (baseTree.key (.str (lit "/w/base-x/f")) = baseTree.key (.str (lit "./-x/f")) ∧
        baseTree.located (lit "/w/base-x/f") = some [lit "w", lit "base-x", lit "f"] ∧
        baseTree.located (lit "./-x/f") = some [lit "w", lit "base", lit "-x", lit "f"]) ∧
      (baseTree.key (.str (lit "a")) ≠ baseTree.key (.str (lit "./a")) ∧
        baseTree.located (lit "a") = baseTree.located (lit "./a")) ∧
      (baseTree.key (.str (lit "../base/a")) = headTree.key (.str (lit "../base/a")) ∧
        baseTree.located (lit "../base/a") = some (baseTree.root ++ [lit "a"]) ∧
        headTree.located (lit "../base/a") = some (baseTree.root ++ [lit "a"])) ∧
      (baseTree.key (.bytes [0xFE]) = baseTree.key (.bytes [0xFF]) ∧
        baseTree.located (PathArg.bytes [0xFE]).name ≠
          baseTree.located (PathArg.bytes [0xFF]).name) := by
  refine ⟨⟨?_, ?_, ?_⟩, ⟨?_, ?_⟩, ⟨?_, ?_, ?_⟩, ?_, ?_⟩ <;> decide +kernel

end PathKeys
end Tempest
