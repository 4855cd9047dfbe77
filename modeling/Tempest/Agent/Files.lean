import Tempest.Agent.Paths

/-!
# Files — a tree of files and directories, and the calls that change it

What is under a path is under a directory: the tree carries this.  `put` is how the engine writes a
file back: it makes the parents and copies, and a copy onto a directory lands inside it.
-/

namespace Tempest

open Python

inductive Stored where
  | file (bytes : Bytes)
  | dir
  deriving DecidableEq

structure FileTree where
  node : FilePath → Option Stored
  top : node [] = some .dir
  rooted : ∀ path name, node (path ++ [name]) ≠ none → node path = some .dir

def FileTree.bare : FileTree where
  node p := if p = [] then some .dir else none
  top := rfl
  rooted p name h := absurd (if_neg (by simp)) h

def loneFile (name : PyStr) (bytes : Bytes) : FileTree where
  node p := if p = [] then some .dir else if p = [name] then some (.file bytes) else none
  top := rfl
  rooted := by
    intro p last h
    have hne : p ++ [last] ≠ [] := by simp
    rw [if_neg hne] at h
    have hp : p = [] := by
      by_contra hp
      exact h (if_neg fun heq => hp (by simpa using congrArg List.length heq))
    exact if_pos hp

namespace FileTree

def fileAt (t : FileTree) (path : FilePath) : Option Bytes :=
  match t.node path with
  | some (.file bytes) => some bytes
  | _ => none

/-- `is_file()`. -/
def isFile (t : FileTree) (path : FilePath) : Bool := (t.fileAt path).isSome

/-- `exists()`. -/
def present (t : FileTree) (path : FilePath) : Bool := (t.node path).isSome

/-- The directories on the way to a path, and the path, become directories. -/
def withDirs (t : FileTree) (path : FilePath) : FileTree where
  node q := if q.isPrefixOf path then some .dir else t.node q
  top := if_pos (by simp)
  rooted := by
    intro p name h
    by_cases hp : p.isPrefixOf path = true
    · exact if_pos hp
    · have hchild : ¬ (p ++ [name]).isPrefixOf path = true := fun hchild =>
        hp (List.isPrefixOf_iff_prefix.mpr
          ((List.prefix_append p [name]).trans (List.isPrefixOf_iff_prefix.mp hchild)))
      rw [if_neg hchild] at h
      rw [if_neg hp]
      exact t.rooted p name h

/-- A path that is no directory, in a directory, becomes a file or nothing. -/
def setLeaf (t : FileTree) (path : FilePath) (leaf : Option Bytes)
    (hleaf : t.node path ≠ some .dir) (hparent : t.node path.dropLast = some .dir) : FileTree where
  node := Function.update t.node path (leaf.map .file)
  top := by
    have hne : [] ≠ path := by
      rintro rfl
      exact hleaf t.top
    rw [Function.update_of_ne hne]
    exact t.top
  rooted := by
    intro p name h
    by_cases heq : p ++ [name] = path
    · have hne : p ≠ path := by
        rintro rfl
        simpa using congrArg List.length heq
      rw [Function.update_of_ne hne]
      rwa [← heq, List.dropLast_concat] at hparent
    · rw [Function.update_of_ne heq] at h
      have hne : p ≠ path := by
        rintro rfl
        exact hleaf (t.rooted p name h)
      rw [Function.update_of_ne hne]
      exact t.rooted p name h

/-- `mkdir(parents=True, exist_ok=True)`; it fails at and below a file. -/
def mkdirs (t : FileTree) (path : FilePath) : Option FileTree :=
  if path.inits.any t.isFile then none else some (t.withDirs path)

/-- `open(path, "wb")` and a write; it fails on a directory and outside one. -/
def write (t : FileTree) (path : FilePath) (bytes : Bytes) : Option FileTree :=
  if h : t.node path ≠ some .dir ∧ t.node path.dropLast = some .dir then
    some (t.setLeaf path (some bytes) h.1 h.2)
  else none

/-- `shutil.copy2` of a file with the name of the path; onto a directory it copies into it. -/
def copyTo (t : FileTree) (path : FilePath) (bytes : Bytes) : Option FileTree :=
  if t.node path = some .dir then t.write (path ++ [path.getLastD []]) bytes
  else t.write path bytes

theorem parent_of_isFile {t : FileTree} {path : FilePath} (h : t.isFile path = true) :
    t.node path ≠ some .dir ∧ t.node path.dropLast = some .dir := by
  unfold isFile fileAt at h
  cases hnode : t.node path with
  | none => simp [hnode] at h
  | some stored =>
    cases stored with
    | dir => simp [hnode] at h
    | file bytes =>
      refine ⟨nofun, ?_⟩
      cases path using List.reverseRecOn with
      | nil => rw [t.top] at hnode; cases hnode
      | append_singleton path name =>
        rw [List.dropLast_concat]
        exact t.rooted path name (by rw [hnode]; nofun)

/-- `unlink()`; it fails on what is no file. -/
def unlink (t : FileTree) (path : FilePath) : Option FileTree :=
  if h : t.isFile path = true then
    some (t.setLeaf path none (parent_of_isFile h).1 (parent_of_isFile h).2)
  else none

/-- `path.parent.mkdir(…)` and `shutil.copy2` onto the path: the tree that is left, and whether it
succeeded. -/
def put (t : FileTree) (path : FilePath) (bytes : Bytes) : FileTree × Bool :=
  match t.mkdirs path.dropLast with
  | none => (t, false)
  | some t' =>
    match t'.copyTo path bytes with
    | none => (t', false)
    | some t'' => (t'', true)

/-! ## What the calls leave -/

section Calls

variable {t t' : FileTree} {path q : FilePath} {bytes : Bytes}

theorem fileAt_eq_some_iff : t.fileAt path = some bytes ↔ t.node path = some (.file bytes) := by
  unfold fileAt
  split <;> simp_all

theorem fileAt_of_dir (h : t.node path = some .dir) : t.fileAt path = none := by
  simp [fileAt, h]

/-- Two trees with the same file at a path, and no directory, have the same there. -/
theorem node_eq (h : t.node path ≠ some .dir) (h' : t'.node path ≠ some .dir)
    (hfileAt : t.fileAt path = t'.fileAt path) : t.node path = t'.node path := by
  cases hnode : t.node path with
  | none =>
    cases hnode' : t'.node path with
    | none => rfl
    | some stored =>
      cases stored with
      | dir => exact absurd hnode' h'
      | file bytes => simp [fileAt, hnode, hnode'] at hfileAt
  | some stored =>
    cases stored with
    | dir => exact absurd hnode h
    | file bytes =>
      rw [fileAt_eq_some_iff.mpr hnode] at hfileAt
      exact (fileAt_eq_some_iff.mp hfileAt.symm).symm

theorem isFile_eq_false_of_dir (h : t.node path = some .dir) : t.isFile path = false := by
  simp [isFile, fileAt_of_dir h]

theorem present_of_isFile (h : t.isFile path = true) : t.present path = true := by
  obtain ⟨bytes, hbytes⟩ := Option.isSome_iff_exists.mp h
  rw [present, fileAt_eq_some_iff.mp hbytes]
  rfl

/-- Every directory on the way to what exists is there. -/
theorem dir_above (h : t.present path = true) (hleading : q <+: path) (hne : q ≠ path) :
    t.node q = some .dir := by
  induction path using List.reverseRecOn generalizing q with
  | nil => exact absurd (List.prefix_nil.mp hleading) hne
  | append_singleton path name ih =>
    have hdir : t.node path = some .dir := by
      refine t.rooted path name fun hnone => ?_
      rw [present, hnone] at h
      cases h
    have hq : q <+: path := (List.prefix_concat_iff.mp hleading).resolve_left hne
    by_cases heq : q = path
    · rw [heq]
      exact hdir
    · exact ih (by rw [present, hdir]; rfl) hq heq

theorem mkdirs_eq_some (h : t.mkdirs path = some t') : t' = t.withDirs path ∧
    ∀ q, q <+: path → t.isFile q = false := by
  unfold mkdirs at h
  split at h
  next => cases h
  next hfile =>
    refine ⟨(Option.some.inj h).symm, fun q hq => ?_⟩
    by_contra hisFile
    exact hfile (List.any_eq_true.mpr ⟨q, (List.mem_inits q path).mpr hq, by simpa using hisFile⟩)

/-- Making directories changes no file. -/
theorem fileAt_mkdirs (h : t.mkdirs path = some t') (q : FilePath) : t'.fileAt q = t.fileAt q := by
  obtain ⟨rfl, hfiles⟩ := mkdirs_eq_some h
  by_cases hq : q <+: path
  · have hnone : t.fileAt q = none := by simpa [isFile] using hfiles q hq
    rw [hnone]
    exact fileAt_of_dir (if_pos (List.isPrefixOf_iff_prefix.mpr hq))
  · have hnode : (t.withDirs path).node q = t.node q :=
      if_neg fun h => hq (List.isPrefixOf_iff_prefix.mp h)
    simp [fileAt, hnode]

theorem dir_mkdirs (h : t.mkdirs path = some t') (q : FilePath) :
    t'.node q = some .dir ↔ t.node q = some .dir ∨ q <+: path := by
  obtain ⟨rfl, -⟩ := mkdirs_eq_some h
  by_cases hq : q <+: path
  · have hnode : (t.withDirs path).node q = some .dir := if_pos (List.isPrefixOf_iff_prefix.mpr hq)
    simp [hnode, hq]
  · have hnode : (t.withDirs path).node q = t.node q :=
      if_neg fun h => hq (List.isPrefixOf_iff_prefix.mp h)
    simp [hnode, hq]

/-- Directories can be made where no file is in the way. -/
theorem mkdirs_of_no_file (h : ∀ q, q <+: path → t.isFile q = false) :
    t.mkdirs path = some (t.withDirs path) := by
  refine if_neg fun hany => ?_
  obtain ⟨q, hq, hfile⟩ := List.any_eq_true.mp hany
  rw [h q ((List.mem_inits q path).mp hq)] at hfile
  cases hfile

theorem mkdirs_of_file (hleading : q <+: path) (hfile : t.isFile q = true) : t.mkdirs path = none :=
  if_pos (List.any_eq_true.mpr ⟨q, (List.mem_inits q path).mpr hleading, hfile⟩)

theorem fileAt_setLeaf {leaf : Option Bytes} (hleaf : t.node path ≠ some .dir)
    (hparent : t.node path.dropLast = some .dir) :
    (t.setLeaf path leaf hleaf hparent).fileAt = Function.update t.fileAt path leaf := by
  funext q
  by_cases hq : q = path
  · subst hq
    simp only [fileAt, setLeaf, Function.update_self]
    cases leaf <;> rfl
  · simp only [fileAt, setLeaf, Function.update_of_ne hq]

theorem dir_setLeaf {leaf : Option Bytes} (hleaf : t.node path ≠ some .dir)
    (hparent : t.node path.dropLast = some .dir) (q : FilePath) :
    (t.setLeaf path leaf hleaf hparent).node q = some .dir ↔ t.node q = some .dir := by
  by_cases hq : q = path
  · subst hq
    simp only [setLeaf, Function.update_self]
    cases leaf <;> simp [hleaf]
  · simp only [setLeaf, Function.update_of_ne hq]

theorem write_eq_some (h : t.write path bytes = some t') :
    t'.fileAt = Function.update t.fileAt path (some bytes) ∧
      ∀ q, t'.node q = some .dir ↔ t.node q = some .dir := by
  unfold write at h
  split at h
  next hpath =>
    cases h
    exact ⟨fileAt_setLeaf _ _, dir_setLeaf _ _⟩
  next => cases h

theorem unlink_eq_some (h : t.unlink path = some t') :
    t'.fileAt = Function.update t.fileAt path none ∧
      ∀ q, t'.node q = some .dir ↔ t.node q = some .dir := by
  unfold unlink at h
  split at h
  next hpath =>
    cases h
    exact ⟨fileAt_setLeaf _ _, dir_setLeaf _ _⟩
  next => cases h

theorem prefix_dropLast_iff {path q : FilePath} (hpath : path ≠ []) :
    q <+: path.dropLast ↔ q <+: path ∧ q ≠ path := by
  obtain ⟨above, name, rfl⟩ := (List.eq_nil_or_concat' path).resolve_left hpath
  rw [List.dropLast_concat]
  constructor
  · intro h
    refine ⟨h.trans (List.prefix_append _ _), ?_⟩
    rintro rfl
    simpa using h.length_le
  · rintro ⟨h, hne⟩
    exact (List.prefix_concat_iff.mp h).resolve_left hne

/-- A file can be put where no file is on its way and the path is no directory. -/
theorem put_succeeds (bytes : Bytes) (hnode : t.node path ≠ some .dir)
    (hway : ∀ q, q <+: path → q ≠ path → t.isFile q = false) :
    ∃ t', t.put path bytes = (t', true) ∧ t'.fileAt = Function.update t.fileAt path (some bytes) ∧
      ∀ q, t'.node q = some .dir ↔ t.node q = some .dir ∨ (q <+: path ∧ q ≠ path) := by
  have hpath : path ≠ [] := by
    rintro rfl
    exact hnode t.top
  have hmkdirs : t.mkdirs path.dropLast = some (t.withDirs path.dropLast) :=
    mkdirs_of_no_file fun q hq => by
      obtain ⟨hq, hne⟩ := (prefix_dropLast_iff hpath).mp hq
      exact hway q hq hne
  have hdirs := dir_mkdirs hmkdirs
  have hleaf : (t.withDirs path.dropLast).node path ≠ some .dir := by
    intro h
    rcases (hdirs path).mp h with h | h
    · exact hnode h
    · exact ((prefix_dropLast_iff hpath).mp h).2 rfl
  have hparent : (t.withDirs path.dropLast).node path.dropLast = some .dir :=
    (hdirs _).mpr (.inr List.prefix_rfl)
  have hcopy : (t.withDirs path.dropLast).copyTo path bytes =
      some ((t.withDirs path.dropLast).setLeaf path (some bytes) hleaf hparent) := by
    unfold copyTo write
    rw [if_neg hleaf, dif_pos ⟨hleaf, hparent⟩]
  refine ⟨(t.withDirs path.dropLast).setLeaf path (some bytes) hleaf hparent, ?_, ?_, fun q => ?_⟩
  · unfold put
    rw [hmkdirs]
    simp only [hcopy]
  · rw [fileAt_setLeaf, show (t.withDirs path.dropLast).fileAt = t.fileAt from
      funext (fileAt_mkdirs hmkdirs)]
  · rw [dir_setLeaf, hdirs q, prefix_dropLast_iff hpath]

end Calls

end FileTree

end Tempest
