import Tempest.Agent.Journaled

/-!
# Accept — staged changes go into the user's tree (`agent/shadow.py`)

The changeset is validated as a whole, then copied file by file under the journal, which takes
everything back when a copy fails.  What is copied is a file of the shadow: a path that the shadow no
longer has, or has as a directory, cannot be copied.
-/

namespace Tempest

open Python

/-! ## The changeset -/

structure Changeset where
  shadow : FileTree
  baseline : FileTree
  /-- The lines of `git diff --name-only`, read as paths. -/
  changed : List FilePath
  /-- What `git show` prints of a directory. -/
  listing : FilePath → Bytes
  /-- Git lists the files of the two trees; a name that it quotes lies apart from the others. -/
  listed : ∀ p ∈ changed, shadow.isFile p = true ∨ baseline.isFile p = true ∨
    ∀ q ∈ changed, p <+: q ∨ q <+: p → p = q

inductive AcceptError where
  /-- `ShadowError` of paths that are not changed. -/
  | unknown (files : List PyStr)
  | conflict (files : List PyStr)
  | copying
  deriving DecidableEq

/-- The message, over names in their order. -/
def AcceptError.message : AcceptError → PyStr
  | .unknown files => lit "not changed in this shadow: " ++ join (lit ", ") files
  | .conflict files =>
    lit "the user edited these since staging, so nothing was applied: " ++ join (lit ", ") files
  | .copying => []

structure Acceptance where
  id : PyStr
  files : List FilePath
  deriving DecidableEq

namespace Changeset

variable (c : Changeset)

/-- `git show baseline:rel`. -/
def baselineBlob (rel : FilePath) : Option Bytes :=
  match c.baseline.node rel with
  | none => none
  | some (.file bytes) => some bytes
  | some .dir => some (c.listing rel)

/-- `_user_moved_since_baseline`. -/
def userMoved (user : FileTree) (rel : FilePath) : Bool :=
  match c.baselineBlob rel with
  | none => user.present rel
  | some blob =>
    match user.fileAt rel with
    | none => true
    | some bytes => bytes ≠ blob

/-- `dst.parent.mkdir(…)` and `shutil.copy2(src, dst)`; what is no file of the shadow is not copied. -/
def copyFile (t : FileTree) (rel : FilePath) : FileTree × Bool :=
  match c.shadow.fileAt rel with
  | some bytes => t.put rel bytes
  | none =>
    match t.mkdirs rel.dropLast with
    | none => (t, false)
    | some t' => (t', false)

def copyFiles : List FilePath → FileTree → FileTree × Bool
  | [], t => (t, true)
  | rel :: rels, t =>
    match c.copyFile t rel with
    | (t', true) => copyFiles rels t'
    | (t', false) => (t', false)

def selection (files : Option (List FilePath)) : List FilePath := files.getD c.changed

/-- `sorted`, of the names of paths. -/
def sortedNames (files : List FilePath) : List PyStr :=
  (files.map (join [slash])).insertionSort (· ≤ ·)

/-- `accept`, for the id that its journal entry gets. -/
def accept (taskId id : PyStr) (w : JournalWorld) (files : Option (List FilePath)) :
    Except AcceptError Acceptance × JournalWorld :=
  let selected := c.selection files
  let unknown := selected.filter (· ∉ c.changed)
  if unknown ≠ [] then (.error (.unknown (sortedNames unknown)), w)
  else
    let conflicts := selected.filter (c.userMoved w.tree)
    if conflicts ≠ [] then (.error (.conflict (sortedNames conflicts)), w)
    else
      let summary := lit "accepted " ++ natText selected.length ++ lit " file(s) from shadow " ++ taskId
      match w.record id (lit "acceptance") summary selected (c.copyFiles selected) with
      | (w', true) => (.ok ⟨id, selected⟩, w')
      | (w', false) => (.error .copying, w')

end Changeset

/-! ## Copying a selection -/

section Copying

variable {c : Changeset} {user t t' : FileTree} {selected : List FilePath} {rel : FilePath}

/-- Where nobody has moved a path, it is no directory. -/
theorem not_dir_of_unmoved (h : c.userMoved user rel = false) : user.node rel ≠ some .dir := by
  intro hdir
  unfold Changeset.userMoved at h
  cases hblob : c.baselineBlob rel with
  | none =>
    rw [hblob] at h
    simp [FileTree.present, hdir] at h
  | some blob =>
    rw [hblob] at h
    simp [FileTree.fileAt_of_dir hdir] at h

def Covered (user : FileTree) (selected : List FilePath) : Prop :=
  ∀ p ∈ selected, ∀ q ∈ selected, p <+: q → p ≠ q → user.isFile p = true

theorem covered_of_unmoved (hchanged : ∀ p ∈ selected, p ∈ c.changed)
    (hunmoved : ∀ p ∈ selected, c.userMoved user p = false) : Covered user selected := by
  intro p hp q hq hpq hne
  by_contra hfile
  -- Nothing stands at `p` for the user, so neither for the baseline.
  have hunmovedp := hunmoved p hp
  unfold Changeset.userMoved at hunmovedp
  have hblob : c.baselineBlob p = none := by
    cases hblob : c.baselineBlob p with
    | none => rfl
    | some blob =>
      have hnone : user.fileAt p = none := by simpa [FileTree.isFile] using hfile
      simp [hblob, hnone] at hunmovedp
  have hbaseline : c.baseline.node p = none := by
    unfold Changeset.baselineBlob at hblob
    cases hnode : c.baseline.node p with
    | none => rfl
    | some stored => cases stored <;> simp [hnode] at hblob
  have habove : ∀ t : FileTree, t.isFile q = true → t.node p = some .dir := fun t hq =>
    FileTree.dir_above (FileTree.present_of_isFile hq) hpq hne
  rcases c.listed p (hchanged p hp) with hshadow | hbase | hapart
  · -- `p` is a file of the shadow, and then `q` is a file of neither tree.
    rcases c.listed q (hchanged q hq) with hq' | hq' | hapart
    · rw [FileTree.isFile_eq_false_of_dir (habove _ hq')] at hshadow
      cases hshadow
    · rw [habove _ hq'] at hbaseline
      cases hbaseline
    · exact hne (hapart p (hchanged p hp) (.inr hpq)).symm
  · simp [FileTree.isFile, FileTree.fileAt, hbaseline] at hbase
  · exact hne (hapart q (hchanged q hq) (.inl hpq))

structure Copied (user : FileTree) (selected : List FilePath) (t : FileTree) : Prop where
  clear : ∀ p ∈ selected, t.node p ≠ some .dir
  confined : Confined selected user t
  stays : ∀ p, user.isFile p = true → t.isFile p = true

theorem Copied.start (h : ∀ p ∈ selected, user.node p ≠ some .dir) : Copied user selected user :=
  ⟨h, .refl selected user, fun _ hp => hp⟩

theorem Copied.isFile_above (h : Copied user selected t) (hcovered : Covered user selected)
    (hrel : rel ∈ selected) {q : FilePath} (hq : q <+: rel) (hne : q ≠ rel) :
    t.isFile q = user.isFile q := by
  by_cases hselected : q ∈ selected
  · have hfile := hcovered q hselected rel hrel hq hne
    rw [hfile, h.stays q hfile]
  · unfold FileTree.isFile
    rw [h.confined.others q hselected]

/-- The parents of a selected path are made. -/
theorem Copied.mkdirs (h : Copied user selected t) (hcovered : Covered user selected)
    (hrel : rel ∈ selected) (hmkdirs : t.mkdirs rel.dropLast = some t') : Copied user selected t' where
  clear p hp hdir := by
    have hne : rel ≠ [] := by
      rintro rfl
      exact h.clear [] hrel t.top
    rcases (FileTree.dir_mkdirs hmkdirs p).mp hdir with hdir | habove
    · exact h.clear p hp hdir
    · -- A selected path on the way is a file, and nothing is made below a file.
      obtain ⟨hleading, hother⟩ := (FileTree.prefix_dropLast_iff hne).mp habove
      have hfile := h.stays p (hcovered p hp rel hrel hleading hother)
      rw [(FileTree.mkdirs_eq_some hmkdirs).2 p habove] at hfile
      cases hfile
  confined := h.confined.trans
    ⟨fun p _ => FileTree.fileAt_mkdirs hmkdirs p,
      fun q hq => (FileTree.dir_mkdirs hmkdirs q).mpr (.inl hq)⟩
  stays p hp := by
    unfold FileTree.isFile
    rw [FileTree.fileAt_mkdirs hmkdirs p]
    exact h.stays p hp

def Copyable (c : Changeset) (user : FileTree) (p : FilePath) : Prop :=
  c.shadow.isFile p = true ∧ ∀ q, q <+: p → q ≠ p → user.isFile q = false

/-- A path of a selection is copied exactly when it is `Copyable`. -/
theorem copyFile_spec (h : Copied user selected t) (hcovered : Covered user selected)
    (hrel : rel ∈ selected) :
    Copied user selected (c.copyFile t rel).1 ∧
      ((c.copyFile t rel).2 = true ↔ Copyable c user rel) ∧
      ((c.copyFile t rel).2 = true →
        (c.copyFile t rel).1.fileAt = Function.update t.fileAt rel (c.shadow.fileAt rel)) := by
  have hne : rel ≠ [] := by
    rintro rfl
    exact h.clear [] hrel t.top
  by_cases hway : ∀ q, q <+: rel → q ≠ rel → t.isFile q = false
  · have huser : ∀ q, q <+: rel → q ≠ rel → user.isFile q = false := fun q hq hother =>
      (h.isFile_above hcovered hrel hq hother).symm.trans (hway q hq hother)
    cases hshadow : c.shadow.fileAt rel with
    | none =>
      have hmkdirs : t.mkdirs rel.dropLast = some (t.withDirs rel.dropLast) :=
        FileTree.mkdirs_of_no_file fun q hq =>
          have habove := (FileTree.prefix_dropLast_iff hne).mp hq
          hway q habove.1 habove.2
      have hcopy : c.copyFile t rel = (t.withDirs rel.dropLast, false) := by
        simp only [Changeset.copyFile, hshadow, hmkdirs]
      rw [hcopy]
      refine ⟨h.mkdirs hcovered hrel hmkdirs, ⟨fun h => (by cases h), fun hcopyable => ?_⟩,
        fun h => by cases h⟩
      exact absurd hcopyable.1 (by simp [FileTree.isFile, hshadow])
    | some bytes =>
      obtain ⟨t', hput, hfileAt, hdirs⟩ := FileTree.put_succeeds bytes (h.clear rel hrel) hway
      have hcopy : c.copyFile t rel = (t', true) := by
        simp only [Changeset.copyFile, hshadow, hput]
      rw [hcopy]
      refine ⟨⟨fun p hp hdir => ?_, ⟨fun p hp => ?_, fun q hq => ?_⟩, fun p hp => ?_⟩,
        ⟨fun _ => ⟨by simp [FileTree.isFile, hshadow], huser⟩, fun _ => rfl⟩, fun _ => hfileAt⟩
      · rcases (hdirs p).mp hdir with hdir | ⟨hleading, hother⟩
        · exact h.clear p hp hdir
        · have hfile := hcovered p hp rel hrel hleading hother
          rw [huser p hleading hother] at hfile
          cases hfile
      · rw [hfileAt, Function.update_of_ne (ne_of_mem_of_not_mem hrel hp).symm]
        exact h.confined.others p hp
      · exact (hdirs q).mpr (.inl (h.confined.kept q hq))
      · unfold FileTree.isFile
        rw [hfileAt]
        by_cases heq : p = rel
        · rw [heq, Function.update_self]
          rfl
        · rw [Function.update_of_ne heq]
          exact h.stays p hp
  · -- A file is in the way: nothing is made.
    obtain ⟨q, hq, hother, hfile⟩ : ∃ q, q <+: rel ∧ q ≠ rel ∧ t.isFile q = true := by
      simpa using hway
    have hmkdirs : t.mkdirs rel.dropLast = none :=
      FileTree.mkdirs_of_file ((FileTree.prefix_dropLast_iff hne).mpr ⟨hq, hother⟩) hfile
    have hcopy : c.copyFile t rel = (t, false) := by
      cases hshadow : c.shadow.fileAt rel <;>
        simp only [Changeset.copyFile, hshadow, FileTree.put, hmkdirs]
    rw [hcopy]
    refine ⟨h, ⟨fun h => (by cases h), fun hcopyable => ?_⟩, fun h => by cases h⟩
    rw [h.isFile_above hcovered hrel hq hother, hcopyable.2 q hq hother] at hfile
    cases hfile

variable (c) in
/-- The files of a selection are all copied, or one of them is not `Copyable`. -/
theorem copyFiles_spec (hcovered : Covered user selected) :
    ∀ {rels : List FilePath} {t : FileTree}, Copied user selected t → rels ⊆ selected →
      Copied user selected (c.copyFiles rels t).1 ∧
        ((c.copyFiles rels t).2 = true ↔ ∀ p ∈ rels, Copyable c user p) ∧
        ((c.copyFiles rels t).2 = true → ∀ p, (c.copyFiles rels t).1.fileAt p =
          if p ∈ rels then c.shadow.fileAt p else t.fileAt p)
  | [], t, h, _ => ⟨h, ⟨fun _ => nofun, fun _ => rfl⟩, fun _ p => by simp [Changeset.copyFiles]⟩
  | rel :: rels, t, h, hsubset => by
    obtain ⟨hstep, hiff, hfileAt⟩ := copyFile_spec (c := c) h hcovered (hsubset List.mem_cons_self)
    unfold Changeset.copyFiles
    cases hcopy : c.copyFile t rel with
    | mk t₁ done =>
      rw [hcopy] at hstep hiff hfileAt
      cases done with
      | false =>
        refine ⟨hstep, ⟨nofun, fun hall => ?_⟩, nofun⟩
        exact absurd (hiff.mpr (hall rel List.mem_cons_self)) nofun
      | true =>
        have hrels : rels ⊆ selected := fun p hp => hsubset (List.mem_cons_of_mem _ hp)
        obtain ⟨hrest, hrestIff, hrestAt⟩ := copyFiles_spec hcovered hstep hrels
        refine ⟨hrest, ?_, fun hdone p => ?_⟩
        · rw [List.forall_mem_cons]
          exact hrestIff.trans ⟨fun hall => ⟨hiff.mp rfl, hall⟩, fun hall => hall.2⟩
        · rw [hrestAt hdone p, hfileAt rfl]
          by_cases hp : p ∈ rels
          · simp [hp]
          · by_cases heq : p = rel
            · simp [heq]
            · simp [hp, heq]

end Copying

/-! ## The law of acceptance -/

section Law

variable (c : Changeset) (taskId id : PyStr) (w : JournalWorld) (files : Option (List FilePath))

structure Passes (user : FileTree) (selected : List FilePath) : Prop where
  changed : ∀ p ∈ selected, p ∈ c.changed
  unmoved : ∀ p ∈ selected, c.userMoved user p = false
  copyable : ∀ p ∈ selected, Copyable c user p

variable {c w files} in
theorem record_copies (h : Passes c w.tree (c.selection files)) (kind summary : PyStr) :
    ∃ w', w.record id kind summary (c.selection files) (c.copyFiles (c.selection files)) = (w', true) ∧
      ∀ p ∈ c.selection files, w'.tree.node p = c.shadow.node p := by
  have hclear : ∀ p ∈ c.selection files, w.tree.node p ≠ some .dir := fun p hp =>
    not_dir_of_unmoved (h.unmoved p hp)
  obtain ⟨hcopied, hiff, hfileAt⟩ := copyFiles_spec c (covered_of_unmoved h.changed h.unmoved)
    (.start hclear) (List.Subset.refl _)
  have hdone := hiff.mpr h.copyable
  cases hrun : c.copyFiles (c.selection files) w.tree with
  | mk t' done =>
    rw [hrun] at hcopied hfileAt hdone
    obtain rfl : done = true := hdone
    refine ⟨w.pushed id kind summary (c.selection files) t', ?_, fun p hp => ?_⟩
    · simp only [JournalWorld.record, JournalWorld.capture, hrun, JournalWorld.pushed]
    · have hshadow := (h.copyable p hp).1
      refine FileTree.node_eq (hcopied.clear p hp) (fun hdir => ?_) ((hfileAt rfl p).trans (if_pos hp))
      rw [FileTree.isFile_eq_false_of_dir hdir] at hshadow
      cases hshadow

variable {c w files} in
/-- A selection with a path that cannot be copied is taken back. -/
theorem record_not_copies (hchanged : ∀ p ∈ c.selection files, p ∈ c.changed)
    (hunmoved : ∀ p ∈ c.selection files, c.userMoved w.tree p = false)
    (hcopyable : ¬ ∀ p ∈ c.selection files, Copyable c w.tree p) (kind summary : PyStr) :
    ∃ w', w.record id kind summary (c.selection files) (c.copyFiles (c.selection files)) = (w', false) ∧
      ∀ p ∈ c.selection files, w'.tree.node p = w.tree.node p := by
  have hclear : ∀ p ∈ c.selection files, w.tree.node p ≠ some .dir := fun p hp =>
    not_dir_of_unmoved (hunmoved p hp)
  obtain ⟨hcopied, hiff, -⟩ := copyFiles_spec c (covered_of_unmoved hchanged hunmoved)
    (.start hclear) (List.Subset.refl _)
  cases hrun : c.copyFiles (c.selection files) w.tree with
  | mk t' done =>
    rw [hrun] at hcopied hiff
    cases done with
    | true => exact absurd (hiff.mp rfl) hcopyable
    | false =>
      obtain ⟨w', hrecord, hback, hdirs⟩ :=
        JournalWorld.record_taken_back id kind summary hrun hcopied.confined hcopied.clear
      refine ⟨w', hrecord, fun p hp => FileTree.node_eq (fun hdir => ?_) (hclear p hp)
        (congrFun hback p)⟩
      exact hcopied.clear p hp ((hdirs p).mp hdir)

/-- What `accept` answers, and what it leaves of a selection. -/
theorem accept_spec :
    (Passes c w.tree (c.selection files) ∧
      ∃ w', c.accept taskId id w files = (.ok ⟨id, c.selection files⟩, w') ∧
        ∀ p ∈ c.selection files, w'.tree.node p = c.shadow.node p) ∨
    (¬ Passes c w.tree (c.selection files) ∧
      ∃ error w', c.accept taskId id w files = (.error error, w') ∧
        ∀ p ∈ c.selection files, w'.tree.node p = w.tree.node p) := by
  unfold Changeset.accept
  by_cases hunknown : (c.selection files).filter (· ∉ c.changed) = []
  · have hchanged : ∀ p ∈ c.selection files, p ∈ c.changed := fun p hp => by
      by_contra hp'
      exact List.filter_eq_nil_iff.mp hunknown p hp (decide_eq_true hp')
    by_cases hconflicts : (c.selection files).filter (c.userMoved w.tree) = []
    · have hunmoved : ∀ p ∈ c.selection files, c.userMoved w.tree p = false := fun p hp =>
        Bool.eq_false_iff.mpr (List.filter_eq_nil_iff.mp hconflicts p hp)
      simp only [hunknown, hconflicts, ne_eq, not_true, if_false]
      by_cases hcopyable : ∀ p ∈ c.selection files, Copyable c w.tree p
      · have hpasses : Passes c w.tree (c.selection files) := ⟨hchanged, hunmoved, hcopyable⟩
        obtain ⟨w', hrecord, hnode⟩ := record_copies id hpasses _ _
        rw [hrecord]
        exact .inl ⟨hpasses, w', rfl, hnode⟩
      · obtain ⟨w', hrecord, hnode⟩ := record_not_copies id hchanged hunmoved hcopyable _ _
        rw [hrecord]
        exact .inr ⟨fun h => hcopyable h.copyable, _, w', rfl, hnode⟩
    · simp only [hunknown, hconflicts, ne_eq, not_true, not_false_eq_true, if_false, if_true]
      refine .inr ⟨fun h => hconflicts ?_, _, w, rfl, fun p _ => rfl⟩
      exact List.filter_eq_nil_iff.mpr fun p hp => by simp [h.unmoved p hp]
  · simp only [hunknown, ne_eq, not_false_eq_true, if_true]
    refine .inr ⟨fun h => hunknown ?_, _, w, rfl, fun p _ => rfl⟩
    exact List.filter_eq_nil_iff.mpr fun p hp => by simp [h.changed p hp]

def Untouched (user : FileTree) (selected : List FilePath) : Prop :=
  ∀ p ∈ selected, user.node p = c.baseline.node p

structure AcceptLaw : Prop where
  nothing : ∀ error, (c.accept taskId id w files).1 = .error error →
    ∀ p ∈ c.selection files, (c.accept taskId id w files).2.tree.node p = w.tree.node p
  all : ∀ acceptance, (c.accept taskId id w files).1 = .ok acceptance →
    ∀ p ∈ c.selection files, (c.accept taskId id w files).2.tree.node p = c.shadow.node p
  succeeds : (∀ p ∈ c.selection files, p ∈ c.changed) → Untouched c w.tree (c.selection files) →
    ∃ acceptance, (c.accept taskId id w files).1 = .ok acceptance
  refuses : ¬ Untouched c w.tree (c.selection files) →
    ∃ error, (c.accept taskId id w files).1 = .error error

/-- What a selection of changed paths needs.  Untouched, it holds no directory of the baseline, and
files of the shadow that lie below no file of the user.  A directory of the baseline at which the user
has a file that reads as git's listing of it counts as unmoved, so something else has to stop the
acceptance. -/
structure Acceptable (user : FileTree) (selected : List FilePath) : Prop where
  untouched : Untouched c user selected →
    ∀ p ∈ selected, c.baseline.node p ≠ some .dir ∧ Copyable c user p
  touched : ∀ p ∈ selected, c.baseline.node p = some .dir → user.fileAt p = some (c.listing p) →
    ∃ q ∈ selected, c.userMoved user q = true ∨ ¬ Copyable c user q

variable {c} in
theorem unmoved_iff {user : FileTree} {p : FilePath} : c.userMoved user p = false ↔
    (c.baseline.node p ≠ some .dir ∧ user.node p = c.baseline.node p) ∨
      (c.baseline.node p = some .dir ∧ user.fileAt p = some (c.listing p)) := by
  unfold Changeset.userMoved Changeset.baselineBlob
  cases hnode : c.baseline.node p with
  | none => cases huser : user.node p <;> simp [FileTree.present, huser]
  | some stored =>
    cases stored with
    | dir => cases hfile : user.fileAt p <;> simp
    | file bytes =>
      rw [← FileTree.fileAt_eq_some_iff]
      cases hfile : user.fileAt p <;> simp

/-- A selection of changed paths passes or is touched, and not both, exactly when it is acceptable. -/
theorem acceptable_iff {user : FileTree} {selected : List FilePath}
    (hchanged : ∀ p ∈ selected, p ∈ c.changed) :
    Acceptable c user selected ↔ (Untouched c user selected ↔ Passes c user selected) := by
  constructor
  · intro h
    constructor
    · intro huntouched
      have hclear := h.untouched huntouched
      exact ⟨hchanged, fun p hp => unmoved_iff.mpr (.inl ⟨(hclear p hp).1, huntouched p hp⟩),
        fun p hp => (hclear p hp).2⟩
    · intro hpasses p hp
      rcases unmoved_iff.mp (hpasses.unmoved p hp) with ⟨-, hnode⟩ | ⟨hdir, hlisting⟩
      · exact hnode
      · obtain ⟨q, hq, hmoved | hcopyable⟩ := h.touched p hp hdir hlisting
        · rw [hpasses.unmoved q hq] at hmoved
          cases hmoved
        · exact absurd (hpasses.copyable q hq) hcopyable
  · intro h
    constructor
    · intro huntouched p hp
      have hpasses := h.mp huntouched
      refine ⟨fun hdir => ?_, hpasses.copyable p hp⟩
      exact not_dir_of_unmoved (hpasses.unmoved p hp) ((huntouched p hp).trans hdir)
    · intro p hp hdir hlisting
      by_contra hnone
      have hpasses : Passes c user selected :=
        ⟨hchanged, fun q hq => by
          by_contra hmoved
          exact hnone ⟨q, hq, .inl (by simpa using hmoved)⟩, fun q hq => by
          by_contra hcopyable
          exact hnone ⟨q, hq, .inr hcopyable⟩⟩
      have hnode := h.mpr hpasses p hp
      rw [hdir] at hnode
      rw [FileTree.fileAt_of_dir hnode] at hlisting
      cases hlisting

/-- Acceptance keeps its law exactly on the selections that are acceptable. -/
theorem accept_lawful_iff : AcceptLaw c taskId id w files ↔
    ((∀ p ∈ c.selection files, p ∈ c.changed) → Acceptable c w.tree (c.selection files)) := by
  rcases accept_spec c taskId id w files with ⟨hpasses, w', hrun, hnode⟩ | ⟨hfails, error, w',
    hrun, hnode⟩
  · constructor
    · intro law hchanged
      refine (acceptable_iff c hchanged).mpr ⟨fun _ => hpasses, fun _ => ?_⟩
      by_contra htouched
      obtain ⟨error, herror⟩ := law.refuses htouched
      rw [hrun] at herror
      cases herror
    · intro h
      have huntouched := ((acceptable_iff c hpasses.changed).mp (h hpasses.changed)).mpr hpasses
      constructor <;> rw [hrun]
      · exact nofun
      · exact fun acceptance _ => hnode
      · exact fun _ _ => ⟨_, rfl⟩
      · exact fun htouched => absurd huntouched htouched
  · constructor
    · intro law hchanged
      refine (acceptable_iff c hchanged).mpr ⟨fun huntouched => ?_, fun hpasses => absurd hpasses hfails⟩
      obtain ⟨acceptance, hok⟩ := law.succeeds hchanged huntouched
      rw [hrun] at hok
      cases hok
    · intro h
      constructor <;> rw [hrun]
      · exact fun error _ => hnode
      · exact nofun
      · intro hchanged huntouched
        exact absurd (((acceptable_iff c hchanged).mp (h hchanged)).mp huntouched) hfails
      · exact fun _ => ⟨_, rfl⟩

def deletedFile : Changeset where
  shadow := FileTree.bare
  baseline := loneFile (lit "a") [49]
  changed := [[lit "a"]]
  listing _ := []
  listed p hp := by
    obtain rfl := List.mem_singleton.mp hp
    exact .inr (.inl rfl)

/-- A deletion that the user has not touched is not accepted. -/
theorem deletion_not_accepted :
    (deletedFile.accept (lit "t") (lit "0") { tree := loneFile (lit "a") [49] } none).1 =
      .error .copying ∧
    ¬ AcceptLaw deletedFile (lit "t") (lit "0") { tree := loneFile (lit "a") [49] } none := by
  have hrun : (deletedFile.accept (lit "t") (lit "0") { tree := loneFile (lit "a") [49] } none).1 =
      .error .copying := by decide
  refine ⟨hrun, fun law => ?_⟩
  obtain ⟨acceptance, hok⟩ := law.succeeds (fun p hp => hp) fun p hp => rfl
  rw [hrun] at hok
  cases hok

end Law

end Tempest
