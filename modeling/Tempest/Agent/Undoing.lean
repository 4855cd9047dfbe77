import Tempest.Agent.Journal
import Tempest.Process.Undo

/-!
# Undoing — the journal takes back what it recorded

`Journaled` is the invariant of a history: its pending entries, the newest first, unwind the files to
those of the start.  It needs that no action leaves a directory at a path that is declared (`Tidy`):
a directory is not unlinked, and a file put back onto one lands inside it.
-/

namespace Tempest

open Python

/-! ## Pending entries -/

namespace JournalWorld

variable {w : JournalWorld}

def actions (w : JournalWorld) : List JournalEntry :=
  w.records.filterMap fun
    | .action id seq kind summary files => some ⟨id, seq, kind, summary, files, false⟩
    | .undo _ => none

theorem entries_eq (w : JournalWorld) :
    w.entries = w.actions.map fun a => { a with undone := decide (a.id ∈ w.undoneIds) } := by
  simp only [entries, actions, List.map_filterMap]
  refine List.filterMap_congr fun record _ => ?_
  cases record <;> rfl

theorem undone_of_mem_actions {a : JournalEntry} (h : a ∈ w.actions) : a.undone = false := by
  obtain ⟨record, -, hrecord⟩ := List.mem_filterMap.mp h
  cases record with
  | action id seq kind summary files =>
    cases hrecord
    rfl
  | undo id => cases hrecord

theorem pending_eq (w : JournalWorld) :
    w.pending = w.actions.filter fun a => decide (a.id ∉ w.undoneIds) := by
  rw [pending, entries_eq, List.filter_map]
  have hsame : ∀ a ∈ w.actions.filter fun a => decide (a.id ∉ w.undoneIds),
      ({ a with undone := decide (a.id ∈ w.undoneIds) } : JournalEntry) = a := by
    intro a ha
    obtain ⟨hmem, hpending⟩ := List.mem_filter.mp ha
    have hnot := of_decide_eq_true hpending
    have hundone := undone_of_mem_actions hmem
    cases a
    simp_all
  have hfilter : ((fun e : JournalEntry => !e.undone) ∘ fun a : JournalEntry =>
      { a with undone := decide (a.id ∈ w.undoneIds) }) = fun a => decide (a.id ∉ w.undoneIds) := by
    funext a
    simp
  rw [hfilter]
  exact (List.map_congr_left hsame).trans (List.map_id' _)

theorem pending_sublist (w : JournalWorld) : w.pending.Sublist w.actions :=
  pending_eq w ▸ List.filter_sublist

theorem actions_append_undo (w : JournalWorld) (id : PyStr) :
    (w.append (.undo id)).actions = w.actions := by
  simp [append, actions]

theorem pending_append_undo (w : JournalWorld) (id : PyStr) :
    (w.append (.undo id)).pending = w.pending.filter fun e => decide (e.id ≠ id) := by
  have hundone : (w.append (.undo id)).undoneIds = w.undoneIds ++ [id] := by
    simp [append, undoneIds]
  rw [pending_eq, pending_eq, actions_append_undo, hundone, List.filter_filter]
  refine List.filter_congr fun a _ => ?_
  simp [and_comm]

end JournalWorld

/-! ## Restoring -/

def image (existed : FilePath → Bool) (pre : FilePath → Option Bytes) (p : FilePath) : Option Bytes :=
  if existed p then pre p else none

/-- The pre-image of what existed is there, and so are the directories above it. -/
def Restorable (existed : FilePath → Bool) (pre : FilePath → Option Bytes) (t : FileTree)
    (p : FilePath) : Prop :=
  existed p = true → (∃ bytes, pre p = some bytes) ∧
    ∀ q, q <+: p → q ≠ p → t.node q = some .dir

variable {existed : FilePath → Bool} {pre : FilePath → Option Bytes} {t t' : FileTree}

theorem Restorable.mono {p : FilePath} (h : Restorable existed pre t p)
    (hkept : ∀ q, t.node q = some .dir → t'.node q = some .dir) : Restorable existed pre t' p :=
  fun hexisted => ⟨(h hexisted).1, fun q hq hne => hkept q ((h hexisted).2 q hq hne)⟩

theorem isFile_of_present {p : FilePath} (h : t.present p = true) (hnode : t.node p ≠ some .dir) :
    t.isFile p = true := by
  unfold FileTree.present at h
  unfold FileTree.isFile FileTree.fileAt
  cases hstored : t.node p with
  | none => rw [hstored] at h; cases h
  | some stored =>
    cases stored with
    | dir => exact absurd hstored hnode
    | file bytes => rfl

theorem fileAt_of_not_present {p : FilePath} (h : t.present p = false) :
    t.fileAt p = none := by
  unfold FileTree.present at h
  unfold FileTree.fileAt
  cases hstored : t.node p with
  | none => rfl
  | some stored => rw [hstored] at h; cases h

theorem restoreFiles_step {rel : FilePath} (hnode : t.node rel ≠ some .dir)
    (hready : Restorable existed pre t rel) :
    ∃ t', (∀ rels, JournalWorld.restoreFiles existed pre (rel :: rels) t =
        JournalWorld.restoreFiles existed pre rels t') ∧
      t'.fileAt = Function.update t.fileAt rel (image existed pre rel) ∧
      ∀ q, t'.node q = some .dir ↔ t.node q = some .dir := by
  cases hexisted : existed rel with
  | true =>
    obtain ⟨⟨bytes, hbytes⟩, habove⟩ := hready hexisted
    obtain ⟨t', hput, hfileAt, hdirs⟩ := FileTree.put_succeeds bytes hnode
      fun q hq hne => FileTree.isFile_eq_false_of_dir (habove q hq hne)
    refine ⟨t', fun rels => ?_, ?_, fun q => ?_⟩
    · simp only [JournalWorld.restoreFiles, hexisted, if_true, hbytes, hput]
    · rw [hfileAt, image, hexisted, if_pos rfl, hbytes]
    · rw [hdirs q]
      exact or_iff_left_of_imp fun h => habove q h.1 h.2
  | false =>
    have himage : image existed pre rel = none := by rw [image, hexisted]; rfl
    rw [himage]
    cases hpresent : t.present rel with
    | true =>
      have hfile := isFile_of_present hpresent hnode
      obtain ⟨t', hunlink⟩ : ∃ t', t.unlink rel = some t' := ⟨_, dif_pos hfile⟩
      obtain ⟨hfileAt, hdirs⟩ := FileTree.unlink_eq_some hunlink
      refine ⟨t', fun rels => ?_, hfileAt, hdirs⟩
      simp only [JournalWorld.restoreFiles, hexisted, Bool.false_eq_true, if_false, hpresent, if_true,
        hunlink]
    | false =>
      refine ⟨t, fun rels => ?_, ?_, fun q => Iff.rfl⟩
      · simp only [JournalWorld.restoreFiles, hexisted, Bool.false_eq_true, if_false, hpresent]
      · rw [← fileAt_of_not_present hpresent, Function.update_eq_self]

/-- Restoring puts every file of an entry back, makes no directory and leaves the rest. -/
theorem restoreFiles_spec :
    ∀ (rels : List FilePath) {t : FileTree}, (∀ p ∈ rels, t.node p ≠ some .dir) →
      (∀ p ∈ rels, Restorable existed pre t p) →
      ∃ t', JournalWorld.restoreFiles existed pre rels t = (t', true) ∧
        (∀ p, t'.fileAt p = if p ∈ rels then image existed pre p else t.fileAt p) ∧
        ∀ q, t'.node q = some .dir ↔ t.node q = some .dir
  | [], t, _, _ => ⟨t, rfl, fun p => by simp, fun q => Iff.rfl⟩
  | rel :: rels, t, hfiles, hready => by
    obtain ⟨t₁, hrun, hfileAt, hdirs⟩ :=
      restoreFiles_step (hfiles rel List.mem_cons_self) (hready rel List.mem_cons_self)
    have hfiles₁ : ∀ p ∈ rels, t₁.node p ≠ some .dir := fun p hp hdir =>
      hfiles p (List.mem_cons_of_mem _ hp) ((hdirs p).mp hdir)
    have hready₁ : ∀ p ∈ rels, Restorable existed pre t₁ p := fun p hp hexisted =>
      have hp := hready p (List.mem_cons_of_mem _ hp) hexisted
      ⟨hp.1, fun q hq hne => (hdirs q).mpr (hp.2 q hq hne)⟩
    obtain ⟨t', hrest, hfileAt', hdirs'⟩ := restoreFiles_spec rels hfiles₁ hready₁
    refine ⟨t', (hrun rels).trans hrest, fun p => ?_, fun q => (hdirs' q).trans (hdirs q)⟩
    rw [hfileAt' p, hfileAt]
    by_cases hp : p ∈ rels
    · simp [hp]
    · by_cases heq : p = rel
      · simp [heq]
      · simp [hp, heq]

/-! ## What a body leaves -/

/-- Other files are as they were, and the directories are all there. -/
structure Confined (declared : List FilePath) (t t' : FileTree) : Prop where
  others : ∀ p, p ∉ declared → t'.fileAt p = t.fileAt p
  kept : ∀ q, t.node q = some .dir → t'.node q = some .dir

theorem Confined.refl (declared : List FilePath) (t : FileTree) : Confined declared t t :=
  ⟨fun _ _ => rfl, fun _ h => h⟩

variable {declared : List FilePath}

theorem Confined.trans {t t' t'' : FileTree} (h : Confined declared t t')
    (h' : Confined declared t' t'') : Confined declared t t'' where
  others p hp := (h'.others p hp).trans (h.others p hp)
  kept q hq := h'.kept q (h.kept q hq)

theorem Confined.of_update {path : FilePath} {leaf : Option Bytes} (hpath : path ∈ declared)
    (hfileAt : t'.fileAt = Function.update t.fileAt path leaf)
    (hdirs : ∀ q, t'.node q = some .dir ↔ t.node q = some .dir) : Confined declared t t' where
  others p hp := by
    rw [hfileAt, Function.update_of_ne (ne_of_mem_of_not_mem hpath hp).symm]
  kept q hq := (hdirs q).mpr hq

theorem confined_apply (op : FileOp) (t : FileTree) (hpath : op.path ∈ declared) :
    Confined declared t (op.apply t).1 := by
  cases op with
  | delete path =>
    cases hunlink : t.unlink path with
    | none => simpa only [FileOp.apply, hunlink] using .refl declared t
    | some t' =>
      simp only [FileOp.apply, hunlink]
      obtain ⟨hfileAt, hdirs⟩ := FileTree.unlink_eq_some hunlink
      exact .of_update hpath hfileAt hdirs
  | write path bytes =>
    cases hmkdirs : t.mkdirs path.dropLast with
    | none => simpa only [FileOp.apply, hmkdirs] using .refl declared t
    | some t₁ =>
      have hparents : Confined declared t t₁ :=
        ⟨fun p _ => FileTree.fileAt_mkdirs hmkdirs p,
          fun q hq => (FileTree.dir_mkdirs hmkdirs q).mpr (.inl hq)⟩
      cases hwrite : t₁.write path bytes with
      | none => simpa only [FileOp.apply, hmkdirs, hwrite] using hparents
      | some t₂ =>
        simp only [FileOp.apply, hmkdirs, hwrite]
        obtain ⟨hfileAt, hdirs⟩ := FileTree.write_eq_some hwrite
        exact hparents.trans (.of_update hpath hfileAt hdirs)

theorem confined_applyOps :
    ∀ (ops : List FileOp) (t : FileTree), (∀ op ∈ ops, op.path ∈ declared) →
      Confined declared t (applyOps ops t).1
  | [], t, _ => .refl declared t
  | op :: ops, t, h => by
    have hop := confined_apply op t (h op List.mem_cons_self)
    unfold applyOps
    cases hrun : op.apply t with
    | mk t' done =>
      rw [hrun] at hop
      cases done with
      | true =>
        exact hop.trans (confined_applyOps ops t' fun op hop => h op (List.mem_cons_of_mem _ hop))
      | false => exact hop

theorem Action.confined (a : Action) (t : FileTree) : Confined a.files t (a.run t).1 :=
  confined_applyOps a.body t a.within

end Tempest
