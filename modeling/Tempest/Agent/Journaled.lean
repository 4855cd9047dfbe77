import Tempest.Agent.Undoing

/-!
# Journaled — a history is last in, first out

An action pushes an entry that takes it back, and a restore pops the newest: the calls of the journal
are made of these two.  From them a run keeps `Journaled`, and undoing everything reaches the start.
-/

namespace Tempest

open Python

/-! ## The log -/

namespace JournalWorld

def recordedIds (w : JournalWorld) : List PyStr := w.actions.map JournalEntry.id

/-- The log of a history whose actions have ids of their own. -/
structure Numbered (w : JournalWorld) : Prop where
  names : w.recordedIds.Nodup
  order : w.actions.Pairwise fun a b => a.seq < b.seq
  counted : ∀ a ∈ w.actions, a.seq < w.actions.length
  known : ∀ id ∈ w.undoneIds, id ∈ w.recordedIds

def takeBack (w : JournalWorld) (e : JournalEntry) (files : FilePath → Option Bytes) :
    FilePath → Option Bytes :=
  fun p => if p ∈ e.files then image (w.existed e.id) (w.pre e.id) p else files p

structure Journaled (start : FileTree) (w : JournalWorld) : Prop where
  log : w.Numbered
  files : ∀ a ∈ w.actions, ∀ p ∈ a.files, w.tree.node p ≠ some .dir
  ready : ∀ a ∈ w.pending, ∀ p ∈ a.files, Restorable (w.existed a.id) (w.pre a.id) w.tree p
  kept : ∀ q, start.node q = some .dir → w.tree.node q = some .dir
  unwinds : Unwinds w.takeBack start.fileAt w.pending.reverse w.tree.fileAt

theorem Journaled.start (t : FileTree) : Journaled t { tree := t } where
  log := ⟨.nil, .nil, nofun, nofun⟩
  files := nofun
  ready := nofun
  kept _ h := h
  unwinds := .nil

variable {w : JournalWorld} {start : FileTree}

theorem mem_actions_of_pending {a : JournalEntry} (h : a ∈ w.pending) : a ∈ w.actions :=
  (pending_sublist w).subset h

theorem entries_length (w : JournalWorld) : w.entries.length = w.actions.length := by
  rw [entries_eq, List.length_map]

theorem Numbered.pending_names (h : w.Numbered) : (w.pending.map JournalEntry.id).Nodup :=
  h.names.sublist ((pending_sublist w).map _)

/-! ## Pushing -/

section Push

variable {id kind summary : PyStr} {files : List FilePath} {t' : FileTree}

def opened (w : JournalWorld) (id kind summary : PyStr) (files : List FilePath) : JournalEntry :=
  ⟨id, w.entries.length, kind, summary, files, false⟩

/-- The world behind the body of an action, before anything is taken back. -/
def pushed (w : JournalWorld) (id kind summary : PyStr) (files : List FilePath) (t' : FileTree) :
    JournalWorld :=
  { w.capture id kind summary files with tree := t' }

theorem actions_pushed : (w.pushed id kind summary files t').actions =
    w.actions ++ [w.opened id kind summary files] := by
  simp [pushed, capture, actions, opened]

theorem undoneIds_pushed : (w.pushed id kind summary files t').undoneIds = w.undoneIds := by
  simp [pushed, capture, undoneIds]

theorem pending_pushed (kind summary : PyStr) (files : List FilePath) (t' : FileTree)
    (hfresh : id ∉ w.undoneIds) : (w.pushed id kind summary files t').pending =
    w.pending ++ [w.opened id kind summary files] := by
  rw [pending_eq, pending_eq, actions_pushed, undoneIds_pushed, List.filter_append]
  congr 1
  exact List.filter_eq_self.mpr fun a ha => by
    obtain rfl := List.mem_singleton.mp ha
    exact decide_eq_true hfresh

/-- The entries of before keep what they put back. -/
theorem takeBack_pushed {a : JournalEntry} (hne : a.id ≠ id) :
    (w.pushed id kind summary files t').takeBack a = w.takeBack a := by
  funext F p
  simp only [takeBack, pushed, capture, Function.update_of_ne hne]

/-- The new entry takes its action back. -/
theorem takeBack_opened (id kind summary : PyStr) (hbody : Confined files w.tree t') :
    (w.pushed id kind summary files t').takeBack (w.opened id kind summary files) t'.fileAt =
      w.tree.fileAt := by
  funext p
  simp only [takeBack, pushed, capture, opened, Function.update_self, image]
  by_cases hp : p ∈ files
  · rw [if_pos hp]
    cases hfile : w.tree.isFile p with
    | true => simp [hp]
    | false =>
      have hnone : w.tree.fileAt p = none := by simpa [FileTree.isFile] using hfile
      simp [hnone]
  · rw [if_neg hp, hbody.others p hp]

theorem Numbered.push (h : w.Numbered) (hfresh : id ∉ w.recordedIds) :
    (w.pushed id kind summary files t').Numbered where
  names := by
    rw [recordedIds, actions_pushed, List.map_append]
    refine h.names.append (List.nodup_singleton _) fun x hx hnew => ?_
    obtain rfl := List.mem_singleton.mp hnew
    exact hfresh hx
  order := by
    rw [actions_pushed]
    refine List.pairwise_append.mpr ⟨h.order, List.pairwise_singleton _ _, fun a ha b hb => ?_⟩
    obtain rfl := List.mem_singleton.mp hb
    have := h.counted a ha
    rwa [← entries_length] at this
  counted a ha := by
    rw [actions_pushed] at ha ⊢
    rw [List.length_append, List.length_singleton]
    rcases List.mem_append.mp ha with ha | ha
    · exact Nat.lt_succ_of_lt (h.counted a ha)
    · obtain rfl := List.mem_singleton.mp ha
      exact Nat.lt_succ_of_le (entries_length w).le
  known x hx := by
    rw [undoneIds_pushed] at hx
    rw [recordedIds, actions_pushed, List.map_append]
    exact List.mem_append_left _ (h.known x hx)

/-- The pre-images of an action are ready behind its body. -/
theorem restorable_opened (id kind summary : PyStr) (hbody : Confined files w.tree t')
    {p : FilePath} (hp : p ∈ files) :
    Restorable ((w.pushed id kind summary files t').existed id)
      ((w.pushed id kind summary files t').pre id) t' p := by
  intro hexisted
  have hfile : w.tree.isFile p = true := by
    simpa [pushed, capture, hp] using hexisted
  obtain ⟨bytes, hbytes⟩ := Option.isSome_iff_exists.mp hfile
  refine ⟨⟨bytes, by simp [pushed, capture, hp, hfile, hbytes]⟩, fun q hq hne => ?_⟩
  exact hbody.kept q (FileTree.dir_above (FileTree.present_of_isFile hfile) hq hne)

theorem record_taken_back (id kind summary : PyStr) {body : FileTree → FileTree × Bool}
    (hrun : body w.tree = (t', false)) (hbody : Confined files w.tree t')
    (hclear : ∀ p ∈ files, t'.node p ≠ some .dir) :
    ∃ w', w.record id kind summary files body = (w', false) ∧ w'.tree.fileAt = w.tree.fileAt ∧
      ∀ q, w'.tree.node q = some .dir ↔ t'.node q = some .dir := by
  obtain ⟨t'', hrestore, hfileAt, hdirs⟩ := restoreFiles_spec files hclear fun p hp =>
    restorable_opened id kind summary hbody hp
  refine ⟨(w.pushed id kind summary files t'').append (.undo id), ?_, ?_, hdirs⟩
  · simp only [pushed, capture] at hrestore
    simp only [record, capture, hrun, restore, hrestore, pushed]
  · exact (funext hfileAt).trans (takeBack_opened id kind summary hbody)

/-- An action pushes its entry, whether its body raises or not. -/
theorem Journaled.push (kind summary : PyStr) (h : Journaled start w) (hfresh : id ∉ w.recordedIds)
    (hbody : Confined files w.tree t')
    (hclear : ∀ p, (p ∈ files ∨ ∃ e ∈ w.actions, p ∈ e.files) → t'.node p ≠ some .dir) :
    Journaled start (w.pushed id kind summary files t') where
  log := h.log.push hfresh
  files a ha p hp := by
    rw [actions_pushed] at ha
    rcases List.mem_append.mp ha with ha | ha
    · exact hclear p (.inr ⟨a, ha, hp⟩)
    · obtain rfl := List.mem_singleton.mp ha
      exact hclear p (.inl hp)
  ready a ha p hp := by
    rw [pending_pushed _ _ _ _ fun hundone => hfresh (h.log.known id hundone)] at ha
    rcases List.mem_append.mp ha with ha | ha
    · have hne : a.id ≠ id := fun hid =>
        hfresh (hid ▸ List.mem_map_of_mem (mem_actions_of_pending ha))
      have hready := (h.ready a ha p hp).mono hbody.kept
      simpa only [pushed, capture, Function.update_of_ne hne] using hready
    · obtain rfl := List.mem_singleton.mp ha
      exact restorable_opened id kind summary hbody hp
  kept q hq := hbody.kept q (h.kept q hq)
  unwinds := by
    rw [pending_pushed _ _ _ _ fun hundone => hfresh (h.log.known id hundone), List.reverse_append]
    refine Unwinds.push ?_ (takeBack_opened id kind summary hbody)
    have hsame : unwind (w.pushed id kind summary files t').takeBack w.pending.reverse =
        unwind w.takeBack w.pending.reverse := unwind_congr fun a ha => by
      refine takeBack_pushed fun hid => hfresh (hid ▸ List.mem_map_of_mem ?_)
      exact mem_actions_of_pending (List.mem_reverse.mp ha)
    exact (congrFun hsame _).trans h.unwinds

end Push

/-! ## Popping -/

section Pop

variable {e : JournalEntry} {init : List JournalEntry}

/-- The world behind a restore of an entry that is then marked undone. -/
def popped (w : JournalWorld) (e : JournalEntry) (t' : FileTree) : JournalWorld :=
  { w with tree := t' }.append (.undo e.id)

theorem actions_popped (t' : FileTree) : (w.popped e t').actions = w.actions :=
  actions_append_undo _ _

/-- The newest pending entry is gone. -/
theorem pending_popped (h : w.Numbered) (hnewest : w.pending = init ++ [e]) (t' : FileTree) :
    (w.popped e t').pending = init := by
  have hpending : (w.popped e t').pending = w.pending.filter fun a => decide (a.id ≠ e.id) :=
    pending_append_undo _ _
  have hnames := h.pending_names
  rw [hnewest, List.map_append, List.nodup_append] at hnames
  have hinit : ∀ a ∈ init, decide (a.id ≠ e.id) = true := fun a ha =>
    decide_eq_true (hnames.2.2 _ (List.mem_map_of_mem ha) _ List.mem_cons_self)
  rw [hpending, hnewest, List.filter_append, List.filter_eq_self.mpr hinit]
  simp

theorem Numbered.pop (h : w.Numbered) (he : e ∈ w.pending) (t' : FileTree) :
    (w.popped e t').Numbered where
  names := by
    rw [recordedIds, actions_popped]
    exact h.names
  order := by
    rw [actions_popped]
    exact h.order
  counted a ha := by
    rw [actions_popped] at ha ⊢
    exact h.counted a ha
  known x hx := by
    rw [recordedIds, actions_popped]
    have hundone : (w.popped e t').undoneIds = w.undoneIds ++ [e.id] := by
      simp [popped, append, undoneIds]
    rw [hundone] at hx
    rcases List.mem_append.mp hx with hx | hx
    · exact h.known x hx
    · obtain rfl := List.mem_singleton.mp hx
      exact List.mem_map_of_mem (mem_actions_of_pending he)

/-- Restoring the newest pending entry succeeds and pops it. -/
theorem Journaled.pop (h : Journaled start w) (hnewest : w.pending = init ++ [e]) :
    ∃ t', w.restore e.id e.files = ({ w with tree := t' }, true) ∧
      t'.fileAt = w.takeBack e w.tree.fileAt ∧ (∀ q, t'.node q = some .dir ↔ w.tree.node q = some .dir) ∧
      Journaled start (w.popped e t') := by
  have he : e ∈ w.pending := hnewest ▸ List.mem_append_right init List.mem_cons_self
  obtain ⟨t', hrun, hfileAt, hdirs⟩ := restoreFiles_spec e.files
    (h.files e (mem_actions_of_pending he)) (h.ready e he)
  have hback : t'.fileAt = w.takeBack e w.tree.fileAt := funext hfileAt
  have hpending := pending_popped h.log hnewest t'
  refine ⟨t', by simp only [restore, hrun], hback, hdirs, h.log.pop he t', fun a ha p hp hdir => ?_,
    fun a ha p hp => ?_, fun q hq => (hdirs q).mpr (h.kept q hq), ?_⟩
  · rw [actions_popped] at ha
    exact h.files a ha p hp ((hdirs p).mp hdir)
  · have hready := h.ready a (hnewest ▸ List.mem_append_left _ (hpending ▸ ha)) p hp
    exact hready.mono fun q hq => (hdirs q).mpr hq
  · -- The popped entry is the newest mark, and its restore has taken the files back by it.
    have hunwinds := h.unwinds
    rw [hnewest, List.reverse_append] at hunwinds
    have hpop := hunwinds.pop
    rw [← hback] at hpop
    rw [hpending]
    exact hpop

end Pop

end JournalWorld

end Tempest
