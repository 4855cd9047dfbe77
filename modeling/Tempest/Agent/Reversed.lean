import Tempest.Agent.Journaled

/-!
# Reversed — every run of the journal can be taken back

The invariant is kept by an action, an undo and an undo of the last, hence by a run.  In every state
of a run the failed actions have left nothing, undoing everything reaches the start, and the last
pending action is the one that `undo_last` takes.
-/

namespace Tempest

open Python

namespace JournalWorld

variable {w : JournalWorld} {start : FileTree} {id : PyStr}

/-! ## Undo -/

variable {e : JournalEntry}

theorem mem_entries_of_pending (h : e ∈ w.pending) : e ∈ w.entries :=
  List.mem_of_mem_filter h

theorem entries_ids (w : JournalWorld) : w.entries.map JournalEntry.id = w.recordedIds := by
  rw [entries_eq, List.map_map]
  rfl

theorem find_pending (h : w.Numbered) (he : e ∈ w.pending) :
    (w.entries.find? fun x => x.id = e.id) = some e := by
  cases hfind : w.entries.find? fun x => x.id = e.id with
  | none =>
    have := List.find?_eq_none.mp hfind e (mem_entries_of_pending he)
    simp at this
  | some found =>
    have hid : found.id = e.id := by simpa using List.find?_some hfind
    have hnames : (w.entries.map JournalEntry.id).Nodup := entries_ids w ▸ h.names
    exact congrArg some
      (List.inj_on_of_nodup_map hnames (List.mem_of_find?_eq_some hfind) (mem_entries_of_pending he) hid)

theorem Numbered.pending_order (h : w.Numbered) : w.pending.Pairwise fun a b => a.seq < b.seq :=
  h.order.sublist (pending_sublist w)

theorem newer_of_newest (h : w.Numbered) {init : List JournalEntry}
    (hnewest : w.pending = init ++ [e]) : (w.pending.filter fun a => e.seq < a.seq) = [] := by
  have horder := hnewest ▸ h.pending_order
  rw [hnewest]
  refine List.filter_eq_nil_iff.mpr fun a ha hnewer => ?_
  have hlt : e.seq < a.seq := of_decide_eq_true hnewer
  rcases List.mem_append.mp ha with ha | ha
  · exact absurd ((List.pairwise_append.mp horder).2.2 a ha e List.mem_cons_self) (Nat.lt_asymm hlt)
  · obtain rfl := List.mem_singleton.mp ha
    exact Nat.lt_irrefl _ hlt

/-- A pending entry with nothing newer is the last. -/
theorem newest_of_newer (h : w.Numbered) (he : e ∈ w.pending)
    (hnewer : (w.pending.filter fun a => e.seq < a.seq) = []) : ∃ init, w.pending = init ++ [e] := by
  obtain ⟨init, last, hlast⟩ := (List.eq_nil_or_concat' w.pending).resolve_left (List.ne_nil_of_mem he)
  have horder := hlast ▸ h.pending_order
  rw [hlast] at he hnewer
  rcases List.mem_append.mp he with hinit | he
  · have hlt := (List.pairwise_append.mp horder).2.2 e hinit last List.mem_cons_self
    exact absurd (decide_eq_true hlt)
      (List.filter_eq_nil_iff.mp hnewer last (List.mem_append_right _ List.mem_cons_self))
  · obtain rfl := List.mem_singleton.mp he
    exact ⟨init, hlast⟩

theorem undo_newest (h : Journaled start w) {init : List JournalEntry}
    (hnewest : w.pending = init ++ [e]) :
    ∃ t', w.undo e.id = (.ok e, w.popped e t') ∧ t'.fileAt = w.takeBack e w.tree.fileAt ∧
      Journaled start (w.popped e t') := by
  have he : e ∈ w.pending := hnewest ▸ List.mem_append_right init List.mem_cons_self
  have hpending : e.undone = false := undone_of_mem_actions (mem_actions_of_pending he)
  obtain ⟨t', hrestore, hback, -, hpopped⟩ := h.pop hnewest
  refine ⟨t', ?_, hback, hpopped⟩
  simp only [undo, find_pending h.log he, hpending, Bool.false_eq_true, if_false,
    newer_of_newest h.log hnewest, ne_eq, not_true, hrestore, popped]

/-- An undo that is not of the newest pending entry changes nothing. -/
theorem undo_other (h : w.Numbered) (id : PyStr) :
    (w.undo id).2 = w ∨ ∃ init e, w.pending = init ++ [e] ∧ e.id = id := by
  unfold undo
  cases hfind : w.entries.find? fun e => e.id = id with
  | none => exact .inl rfl
  | some found =>
    have hid : found.id = id := by simpa using List.find?_some hfind
    simp only
    cases hundone : found.undone with
    | true => exact .inl rfl
    | false =>
      have he : found ∈ w.pending :=
        List.mem_filter.mpr ⟨List.mem_of_find?_eq_some hfind, by rw [hundone]; rfl⟩
      by_cases hnewer : (w.pending.filter fun e => found.seq < e.seq) = []
      · obtain ⟨init, hnewest⟩ := newest_of_newer h he hnewer
        exact .inr ⟨init, found, hnewest, hid⟩
      · exact .inl (by simp only [Bool.false_eq_true, if_false, ne_eq, hnewer, not_false_eq_true,
        if_true])

theorem Journaled.undo (h : Journaled start w) (id : PyStr) : Journaled start (w.undo id).2 := by
  rcases undo_other h.log id with hsame | ⟨init, e, hnewest, rfl⟩
  · rwa [hsame]
  · obtain ⟨t', hrun, -, hpopped⟩ := undo_newest h hnewest
    rwa [hrun]

theorem actions_undo (h : Journaled start w) (id : PyStr) : (w.undo id).2.actions = w.actions := by
  rcases undo_other h.log id with hsame | ⟨init, e, hnewest, rfl⟩
  · rw [hsame]
  · obtain ⟨t', hrun, -, -⟩ := undo_newest h hnewest
    rw [hrun, actions_popped]

/-- `undo_last` takes the newest pending entry, if there is one. -/
theorem undoLast_spec (h : Journaled start w) :
    (w.pending = [] ∧ w.undoLast = (.ok none, w)) ∨
      ∃ init e t', w.pending = init ++ [e] ∧ w.undoLast = (.ok (some e), w.popped e t') ∧
        Journaled start (w.popped e t') := by
  rcases List.eq_nil_or_concat' w.pending with hnone | ⟨init, e, hnewest⟩
  · exact .inl ⟨hnone, by simp only [undoLast, hnone, List.getLast?_nil]⟩
  · obtain ⟨t', hrun, -, hpopped⟩ := undo_newest h hnewest
    refine .inr ⟨init, e, t', hnewest, ?_, hpopped⟩
    simp only [undoLast, hnewest, List.getLast?_append, List.getLast?_singleton, Option.some_or, hrun]

theorem Journaled.undoLast (h : Journaled start w) : Journaled start w.undoLast.2 := by
  rcases undoLast_spec h with ⟨-, hsame⟩ | ⟨init, e, t', -, hrun, hpopped⟩
  · rwa [hsame]
  · rwa [hrun]

theorem actions_undoLast (h : Journaled start w) : w.undoLast.2.actions = w.actions := by
  rcases undoLast_spec h with ⟨-, hsame⟩ | ⟨init, e, t', -, hrun, -⟩
  · rw [hsame]
  · rw [hrun, actions_popped]

/-- `undo` of every entry, the newest first. -/
def undoAll (w : JournalWorld) : JournalWorld :=
  (w.entries.map JournalEntry.id).reverse.foldl (fun w id => (w.undo id).2) w

theorem foldl_undo (h : Journaled start w) :
    ∀ {ids : List PyStr}, ids.Nodup → (w.pending.map JournalEntry.id).reverse.Sublist ids →
      ∃ w', ids.foldl (fun w id => (w.undo id).2) w = w' ∧ Journaled start w' ∧ w'.actions = w.actions ∧
        w'.pending = [] := by
  intro ids hids hpending
  induction ids generalizing w with
  | nil =>
    refine ⟨w, rfl, h, rfl, ?_⟩
    simpa using hpending
  | cons id ids ih =>
    have hnext := (List.nodup_cons.mp hids).2
    rcases undo_other h.log id with hsame | ⟨init, e, hnewest, rfl⟩
    · -- Nothing was undone, so this id is not the newest pending one: all of them come later.
      have hlater : (w.pending.map JournalEntry.id).reverse.Sublist ids := by
        rcases List.eq_nil_or_concat' w.pending with hnone | ⟨init, e, hnewest⟩
        · rw [hnone]
          exact List.nil_sublist _
        · rw [hnewest, List.map_append, List.reverse_append] at hpending ⊢
          refine (List.sublist_cons_iff.mp hpending).resolve_right ?_
          rintro ⟨rest, hrest, -⟩
          obtain ⟨rfl, -⟩ := List.cons.inj hrest
          obtain ⟨t', hrun, -, -⟩ := undo_newest h hnewest
          have hgone := pending_popped h.log hnewest t'
          rw [← show (w.undo e.id).2 = w.popped e t' from congrArg Prod.snd hrun, hsame,
            hnewest] at hgone
          simpa using congrArg List.length hgone
      simp only [List.foldl_cons, hsame]
      exact ih h hnext hlater
    · obtain ⟨t', hrun, -, hpopped⟩ := undo_newest h hnewest
      have hinit : ((w.popped e t').pending.map JournalEntry.id).reverse.Sublist ids := by
        rw [pending_popped h.log hnewest]
        rw [hnewest, List.map_append, List.reverse_append] at hpending
        exact List.cons_sublist_cons.mp hpending
      obtain ⟨w', hfold, hw', hkept, hdone⟩ := ih hpopped hnext hinit
      refine ⟨w', ?_, hw', hkept.trans (actions_popped t'), hdone⟩
      simp only [List.foldl_cons, hrun, hfold]

/-- Undoing everything leaves nothing pending, and at every declared path what the start had. -/
theorem undoAll_spec (h : Journaled start w) :
    w.undoAll.pending = [] ∧ ∀ a ∈ w.actions, ∀ p ∈ a.files, w.undoAll.tree.node p = start.node p := by
  have hids : (w.entries.map JournalEntry.id).reverse.Nodup := by
    rw [List.nodup_reverse, entries_ids]
    exact h.log.names
  have hpending : (w.pending.map JournalEntry.id).reverse.Sublist
      (w.entries.map JournalEntry.id).reverse :=
    (List.filter_sublist.map _).reverse
  obtain ⟨w', hfold, hw', hactions, hdone⟩ := foldl_undo h hids hpending
  obtain rfl : w.undoAll = w' := hfold
  refine ⟨hdone, fun a ha p hp => ?_⟩
  have hfiles := hw'.files a (hactions ▸ ha) p hp
  have hunwinds := hw'.unwinds
  rw [hdone] at hunwinds
  exact FileTree.node_eq hfiles (fun hdir => hfiles (hw'.kept p hdir)) (congrFun hunwinds.eq_start p)

/-! ## Actions -/

section Act

variable {a : Action}

/-- The body leaves no directory at a path that it or a recorded action declares. -/
def Clears (w : JournalWorld) (a : Action) : Prop :=
  ∀ p ∈ a.files ++ w.entries.flatMap JournalEntry.files, (a.run w.tree).1.node p ≠ some .dir

instance (w : JournalWorld) (a : Action) : Decidable (w.Clears a) :=
  inferInstanceAs (Decidable (∀ p ∈ a.files ++ w.entries.flatMap JournalEntry.files, _))

theorem Journaled.act_push (kind summary : PyStr) (h : Journaled start w)
    (hfresh : id ∉ w.recordedIds) (hclear : w.Clears a) :
    Journaled start (w.pushed id kind summary a.files (a.run w.tree).1) := by
  refine h.push kind summary hfresh (a.confined w.tree) fun p hp =>
    hclear p (List.mem_append.mpr (hp.imp_right ?_))
  rintro ⟨e, he, hpe⟩
  rw [entries_eq, List.mem_flatMap]
  exact ⟨_, List.mem_map_of_mem he, hpe⟩

/-- An action is pushed, and popped again when its body raises. -/
theorem record_spec (kind summary : PyStr) (h : Journaled start w) (hfresh : id ∉ w.recordedIds)
    (hclear : w.Clears a) :
    Journaled start (w.record id kind summary a.files a.run).1 ∧
      (w.record id kind summary a.files a.run).1.actions =
        w.actions ++ [w.opened id kind summary a.files] ∧
      ((a.run w.tree).2 = false →
        (w.record id kind summary a.files a.run).1.tree.fileAt = w.tree.fileAt) := by
  have hpush := h.act_push kind summary hfresh hclear
  have hbody := a.confined w.tree
  cases hrun : a.run w.tree with
  | mk t' done =>
    rw [hrun] at hpush hbody
    cases done with
    | true =>
      have hrecord : w.record id kind summary a.files a.run = (w.pushed id kind summary a.files t',
        true) := by
        simp only [record, capture, hrun, pushed]
      rw [hrecord]
      exact ⟨hpush, actions_pushed, fun h => by cases h⟩
    | false =>
      -- The entry just written is the newest pending one, so that its restore succeeds.
      have hnewest := pending_pushed kind summary a.files t'
        fun hundone => hfresh (h.log.known id hundone)
      obtain ⟨t'', hrestore, hback, -, hpopped⟩ := hpush.pop hnewest
      have hrecord : w.record id kind summary a.files a.run =
          ((w.pushed id kind summary a.files t').popped (w.opened id kind summary a.files) t'',
            false) := by
        simp only [opened, pushed, capture] at hrestore
        simp only [record, capture, hrun, hrestore, pushed, popped, opened]
      rw [hrecord]
      refine ⟨hpopped, (actions_popped _).trans actions_pushed, fun _ => ?_⟩
      exact hback.trans (takeBack_opened id kind summary hbody)

end Act

end JournalWorld

/-! ## Runs -/

open JournalWorld

variable {w : JournalWorld} {start : FileTree}

def JournalCall.actionId : JournalCall → Option PyStr
  | .act id _ _ _ => some id
  | _ => none

def actionIds (calls : List JournalCall) : List PyStr := calls.filterMap JournalCall.actionId

def JournalCall.Tidy (w : JournalWorld) : JournalCall → Prop
  | .act _ _ _ a => w.Clears a
  | _ => True

/-- No action of the run leaves a directory at a declared path. -/
def TidyRun : JournalWorld → List JournalCall → Prop
  | _, [] => True
  | w, call :: calls => call.Tidy w ∧ TidyRun (call.apply w) calls

instance (w : JournalWorld) : (call : JournalCall) → Decidable (call.Tidy w)
  | .act _ _ _ a => inferInstanceAs (Decidable (w.Clears a))
  | .undo _ => inferInstanceAs (Decidable True)
  | .undoLast => inferInstanceAs (Decidable True)

instance decidableTidyRun : (w : JournalWorld) → (calls : List JournalCall) → Decidable (TidyRun w calls)
  | _, [] => inferInstanceAs (Decidable True)
  | w, call :: calls =>
    have := decidableTidyRun (call.apply w) calls
    inferInstanceAs (Decidable (call.Tidy w ∧ TidyRun (call.apply w) calls))

def JournalCall.opens (w : JournalWorld) : JournalCall → List JournalEntry
  | .act id kind summary a => [w.opened id kind summary a.files]
  | _ => []

theorem JournalCall.opens_ids (w : JournalWorld) (call : JournalCall) :
    (call.opens w).map JournalEntry.id = actionIds [call] := by
  cases call <;> rfl

theorem journaled_call (h : Journaled start w) {call : JournalCall}
    (hfresh : ∀ id ∈ actionIds [call], id ∉ w.recordedIds) (htidy : call.Tidy w) :
    Journaled start (call.apply w) ∧ (call.apply w).actions = w.actions ++ call.opens w := by
  cases call with
  | act id kind summary a =>
    obtain ⟨hrecord, hactions, -⟩ :=
      record_spec kind summary h (hfresh id List.mem_cons_self) htidy
    exact ⟨hrecord, hactions⟩
  | undo id => exact ⟨h.undo id, (actions_undo h id).trans (List.append_nil _).symm⟩
  | undoLast => exact ⟨h.undoLast, (actions_undoLast h).trans (List.append_nil _).symm⟩

theorem actionIds_cons (call : JournalCall) (calls : List JournalCall) :
    actionIds (call :: calls) = actionIds [call] ++ actionIds calls := by
  rw [← List.singleton_append, actionIds, List.filterMap_append]
  rfl

/-- A run keeps the invariant, and its actions are in the log. -/
theorem journaled_run (h : Journaled start w) {calls : List JournalCall}
    (hids : (w.recordedIds ++ actionIds calls).Nodup) (htidy : TidyRun w calls) :
    Journaled start (calls.foldl JournalCall.apply w) ∧
      (calls.foldl JournalCall.apply w).recordedIds = w.recordedIds ++ actionIds calls ∧
      (∀ e ∈ w.actions, e ∈ (calls.foldl JournalCall.apply w).actions) ∧
      ∀ id kind summary a, .act id kind summary a ∈ calls →
        ∃ e ∈ (calls.foldl JournalCall.apply w).actions, e.files = a.files := by
  induction calls generalizing w with
  | nil => exact ⟨h, (List.append_nil _).symm, fun e he => he, nofun⟩
  | cons call calls ih =>
    rw [actionIds_cons, ← List.append_assoc] at hids
    have hfresh : ∀ id ∈ actionIds [call], id ∉ w.recordedIds := fun id hid hold =>
      List.disjoint_of_nodup_append (List.nodup_append.mp hids).1 hold hid
    obtain ⟨hcall, hactions⟩ := journaled_call h hfresh htidy.1
    have hrecorded : (call.apply w).recordedIds = w.recordedIds ++ actionIds [call] := by
      rw [recordedIds, hactions, List.map_append, call.opens_ids]
      rfl
    obtain ⟨hrun, hrunIds, hold, hopened⟩ := ih hcall (hrecorded ▸ hids) htidy.2
    refine ⟨hrun, ?_, fun e he => hold e (hactions ▸ List.mem_append_left _ he),
      fun id kind summary a ha => ?_⟩
    · rw [actionIds_cons, ← List.append_assoc, ← hrecorded]
      exact hrunIds
    · rcases List.mem_cons.mp ha with rfl | ha
      · exact ⟨_, hold _ (hactions ▸ List.mem_append_right _ List.mem_cons_self), rfl⟩
      · exact hopened id kind summary a ha

theorem tidyRun_append {before after : List JournalCall} :
    TidyRun w (before ++ after) ↔ TidyRun w before ∧
      TidyRun (before.foldl JournalCall.apply w) after := by
  induction before generalizing w with
  | nil => simp [TidyRun]
  | cons call before ih => simp only [List.cons_append, TidyRun, ih, and_assoc, List.foldl_cons]

/-! ## The law of the journal -/

/-- What undoing gives in a state that a run reaches. -/
structure TakesBack (start : FileTree) (calls : List JournalCall) (w : JournalWorld) : Prop where
  cleared : w.undoAll.pending = []
  /-- Every declared path is as it was before the journal. -/
  restored : ∀ id kind summary a, .act id kind summary a ∈ calls →
    ∀ p ∈ a.files, w.undoAll.tree.node p = start.node p
  /-- `undo_last` takes the newest entry not yet undone. -/
  newest : w.undoLast.1 = .ok w.pending.getLast? ∧ w.undoLast.2.pending = w.pending.dropLast

theorem takesBack_of_journaled (h : Journaled start w) {calls : List JournalCall}
    (hopened : ∀ id kind summary a, .act id kind summary a ∈ calls → ∃ e ∈ w.actions,
      e.files = a.files) :
    TakesBack start calls w := by
  obtain ⟨hcleared, hrestored⟩ := undoAll_spec h
  refine ⟨hcleared, fun id kind summary a ha p hp => ?_, ?_⟩
  · obtain ⟨e, he, hfiles⟩ := hopened id kind summary a ha
    exact hrestored e he p (hfiles ▸ hp)
  · rcases undoLast_spec h with ⟨hnone, hrun⟩ | ⟨init, e, t', hnewest, hrun, -⟩
    · rw [hrun]
      exact ⟨by rw [hnone]; rfl, by rw [hnone]; rfl⟩
    · rw [hrun, hnewest, List.getLast?_concat, List.dropLast_concat]
      exact ⟨rfl, pending_popped h.log hnewest t'⟩

/-- In every run whose actions leave no directory at a declared path, a failed action leaves every
declared path as it was, and every state takes back to the start. -/
theorem journal_takes_back (t : FileTree) (calls : List JournalCall) (hids : (actionIds calls).Nodup)
    (htidy : TidyRun { tree := t } calls) :
    (∀ before id kind summary a after, calls = before ++ .act id kind summary a :: after →
      (a.run (journalRun t before).tree).2 = false →
      ∀ p ∈ a.files, (journalRun t (before ++ [.act id kind summary a])).tree.node p =
        (journalRun t before).tree.node p) ∧
    ∀ before after, calls = before ++ after → TakesBack t before (journalRun t before) := by
  constructor
  · intro before id kind summary a after hcalls hraised p hp
    rw [hcalls] at hids htidy
    obtain ⟨hbefore, hact, -⟩ := tidyRun_append.mp htidy
    rw [actionIds, List.filterMap_append] at hids
    obtain ⟨h, hrecorded, -, -⟩ := journaled_run (.start t) (List.nodup_append.mp hids).1 hbefore
    have hfresh : id ∉ (journalRun t before).recordedIds := fun hold => by
      rw [journalRun, hrecorded] at hold
      exact List.disjoint_of_nodup_append hids hold List.mem_cons_self
    obtain ⟨hafter, hactions, hsame⟩ := record_spec kind summary h hfresh hact
    rw [journalRun, List.foldl_append]
    have hdeclared := hafter.files _ (hactions ▸ List.mem_append_right _ List.mem_cons_self) p hp
    refine FileTree.node_eq hdeclared (fun hdir => ?_) (congrFun (hsame hraised) p)
    exact hact p (List.mem_append_left _ hp) ((a.confined _).kept p hdir)
  · intro before after hcalls
    rw [hcalls] at hids htidy
    rw [actionIds, List.filterMap_append] at hids
    obtain ⟨h, -, -, hopened⟩ := journaled_run (.start t) (List.nodup_append.mp hids).1
      (tidyRun_append.mp htidy).1
    exact takesBack_of_journaled h hopened

def failedEdit : Action := ⟨[[lit "a"]], [.write [lit "a"] [50]], true, by simp [FileOp.path]⟩

def deletion : Action := ⟨[[lit "a"]], [.delete [lit "a"]], false, by simp [FileOp.path]⟩

def creationBelow : Action :=
  ⟨[[lit "a", lit "b"]], [.write [lit "a", lit "b"] [51]], false, by simp [FileOp.path]⟩

theorem journal_takes_back_one :
    (actionIds [.act (lit "1") [] [] failedEdit, .act (lit "2") [] [] deletion]).Nodup ∧
    TakesBack (loneFile (lit "a") [49])
      [.act (lit "1") [] [] failedEdit, .act (lit "2") [] [] deletion]
      (journalRun (loneFile (lit "a") [49])
        [.act (lit "1") [] [] failedEdit, .act (lit "2") [] [] deletion]) := by
  refine ⟨by decide, (journal_takes_back _ _ ?_ ?_).2 _ [] rfl⟩
  · decide
  · decide

/-- A file is deleted, a file is written below its path, and everything is undone: the first file is
put into the directory that stands at its path. -/
theorem journal_loses_a_file :
    (actionIds [.act (lit "1") [] [] deletion, .act (lit "2") [] [] creationBelow]).Nodup ∧
    ¬ TakesBack (loneFile (lit "a") [49])
      [.act (lit "1") [] [] deletion, .act (lit "2") [] [] creationBelow]
      (journalRun (loneFile (lit "a") [49])
        [.act (lit "1") [] [] deletion, .act (lit "2") [] [] creationBelow]) ∧
    (journalRun (loneFile (lit "a") [49])
      [.act (lit "1") [] [] deletion, .act (lit "2") [] [] creationBelow]).undoAll.tree.node
        [lit "a", lit "a"] = some (.file [49]) := by
  refine ⟨by decide, fun h => ?_, by decide⟩
  have hrestored := h.restored _ _ _ _ List.mem_cons_self [lit "a"] List.mem_cons_self
  exact absurd hrestored (by decide)

end Tempest
