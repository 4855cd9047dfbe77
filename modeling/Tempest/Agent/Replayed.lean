import Tempest.Agent.Frame

/-!
# Replayed — the tree a replayed transcript describes

A transcript is replayed on the worktree its conversation worked in, and on the baseline of the first
`STARTED` row, as long as two things do not happen: a lifetime that rebuilt the worktree of a task
with a recorded transcript ends before it has recorded its own, and a rebuild carries untracked files
into a new baseline.
-/

namespace Tempest

open Python Routine

/-! ## Replays -/

/-- Every replay took its transcript from a row written after its worktree was built, and worked on
the recorded baseline. -/
def ReplaySound (w : World) : Prop :=
  ∀ row worktree baseline, .replayed row worktree baseline ∈ w.trace →
    (∃ rows, worktree = some rows ∧ rows ≤ row) ∧ recordedBaseline w.log = some baseline

def newRows (w w' : World) : TurnLog := w'.log.drop w.log.length

def newEvents (w w' : World) : List Event := w'.trace.take (w'.trace.length - w.trace.length)

/-- A lifetime that rebuilds the worktree of a recorded transcript records its own, and carries no
untracked file into the baseline of a task that has begun. -/
structure Kept (w w' : World) : Prop where
  completes : .built ∈ newEvents w w' → turnsDone w.log = true → turnsDone (newRows w w') = true
  carriesNothing : .carried ∈ newEvents w w' → w.log = []

def Restarts (label : Option Bool) (w w' : World) : Prop :=
  label ≠ some false ∧ (label = some true → Kept w w')

/-! ## What holds between two lifetimes -/

/-- Log, disk and replays agree; the baseline may differ from the recorded one if that is excused. -/
structure Told (excused : Prop) (w : World) : Prop where
  started : w.log ≠ [] → (recordedBaseline w.log).isSome
  metadata : ∀ m b, w.disk.metadata = some m → recordedBaseline w.log = some b → m = b ∨ excused
  built : ∀ rows, w.disk.worktree = some rows → rows ≤ w.log.length
  current : turnsDone w.log = true → ∀ rows, w.disk.worktree = some rows →
    w.disk.metadata.isSome → ∃ row recorded, lastRecorded w.log = some (row, recorded) ∧ rows ≤ row
  replayed : ReplaySound w

/-- Since `w`, untracked files went into the baseline of a task that had begun. -/
def Carried (w w' : World) : Prop :=
  w.log ≠ [] ∧ ∃ events, w'.trace = events ++ w.trace ∧ .carried ∈ events

structure Rebuilt (w w' : World) : Prop where
  started : w'.log ≠ [] → (recordedBaseline w'.log).isSome
  metadata : ∀ m b, w'.disk.metadata = some m → recordedBaseline w'.log = some b →
    m = b ∨ Carried w w'
  worktree : w'.disk.worktree = some w.log.length
  rows : ∃ rows, w'.log = w.log ++ rows ∧ turnsDone rows = false
  events : ∃ events, w'.trace = events ++ w.trace ∧ .built ∈ events
  replayed : ReplaySound w'

def Leaves (w w' : World) : Prop := Told False w' ∨ ¬ Kept w w'

def LogRow.Unrecorded (row : LogRow) : Prop := row.stage ≠ .turnsDone

def Event.Unreplayed : Event → Prop
  | .replayed _ _ _ => False
  | _ => True

section Logs

variable {log rows : TurnLog}

theorem recordedBaseline_of_isSome (h : (recordedBaseline log).isSome) (rows : TurnLog) :
    recordedBaseline (log ++ rows) = recordedBaseline log := by
  rcases Option.isSome_iff_exists.1 h with ⟨b, hb⟩
  have hfound : log.findSome? LogRow.startedBaseline = some b := hb
  simp [recordedBaseline, List.findSome?_append, hfound]

theorem turnsDone_rows : turnsDone (log ++ rows) = (turnsDone log || turnsDone rows) := by
  simp [turnsDone]

/-- The newest transcript only moves on. -/
theorem lastRecorded_le {row : Nat} {r : Transcript × PyStr × Nat}
    (h : lastRecorded log = some (row, r)) (hrow : row ≤ log.length) :
    ∃ row' r', lastRecorded (log ++ rows) = some (row', r') ∧ row ≤ row' := by
  induction rows using List.reverseRecOn with
  | nil => exact ⟨row, r, by simpa using h, le_rfl⟩
  | append_singleton rows last ih =>
    rcases ih with ⟨row', r', hlast, hle⟩
    rw [← List.append_assoc, lastRecorded_append]
    cases hrecorded : last.recorded with
    | none => exact ⟨row', r', by simpa using hlast, hle⟩
    | some recorded =>
      refine ⟨(log ++ rows).length, recorded, rfl, ?_⟩
      rw [List.length_append]
      omega

theorem lastRecorded_lt {row : Nat} {r : Transcript × PyStr × Nat}
    (h : lastRecorded log = some (row, r)) : row < log.length := by
  induction log using List.reverseRecOn with
  | nil => simp [lastRecorded] at h
  | append_singleton log last ih =>
    rw [lastRecorded_append] at h
    cases hrecorded : last.recorded with
    | none =>
      rw [hrecorded] at h
      have hlt := ih (by simpa using h)
      simp only [List.length_append, List.length_singleton]
      omega
    | some recorded =>
      rw [hrecorded] at h
      obtain ⟨rfl, _⟩ : log.length = row ∧ recorded = r := by simpa using h
      simp

/-- A conversation recorded among the new rows stands after the old ones. -/
theorem lastRecorded_new (log : TurnLog) (h : turnsDone rows = true) :
    ∃ row r, lastRecorded (log ++ rows) = some (row, r) ∧ log.length ≤ row := by
  induction rows using List.reverseRecOn with
  | nil => simp [turnsDone] at h
  | append_singleton rows last ih =>
    rw [← List.append_assoc, lastRecorded_append]
    cases hrecorded : last.recorded with
    | some recorded =>
      refine ⟨(log ++ rows).length, recorded, rfl, ?_⟩
      rw [List.length_append]
      omega
    | none =>
      have hstage : decide (last.stage = .turnsDone) = false := by
        cases last <;> simp_all [LogRow.stage, LogRow.recorded]
      rw [turnsDone_append, hstage, Bool.or_false] at h
      simpa using ih h

end Logs

section Told

variable {excused : Prop} {w w₀ w' : World}

theorem ReplaySound.grows {rowOk : LogRow → Prop} (h : ReplaySound w)
    (hgrows : Grows rowOk Event.Unreplayed w w') : ReplaySound w' := by
  rcases hgrows with ⟨⟨rows, hlog, _⟩, ⟨events, htrace, hevents⟩⟩
  intro row worktree baseline hmem
  rw [htrace] at hmem
  rcases List.mem_append.1 hmem with hnew | hold
  · exact (hevents _ hnew).elim
  · rcases h row worktree baseline hold with ⟨htree, hbaseline⟩
    refine ⟨htree, ?_⟩
    have hsome : (recordedBaseline w.log).isSome := by simp [hbaseline]
    rw [hlog, recordedBaseline_of_isSome hsome]
    exact hbaseline

/-- Once the task has begun, its rows and its events change nothing. -/
theorem Told.grows {rowOk : LogRow → Prop} (h : Told excused w) (hbegun : w.log ≠ [])
    (hgrows : Grows rowOk Event.Unreplayed w w') (hdisk : w'.disk = w.disk) : Told excused w' := by
  have hreplayed := h.replayed.grows hgrows
  rcases hgrows.log with ⟨rows, hlog, _⟩
  have hsome := h.started hbegun
  have hbaseline : recordedBaseline w'.log = recordedBaseline w.log := by
    rw [hlog, recordedBaseline_of_isSome hsome]
  refine ⟨fun _ => by rwa [hbaseline], ?_, ?_, ?_, hreplayed⟩
  · rw [hdisk, hbaseline]
    exact h.metadata
  · intro built hbuilt
    rw [hdisk] at hbuilt
    rw [hlog, List.length_append]
    exact (h.built built hbuilt).trans (Nat.le_add_right _ _)
  · intro hdone built hbuilt hmetadata
    rw [hdisk] at hbuilt hmetadata
    rw [hlog, turnsDone_rows, Bool.or_eq_true] at hdone
    rw [hlog]
    rcases hdone with hold | hnew
    · rcases h.current hold built hbuilt hmetadata with ⟨row, r, hlast, hle⟩
      rcases lastRecorded_le hlast (lastRecorded_lt hlast).le with ⟨row', r', hlast', hle'⟩
      exact ⟨row', r', hlast', hle.trans hle'⟩
    · rcases lastRecorded_new w.log hnew with ⟨row, r, hlast, hle⟩
      exact ⟨row, r, hlast, (h.built built hbuilt).trans hle⟩

theorem ReplaySound.still (h : ReplaySound w) (hs : Still w w') : ReplaySound w' :=
  h.grows (hs.grows : Grows (fun _ => True) Event.Unreplayed w w')

theorem ReplaySound.event {e : Event} (h : ReplaySound w) (hlog : w'.log = w.log)
    (htrace : w'.trace = e :: w.trace) (he : e.Unreplayed) : ReplaySound w' :=
  h.grows (Grows.of_event hlog htrace he : Grows (fun _ => True) Event.Unreplayed w w')

theorem Told.weaken {excused' : Prop} (h : Told excused w) (himp : excused → excused') :
    Told excused' w :=
  ⟨h.started, fun m b hm hb => (h.metadata m b hm hb).imp_right himp, h.built, h.current, h.replayed⟩

theorem Carried.grows {rowOk : LogRow → Prop} {eventOk : Event → Prop} (h : Carried w₀ w)
    (hgrows : Grows rowOk eventOk w w') : Carried w₀ w' := by
  rcases h with ⟨hbegun, events, htrace, hmem⟩
  rcases hgrows.trace with ⟨new, htrace', _⟩
  exact ⟨hbegun, new ++ events, by simp [htrace', htrace], List.mem_append_right new hmem⟩

theorem Carried.still (h : Carried w₀ w) (hs : Still w w') : Carried w₀ w' :=
  h.grows (hs.grows : Grows (fun _ => True) (fun _ => True) w w')

theorem newEvents_eq {events : List Event} (h : w'.trace = events ++ w.trace) :
    newEvents w w' = events := by
  simp [newEvents, h]

theorem newRows_eq {rows : TurnLog} (h : w'.log = w.log ++ rows) : newRows w w' = rows := by
  simp [newRows, h]

theorem Carried.not_kept (h : Carried w₀ w) : ¬ Kept w₀ w := by
  rcases h with ⟨hbegun, events, htrace, hmem⟩
  intro hkept
  exact hbegun (hkept.carriesNothing (by rwa [newEvents_eq htrace]))

theorem Told.leaves (h : Told (Carried w₀ w) w) : Leaves w₀ w := by
  by_cases hcarried : Carried w₀ w
  · exact Or.inr hcarried.not_kept
  · exact Or.inl (h.weaken hcarried)

theorem Rebuilt.grows (h : Rebuilt w₀ w) (hbegun : w.log ≠ [])
    (hgrows : Grows LogRow.Unrecorded Event.Unreplayed w w') (hdisk : w'.disk = w.disk) :
    Rebuilt w₀ w' := by
  have hreplayed := h.replayed.grows hgrows
  rcases hgrows.log with ⟨rows, hlog, hrows⟩
  rcases hgrows.trace with ⟨events, htrace, _⟩
  rcases h.rows with ⟨rows₀, hlog₀, hrows₀⟩
  rcases h.events with ⟨events₀, htrace₀, hbuilt⟩
  have hsome := h.started hbegun
  have hbaseline : recordedBaseline w'.log = recordedBaseline w.log := by
    rw [hlog, recordedBaseline_of_isSome hsome]
  have hquiet : turnsDone rows = false := by
    simp only [turnsDone, List.any_eq_false, decide_eq_true_eq]
    exact hrows
  refine ⟨fun _ => by rwa [hbaseline], ?_, hdisk ▸ h.worktree, ?_, ?_, hreplayed⟩
  · intro m b hm hb
    rw [hdisk] at hm
    rw [hbaseline] at hb
    exact (h.metadata m b hm hb).imp_right fun hcarried => hcarried.grows hgrows
  · refine ⟨rows₀ ++ rows, by simp [hlog, hlog₀], ?_⟩
    rw [turnsDone_rows, hrows₀, hquiet]
    rfl
  · exact ⟨events ++ events₀, by simp [htrace, htrace₀], List.mem_append_right events hbuilt⟩

/-- Stopped here, the lifetime has rebuilt a worktree and recorded nothing in it. -/
theorem Rebuilt.leaves (h : Rebuilt w₀ w) : Leaves w₀ w := by
  rcases h.rows with ⟨rows, hlog, hrows⟩
  rcases h.events with ⟨events, htrace, hbuilt⟩
  by_cases hdone : turnsDone w₀.log = true
  · refine Or.inr fun hkept => ?_
    have hnew := hkept.completes (by rwa [newEvents_eq htrace]) hdone
    rw [newRows_eq hlog, hrows] at hnew
    cases hnew
  · refine Told.leaves ⟨h.started, h.metadata, ?_, ?_, h.replayed⟩
    · intro built hworktree
      obtain rfl : w₀.log.length = built := Option.some.inj (h.worktree.symm.trans hworktree)
      rw [hlog, List.length_append]
      exact Nat.le_add_right _ _
    · intro habsurd
      rw [hlog, turnsDone_rows, hrows, Bool.or_false] at habsurd
      exact absurd habsurd hdone

theorem Rebuilt.record {row : LogRow} (h : Rebuilt w₀ w) (hbegun : w.log ≠ [])
    (hrow : row.stage = .turnsDone) (hlog : w'.log = w.log ++ [row]) (hdisk : w'.disk = w.disk)
    (htrace : w'.trace = w.trace) : Told (Carried w₀ w') w' := by
  have hgrows : Grows (fun _ => True) Event.Unreplayed w w' := Grows.of_row hlog htrace trivial
  have hsome := h.started hbegun
  have hbaseline : recordedBaseline w'.log = recordedBaseline w.log := by
    rw [hlog, recordedBaseline_of_isSome hsome]
  rcases h.rows with ⟨rows, hlog₀, _⟩
  have hlength : w₀.log.length ≤ w.log.length := by
    rw [hlog₀, List.length_append]
    exact Nat.le_add_right _ _
  refine ⟨fun _ => by rwa [hbaseline], ?_, ?_, ?_, h.replayed.grows hgrows⟩
  · intro m b hm hb
    rw [hdisk] at hm
    rw [hbaseline] at hb
    exact (h.metadata m b hm hb).imp_right fun hcarried => hcarried.grows hgrows
  · intro built hbuilt
    rw [hdisk, h.worktree] at hbuilt
    obtain rfl : w₀.log.length = built := Option.some.inj hbuilt
    rw [hlog, List.length_append]
    exact hlength.trans (Nat.le_add_right _ _)
  · intro _ built hbuilt _
    rw [hdisk, h.worktree] at hbuilt
    obtain rfl : w₀.log.length = built := Option.some.inj hbuilt
    have hnew : turnsDone [row] = true := by simp [turnsDone, hrow]
    rcases lastRecorded_new w.log hnew with ⟨index, r, hlast, hle⟩
    exact ⟨index, r, by rw [hlog]; exact hlast, hlength.trans hle⟩

end Told

/-! ## The shadow of a lifetime -/

section Shadow

variable {w₀ : World}

/-- A lifetime that has not touched the disk, and whose log is the one it found. -/
structure Begun (w₀ w : World) : Prop where
  told : Told False w
  log : w.log = w₀.log
  trace : ∃ events, w.trace = events ++ w₀.trace

structure Attached (w₀ : World) (shadow : Shadow) (w : World) : Prop where
  begun : Begun w₀ w
  metadata : w.disk.metadata = some shadow.baseline
  worktree : w.disk.worktree.isSome

structure Based (w₀ : World) (sha : Sha) (w : World) : Prop where
  rebuilt : Rebuilt w₀ w
  log : w.log = w₀.log
  baseline : ∀ b, recordedBaseline w₀.log = some b → sha = b ∨ Carried w₀ w

structure Staged (w₀ : World) (shadow : Shadow) (w : World) : Prop where
  rebuilt : Rebuilt w₀ w
  log : w.log = w₀.log
  metadata : w.disk.metadata = some shadow.baseline

variable {w w' : World}

theorem Begun.leaves (h : Begun w₀ w) : Leaves w₀ w := Or.inl h.told

theorem Begun.still (h : Begun w₀ w) (hs : Still w w') : Begun w₀ w' := by
  refine ⟨⟨?_, ?_, ?_, ?_, ?_⟩, hs.log.trans h.log, ?_⟩
  · rw [hs.log]
    exact h.told.started
  · rw [hs.log, hs.disk]
    exact h.told.metadata
  · rw [hs.log, hs.disk]
    exact h.told.built
  · rw [hs.log, hs.disk]
    exact h.told.current
  · exact h.told.replayed.still hs
  · rw [hs.trace]
    exact h.trace

/-- Without a worktree there is nothing a transcript could describe. -/
theorem Begun.clear (h : Begun w₀ w) :
    Begun w₀ { w with disk := { w.disk with worktree := none } } :=
  ⟨⟨h.told.started, h.told.metadata, fun _ habsurd => (nomatch habsurd),
    fun _ _ habsurd => (nomatch habsurd), h.told.replayed⟩, h.log, h.trace⟩

theorem Begun.build (h : Begun w₀ w) :
    Rebuilt w₀ { w with
      disk := { w.disk with worktree := some w.log.length }
      trace := .built :: w.trace } := by
  rcases h.trace with ⟨events, htrace⟩
  refine ⟨h.told.started, ?_, ?_, ⟨[], by simp [h.log], rfl⟩, ⟨.built :: events, by simp [htrace],
    by simp⟩, ?_⟩
  · exact fun m b hm hb => (h.told.metadata m b hm hb).imp_right False.elim
  · simp [h.log]
  · exact h.told.replayed.event rfl rfl trivial

theorem Rebuilt.still (h : Rebuilt w₀ w) (hs : Still w w') : Rebuilt w₀ w' := by
  refine ⟨?_, ?_, ?_, ?_, ?_, h.replayed.still hs⟩
  · rw [hs.log]
    exact h.started
  · rw [hs.log, hs.disk]
    exact fun m b hm hb => (h.metadata m b hm hb).imp_right fun hcarried => hcarried.still hs
  · rw [hs.disk]
    exact h.worktree
  · rw [hs.log]
    exact h.rows
  · rw [hs.trace]
    exact h.events

theorem Rebuilt.carry (h : Rebuilt w₀ w) (hs : Still { w with trace := .carried :: w.trace } w') :
    Rebuilt w₀ w' := by
  rcases h.events with ⟨events, htrace, hbuilt⟩
  have hcarry : Rebuilt w₀ { w with trace := .carried :: w.trace } := by
    refine ⟨h.started, ?_, h.worktree, h.rows, ⟨.carried :: events, by simp [htrace],
      List.mem_cons_of_mem _ hbuilt⟩,
      h.replayed.event rfl rfl trivial⟩
    refine fun m b hm hb => (h.metadata m b hm hb).imp_right fun hcarried => ?_
    rcases hcarried with ⟨hbegun, events', htrace', hmem⟩
    exact ⟨hbegun, .carried :: events', by simp [htrace'], List.mem_cons_of_mem _ hmem⟩
  exact hcarry.still hs

theorem Rebuilt.write {sha : Sha} (h : Rebuilt w₀ w)
    (hsha : ∀ b, recordedBaseline w.log = some b → sha = b ∨ Carried w₀ w) :
    Rebuilt w₀ { w with disk := { w.disk with metadata := some sha } } := by
  refine ⟨h.started, ?_, h.worktree, h.rows, h.events, h.replayed⟩
  rintro m b ⟨⟩ hb
  exact hsha b hb

variable {out : Outside} {plan : ResumePlan}

theorem Attached.still {shadow : Shadow} (h : Attached w₀ shadow w) (hs : Still w w') :
    Attached w₀ shadow w' :=
  ⟨h.begun.still hs, hs.disk ▸ h.metadata, hs.disk ▸ h.worktree⟩

theorem Staged.still {shadow : Shadow} (h : Staged w₀ shadow w) (hs : Still w w') :
    Staged w₀ shadow w' :=
  ⟨h.rebuilt.still hs, hs.log.trans h.log, hs.disk ▸ h.metadata⟩

theorem meets_attach :
    Meets (Begun w₀) attach
      (fun existing w => match existing with
        | some shadow => Attached w₀ shadow w
        | none => Begun w₀ w) (Leaves w₀) := by
  refine meets_op (fun w h => h.leaves) fun w w' h hs => ?_
  have hnow : Begun w₀ w' := h.still hs
  cases hmetadata : w'.disk.metadata with
  | none => exact hnow
  | some baseline =>
    cases hworktree : w'.disk.worktree with
    | none => exact hnow
    | some rows => exact ⟨hnow, hmetadata, by simp [hworktree]⟩

theorem meets_clearWreckage : Meets (Begun w₀) clearWreckage (fun _ => Begun w₀) (Leaves w₀) := by
  refine meets_op (fun w h => h.leaves) fun w w' h hs => ?_
  split
  · exact (h.still hs).leaves
  · exact (h.still hs).clear

theorem meets_startingCommit (hbaseline : plan.baseline = recordedBaseline w₀.log) :
    Meets (Begun w₀) (startingCommit out.repo plan.baseline)
      (fun sha w => Begun w₀ w ∧ ∀ b, recordedBaseline w₀.log = some b → sha = b) (Leaves w₀) := by
  rw [hbaseline]
  cases hrecorded : recordedBaseline w₀.log with
  | none =>
    exact meets_ask (fun sha w w' h hs => ⟨h.still hs, fun b hb => nomatch hb⟩)
      fun w w' h hs => (h.still hs).leaves
  | some baseline =>
    have hcommit : Meets (Begun w₀)
        (ask fun t => if out.repo.hasCommit t baseline then .ok baseline
          else .error (.noCommit baseline))
        (fun sha w => Begun w₀ w ∧ ∀ b, some baseline = some b → sha = b) (Leaves w₀) := by
      refine meets_op (fun w h => h.leaves) fun w w' h hs => ?_
      dsimp only
      split_ifs
      · exact ⟨h.still hs, fun b hb => Option.some.inj hb⟩
      · exact (h.still hs).leaves
    exact hcommit

theorem meets_addWorktree (sha : Sha) :
    Meets (fun w => Begun w₀ w ∧ ∀ b, recordedBaseline w₀.log = some b → sha = b)
      (addWorktree out.repo) (fun _ => Based w₀ sha) (Leaves w₀) := by
  refine meets_op (fun w h => h.1.leaves) fun w w' h hs => ?_
  have hnow : Begun w₀ w' := h.1.still hs
  cases out.repo.addWorktree w'.clock with
  | error e => exact hnow.leaves
  | ok _ => exact ⟨hnow.build, hnow.log, fun b hb => Or.inl (h.2 b hb)⟩

theorem Based.still {sha : Sha} (h : Based w₀ sha w) (hs : Still w w') :
    Based w₀ sha w' :=
  ⟨h.rebuilt.still hs, hs.log.trans h.log,
    fun b hb => (h.baseline b hb).imp_right fun hcarried => hcarried.still hs⟩

/-- A task that has begun has carried files from here on, whatever its baseline becomes. -/
theorem Based.carry {sha : Sha} (h : Based w₀ sha w)
    (hs : Still { w with trace := .carried :: w.trace } w') (sha' : Sha) : Based w₀ sha' w' := by
  refine ⟨h.rebuilt.carry hs, hs.log.trans h.log, fun b hb => Or.inr ⟨?_, ?_⟩⟩
  · intro hnil
    simp [hnil, recordedBaseline] at hb
  · rcases h.rebuilt.events with ⟨events, htrace, _⟩
    exact ⟨.carried :: events, by simp [hs.trace, htrace], by simp⟩

theorem meets_carryOver (sha : Sha) :
    Meets (Based w₀ sha) (carryOver out.repo sha) (fun sha => Based w₀ sha) (Leaves w₀) := by
  have huntracked : Meets (Based w₀ sha) (ask out.repo.untracked) (fun _ => Based w₀ sha)
      (Leaves w₀) :=
    meets_ask (fun _ w w' h hs => h.still hs) fun w w' h hs => (h.rebuilt.still hs).leaves
  have hcarried : Meets (Based w₀ sha) (note .carried) (fun _ w => ∀ sha', Based w₀ sha' w)
      (Leaves w₀) :=
    meets_note fun w w' h hs sha' => h.carry hs sha'
  have hcommit : Meets (fun w => ∀ sha', Based w₀ sha' w) (ask out.repo.carryOver)
      (fun sha' => Based w₀ sha') (Leaves w₀) :=
    meets_ask (fun sha' w w' h hs => (h sha').still hs)
      fun w w' h hs => ((h sha).rebuilt.still hs).leaves
  refine Meets.bind huntracked fun files => Meets.ite (fun _ => Meets.pure fun w h => h) fun _ => ?_
  exact Meets.bind hcarried fun _ => hcommit

theorem meets_writeMeta (sha : Sha) :
    Meets (Based w₀ sha) (writeMeta out.repo sha) (fun _ => Staged w₀ ⟨sha⟩) (Leaves w₀) := by
  refine meets_op (fun w h => h.rebuilt.leaves) fun w w' h hs => ?_
  have hnow : Based w₀ sha w' := h.still hs
  cases out.repo.writeMeta w'.clock with
  | error e => exact hnow.rebuilt.leaves
  | ok _ =>
    refine ⟨hnow.rebuilt.write fun b hb => ?_, hnow.log, rfl⟩
    rw [hnow.log] at hb
    exact hnow.baseline b hb

theorem meets_create (hbaseline : plan.baseline = recordedBaseline w₀.log) :
    Meets (Begun w₀) (create out.repo plan.baseline) (fun shadow => Staged w₀ shadow)
      (Leaves w₀) := by
  refine Meets.bind meets_clearWreckage fun _ => ?_
  refine Meets.bind (meets_startingCommit hbaseline) fun sha => ?_
  refine Meets.bind (meets_addWorktree sha) fun _ => ?_
  refine Meets.bind (meets_carryOver sha) fun sha' => ?_
  exact Meets.bind (meets_writeMeta sha') fun _ => Meets.pure fun w h => h

theorem meets_staging (hbaseline : plan.baseline = recordedBaseline w₀.log)
    (hconsulted : plan.consultedTheLog = true) :
    Meets (Begun w₀) (shadowFor out.repo plan)
      (fun staging w =>
        Attached w₀ staging.shadow w ∧ staging.continuesTheRecord = plan.resuming ∨
          Staged w₀ staging.shadow w ∧ staging.continuesTheRecord = !plan.resuming) (Leaves w₀) := by
  refine Meets.bind meets_attach fun existing => ?_
  rw [hconsulted]
  cases existing with
  | some shadow => exact Meets.pure fun w h => Or.inl ⟨h, rfl⟩
  | none =>
    refine Meets.bind (meets_create hbaseline) fun rebuilt => ?_
    exact Meets.pure fun w h => Or.inr ⟨h, rfl⟩

end Shadow

/-! ## The turns of a lifetime -/

section Turns

variable {spec : TaskSpec} {out : Outside} {w₀ : World} {shadow : Shadow}

/-- The turns are on record, on the worktree that stands. -/
structure Working (w₀ w : World) : Prop where
  told : Told (Carried w₀ w) w
  begun : w.log ≠ []

/-- The existing shadow is used, and the lifetime has its first row. -/
structure Announced (w₀ : World) (shadow : Shadow) (w : World) : Prop where
  told : Told False w
  begun : w.log ≠ []
  metadata : w.disk.metadata = some shadow.baseline
  worktree : w.disk.worktree.isSome
  turns : turnsDone w.log = turnsDone w₀.log

theorem Announced.working {w : World} (h : Announced w₀ shadow w) : Working w₀ w :=
  ⟨h.told.weaken False.elim, h.begun⟩

theorem Working.grows {rowOk : LogRow → Prop} {w w' : World} (h : Working w₀ w)
    (hgrows : Grows rowOk Event.Unreplayed w w') (hdisk : w'.disk = w.disk) : Working w₀ w' := by
  refine ⟨(h.told.grows h.begun hgrows hdisk).weaken fun hcarried => hcarried.grows hgrows, ?_⟩
  rcases hgrows.log with ⟨rows, hlog, _⟩
  simp [hlog, h.begun]

theorem unreplayed_money (e : Event) (h : e.ofMoney) : e.Unreplayed := by
  cases e <;> first | exact h.elim | exact trivial

theorem unreplayed_repair (e : Event) (h : e.ofRepair) : e.Unreplayed := by
  cases e <;> first | exact h.elim | exact trivial

theorem admits_working :
    Admits spec out (Working w₀) (Leaves w₀) (fun _ => True) Event.Unreplayed :=
  admits_grows (fun _ _ => trivial) unreplayed_money (fun _ _ h hgrows hdisk => h.grows hgrows hdisk)
    fun _ h => h.told.leaves

theorem admits_rebuilt :
    Admits spec out (fun w => Rebuilt w₀ w ∧ w.log ≠ []) (Leaves w₀) LogRow.Unrecorded
      Event.Unreplayed := by
  refine admits_grows (fun _ _ h => nomatch h) unreplayed_money (fun w w' h hgrows hdisk => ?_)
    fun _ h => h.1.leaves
  refine ⟨h.1.grows h.2 hgrows hdisk, ?_⟩
  rcases hgrows.log with ⟨rows, hlog, _⟩
  simp [hlog, h.2]

theorem announcement_quiet (plan : ResumePlan) :
    (announcement spec plan shadow).Unrecorded ∧
      (announcement spec plan shadow).recorded = none := by
  unfold announcement
  split <;> exact ⟨fun h => (nomatch h), rfl⟩

variable {plan : ResumePlan}

theorem meets_announce_attached (hresuming : plan.resuming = true ↔ w₀.log ≠ []) :
    Meets (Attached w₀ shadow) (checkpoint out.writes (announcement spec plan shadow))
      (fun _ => Announced w₀ shadow) (Leaves w₀) := by
  refine meets_checkpoint (fun w w' h hs => ?_) fun w w' h hs => (h.begun.still hs).leaves
  have hturns : turnsDone w'.log = turnsDone w₀.log := by
    have hstage : decide ((announcement spec plan shadow).stage = .turnsDone) = false :=
      decide_eq_false (announcement_quiet plan).1
    rw [hs.log, turnsDone_append, hstage, Bool.or_false, h.begun.log]
  refine ⟨?_, by simp [hs.log], hs.disk ▸ h.metadata, hs.disk ▸ h.worktree, hturns⟩
  by_cases hnil : w₀.log = []
  · -- the first row of the task records the baseline of the shadow it found
    have hrow : announcement spec plan shadow = .started spec.prompt shadow.baseline := by
      have hfresh : plan.resuming = false := by
        by_contra habsurd
        exact hresuming.1 (Bool.eq_true_of_not_eq_false habsurd) hnil
      simp [announcement, hfresh]
    have hlog : w'.log = [.started spec.prompt shadow.baseline] := by
      rw [hs.log, h.begun.log, hnil, hrow]
      rfl
    have hbaseline : recordedBaseline w'.log = some shadow.baseline := by
      rw [hlog]
      rfl
    refine ⟨fun _ => by simp [hbaseline], ?_, ?_, ?_, ?_⟩
    · intro m b hm hb
      rw [hs.disk, h.metadata] at hm
      rw [hbaseline] at hb
      exact Or.inl ((Option.some.inj hm).symm.trans (Option.some.inj hb))
    · intro rows hrows
      rw [hs.disk] at hrows
      have hle := h.begun.told.built rows hrows
      rw [h.begun.log, hnil] at hle
      exact hle.trans (Nat.zero_le _)
    · intro habsurd
      rw [hturns, hnil] at habsurd
      cases habsurd
    · have hgrows : Grows (fun _ => True) Event.Unreplayed w w' :=
        Grows.of_row hs.log hs.trace trivial
      exact h.begun.told.replayed.grows hgrows
  · have hbegun : w.log ≠ [] := by rwa [h.begun.log]
    have hgrows : Grows (fun _ => True) Event.Unreplayed w w' :=
      Grows.of_row hs.log hs.trace trivial
    exact h.begun.told.grows hbegun hgrows hs.disk

theorem meets_announce_staged (hresuming : plan.resuming = true ↔ w₀.log ≠ []) :
    Meets (Staged w₀ shadow) (checkpoint out.writes (announcement spec plan shadow))
      (fun _ w => Rebuilt w₀ w ∧ w.log ≠ []) (Leaves w₀) := by
  refine meets_checkpoint (fun w w' h hs => ?_) fun w w' h hs => (h.rebuilt.still hs).leaves
  have hgrows : Grows LogRow.Unrecorded Event.Unreplayed w w' :=
    Grows.of_row hs.log hs.trace (announcement_quiet plan).1
  refine ⟨?_, by simp [hs.log]⟩
  by_cases hnil : w₀.log = []
  · have hrow : announcement spec plan shadow = .started spec.prompt shadow.baseline := by
      have hfresh : plan.resuming = false := by
        by_contra habsurd
        exact hresuming.1 (Bool.eq_true_of_not_eq_false habsurd) hnil
      simp [announcement, hfresh]
    have hbaseline : recordedBaseline w'.log = some shadow.baseline := by
      rw [hs.log, h.log, hnil, hrow]
      rfl
    refine ⟨fun _ => by simp [hbaseline], ?_, hs.disk ▸ h.rebuilt.worktree, ?_, ?_,
      h.rebuilt.replayed.grows hgrows⟩
    · intro m b hm hb
      rw [hs.disk, h.metadata] at hm
      rw [hbaseline] at hb
      exact Or.inl ((Option.some.inj hm).symm.trans (Option.some.inj hb))
    · refine ⟨[announcement spec plan shadow], by rw [hs.log, h.log], ?_⟩
      rw [hrow]
      rfl
    · rw [hs.trace]
      exact h.rebuilt.events
  · have hbegun : w.log ≠ [] := by rwa [h.log]
    exact h.rebuilt.grows hbegun hgrows hs.disk

/-- The turns of a rebuilt shadow are run again, and recorded. -/
theorem meets_takeTurns_rebuilt (hredo : plan.redoTurns = true) :
    Meets (fun w => Rebuilt w₀ w ∧ w.log ≠ []) (takeTurns spec out plan shadow)
      (fun _ => Working w₀) (Leaves w₀) := by
  unfold takeTurns
  rw [if_pos hredo]
  refine Meets.bind (admits_rebuilt.converse _) fun conversed => ?_
  have hrecord : Meets (fun w => Rebuilt w₀ w ∧ w.log ≠ [])
      (checkpoint out.writes (.turnsDone conversed.2.2 conversed.2.1 conversed.1))
      (fun _ => Working w₀) (Leaves w₀) :=
    meets_checkpoint
      (fun w w' h hs => ⟨h.1.record h.2 rfl hs.log hs.disk hs.trace, by simp [hs.log]⟩)
      fun w w' h hs => (h.1.still hs).leaves
  exact Meets.bind hrecord fun _ => Meets.pure fun w h => h

theorem Announced.replay {w w' : World} {row : Nat} {r : Transcript × PyStr × Nat}
    (h : Announced w₀ shadow w) (hturns : turnsDone w₀.log = true)
    (hlast : lastRecorded w.log = some (row, r))
    (hs : Still { w with trace := .replayed row w.disk.worktree shadow.baseline :: w.trace } w') :
    Working w₀ w' := by
  have hdone : turnsDone w.log = true := h.turns.trans hturns
  rcases Option.isSome_iff_exists.1 h.worktree with ⟨rows, hrows⟩
  rcases Option.isSome_iff_exists.1 (h.told.started h.begun) with ⟨b, hb⟩
  have hbaseline : shadow.baseline = b :=
    (h.told.metadata shadow.baseline b h.metadata hb).resolve_right id
  have hsome : w.disk.metadata.isSome := by simp [h.metadata]
  have hnewer : rows ≤ row := by
    rcases h.told.current hdone rows hrows hsome with ⟨row', r', hlast', hle⟩
    rw [hlast] at hlast'
    obtain ⟨rfl, _⟩ : row = row' ∧ r = r' := by simpa using hlast'
    exact hle
  have hreplayed : ReplaySound w' := by
    intro row' worktree baseline hmem
    rw [hs.trace] at hmem
    rw [hs.log]
    rcases List.mem_cons.1 hmem with hnew | hold
    · obtain ⟨rfl, rfl, rfl⟩ := Event.replayed.inj hnew
      exact ⟨⟨rows, hrows, hnewer⟩, by rw [hbaseline]; exact hb⟩
    · exact h.told.replayed row' worktree baseline hold
  refine ⟨⟨?_, ?_, ?_, ?_, hreplayed⟩, by rw [hs.log]; exact h.begun⟩
  · rw [hs.log]
    exact h.told.started
  · rw [hs.log, hs.disk]
    exact fun m b hm hb => (h.told.metadata m b hm hb).imp_right False.elim
  · rw [hs.log, hs.disk]
    exact h.told.built
  · rw [hs.log, hs.disk]
    exact h.told.current

theorem Announced.still {w w' : World} (h : Announced w₀ shadow w) (hs : Still w w') :
    Announced w₀ shadow w' := by
  have hgrows : Grows (fun _ => True) Event.Unreplayed w w' := hs.grows
  exact ⟨h.told.grows h.begun hgrows hs.disk, by rw [hs.log]; exact h.begun,
    hs.disk ▸ h.metadata, hs.disk ▸ h.worktree, by rw [hs.log]; exact h.turns⟩

theorem meets_takeTurns_attached (hredo : plan.redoTurns = !turnsDone w₀.log) :
    Meets (Announced w₀ shadow) (takeTurns spec out plan shadow) (fun _ => Working w₀)
      (Leaves w₀) := by
  have hworking : Admits spec out (Working w₀) (Leaves w₀) (fun _ => True) Event.Unreplayed :=
    admits_working
  refine Meets.ite (fun _ => ?_) fun hnot => ?_
  · have hrun : Meets (Working w₀)
        (do
          let conversed ← converse spec out ⟨[userMessage spec.prompt], [], []⟩
          checkpoint out.writes (.turnsDone conversed.2.2 conversed.2.1 conversed.1)
          pure conversed)
        (fun _ => Working w₀) (Leaves w₀) :=
      Meets.bind (hworking.converse _) fun conversed =>
        Meets.bind (hworking.row _ trivial) fun _ => Meets.pure fun w h => h
    exact hrun.weaken (fun w h => h.working) (fun _ _ h => h) fun _ h => h
  · have hturns : turnsDone w₀.log = true := by
      rw [hredo] at hnot
      simpa using hnot
    have hlook : Meets (Announced w₀ shadow) (look id)
        (fun world w => Announced w₀ shadow w ∧ world.log = w.log ∧ world.disk = w.disk)
        (Leaves w₀) :=
      meets_look (fun w h => h.working.told.leaves) fun w w' h hs => ⟨h.still hs, rfl, rfl⟩
    refine Meets.bind hlook fun world => ?_
    dsimp only
    cases hlast : lastRecorded world.log with
    | none => exact Meets.pure fun w h => h.1.working
    | some found =>
      rcases found with ⟨row, recorded, stopped, turns⟩
      have hreplay : Meets
          (fun w => Announced w₀ shadow w ∧ world.log = w.log ∧ world.disk = w.disk)
          (note (.replayed row world.disk.worktree shadow.baseline)) (fun _ => Working w₀)
          (Leaves w₀) := by
        refine meets_note fun w w' h hs => ?_
        rw [h.2.2] at hs
        exact h.1.replay hturns (h.2.1 ▸ hlast) hs
      exact Meets.bind hreplay fun _ => Meets.pure fun w h => h

end Turns

/-! ## Lifetimes -/

section Lifetimes

variable {spec : TaskSpec} {out : Outside} {w₀ : World}

theorem meets_runPlan_restart (hfinished : (planResume w₀.log).finished = false) :
    Meets (Begun w₀) (runPlan spec out (planResume w₀.log)) (fun _ => Leaves w₀) (Leaves w₀) := by
  have hbaseline : (planResume w₀.log).baseline = recordedBaseline w₀.log := planResume_baseline
  refine Meets.bind (meets_staging hbaseline planResume_consulted) fun staging => ?_
  have hconclude : ∀ plan : ResumePlan, ∀ turns : Transcript × PyStr × Nat,
      Meets (Working w₀) (concludeTask spec out staging.shadow plan.repairAttemptsSpent turns)
        (fun _ => Leaves w₀) (Leaves w₀) := by
    intro plan turns
    have hworking : Admits spec out (Working w₀) (Leaves w₀) (fun _ => True) Event.Unreplayed :=
      admits_working
    exact (hworking.concludeTask (fun _ _ => trivial) unreplayed_repair (fun _ _ _ => trivial)
      staging.shadow _ turns).weaken (fun w h => h) (fun _ w h => h.told.leaves) fun w h => h
  refine Meets.or (Meets.fact fun hcontinues => ?_) (Meets.fact fun hcontinues => ?_)
  · -- the shadow that stands
    have hplan : replan (planResume w₀.log) staging = planResume w₀.log := by
      simp [replan, hcontinues]
    dsimp only
    rw [hplan]
    have hsetUp : Meets (Attached w₀ staging.shadow) (ask out.setUp)
        (fun _ => Attached w₀ staging.shadow) (Leaves w₀) :=
      meets_ask (fun _ w w' h hs => h.still hs) fun w w' h hs => (h.begun.still hs).leaves
    refine Meets.bind hsetUp fun _ => ?_
    refine Meets.bind (meets_announce_attached planResume_resuming) fun _ => ?_
    refine Meets.bind (meets_takeTurns_attached (planResume_begun hfinished).1) fun turns => ?_
    exact hconclude _ turns
  · -- a new shadow: the turns are redone
    have hresuming : (replan (planResume w₀.log) staging).resuming = true ↔ w₀.log ≠ [] := by
      have hsame : (replan (planResume w₀.log) staging).resuming = (planResume w₀.log).resuming := by
        unfold replan
        split <;> rfl
      rw [hsame]
      exact planResume_resuming
    have hredo : (replan (planResume w₀.log) staging).redoTurns = true := by
      cases hbegun : (planResume w₀.log).resuming with
      | true => simp [replan, hcontinues, hbegun]
      | false =>
        have hnil : w₀.log = [] := by
          by_contra hne
          rw [planResume_resuming.2 hne] at hbegun
          cases hbegun
        have hsame : replan (planResume w₀.log) staging = planResume w₀.log := by
          simp [replan, hbegun]
        rw [hsame, (planResume_begun hfinished).1, hnil]
        rfl
    dsimp only
    have hsetUp : Meets (Staged w₀ staging.shadow) (ask out.setUp)
        (fun _ => Staged w₀ staging.shadow) (Leaves w₀) :=
      meets_ask (fun _ w w' h hs => h.still hs) fun w w' h hs => (h.rebuilt.still hs).leaves
    refine Meets.bind hsetUp fun _ => ?_
    refine Meets.bind (meets_announce_staged hresuming) fun _ => ?_
    refine Meets.bind (meets_takeTurns_rebuilt hredo) fun turns => ?_
    exact hconclude _ turns

theorem meets_restart : Meets (fun w => w = w₀ ∧ Told False w₀) (runTask spec out true)
    (fun _ => Leaves w₀) (Leaves w₀) := by
  have hbegan : Meets (fun w => w = w₀ ∧ Told False w₀) (note (.began true))
      (fun _ => Begun w₀) (Leaves w₀) := by
    refine meets_note fun w w' h hs => ?_
    rcases h with ⟨rfl, htold⟩
    have hnow : Begun w { w with trace := .began true :: w.trace } :=
      ⟨⟨htold.started, htold.metadata, htold.built, htold.current,
        htold.replayed.event rfl rfl trivial⟩, rfl, ⟨[.began true], rfl⟩⟩
    exact hnow.still hs
  refine Meets.bind hbegan fun _ => ?_
  have hlook : Meets (Begun w₀) (look World.log) (fun log w => Begun w₀ w ∧ log = w₀.log)
      (Leaves w₀) :=
    meets_look (fun w h => h.leaves) fun w w' h hs => ⟨h.still hs, (h.still hs).log⟩
  refine Meets.bind hlook fun log => Meets.fact fun hlog => ?_
  rw [hlog]
  refine Meets.ite (fun _ => Meets.stop fun w h => h.leaves) fun hfinished => ?_
  exact meets_runPlan_restart (Bool.eq_false_iff.2 hfinished)

theorem told_start {w : World} (h : TaskStart w) : Told False w := by
  refine ⟨fun hne => absurd h.log hne, ?_, ?_, ?_, ?_⟩
  · intro m b _ hb
    simp [h.log, recordedBaseline] at hb
  · intro rows hrows
    rw [h.worktree rows hrows]
    exact Nat.zero_le _
  · intro hdone
    simp [h.log, turnsDone] at hdone
  · intro row worktree baseline hmem
    simp [h.trace] at hmem

theorem told_step {label : Option Bool} {w w' : World} (h : Told False w)
    (hstep : TaskStep spec label w w') (hok : Restarts label w w') : Told False w' := by
  cases hstep with
  | lifetime out resume life =>
    cases resume with
    | false => exact absurd rfl hok.1
    | true =>
      have halive : Told False { w with life := life } :=
        ⟨h.started, h.metadata, h.built, h.current, h.replayed⟩
      have hleaves : Leaves { w with life := life } (lifetime spec out true life w) :=
        meets_restart.final (fun _ _ hdone => hdone) ⟨rfl, halive⟩
      have hkept := hok.2 rfl
      exact hleaves.resolve_right fun hnot => hnot ⟨hkept.completes, hkept.carriesNothing⟩
  | between _ disk ledger hworktree hmetadata =>
    refine ⟨h.started, ?_, ?_, ?_, h.replayed⟩
    · intro m b hm hb
      rcases hmetadata with hnone | hsame
      · rw [hnone] at hm
        cases hm
      · exact h.metadata m b (hsame ▸ hm) hb
    · intro rows hrows
      rcases hworktree with hnone | hsame
      · rw [hnone] at hrows
        cases hrows
      · exact h.built rows (hsame ▸ hrows)
    · intro hdone rows hrows hsome
      rcases hworktree with hnone | hsame
      · rw [hnone] at hrows
        cases hrows
      · rcases hmetadata with hgone | hkept
        · rw [hgone] at hsome
          cases hsome
        · exact h.current hdone rows (hsame ▸ hrows) (hkept ▸ hsome)

/-- In every run of restarts whose rebuilds are recorded and carry nothing, a replayed transcript
describes the worktree and the baseline that are proved. -/
theorem replays_its_tree {w w' : World} (hstart : TaskStart w)
    (hrun : TaskRun spec Restarts w w') : ReplaySound w' := by
  have htold : Told False w' := by
    induction hrun with
    | refl => exact told_start hstart
    | tail _ hstep hok ih => exact told_step ih hstep hok
  exact htold.replayed

end Lifetimes

/-! ## A replay on the wrong tree -/

/-- A replay whose worktree is younger than its transcript. -/
def Event.stale : Event → Bool
  | .replayed row (some rows) _ => decide (row < rows)
  | .replayed _ none _ => true
  | _ => false

def Event.astray (recorded : Sha) : Event → Bool
  | .replayed _ _ baseline => baseline != recorded
  | _ => false

def Event.isReplay : Event → Bool
  | .replayed _ _ _ => true
  | _ => false

def Event.touchesDisk : Event → Bool
  | .built | .carried => true
  | _ => false

theorem ReplaySound.not_stale {w : World} (h : ReplaySound w) : w.trace.any Event.stale = false := by
  refine List.any_eq_false.2 fun e he => ?_
  cases e with
  | replayed row worktree baseline =>
    rcases (h row worktree baseline he).1 with ⟨rows, rfl, hle⟩
    simp [Event.stale, hle]
  | _ => simp [Event.stale]

theorem ReplaySound.not_astray {w : World} {b : Sha} (h : ReplaySound w)
    (hb : recordedBaseline w.log = some b) : (w.trace.any fun e => e.astray b) = false := by
  refine List.any_eq_false.2 fun e he => ?_
  cases e with
  | replayed row worktree baseline =>
    have hsame := (h row worktree baseline he).2
    rw [hb] at hsame
    obtain rfl : b = baseline := Option.some.inj hsame
    simp [Event.astray]
  | _ => simp [Event.astray]

theorem kept_of_untouched {w w' : World}
    (h : ((newEvents w w').all fun e => !e.touchesDisk) = true) : Kept w w' := by
  have hno : ∀ e ∈ newEvents w w', e.touchesDisk = false := by
    intro e he
    simpa using List.all_eq_true.1 h e he
  refine ⟨fun hbuilt => ?_, fun hcarried => ?_⟩
  · cases hno _ hbuilt
  · cases hno _ hcarried

/-- Killed after its turns were recorded. -/
def talked : World := lifetime plainTask plainOutside true 16 newWorld

def wiped : World := { talked with disk := ⟨none, none⟩ }

/-- A user's file that git does not track. -/
def strewnOutside : Outside :=
  { plainOutside with
    repo :=
      { plainOutside.repo with
        untracked := fun _ => .ok [lit "notes.txt"]
        carryOver := fun _ => .ok ⟨lit "c9", by decide⟩ } }

theorem replays_its_tree_once :
    (lifetime plainTask plainOutside true 6 talked).trace.any Event.isReplay = true ∧
      ReplaySound (lifetime plainTask plainOutside true 6 talked) := by
  have hfirst : Restarts (some true) newWorld talked :=
    ⟨by decide, fun _ => ⟨fun _ hdone => (nomatch hdone), fun _ => rfl⟩⟩
  have huntouched : ((newEvents talked (lifetime plainTask plainOutside true 6 talked)).all
      fun e => !e.touchesDisk) = true := by
    decide +kernel
  have hsecond : Restarts (some true) talked (lifetime plainTask plainOutside true 6 talked) :=
    ⟨by decide, fun _ => kept_of_untouched huntouched⟩
  have hrun : TaskRun plainTask Restarts newWorld talked :=
    (TaskRun.refl newWorld).tail (.lifetime plainOutside true 16 newWorld) hfirst
  exact ⟨by decide +kernel, replays_its_tree newWorld_start
    (hrun.tail (.lifetime plainOutside true 6 talked) hsecond)⟩

/-- The worktree is lost, the next process is killed once it has rebuilt it, and the one after it
replays the old transcript on the empty tree; or it rebuilds on a baseline with the user's untracked
file, and the next replay is on that baseline. -/
theorem replays_another_tree :
    (∃ w, TaskRun plainTask (fun label _ _ => label ≠ some false) newWorld w ∧ ¬ ReplaySound w) ∧
      ∃ w, TaskRun plainTask (fun label _ _ => label ≠ some false) newWorld w ∧
        recordedBaseline w.log = some headCommit ∧ w.trace.any Event.stale = false ∧
        ¬ ReplaySound w := by
  have htalked : TaskRun plainTask (fun label _ _ => label ≠ some false) newWorld talked :=
    (TaskRun.refl newWorld).tail (.lifetime plainOutside true 16 newWorld) (by decide)
  have hwiped : TaskRun plainTask (fun label _ _ => label ≠ some false) newWorld wiped :=
    htalked.tail (.between talked ⟨none, none⟩ talked.ledger (Or.inl rfl) (Or.inl rfl)) (by decide)
  refine ⟨?_, ?_⟩
  · have hkilled := hwiped.tail (.lifetime plainOutside true 8 wiped) (by decide)
    refine ⟨_, hkilled.tail (.lifetime plainOutside true 6 _) (by decide), fun h => ?_⟩
    have hstale : (lifetime plainTask plainOutside true 6
        (lifetime plainTask plainOutside true 8 wiped)).trace.any Event.stale = true := by
      decide +kernel
    rw [h.not_stale] at hstale
    cases hstale
  · have hrebuilt := hwiped.tail (.lifetime strewnOutside true 17 wiped) (by decide)
    have hbaseline : recordedBaseline (lifetime plainTask plainOutside true 6
        (lifetime plainTask strewnOutside true 17 wiped)).log = some headCommit := by
      decide +kernel
    refine ⟨_, hrebuilt.tail (.lifetime plainOutside true 6 _) (by decide), hbaseline,
      by decide +kernel, fun h => ?_⟩
    have hastray : ((lifetime plainTask plainOutside true 6
        (lifetime plainTask strewnOutside true 17 wiped)).trace.any
          fun e => e.astray headCommit) = true := by
      decide +kernel
    rw [h.not_astray hbaseline] at hastray
    cases hastray

end Tempest
