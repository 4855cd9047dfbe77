import Tempest.Agent.Fleet

/-!
# Slug — the shadows of subagents (`agent/shadow.py`, `_slug`)

A task id reaches the filesystem and git through a slug that reads every character outside a small
alphabet as a dash.  The subagents of a fleet have shadows of their own exactly when no two of the
ids that a run can start are `Confusable`.
-/

namespace Tempest

open Python

variable {ρ : Type}

section Alphabet

-- `wide` is `str.isalnum` beyond ASCII
variable (wide : CodePoint → Bool)

def dash : CodePoint := codePoint 0x2D

def lowLine : CodePoint := codePoint 0x5F

/-- `c.isalnum()`. -/
def isAlnum (c : CodePoint) : Bool :=
  if c.val < 0x80 then
    (0x30 ≤ c.val && c.val ≤ 0x39) || (0x41 ≤ c.val && c.val ≤ 0x5A) ||
      (0x61 ≤ c.val && c.val ≤ 0x7A)
  else wide c

/-- The character a slug has in the place of a character of the task id. -/
def slugChar (c : CodePoint) : CodePoint :=
  if isAlnum wide c || c = dash || c = lowLine then c else dash

/-- A `ShadowError` of a task id with no usable characters. -/
structure UnusableId where
  taskId : PyStr

def UnusableId.message (printable : CodePoint → Bool) (e : UnusableId) : PyStr :=
  lit "task id " ++ reprStr printable e.taskId ++ lit " has no usable characters"

def slug (taskId : PyStr) : Except UnusableId PyStr :=
  let safe := stripBy (fun c => c = dash) (taskId.map (slugChar wide))
  if safe = [] then .error ⟨taskId⟩ else .ok safe

end Alphabet

def worktreePath (slug : PyStr) : PyStr := lit ".tempest/agent/worktrees/" ++ slug

def branchName (slug : PyStr) : PyStr := lit "tempest/agent/" ++ slug

/-- `_meta_path`. -/
def metadataPath (slug : PyStr) : PyStr := lit ".tempest/agent/meta/" ++ (slug ++ lit ".json")

/-- The two tasks have no worktree, no branch and no metadata file in common. -/
def OwnShadows (wide : CodePoint → Bool) (id₁ id₂ : PyStr) : Prop :=
  ∀ s₁ s₂, slug wide id₁ = .ok s₁ → slug wide id₂ = .ok s₂ →
    worktreePath s₁ ≠ worktreePath s₂ ∧ branchName s₁ ≠ branchName s₂ ∧
      metadataPath s₁ ≠ metadataPath s₂

/-! ## The ids that a run can start -/

mutual

/-- The ids of a node and of the nodes below it, as far as their grants are permitted. -/
def runnable (above : PyStr) (grants : Finset PyStr) : SubagentSpec → List PyStr
  | ⟨name, _, children, own, _, _⟩ =>
    if own.getD grants ⊆ grants then
      childId above name :: runnableAll (childId above name) (own.getD grants) children
    else []

def runnableAll (above : PyStr) (grants : Finset PyStr) : List SubagentSpec → List PyStr
  | [] => []
  | spec :: specs => runnable above grants spec ++ runnableAll above grants specs

end

mutual

/-- All the lists of siblings below a node pass `_validate`. -/
def NamedBelow (above : PyStr) : SubagentSpec → Prop
  | ⟨name, _, children, _, _, _⟩ =>
    validate (childId above name) children = .ok () ∧ EachNamedBelow (childId above name) children

def EachNamedBelow (above : PyStr) : List SubagentSpec → Prop
  | [] => True
  | spec :: specs => NamedBelow above spec ∧ EachNamedBelow above specs

end

/-- All the lists of siblings of a fleet pass `_validate`. -/
def Accepted (root : PyStr) (specs : List SubagentSpec) : Prop :=
  validate root specs = .ok () ∧ EachNamedBelow root specs

def dashed (wide : CodePoint → Bool) (c : CodePoint) : Bool :=
  !(isAlnum wide c || c = lowLine)

/-- Two ids that differ only in characters other than letters, digits and underscores, or in such
characters around them. -/
def Confusable (wide : CodePoint → Bool) (id₁ id₂ : PyStr) : Prop :=
  (∃ c ∈ id₁, dashed wide c = false) ∧
    List.Forall₂ (fun c d => c = d ∨ (dashed wide c = true ∧ dashed wide d = true))
      (stripBy (dashed wide) id₁) (stripBy (dashed wide) id₂)

/-! ## Slugs that coincide -/

section Coincide

variable (wide : CodePoint → Bool)

theorem dashed_dash : dashed wide dash = true := rfl

theorem slugChar_of_dashed {c : CodePoint} (h : dashed wide c = true) : slugChar wide c = dash := by
  simp only [dashed, Bool.not_eq_true', Bool.or_eq_false_iff, decide_eq_false_iff_not] at h
  by_cases hc : c = dash
  · simp [slugChar, hc]
  · simp [slugChar, h.1, h.2, hc]

theorem slugChar_of_not_dashed {c : CodePoint} (h : dashed wide c = false) : slugChar wide c = c := by
  simp only [dashed, Bool.not_eq_false', Bool.or_eq_true, decide_eq_true_eq] at h
  rcases h with h | h <;> simp [slugChar, h]

theorem slugChar_eq_dash_iff (c : CodePoint) : slugChar wide c = dash ↔ dashed wide c = true := by
  refine ⟨fun h => ?_, slugChar_of_dashed wide⟩
  by_contra hc
  rw [slugChar_of_not_dashed wide (Bool.not_eq_true _ ▸ hc)] at h
  exact hc (h ▸ dashed_dash wide)

theorem slugChar_eq_iff (c d : CodePoint) : slugChar wide c = slugChar wide d ↔
    c = d ∨ (dashed wide c = true ∧ dashed wide d = true) := by
  constructor
  · intro h
    cases hc : dashed wide c with
    | true =>
      rw [slugChar_of_dashed wide hc] at h
      exact .inr ⟨rfl, (slugChar_eq_dash_iff wide d).mp h.symm⟩
    | false =>
      rw [slugChar_of_not_dashed wide hc] at h
      cases hd : dashed wide d with
      | true =>
        rw [slugChar_of_dashed wide hd] at h
        rw [h] at hc
        exact absurd (dashed_dash wide) (by rw [hc]; exact Bool.false_ne_true)
      | false => exact .inl (h.trans (slugChar_of_not_dashed wide hd))
  · rintro (rfl | ⟨hc, hd⟩)
    · rfl
    · rw [slugChar_of_dashed wide hc, slugChar_of_dashed wide hd]

theorem stripBy_map (p q : CodePoint → Bool) (f : CodePoint → CodePoint) (h : ∀ c, p (f c) = q c)
    (s : PyStr) : stripBy p (s.map f) = (stripBy q s).map f := by
  have hpq : p ∘ f = q := funext h
  simp only [stripBy, List.rdropWhile, List.dropWhile_map, hpq, ← List.map_reverse]

theorem strip_slugged (taskId : PyStr) : stripBy (fun c => c = dash) (taskId.map (slugChar wide)) =
    (stripBy (dashed wide) taskId).map (slugChar wide) :=
  stripBy_map _ _ _ (fun c => by rw [Bool.eq_iff_iff, decide_eq_true_iff, slugChar_eq_dash_iff]) taskId

theorem stripBy_eq_nil_iff (p : CodePoint → Bool) (s : PyStr) :
    stripBy p s = [] ↔ ∀ c ∈ s, p c = true := by
  rw [stripBy, List.rdropWhile_eq_nil_iff]
  constructor
  · intro h
    refine List.dropWhile_eq_nil_iff.mp (by_contra fun hne => ?_)
    have hhead := h _ (List.head_mem hne)
    rw [List.head_dropWhile_not p hne] at hhead
    exact absurd hhead Bool.false_ne_true
  · intro h c hc
    exact h c ((List.dropWhile_suffix p).subset hc)

theorem slug_eq_ok_iff (taskId s : PyStr) : slug wide taskId = .ok s ↔
    (∃ c ∈ taskId, dashed wide c = false) ∧ (stripBy (dashed wide) taskId).map (slugChar wide) = s := by
  have husable : (∃ c ∈ taskId, dashed wide c = false) ↔ stripBy (dashed wide) taskId ≠ [] := by
    simp [stripBy_eq_nil_iff]
  rw [husable]
  simp only [slug, strip_slugged, List.map_eq_nil_iff]
  split <;> simp_all

/-- Two tasks share a shadow exactly when their ids are confusable. -/
theorem apart_iff (id₁ id₂ : PyStr) : OwnShadows wide id₁ id₂ ↔ ¬ Confusable wide id₁ id₂ := by
  have hforall : ∀ u v : PyStr, u.map (slugChar wide) = v.map (slugChar wide) ↔
      List.Forall₂ (fun c d => c = d ∨ (dashed wide c = true ∧ dashed wide d = true)) u v := by
    intro u v
    rw [← List.forall₂_eq_eq_eq, List.forall₂_map_left_iff, List.forall₂_map_right_iff]
    simp only [slugChar_eq_iff]
  constructor
  · rintro h ⟨husable, hsame⟩
    have hslug := (hforall _ _).mpr hsame
    have h₁ := (slug_eq_ok_iff wide id₁ _).mpr ⟨husable, rfl⟩
    have husable₂ : ∃ c ∈ id₂, dashed wide c = false := by
      by_contra hnone
      have hnil : stripBy (dashed wide) id₂ = [] :=
        (stripBy_eq_nil_iff _ _).mpr fun c hc => by
          by_contra hc'
          exact hnone ⟨c, hc, Bool.not_eq_true _ ▸ hc'⟩
      rw [hnil, List.map_nil, List.map_eq_nil_iff, stripBy_eq_nil_iff] at hslug
      obtain ⟨c, hc, hc'⟩ := husable
      exact absurd (hslug c hc) (hc' ▸ Bool.false_ne_true)
    have h₂ := (slug_eq_ok_iff wide id₂ _).mpr ⟨husable₂, rfl⟩
    exact (h _ _ h₁ h₂).1 (congrArg worktreePath hslug)
  · intro h s₁ s₂ h₁ h₂
    obtain ⟨husable, rfl⟩ := (slug_eq_ok_iff wide id₁ s₁).mp h₁
    obtain ⟨-, rfl⟩ := (slug_eq_ok_iff wide id₂ s₂).mp h₂
    have hne : (stripBy (dashed wide) id₁).map (slugChar wide) ≠
        (stripBy (dashed wide) id₂).map (slugChar wide) :=
      fun hslug => h ⟨husable, (hforall _ _).mp hslug⟩
    exact ⟨fun heq => hne (List.append_cancel_left heq), fun heq => hne (List.append_cancel_left heq),
      fun heq => hne (List.append_cancel_right (List.append_cancel_left heq))⟩

end Coincide

/-! ## Every run starts runnable ids, in the order of the tree -/

/-- Behind `st`, the subagents of some of the ids are started, in the order of the ids. -/
def StartedAmong (ids : List PyStr) (st : List Started) (s : FleetState) : Prop :=
  ∃ ran : List PyStr, ran.Sublist ids ∧ s.started.map (fun e => e.task.taskId) =
    ran.reverse ++ st.map (fun e => e.task.taskId)

theorem StartedAmong.refl (ids : List PyStr) (s : FleetState) : StartedAmong ids s.started s :=
  ⟨[], List.nil_sublist ids, rfl⟩

theorem StartedAmong.trans {ids ids' : List PyStr} {st : List Started} {s s' : FleetState}
    (h : StartedAmong ids st s) (h' : StartedAmong ids' s.started s') :
    StartedAmong (ids ++ ids') st s' := by
  obtain ⟨ran, hran, hs⟩ := h
  obtain ⟨ran', hran', hs'⟩ := h'
  exact ⟨ran ++ ran', hran.append hran', by rw [hs', hs, List.reverse_append, List.append_assoc]⟩

theorem StartedAmong.weaken {ids ids' : List PyStr} {st : List Started} {s : FleetState}
    (h : StartedAmong ids st s) (hids : ids.Sublist ids') : StartedAmong ids' st s := by
  obtain ⟨ran, hran, hs⟩ := h
  exact ⟨ran, hran.trans hids, hs⟩

theorem startTask_among (fleet : Fleet ρ) (parent task : GrantedTask) (depth : Nat)
    (st : List Started) :
    Routine.Meets (fun s => s.started = st) (startTask fleet parent task depth)
      (fun _ => StartedAmong [task.taskId] st) (StartedAmong [task.taskId] st) := by
  rintro s rfl
  unfold startTask
  cases fleet.runTask s.spawned task with
  | some _ | none => exact ⟨[task.taskId], List.Sublist.refl _, rfl⟩

/-- Another routine after what is started so far. -/
theorem among_after {α : Type} {p : FleetTask α} {ids ids' : List PyStr} {st : List Started}
    (h : ∀ st', Routine.Meets (fun s => s.started = st') p (fun _ => StartedAmong ids' st')
      (StartedAmong ids' st')) :
    Routine.Meets (StartedAmong ids st) p (fun _ => StartedAmong (ids ++ ids') st)
      (StartedAmong (ids ++ ids') st) := by
  intro s hs
  exact (h s.started).weaken (fun _ h => h) (fun _ _ h' => hs.trans h') (fun _ h' => hs.trans h') s rfl

mutual

theorem runOne_among (fleet : Fleet ρ) :
    ∀ (spec : SubagentSpec) (parent : GrantedTask) (depth : Nat) (st : List Started),
      Routine.Meets (fun s => s.started = st) (runOne fleet parent depth spec)
        (fun _ => StartedAmong (runnable parent.taskId parent.grants spec) st)
        (StartedAmong (runnable parent.taskId parent.grants spec) st)
  | ⟨name, prompt, children, grants, maxTurns, maxRepairAttempts⟩, parent, depth, st => by
    let spec : SubagentSpec := ⟨name, prompt, children, grants, maxTurns, maxRepairAttempts⟩
    let task := childTask fleet.parent parent spec
    have hnone (s : FleetState) (h : s.started = st) :
        StartedAmong (runnable parent.taskId parent.grants spec) st s := h ▸ .refl _ s
    unfold runOne
    refine ((admission_keeps fleet parent depth spec (· = st)).weaken (fun _ h => h)
      (fun _ _ h => h) hnone).bind fun refusal => ?_
    cases refusal with
    | some reason => exact .pure fun s h => hnone s h.1
    | none =>
      refine .fact fun hpermitted => ?_
      have hids : runnable parent.taskId parent.grants spec =
          [task.taskId] ++ runnableAll task.taskId task.grants children :=
        if_pos (of_decide_eq_true (hpermitted rfl))
      rw [show runnable parent.taskId parent.grants
        ⟨name, prompt, children, grants, maxTurns, maxRepairAttempts⟩ = _ from hids]
      have hself {s : FleetState} (h : StartedAmong [task.taskId] st s) :
          StartedAmong ([task.taskId] ++ runnableAll task.taskId task.grants children) st s :=
        h.weaken (List.sublist_append_left _ _)
      refine ((startTask_among fleet parent task depth st).weaken (fun _ h => h) (fun _ _ h => h)
        fun _ h => hself h).bind fun run => ?_
      cases run with
      | none => exact .pure fun s h => hself h
      | some run =>
        refine .bind (R := fun _ => StartedAmong [task.taskId] st)
          (.ofExcept (fun _ _ _ h => h) fun _ h => hself h) fun _ => ?_
        refine .bind (among_after fun st' => runAll_among fleet children task (depth + 1) st')
          fun _ => ?_
        exact .pure fun _ h => h

theorem runAll_among (fleet : Fleet ρ) :
    ∀ (specs : List SubagentSpec) (parent : GrantedTask) (depth : Nat) (st : List Started),
      Routine.Meets (fun s => s.started = st) (runAll fleet parent depth specs)
        (fun _ => StartedAmong (runnableAll parent.taskId parent.grants specs) st)
        (StartedAmong (runnableAll parent.taskId parent.grants specs) st)
  | [], _, _, _ => .pure fun s h => h ▸ .refl _ s
  | spec :: specs, parent, depth, st => by
    unfold runAll runnableAll
    refine ((runOne_among fleet spec parent depth st).weaken (fun _ h => h) (fun _ _ h => h)
      fun _ h => h.weaken (List.sublist_append_left _ _)).bind fun _ => ?_
    refine .bind (among_after fun st' => runAll_among fleet specs parent depth st') fun _ => ?_
    exact .pure fun _ h => h

end

/-! ## One run starts them all -/

mutual

/-- With enough room, nothing cancelled and every task returning, every runnable id is started. -/
theorem runOne_starts_all [Inhabited ρ] (root : GrantedTask) (maxDepth maxSubagents : Int) :
    ∀ (spec : SubagentSpec) (parent : GrantedTask) (depth : Nat) (s : FleetState),
      NamedBelow parent.taskId spec → ((depth + sizeOf spec : Nat) : Int) ≤ maxDepth →
      ((s.spawned + (runnable parent.taskId parent.grants spec).length : Nat) : Int) < maxSubagents →
      ∃ run s', runOne (answering (ρ := ρ) root maxDepth maxSubagents fun _ => some default) parent depth
          spec s = (.ok run, s') ∧
        s'.spawned = s.spawned + (runnable parent.taskId parent.grants spec).length ∧
        s'.started.map (fun e => e.task.taskId) =
          (runnable parent.taskId parent.grants spec).reverse ++ s.started.map fun e => e.task.taskId
  | ⟨name, prompt, children, grants, maxTurns, maxRepairAttempts⟩, parent, depth, s, hnamed, hdepth,
      hroom => by
      let spec : SubagentSpec := ⟨name, prompt, children, grants, maxTurns, maxRepairAttempts⟩
      let task := childTask root parent spec
      let fleet : Fleet ρ := answering root maxDepth maxSubagents fun _ => some default
      have hsize : sizeOf children < sizeOf spec := by simp [spec]; omega
      change ((depth + sizeOf spec : Nat) : Int) ≤ maxDepth at hdepth
      have hlevel : (depth : Int) ≤ maxDepth := by omega
      have hadmission := admission_answering root (fun _ => some (default : ρ)) parent spec hlevel s
        (show (s.spawned : Int) < maxSubagents by omega)
      change ∃ run s', runOne fleet parent depth spec s = _ ∧ _
      by_cases hpermitted : spec.permitted parent.grants = true
      · rw [if_pos hpermitted] at hadmission
        have hids : runnable parent.taskId parent.grants spec =
            task.taskId :: runnableAll task.taskId task.grants children :=
          if_pos (of_decide_eq_true hpermitted)
        have hstart : startTask fleet parent task depth { s with looks := s.looks + 1 } =
            (.ok (some default), s.begun ⟨parent, task, depth⟩ s.stopped) := rfl
        rw [show runnable parent.taskId parent.grants ⟨name, prompt, children, grants, maxTurns,
          maxRepairAttempts⟩ = _ from hids, List.length_cons] at hroom
        obtain ⟨runs, s', hruns, hcount, hstarted⟩ := runAll_starts_all root maxDepth maxSubagents
          children task (depth + 1) (s.begun ⟨parent, task, depth⟩ s.stopped) hnamed.2 (by omega)
          (by simp only [FleetState.begun]; omega)
        have hbelow : runLevel fleet task (depth + 1) children
            (s.begun ⟨parent, task, depth⟩ s.stopped) = (.ok runs, s') := by
          have hvalid : validate task.taskId children = .ok () := hnamed.1
          unfold runLevel
          rw [hvalid]
          exact hruns
        refine ⟨_, s', runOne_returns hadmission hstart hbelow, ?_, ?_⟩
        · rw [hcount, hids, List.length_cons]
          simp only [FleetState.begun]
          omega
        · rw [hstarted, hids]
          simp [FleetState.begun]
      · rw [if_neg hpermitted] at hadmission
        have hids : runnable parent.taskId parent.grants spec = [] :=
          if_neg fun h => hpermitted (decide_eq_true h)
        exact ⟨_, _, runOne_refused hadmission, by rw [hids]; rfl, by rw [hids]; rfl⟩

theorem runAll_starts_all [Inhabited ρ] (root : GrantedTask) (maxDepth maxSubagents : Int) :
    ∀ (specs : List SubagentSpec) (parent : GrantedTask) (depth : Nat) (s : FleetState),
      EachNamedBelow parent.taskId specs → ((depth + sizeOf specs : Nat) : Int) ≤ maxDepth →
      ((s.spawned + (runnableAll parent.taskId parent.grants specs).length : Nat) : Int) < maxSubagents →
      ∃ runs s',
        runAll (answering (ρ := ρ) root maxDepth maxSubagents fun _ => some default) parent depth
          specs s = (.ok runs, s') ∧
        s'.spawned = s.spawned + (runnableAll parent.taskId parent.grants specs).length ∧
        s'.started.map (fun e => e.task.taskId) =
          (runnableAll parent.taskId parent.grants specs).reverse ++
            s.started.map fun e => e.task.taskId
  | [], _, _, s, _, _, _ => ⟨[], s, rfl, rfl, rfl⟩
  | spec :: specs, parent, depth, s, ⟨hspec, hspecs⟩, hdepth, hroom => by
    have hsize : sizeOf (spec :: specs) = 1 + sizeOf spec + sizeOf specs := rfl
    simp only [runnableAll, List.length_append] at hroom
    obtain ⟨run, s', hrun, hcount, hstarted⟩ := runOne_starts_all root maxDepth maxSubagents spec parent
      depth s hspec (by omega) (by omega)
    obtain ⟨runs, s'', hruns, hcount', hstarted'⟩ := runAll_starts_all root maxDepth maxSubagents specs
      parent depth s' hspecs (by omega) (by omega)
    refine ⟨run :: runs, s'', ?_, ?_, ?_⟩
    · unfold runAll
      rw [Routine.bind_run, hrun]
      simp only
      rw [Routine.bind_run, hruns]
      rfl
    · rw [hcount', hcount, runnableAll, List.length_append, Nat.add_assoc]
    · rw [hstarted', hstarted, runnableAll, List.reverse_append, List.append_assoc]

end

/-! ## The shadows of a fleet -/

theorem OwnShadows.symm {wide : CodePoint → Bool} {id₁ id₂ : PyStr} (h : OwnShadows wide id₁ id₂) :
    OwnShadows wide id₂ id₁ := by
  intro s₂ s₁ h₂ h₁
  obtain ⟨hworktree, hbranch, hmetadata⟩ := h s₁ s₂ h₁ h₂
  exact ⟨hworktree.symm, hbranch.symm, hmetadata.symm⟩

theorem runFleet_among (fleet : Fleet ρ) (specs : List SubagentSpec)
    (hvalid : validate fleet.parent.taskId specs = .ok ()) :
    StartedAmong (runnableAll fleet.parent.taskId fleet.parent.grants specs) []
      ((runFleet fleet specs).final {}) := by
  by_cases hbounds : fleet.maxSubagents < 0 ∨ fleet.maxDepth < 1
  · unfold Routine.final runFleet
    rw [if_pos hbounds]
    exact .refl _ ({} : FleetState)
  · have hwalk := (runAll_among fleet specs fleet.parent 1 []).final (fun _ _ h => h)
      (w := ({} : FleetState)) rfl
    unfold Routine.final at hwalk ⊢
    rw [runFleet_run fleet specs hbounds hvalid]
    cases hrun : runAll fleet fleet.parent 1 specs {} with
    | mk result s =>
      rw [hrun] at hwalk
      cases result <;> exact hwalk

theorem Accepted.all_started [Inhabited ρ] {root : GrantedTask} {specs : List SubagentSpec}
    (h : Accepted root.taskId specs) : ∃ fleet : Fleet ρ, fleet.parent = root ∧
      ((runFleet fleet specs).final {}).started.map (fun e => e.task.taskId) =
        (runnableAll root.taskId root.grants specs).reverse := by
  let count : Nat := (runnableAll root.taskId root.grants specs).length
  let fleet : Fleet ρ := answering root (1 + sizeOf specs : Nat) (count + 1 : Nat) fun _ => some default
  obtain ⟨runs, s, hrun, -, hstarted⟩ := runAll_starts_all (ρ := ρ) root (1 + sizeOf specs : Nat)
    (count + 1 : Nat) specs root 1 {} h.2 le_rfl (by simp [count])
  have hbounds : ¬ (fleet.maxSubagents < 0 ∨ fleet.maxDepth < 1) := by
    simp only [fleet, answering]
    omega
  refine ⟨fleet, rfl, ?_⟩
  unfold Routine.final
  rw [runFleet_run fleet specs hbounds h.1, show runAll fleet fleet.parent 1 specs {} = _ from hrun]
  simpa using hstarted

/-- Siblings whose names differ in a character that no slug keeps. -/
def twinNames : List SubagentSpec := [{ name := lit "a b", prompt := [] }, { name := lit "a-b", prompt := [] }]

def lonelyRoot : GrantedTask :=
  { taskId := lit "t", prompt := [], maxTurns := 1, maxRepairAttempts := 0 }

end Tempest
