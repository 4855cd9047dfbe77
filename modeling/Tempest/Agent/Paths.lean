import Tempest.Agent.Orchestrator
import Tempest.Prove.Pipeline

/-!
# Paths — the two checks of a path in a shadow worktree (`agent/tools.py`, `agent/shadow.py`)

A tool resolves its path with `resolveTool`, a staged write with `resolveInside`.  Both resolve
through the links of the worktree first, so they reach the same target; `.git` is refused by the
second only.
-/

namespace Tempest

open Python

/-! ## Files, directories and links -/

abbrev FilePath := List PyStr

inductive Entry where
  | file (links : Nat)
  | dir
  | link (target : PyStr)
  deriving DecidableEq

/-- What is on disk; a path without links on its way has at most one entry. -/
abbrev Layout := List (FilePath × Entry)

def Layout.entry (fs : Layout) (path : FilePath) : Option Entry := fs.lookup path

def Layout.link? (fs : Layout) (path : FilePath) : Option PyStr :=
  match fs.entry path with
  | some (.link target) => some target
  | _ => none

/-- A name the system can be asked for: no NUL, and no surrogate other than an escaped byte. -/
def askable (name : PyStr) : Bool :=
  name.all fun c => c.val ≠ 0 && (c.val < 0xD800 || 0xDFFF < c.val || (0xDC80 ≤ c.val && c.val ≤ 0xDCFF))

/-- One name behind a resolved path, as `os.path.realpath` takes it; `none` is the error of a loop
of links or of a name that cannot be asked for.  The fuel bounds how deep links are nested. -/
def followName (fs : Layout) : Nat → FilePath → PyStr → Option FilePath
  | fuel, path, name =>
    if name = [] ∨ name = lit "." then some path
    else if name = lit ".." then some path.dropLast
    else if askable name = false then none
    else
      match fs.link? (path ++ [name]) with
      | none => some (path ++ [name])
      | some target =>
        match fuel with
        | 0 => none
        | fuel + 1 =>
          (target.splitOn slash).foldlM (followName fs fuel)
            (if startsWith [slash] target then [] else path)

/-- `Path.resolve` of an absolute path: links cannot be nested deeper than there are entries. -/
def realpath (fs : Layout) (names : List PyStr) : Option FilePath :=
  names.foldlM (followName fs fs.length) []

/-! ## The two checks -/

def dotGit : PyStr := lit ".git"

def denySegments : List PyStr :=
  [lit ".env", lit ".ssh", lit "id_rsa", lit "id_ed25519", lit ".netrc", lit ".aws", lit ".gnupg"]

def denySuffixes : List PyStr := [lit ".pem", lit ".key", lit ".p12", lit ".pfx", lit ".keychain"]

inductive PathFault where
  /-- A `ToolError` or a `PathEscape`. -/
  | refused (message : PyStr)
  | raised

/-- The worktree of a task, and what Python's texts depend on. -/
structure ShadowTree where
  fs : Layout
  root : FilePath
  /-- `str.lower`. -/
  lower : PyStr → PyStr
  printable : CodePoint → Bool

variable (st : ShadowTree)

def ShadowTree.resolve (names : List PyStr) : Except PathFault FilePath :=
  match realpath st.fs names with
  | some path => .ok path
  | none => .error .raised

def ShadowTree.credential (raw : PyStr) (candidate : FilePath) : Option PyStr :=
  let name := st.lower (candidate.getLastD [])
  if candidate.any fun part => decide (st.lower part ∈ denySegments) then
    some (lit "refused: " ++ reprStr st.printable raw ++ lit " is a credential path")
  else if denySuffixes.any fun suffix => suffix.isSuffixOf name then
    some (lit "refused: " ++ reprStr st.printable raw ++ lit " is a credential file")
  else match st.fs.entry candidate with
    | some (.file links) =>
      if 1 < links then
        some (lit "refused: " ++ reprStr st.printable raw ++
          lit " has more than one name on disk, so what it IS cannot be judged by what it was called")
      else none
    | _ => none

/-- `Dispatcher._resolve`. -/
def ShadowTree.resolveTool (raw : PyStr) : Except PathFault FilePath :=
  if startsWith (lit "/") raw ∨ startsWith (lit "~") raw then
    .error (.refused (lit "path must be repository-relative, got " ++ reprStr st.printable raw))
  else do
    let candidate ← st.resolve (st.root ++ pathParts raw)
    let root ← st.resolve st.root
    if root.isPrefixOf candidate = false then
      .error (.refused (lit "path escapes the worktree: " ++ reprStr st.printable raw))
    else match st.credential raw candidate with
      | some message => .error (.refused message)
      | none => .ok candidate

def ShadowTree.resolveInside (relpath : PyStr) : Except PathFault FilePath :=
  if strip relpath = [] then .error (.refused (lit "empty path"))
  else if startsWith (lit "/") relpath then
    .error (.refused (lit "absolute paths are not writable: " ++ relpath))
  else if (pathParts relpath).head? = some dotGit then
    .error (.refused (lit "repository internals are not writable: " ++ relpath))
  else do
    let root ← st.resolve st.root
    let target ← st.resolve (root ++ pathParts relpath)
    if root.isPrefixOf target = false then
      .error (.refused (lit "path escapes the shadow worktree: " ++ relpath))
    else if dotGit ∈ target.drop root.length then
      .error (.refused (lit "repository internals are not writable: " ++ relpath))
    else .ok target

/-! ## What the boundary promises -/

/-- The target lies strictly inside the worktree, outside the internals of the repository, and no
directory above it leaves the worktree. -/
structure ShadowTree.Inside (target : FilePath) : Prop where
  strictly : ∃ root rest, realpath st.fs st.root = some root ∧ target = root ++ rest ∧ rest ≠ [] ∧
    dotGit ∉ rest ∧ root <+: target.dropLast
  unlinked : ∀ above name, above ++ [name] <+: target → st.fs.link? (above ++ [name]) = none

/-- What a tool accepts, a staged write accepts. -/
def ShadowTree.Tight (raw : PyStr) : Prop :=
  ∀ target, st.resolveTool raw = .ok target → st.resolveInside raw = .ok target ∧ st.Inside target

/-- The path says something, does not begin in `.git`, and leads to a name below the root that has no
`.git` on its way. -/
structure ShadowTree.Plain (raw : PyStr) : Prop where
  said : strip raw ≠ []
  begins : (pathParts raw).head? ≠ some dotGit
  leads : ∀ root target, realpath st.fs st.root = some root →
    realpath st.fs (st.root ++ pathParts raw) = some target →
      target ≠ root ∧ dotGit ∉ target.drop root.length

/-! ## Resolved paths -/

/-- A path of real names without links: what `realpath` gives, and keeps. -/
def Resolved (fs : Layout) (path : FilePath) : Prop :=
  ∀ above name, above ++ [name] <+: path →
    name ≠ [] ∧ name ≠ lit "." ∧ name ≠ lit ".." ∧ askable name = true ∧ fs.link? (above ++ [name]) = none

theorem Resolved.nil (fs : Layout) : Resolved fs [] := by
  intro above name h
  exact absurd (List.prefix_nil.mp h) (List.append_ne_nil_of_right_ne_nil _ (List.cons_ne_nil _ _))

variable {fs : Layout}

theorem Resolved.of_prefix {path above : FilePath} (h : Resolved fs path)
    (hleading : above <+: path) : Resolved fs above :=
  fun q name hq => h q name (hq.trans hleading)

theorem resolved_followAll {step : FilePath → PyStr → Option FilePath}
    (hstep : ∀ path name path', Resolved fs path → step path name = some path' → Resolved fs path') :
    ∀ (names : List PyStr) {path path' : FilePath}, Resolved fs path →
      names.foldlM step path = some path' → Resolved fs path'
  | [], path, path', h, hrun => by
    obtain rfl : path = path' := Option.some.inj hrun
    exact h
  | name :: names, path, path', h, hrun => by
    rw [List.foldlM_cons] at hrun
    obtain ⟨middle, hmiddle, hrest⟩ := Option.bind_eq_some_iff.mp hrun
    exact resolved_followAll hstep names (hstep path name middle h hmiddle) hrest

theorem Resolved.snoc {path : FilePath} {name : PyStr} (h : Resolved fs path)
    (hname : name ≠ [] ∧ name ≠ lit "." ∧ name ≠ lit ".." ∧ askable name = true ∧ fs.link? (path ++ [name]) = none) : Resolved fs (path ++ [name]) := by
  intro above last hleading
  rcases List.prefix_concat_iff.mp hleading with heq | hleading
  · obtain ⟨rfl, hlast⟩ := List.append_inj' heq rfl
    obtain rfl := List.singleton_inj.mp hlast
    exact hname
  · exact h above last hleading

def followLink (fs : Layout) : Nat → FilePath → PyStr → Option FilePath
  | 0, _, _ => none
  | fuel + 1, path, target =>
    (target.splitOn slash).foldlM (followName fs fuel) (if startsWith [slash] target then [] else path)

theorem followName_eq (fs : Layout) (fuel : Nat) (path : FilePath) (name : PyStr) :
    followName fs fuel path name =
      if name = [] ∨ name = lit "." then some path
      else if name = lit ".." then some path.dropLast
      else if askable name = false then none
      else match fs.link? (path ++ [name]) with
        | none => some (path ++ [name])
        | some target => followLink fs fuel path target := by
  cases fuel <;> simp only [followName, followLink]

theorem resolved_name {fuel : Nat} {path path' : FilePath} {name : PyStr}
    (hlink : ∀ target, followLink fs fuel path target = some path' → Resolved fs path')
    (h : Resolved fs path) (hrun : followName fs fuel path name = some path') : Resolved fs path' := by
  rw [followName_eq] at hrun
  split at hrun
  next => exact Option.some.inj hrun ▸ h
  next hplain =>
    split at hrun
    next => exact Option.some.inj hrun ▸ h.of_prefix (List.dropLast_prefix path)
    next hup =>
      split at hrun
      next => cases hrun
      next haskable =>
        split at hrun
        next hlink' =>
          obtain ⟨hempty, hdot⟩ := not_or.mp hplain
          exact Option.some.inj hrun ▸ h.snoc ⟨hempty, hdot, hup, Bool.not_eq_false _ ▸ haskable, hlink'⟩
        next target _ => exact hlink target hrun

theorem resolved_followName (fs : Layout) (fuel : Nat) :
    ∀ (path : FilePath) (name : PyStr) (path' : FilePath), Resolved fs path →
      followName fs fuel path name = some path' → Resolved fs path' := by
  induction fuel with
  | zero =>
    intro path name path' h hrun
    exact resolved_name (fun _ hnone => by cases hnone) h hrun
  | succ fuel ih =>
    intro path name path' h hrun
    refine resolved_name (fun target htarget => ?_) h hrun
    refine resolved_followAll ih (target.splitOn slash) ?_ htarget
    split
    · exact Resolved.nil fs
    · exact h

theorem resolved_realpath {names : List PyStr} {path : FilePath}
    (h : realpath fs names = some path) : Resolved fs path :=
  resolved_followAll (resolved_followName fs fs.length) names (Resolved.nil fs) h

theorem follow_resolved {fs : Layout} {fuel : Nat} :
    ∀ (names : List PyStr) {path : FilePath}, Resolved fs (path ++ names) →
      names.foldlM (followName fs fuel) path = some (path ++ names)
  | [], path, _ => by rw [List.append_nil]; rfl
  | name :: names, path, h => by
    obtain ⟨hempty, hdot, hup, haskable, hlink⟩ := h path name ⟨names, by simp⟩
    have hstep : followName fs fuel path name = some (path ++ [name]) := by
      rw [followName_eq, if_neg (not_or.mpr ⟨hempty, hdot⟩), if_neg hup, haskable,
        if_neg (by decide), hlink]
    have hrest := @follow_resolved fs fuel names (path ++ [name]) (by simpa using h)
    rw [List.foldlM_cons, hstep]
    simpa using hrest

/-- Resolving the root first changes nothing. -/
theorem realpath_root {root names : List PyStr} {path : FilePath}
    (h : realpath fs root = some path) : realpath fs (path ++ names) = realpath fs (root ++ names) := by
  unfold realpath at h ⊢
  rw [List.foldlM_append, List.foldlM_append, h]
  have hpath : path.foldlM (followName fs fs.length) [] = some path :=
    follow_resolved path (resolved_realpath h)
  rw [hpath]

/-! ## The two checks agree -/

/-- A path that `resolveTool` accepts is relative and resolves below the root. -/
theorem resolveTool_ok {raw : PyStr} {target : FilePath} (h : st.resolveTool raw = .ok target) :
    startsWith (lit "/") raw = false ∧ ∃ root, realpath st.fs st.root = some root ∧
      realpath st.fs (st.root ++ pathParts raw) = some target ∧ root <+: target := by
  unfold ShadowTree.resolveTool ShadowTree.resolve at h
  split at h
  next => cases h
  next hrelative =>
    cases htarget : realpath st.fs (st.root ++ pathParts raw) with
    | none => simp [htarget, bind, Except.bind] at h
    | some candidate =>
      cases hroot : realpath st.fs st.root with
      | none => simp [htarget, hroot, bind, Except.bind] at h
      | some root =>
        simp only [htarget, hroot, bind, Except.bind] at h
        split at h
        next => cases h
        next hbelow =>
          split at h
          next => cases h
          next =>
            cases h
            exact ⟨Bool.not_eq_true _ ▸ (not_or.mp hrelative).1, root, rfl, rfl,
              List.isPrefixOf_iff_prefix.mp (Bool.not_eq_false _ ▸ hbelow)⟩

/-- `resolveInside` accepts what says something, does not begin in `.git` and resolves below the
root without a `.git` on its way. -/
theorem resolveInside_eq_ok_iff {raw : PyStr} {target root : FilePath}
    (hrelative : startsWith (lit "/") raw = false) (hroot : realpath st.fs st.root = some root)
    (htarget : realpath st.fs (st.root ++ pathParts raw) = some target) (hbelow : root <+: target) :
    st.resolveInside raw = .ok target ↔
      strip raw ≠ [] ∧ (pathParts raw).head? ≠ some dotGit ∧ dotGit ∉ target.drop root.length := by
  have hsame : realpath st.fs (root ++ pathParts raw) = some target :=
    (realpath_root hroot).trans htarget
  have hleading : root.isPrefixOf target = true := List.isPrefixOf_iff_prefix.mpr hbelow
  simp only [ShadowTree.resolveInside, ShadowTree.resolve, hrelative, hroot, hsame, hleading, bind,
    Except.bind, Bool.false_eq_true, Bool.true_eq_false, if_false]
  by_cases hsaid : strip raw = []
  · simp [hsaid]
  by_cases hbegins : (pathParts raw).head? = some dotGit
  · simp [hsaid, hbegins]
  by_cases hgit : dotGit ∈ target.drop root.length <;> simp [hsaid, hbegins, hgit]

/-- The tool boundary is as tight as the staging boundary exactly on the paths that the tools refuse
and on the plain ones. -/
theorem tight_iff (raw : PyStr) :
    st.Tight raw ↔ (∀ target, st.resolveTool raw ≠ .ok target) ∨ st.Plain raw := by
  constructor
  · intro h
    by_cases haccepted : ∃ target, st.resolveTool raw = .ok target
    · obtain ⟨target, htool⟩ := haccepted
      obtain ⟨hinside, hstrict⟩ := h target htool
      obtain ⟨hrelative, root, hroot, htarget, hbelow⟩ := resolveTool_ok st htool
      obtain ⟨hsaid, hbegins, hgit⟩ :=
        (resolveInside_eq_ok_iff st hrelative hroot htarget hbelow).mp hinside
      obtain ⟨root₂, rest, hroot₂, heq, hrest, -⟩ := hstrict.strictly
      refine .inr ⟨hsaid, hbegins, fun root' target' hroot' htarget' => ?_⟩
      obtain rfl : root = root' := Option.some.inj (hroot.symm.trans hroot')
      obtain rfl : target = target' := Option.some.inj (htarget.symm.trans htarget')
      obtain rfl : root = root₂ := Option.some.inj (hroot.symm.trans hroot₂)
      refine ⟨fun hsame => hrest ?_, hgit⟩
      exact List.append_right_eq_self.mp (heq.symm.trans hsame)
    · exact .inl fun target htarget => haccepted ⟨target, htarget⟩
  · rintro (hnone | hplain) target htool
    · exact absurd htool (hnone target)
    · obtain ⟨hrelative, root, hroot, htarget, hbelow⟩ := resolveTool_ok st htool
      obtain ⟨hne, hgit⟩ := hplain.leads root target hroot htarget
      refine ⟨(resolveInside_eq_ok_iff st hrelative hroot htarget hbelow).mpr
        ⟨hplain.said, hplain.begins, hgit⟩, ?_, ?_⟩
      · obtain ⟨rest, rfl⟩ := hbelow
        have hrest : rest ≠ [] := fun h => hne (by rw [h, List.append_nil])
        rw [List.drop_left] at hgit
        refine ⟨root, rest, hroot, rfl, hrest, hgit, ?_⟩
        rw [List.dropLast_append_of_ne_nil hrest]
        exact List.prefix_append _ _
      · intro above name hleading
        exact (resolved_realpath htarget above name hleading).2.2.2.2

/-- The `.git` file of a worktree can be written by a tool. -/
theorem gitlink_written : ¬ ∀ (st : ShadowTree) (raw : PyStr), st.Tight raw := by
  intro h
  let st : ShadowTree :=
    { fs := [([lit "w"], .dir), ([lit "w", lit ".git"], .file 1)]
      root := [lit "w"]
      lower := id
      printable := fun _ => true }
  have hinside := (h st dotGit [lit "w", dotGit] (by rfl)).1
  have hrefused : st.resolveInside dotGit =
      .error (.refused (lit "repository internals are not writable: " ++ dotGit)) := by rfl
  rw [hrefused] at hinside
  cases hinside

end Tempest
