import Tempest.Agent.Paths
import Tempest.Process.Fallible

/-!
# PathGuard — which path the shell may read (`pathguard.rs`), and the mirror of it in `agent/tools.py`

`resolveWithin` and `openWithin` are taken on a disk that does not change meanwhile, on which
`Dispatcher._resolve` is `resolveTool`.  Both guards judge the same target, so they differ in the names
that they deny only: `passed_by_both` says for which paths, and which file `openWithin` opens.
-/

namespace Tempest
namespace PathGuard

open Python

inductive PathRefusal where
  | malformed
  | absolute
  | traversal
  | escapesRoot
  | credential
  | notFound
  | unreadable
  | notAFile
  | hardLinked
  | notText
  | notAProject
  | tooLarge (bytes cap : Nat)
  deriving DecidableEq

/-- A worktree, and what only `pathguard` asks of the system. -/
structure Volume extends ShadowTree where
  bytes : FilePath → Bytes
  /-- `open` is allowed. -/
  readable : FilePath → Bool
  /-- How many links the system follows on one path. -/
  hops : Nat

/-! ## Names that carry credentials -/

/-- `to_ascii_lowercase`. -/
def asciiLower (s : PyStr) : PyStr :=
  s.map fun c => if 0x41 ≤ c.val ∧ c.val ≤ 0x5A then codePoint (c.val + 0x20) else c

def deniedSegments : List PyStr :=
  [lit ".ssh", lit ".aws", lit ".gnupg", lit ".netrc", lit "id_rsa", lit "id_ed25519", lit "id_ecdsa",
    lit ".git", lit ".git-credentials", lit ".npmrc", lit ".pypirc"]

def deniedSuffixes : List PyStr :=
  [lit ".keychain", lit ".keychain-db", lit ".pem", lit ".p12", lit ".pfx", lit ".key"]

def isCredentialSegment (segment : PyStr) : Bool :=
  let lower := asciiLower segment
  decide (lower ∈ deniedSegments) || startsWith (lit ".env") lower ||
    deniedSuffixes.any fun suffix => suffix.isSuffixOf lower

def anyCredentialComponent (names : List PyStr) : Bool :=
  names.any fun name => encodable name && isCredentialSegment name

/-! ## The disk -/

variable (vol : Volume)

def Volume.entry (path : FilePath) : Option Entry :=
  if path = [] then some .dir else vol.fs.entry path

/-- `realpath` of the system: every name on the way is there, and only a directory has names below. -/
def Volume.canonicalFrom (hops : Nat) (path : FilePath) : List PyStr → Except PathRefusal FilePath
  | [] => .ok path
  | name :: names =>
    if vol.entry path ≠ some .dir then .error .notFound
    else if name = [] ∨ name = lit "." then Volume.canonicalFrom hops path names
    else if name = lit ".." then Volume.canonicalFrom hops path.dropLast names
    else
      match vol.entry (path ++ [name]) with
      | none => .error .notFound
      | some (.file _) | some .dir => Volume.canonicalFrom hops (path ++ [name]) names
      | some (.link target) =>
        match hops with
        -- `ELOOP`
        | 0 => .error .unreadable
        | hops + 1 =>
          Volume.canonicalFrom hops (if startsWith [slash] target then [] else path)
            (target.splitOn slash ++ names)
termination_by names => (hops, names.length)

def Volume.canonicalize (names : List PyStr) : Except PathRefusal FilePath :=
  vol.canonicalFrom vol.hops [] names

/-- `Path::exists`. -/
def Volume.isThere (names : List PyStr) : Bool :=
  match vol.canonicalize names with
  | .ok _ => true
  | .error _ => false

/-! ## The guard -/

def checkMetadata (entry : Entry) (len maxBytes : Nat) : Except PathRefusal Unit :=
  match entry with
  | .file nlink =>
    if 1 < nlink then .error .hardLinked
    else if maxBytes < len then .error (.tooLarge len maxBytes)
    else .ok ()
  | .dir | .link _ => .error .notAFile

/-- `metadata` of a path without links, and its check. -/
def Volume.checkFile (path : FilePath) (maxBytes : Nat) : Except PathRefusal Unit :=
  match vol.entry path with
  | none => .error .notFound
  | some entry => checkMetadata entry (vol.bytes path).length maxBytes

/-- What is left to `resolve_within` when the words of `rel` are accepted. -/
def Volume.resolveFrom (rel : PyStr) (maxBytes : Nat) : Except PathRefusal FilePath := do
  let canonicalRoot ← vol.canonicalize vol.root
  let resolved ← vol.canonicalize (canonicalRoot ++ rel.splitOn slash)
  if canonicalRoot.isPrefixOf resolved = false then .error .escapesRoot
  else if anyCredentialComponent (resolved.drop canonicalRoot.length) then .error .credential
  else do
    vol.checkFile resolved maxBytes
    .ok resolved

/-- `resolve_within(root, rel, max_bytes)`, with the root of the worktree. -/
def Volume.resolveWithin (rel : PyStr) (maxBytes : Nat) : Except PathRefusal FilePath :=
  if rel.isEmpty || rel.any (fun c => c.val == 0) then .error .malformed
  else if startsWith [slash] rel then .error .absolute
  else if lit ".." ∈ pathParts rel then .error .traversal
  else if anyCredentialComponent (pathParts rel) then .error .credential
  else if vol.isThere (vol.root ++ [lit ".git"]) = false then .error .notAProject
  else vol.resolveFrom rel maxBytes

structure OpenedFile where
  path : FilePath
  text : PyStr

/-- The file is open at `path`, and at most one byte over the cap is read. -/
def Volume.readFile (path : FilePath) (maxBytes : Nat) : Except PathRefusal OpenedFile :=
  let bytes := (vol.bytes path).take (min (maxBytes + 1) (2 ^ 64 - 1))
  if maxBytes < bytes.length then .error (.tooLarge bytes.length maxBytes)
  else
    match decodeUtf8 bytes with
    | none => .error .notText
    | some text => .ok ⟨path, text⟩

def Volume.openWithin (rel : PyStr) (maxBytes : Nat) : Except PathRefusal OpenedFile := do
  let path ← vol.resolveWithin rel maxBytes
  if vol.readable path = false then .error .unreadable
  else do
    vol.checkFile path maxBytes
    vol.readFile path maxBytes

/-! ## What the guards promise -/

/-- `pathguard` does not refuse what the tools read. -/
def Volume.Mirrored (raw : PyStr) : Prop :=
  ∀ target, vol.resolveTool raw = .ok target → ∀ maxBytes,
    vol.resolveWithin raw maxBytes ≠ .error .credential ∧
    vol.resolveWithin raw maxBytes ≠ .error .escapesRoot ∧
    vol.resolveWithin raw maxBytes ≠ .error .hardLinked

/-- What is opened is a file with one name, inside the root and under no name that carries
credentials, be it UTF-8 or not. -/
def Volume.Harmless (path : FilePath) : Prop :=
  ∃ root inside links, vol.canonicalize vol.root = .ok root ∧ path = root ++ inside ∧
    vol.fs.entry path = some (.file links) ∧ links ≤ 1 ∧
      ∀ name ∈ inside, isCredentialSegment name = false

/-- In `DENIED_SEGMENTS`, and not in `_DENY_SEGMENTS`. -/
def unmirroredSegments : List PyStr :=
  [lit "id_ecdsa", lit ".git", lit ".git-credentials", lit ".npmrc", lit ".pypirc"]

/-- `pathguard` denies the name and the tools do not, wherever it stands. -/
def isUnmirrored (name : PyStr) : Bool :=
  let lower := asciiLower name
  decide (lower ∈ unmirroredSegments) ||
    (startsWith (lit ".env") lower && decide (lower ≠ lit ".env")) ||
    (lit ".keychain-db").isSuffixOf lower

def isLastOnly (name : PyStr) : Bool :=
  denySuffixes.any fun suffix => suffix.isSuffixOf (asciiLower name)

/-- The words alone make `pathguard` refuse, for another reason than a name. -/
def RefusedAtSight (raw : PyStr) : Prop :=
  (raw.isEmpty || raw.any fun c => c.val == 0) = true ∨ lit ".." ∈ pathParts raw

def Volume.Leads (rel : PyStr) : Prop :=
  vol.isThere (vol.root ++ [lit ".git"]) = true ∧
    ∃ root, vol.canonicalize vol.root = .ok root ∧ vol.isThere (root ++ rel.splitOn slash) = true

/-- No name of the path is denied by `pathguard`, and where it leads to something below the root, there
is no name on the way that `pathguard` alone denies, and only the last one ends in a suffix that both
know. -/
structure Volume.Shared (raw : PyStr) (target : FilePath) : Prop where
  spelled : anyCredentialComponent (pathParts raw) = false
  mirrored : vol.Leads raw → ∀ root inside, realpath vol.fs vol.root = some root →
    target = root ++ inside → ∀ name ∈ inside, encodable name = true → isUnmirrored name = false
  last : vol.Leads raw → ∀ root inside, realpath vol.fs vol.root = some root →
    target = root ++ inside → ∀ name ∈ inside.dropLast, encodable name = true → isLastOnly name = false

def isAscii (s : PyStr) : Bool := s.all fun c => decide (c.val < 0x80)

/-- What is documented of `str.lower`: an ASCII character becomes what `to_ascii_lowercase` makes of it,
whatever stands before it. -/
structure LowersAscii (lower : PyStr → PyStr) : Prop where
  ascii : ∀ s, isAscii s = true → lower s = asciiLower s
  behind : ∀ s t, isAscii t = true → asciiLower t <:+ lower (s ++ t)

/-! ## Names -/

theorem LowersAscii.asciiLower : LowersAscii asciiLower where
  ascii := fun _ _ => rfl
  behind := fun s _ _ => ⟨PathGuard.asciiLower s, List.map_append.symm⟩

/-- Only an ASCII character becomes one. -/
theorem isAscii_of_asciiLower {s : PyStr} (h : isAscii (asciiLower s) = true) : isAscii s = true := by
  simp only [isAscii, asciiLower, List.all_map, List.all_eq_true, Function.comp_apply,
    decide_eq_true_eq] at h ⊢
  intro c hc
  by_cases hupper : 0x41 ≤ c.val ∧ c.val ≤ 0x5A
  · omega
  · have hlower := h c hc
    rwa [if_neg hupper] at hlower

theorem isAscii_denySegments : ∀ name ∈ denySegments, isAscii name = true := by decide

theorem isAscii_denySuffixes : ∀ suffix ∈ denySuffixes, isAscii suffix = true := by decide

variable {name raw rel : PyStr}

theorem LowersAscii.segment {lower : PyStr → PyStr} (h : LowersAscii lower)
    (hname : PathGuard.asciiLower name ∈ denySegments) : lower name ∈ denySegments := by
  rw [h.ascii name (isAscii_of_asciiLower (isAscii_denySegments _ hname))]
  exact hname

theorem LowersAscii.suffix {lower : PyStr → PyStr} (h : LowersAscii lower) {name suffix : PyStr}
    (hmem : suffix ∈ denySuffixes) (hsuffix : suffix <:+ PathGuard.asciiLower name) :
    suffix <:+ lower name := by
  obtain ⟨start, hstart⟩ := hsuffix
  obtain ⟨s, t, rfl, -, ht⟩ := List.map_eq_append_iff.mp hstart.symm
  have hascii : isAscii t = true :=
    isAscii_of_asciiLower (by rw [PathGuard.asciiLower, ht]; exact isAscii_denySuffixes suffix hmem)
  have hbehind := h.behind s t hascii
  rwa [PathGuard.asciiLower, ht] at hbehind

theorem deniedSegments_subset : ∀ name ∈ deniedSegments, name ∈ unmirroredSegments ++ denySegments := by
  decide

theorem subset_deniedSegments :
    ∀ name ∈ unmirroredSegments ++ denySegments, name ≠ lit ".env" → name ∈ deniedSegments := by
  decide

theorem mem_deniedSuffixes :
    ∀ suffix, suffix ∈ deniedSuffixes ↔ suffix = lit ".keychain-db" ∨ suffix ∈ denySuffixes := by
  have hleft : ∀ suffix ∈ deniedSuffixes, suffix ∈ lit ".keychain-db" :: denySuffixes := by
    decide
  have hright : ∀ suffix ∈ lit ".keychain-db" :: denySuffixes, suffix ∈ deniedSuffixes := by
    decide
  intro suffix
  rw [← List.mem_cons]
  exact ⟨hleft suffix, hright suffix⟩

/-- The names that `pathguard` denies are those that the tools deny as well, those that they deny as the
last one, and the others. -/
theorem isCredentialSegment_iff :
    isCredentialSegment name = true ↔
      isUnmirrored name = true ∨ isLastOnly name = true ∨ asciiLower name ∈ denySegments := by
  unfold isCredentialSegment isUnmirrored isLastOnly
  generalize asciiLower name = lower
  simp only [Bool.or_eq_true, Bool.and_eq_true, decide_eq_true_eq, List.any_eq_true, mem_deniedSuffixes]
  constructor
  · rintro ((hsegment | henv) | ⟨suffix, rfl | hsuffix, hends⟩)
    · rcases List.mem_append.mp (deniedSegments_subset lower hsegment) with h | h
      · exact .inl (.inl (.inl h))
      · exact .inr (.inr h)
    · by_cases hexact : lower = lit ".env"
      · exact .inr (.inr (hexact ▸ List.mem_cons_self))
      · exact .inl (.inl (.inr ⟨henv, hexact⟩))
    · exact .inl (.inr hends)
    · exact .inr (.inl ⟨suffix, hsuffix, hends⟩)
  · rintro (((h | ⟨henv, -⟩) | hends) | ⟨suffix, hsuffix, hends⟩ | h)
    · refine .inl (.inl (subset_deniedSegments lower (List.mem_append_left _ h) ?_))
      rintro rfl
      exact absurd h (by decide)
    · exact .inl (.inr henv)
    · exact .inr ⟨_, .inl rfl, hends⟩
    · exact .inr ⟨suffix, .inr hsuffix, hends⟩
    · by_cases hexact : lower = lit ".env"
      · exact .inl (.inr (hexact ▸ (by decide : startsWith (lit ".env") (lit ".env") = true)))
      · exact .inl (.inl (subset_deniedSegments lower (List.mem_append_right _ h) hexact))

theorem isCredentialSegment_eq_false_iff :
    isCredentialSegment name = false ↔
      isUnmirrored name = false ∧ isLastOnly name = false ∧ asciiLower name ∉ denySegments := by
  rw [← Bool.not_eq_true, isCredentialSegment_iff, not_or, not_or, Bool.not_eq_true, Bool.not_eq_true]

variable {names : List PyStr}

theorem anyCredentialComponent_eq_false_iff :
    anyCredentialComponent names = false ↔
      ∀ name ∈ names, encodable name = true → isCredentialSegment name = false := by
  unfold anyCredentialComponent
  rw [List.any_eq_false]
  refine forall₂_congr fun name _ => ?_
  rw [Bool.and_eq_true, not_and, Bool.not_eq_true]

/-! ## The target -/

theorem followAll_mono {f g : FilePath → PyStr → Option FilePath}
    (hfg : ∀ path name path', f path name = some path' → g path name = some path') :
    ∀ (names : List PyStr) {path path' : FilePath},
      names.foldlM f path = some path' → names.foldlM g path = some path'
  | [], _, _, h => h
  | name :: names, path, path', h => by
    rw [List.foldlM_cons] at h ⊢
    obtain ⟨middle, hmiddle, hrest⟩ := Option.bind_eq_some_iff.mp h
    exact Option.bind_eq_some_iff.mpr
      ⟨middle, hfg path name middle hmiddle, followAll_mono hfg names hrest⟩

/-- More fuel does not change where a name leads. -/
theorem followName_succ (fs : Layout) (fuel : Nat) :
    ∀ (path : FilePath) (name : PyStr) (path' : FilePath),
      followName fs fuel path name = some path' → followName fs (fuel + 1) path name = some path' := by
  induction fuel with
  | zero =>
    intro path name path' h
    rw [followName_eq] at h ⊢
    cases hlink : fs.link? (path ++ [name]) with
    | none => simpa only [hlink] using h
    | some target =>
      simp only [hlink, followLink] at h
      split_ifs at h ⊢ <;> exact h
  | succ fuel ih =>
    intro path name path' h
    rw [followName_eq] at h ⊢
    cases hlink : fs.link? (path ++ [name]) with
    | none => simpa only [hlink] using h
    | some target =>
      have hmono := @followAll_mono _ _ ih (target.splitOn slash)
      simp only [hlink, followLink] at h ⊢
      split_ifs at h ⊢ with hplain hup haskable habsolute
      · exact h
      · exact h
      · exact hmono h
      · exact hmono h

variable {path q target : FilePath}

theorem Volume.link?_of_entry {target : PyStr} (hpath : path ≠ [])
    (h : vol.entry path = some (.link target)) : vol.fs.link? path = some target := by
  rw [Volume.entry, if_neg hpath] at h
  rw [Layout.link?, h]

theorem Volume.link?_eq_none {entry : Entry} (hpath : path ≠ []) (h : vol.entry path = some entry)
    (hentry : ∀ target, entry ≠ .link target) : vol.fs.link? path = none := by
  rw [Volume.entry, if_neg hpath] at h
  rw [Layout.link?, h]
  cases entry with
  | link target => exact absurd rfl (hentry target)
  | file _ | dir => rfl

theorem concat_ne_nil (path : FilePath) (name : PyStr) : path ++ [name] ≠ [] :=
  List.append_ne_nil_of_right_ne_nil path (List.cons_ne_nil name [])

variable {fuel maxBytes : Nat}

theorem follow_entry {entry : Entry} (hskip : ¬(name = [] ∨ name = lit ".")) (hup : name ≠ lit "..")
    (hentry : vol.entry (path ++ [name]) = some entry) (hlink : ∀ target, entry ≠ .link target)
    (h : (name :: names).foldlM (followName vol.fs fuel) path = some q) :
    names.foldlM (followName vol.fs fuel) (path ++ [name]) = some q := by
  have hnone := vol.link?_eq_none (concat_ne_nil path name) hentry hlink
  rw [List.foldlM_cons, followName_eq, if_neg hskip, if_neg hup, hnone] at h
  split_ifs at h
  · cases h
  · exact h

theorem follow_target {name target : PyStr} (hskip : ¬(name = [] ∨ name = lit "."))
    (hup : name ≠ lit "..") (hentry : vol.entry (path ++ [name]) = some (.link target))
    (h : (name :: names).foldlM (followName vol.fs fuel) path = some q) :
    (target.splitOn slash ++ names).foldlM (followName vol.fs fuel)
      (if startsWith [slash] target then [] else path) = some q := by
  have hlink := vol.link?_of_entry (concat_ne_nil path name) hentry
  rw [List.foldlM_cons, followName_eq, if_neg hskip, if_neg hup, hlink] at h
  obtain ⟨middle, hmiddle, hrest⟩ := Option.bind_eq_some_iff.mp h
  rw [List.foldlM_append]
  refine Option.bind_eq_some_iff.mpr ⟨middle, ?_, hrest⟩
  split_ifs at hmiddle with haskable
  cases fuel with
  | zero => cases hmiddle
  | succ fuel => exact followAll_mono (followName_succ vol.fs fuel) _ hmiddle

/-- Where both get to, they get to the same path. -/
theorem canonicalFrom_eq {hops fuel : Nat} {path p q : FilePath}
    (h : vol.canonicalFrom hops path names = .ok p)
    (hfollow : names.foldlM (followName vol.fs fuel) path = some q) : p = q := by
  fun_induction Volume.canonicalFrom vol hops path names generalizing fuel with
  | case1 hops path =>
    rw [List.foldlM_nil] at hfollow
    exact (Except.ok.inj h).symm.trans (Option.some.inj hfollow)
  | case2 => cases h
  | case3 hops path name names hdir hskip ih =>
    rw [List.foldlM_cons, followName_eq, if_pos hskip] at hfollow
    exact ih h hfollow
  | case4 hops path names hdir hskip ih =>
    rw [List.foldlM_cons, followName_eq, if_neg hskip, if_pos rfl] at hfollow
    exact ih h hfollow
  | case5 => cases h
  | case6 _ _ _ _ _ hskip hup _ hentry ih | case7 _ _ _ _ _ hskip hup hentry ih =>
    exact ih h (follow_entry vol hskip hup hentry (fun _ heq => by cases heq) hfollow)
  | case8 => cases h
  | case9 path name names hdir hskip hup target hentry hops ih =>
    exact ih h (follow_target vol hskip hup hentry hfollow)

/-- The parts of a path are its names without those that lead nowhere else. -/
theorem follow_pathParts (h : startsWith [slash] raw = false) (path : FilePath) :
    (raw.splitOn slash).foldlM (followName vol.fs fuel) path =
      (pathParts raw).foldlM (followName vol.fs fuel) path := by
  simp only [pathParts, h, Bool.false_eq_true, if_false]
  generalize raw.splitOn slash = names
  induction names generalizing path with
  | nil => rfl
  | cons name names ih =>
    by_cases hskip : name = [] ∨ name = lit "."
    · have hout : decide (name ≠ [] ∧ name ≠ lit ".") = false := by
        rw [decide_eq_false_iff_not, ← not_or, not_not]
        exact hskip
      rw [List.filter_cons_of_neg (by simp [hout]), List.foldlM_cons, followName_eq, if_pos hskip]
      exact ih path
    · rw [List.filter_cons_of_pos (by simpa using hskip), List.foldlM_cons, List.foldlM_cons]
      exact congrArg _ (funext ih)

/-! ## What the tools read -/

/-- What `resolveTool` has seen of a target that it accepts. -/
structure Accepted (st : ShadowTree) (target : FilePath) : Prop where
  segments : ∀ part ∈ target, st.lower part ∉ denySegments
  last : ∀ suffix ∈ denySuffixes, ¬ suffix <:+ st.lower (target.getLastD [])
  single : ∀ links, st.fs.entry target = some (.file links) → links ≤ 1

theorem accepted_of_credential {st : ShadowTree} (h : st.credential raw target = none) :
    Accepted st target := by
  unfold ShadowTree.credential at h
  simp only at h
  split at h
  next => cases h
  next hsegments =>
    split at h
    next => cases h
    next hsuffixes =>
      refine ⟨fun part hpart hmem => hsegments ?_, fun suffix hmem hends => hsuffixes ?_,
        fun links hfile => ?_⟩
      · exact List.any_eq_true.mpr ⟨part, hpart, decide_eq_true hmem⟩
      · exact List.any_eq_true.mpr ⟨suffix, hmem, List.isSuffixOf_iff_suffix.mpr hends⟩
      · rw [hfile] at h
        by_contra hmany
        simp only [if_pos (Nat.lt_of_not_le hmany)] at h
        cases h

theorem resolveTool_accepted {st : ShadowTree} (h : st.resolveTool raw = .ok target) :
    Accepted st target := by
  obtain ⟨hrelative, root, hroot, htarget, hbelow⟩ := resolveTool_ok st h
  cases hcredential : st.credential raw target with
  | none => exact accepted_of_credential hcredential
  | some message =>
    unfold ShadowTree.resolveTool ShadowTree.resolve at h
    have hleading : root.isPrefixOf target = true := List.isPrefixOf_iff_prefix.mpr hbelow
    split at h
    next => cases h
    next => simp [htarget, hroot, hleading, hcredential, bind, Except.bind] at h

/-- Below the root of a target that the tools accept, `pathguard` sees a credential in the names that
are not shared only. -/
theorem Accepted.inside_iff {st : ShadowTree} (hlower : LowersAscii st.lower) {root inside : List PyStr}
    (h : Accepted st (root ++ inside)) :
    anyCredentialComponent inside = false ↔
      (∀ name ∈ inside, encodable name = true → isUnmirrored name = false) ∧
        ∀ name ∈ inside.dropLast, encodable name = true → isLastOnly name = false := by
  rw [anyCredentialComponent_eq_false_iff]
  constructor
  · intro hall
    refine ⟨fun name hname henc => (isCredentialSegment_eq_false_iff.mp (hall name hname henc)).1, ?_⟩
    intro name hname henc
    exact (isCredentialSegment_eq_false_iff.mp (hall name (List.mem_of_mem_dropLast hname) henc)).2.1
  · rintro ⟨hunmirrored, hlast⟩ name hname henc
    refine isCredentialSegment_eq_false_iff.mpr ⟨hunmirrored name hname henc, ?_, fun hdeny => ?_⟩
    · have hne := List.ne_nil_of_mem hname
      rw [← List.dropLast_concat_getLast hne, List.mem_append, List.mem_singleton] at hname
      rcases hname with hname | rfl
      · exact hlast name hname henc
      · -- the last name of the target, which the tools have looked at
        rw [← Bool.not_eq_true, isLastOnly, List.any_eq_true]
        rintro ⟨suffix, hmem, hends⟩
        refine h.last suffix hmem ?_
        have heq : (root ++ inside).getLastD [] = inside.getLast hne := by
          rw [List.getLastD_eq_getLast?, List.getLast?_append_of_ne_nil root hne,
            List.getLast?_eq_some_getLast hne]
          rfl
        rw [heq]
        exact hlower.suffix hmem (List.isSuffixOf_iff_suffix.mp hends)
    · exact h.segments name (List.mem_append_right root hname) (hlower.segment hdeny)

/-! ## What `pathguard` says of it -/

theorem canonicalFrom_error {hops : Nat} {e : PathRefusal}
    (h : vol.canonicalFrom hops path names = .error e) : e = .notFound ∨ e = .unreadable := by
  fun_induction Volume.canonicalFrom vol hops path names with
  | case1 => cases h
  | case2 => exact .inl (Except.error.inj h).symm
  | case3 _ _ _ _ _ _ ih | case4 _ _ _ _ _ ih => exact ih h
  | case5 => exact .inl (Except.error.inj h).symm
  | case6 _ _ _ _ _ _ _ _ _ ih | case7 _ _ _ _ _ _ _ _ ih => exact ih h
  | case8 => exact .inr (Except.error.inj h).symm
  | case9 _ _ _ _ _ _ _ _ _ ih => exact ih h

theorem isThere_of_ok (h : vol.canonicalize names = .ok path) :
    vol.isThere names = true := by
  rw [Volume.isThere, h]

theorem isThere_of_error {e : PathRefusal} (h : vol.canonicalize names = .error e) :
    vol.isThere names = false := by
  rw [Volume.isThere, h]

theorem checkFile_error {e : PathRefusal} (haccepted : Accepted vol.toShadowTree path)
    (h : vol.checkFile path maxBytes = .error e) :
    e ≠ .credential ∧ e ≠ .escapesRoot ∧ e ≠ .hardLinked := by
  unfold Volume.checkFile at h
  cases hentry : vol.entry path with
  | none =>
    rw [hentry] at h
    obtain rfl : PathRefusal.notFound = e := Except.error.inj h
    simp
  | some entry =>
    simp only [hentry] at h
    cases entry with
    | file links =>
      have hpath : path ≠ [] := by
        rintro rfl
        simp [Volume.entry] at hentry
      rw [Volume.entry, if_neg hpath] at hentry
      have hsingle := haccepted.single links hentry
      simp only [checkMetadata, if_neg (Nat.not_lt.mpr hsingle)] at h
      split at h
      next =>
        cases h
        simp
      next => cases h
    | dir =>
      obtain rfl : PathRefusal.notAFile = e := Except.error.inj h
      simp
    | link target =>
      obtain rfl : PathRefusal.notAFile = e := Except.error.inj h
      simp

variable {vol}

/-- What the tools accept is not there for `pathguard`, or it judges the same target. -/
theorem resolveFrom_cases (htool : vol.resolveTool raw = .ok target) (maxBytes : Nat) :
    ((∀ root, vol.canonicalize vol.root = .ok root → vol.isThere (root ++ raw.splitOn slash) = false) ∧
      (vol.resolveFrom raw maxBytes = .error .notFound ∨
        vol.resolveFrom raw maxBytes = .error .unreadable)) ∨
    ∃ root inside, vol.canonicalize vol.root = .ok root ∧
      vol.isThere (root ++ raw.splitOn slash) = true ∧
      realpath vol.fs vol.root = some root ∧ target = root ++ inside ∧
      vol.resolveFrom raw maxBytes =
        if anyCredentialComponent inside then .error .credential
        else vol.checkFile target maxBytes >>= fun _ => .ok target := by
  obtain ⟨hrelative, root, hroot, htarget, inside, rfl⟩ := resolveTool_ok vol.toShadowTree htool
  unfold Volume.resolveFrom
  cases hcanonical : vol.canonicalize vol.root with
  | error e =>
    refine .inl ⟨fun root heq => (by cases heq), ?_⟩
    rcases canonicalFrom_error vol hcanonical with rfl | rfl
    · exact .inl rfl
    · exact .inr rfl
  | ok root' =>
    obtain rfl : root' = root := canonicalFrom_eq vol hcanonical hroot
    cases hresolved : vol.canonicalize (root' ++ raw.splitOn slash) with
    | error e =>
      refine .inl ⟨fun root heq => ?_, ?_⟩
      · cases heq
        exact isThere_of_error vol hresolved
      · simp only [bind, Except.bind, hresolved]
        rcases canonicalFrom_error vol hresolved with rfl | rfl
        · exact .inl rfl
        · exact .inr rfl
    | ok path =>
      have hfollow : realpath vol.fs (root' ++ raw.splitOn slash) = some (root' ++ inside) := by
        rw [← htarget, ← realpath_root hroot, realpath, realpath, List.foldlM_append,
          List.foldlM_append]
        exact congrArg _ (funext (follow_pathParts vol hrelative))
      obtain rfl : path = root' ++ inside := canonicalFrom_eq vol hresolved hfollow
      refine .inr ⟨root', inside, rfl, isThere_of_ok vol hresolved, hroot, rfl, ?_⟩
      have hleading : root'.isPrefixOf (root' ++ inside) = true :=
        List.isPrefixOf_iff_prefix.mpr (List.prefix_append root' inside)
      simp only [bind, Except.bind, hresolved, hleading, Bool.true_eq_false, if_false,
        List.drop_left]

theorem resolveWithin_atSight (htool : vol.resolveTool raw = .ok target) (h : RefusedAtSight raw)
    (maxBytes : Nat) :
    vol.resolveWithin raw maxBytes = .error .malformed ∨
      vol.resolveWithin raw maxBytes = .error .traversal := by
  have hrelative : startsWith [slash] raw = false := (resolveTool_ok vol.toShadowTree htool).1
  unfold Volume.resolveWithin
  by_cases hmalformed : (raw.isEmpty || raw.any fun c => c.val == 0) = true
  · exact .inl (if_pos hmalformed)
  · have hup : lit ".." ∈ pathParts raw := h.resolve_left hmalformed
    rw [if_neg hmalformed, hrelative, if_neg Bool.false_ne_true, if_pos hup]
    exact .inr rfl

theorem resolveWithin_eq (htool : vol.resolveTool raw = .ok target) (h : ¬RefusedAtSight raw)
    (maxBytes : Nat) :
    vol.resolveWithin raw maxBytes =
      if anyCredentialComponent (pathParts raw) then .error .credential
      else if vol.isThere (vol.root ++ [lit ".git"]) = false then .error .notAProject
      else vol.resolveFrom raw maxBytes := by
  have hrelative : startsWith [slash] raw = false := (resolveTool_ok vol.toShadowTree htool).1
  obtain ⟨hmalformed, hup⟩ := not_or.mp h
  unfold Volume.resolveWithin
  rw [if_neg hmalformed, hrelative, if_neg Bool.false_ne_true, if_neg hup]

/-- Names are shared where `pathguard` finds no credential in them. -/
theorem shared_iff (hlower : LowersAscii vol.lower) (htool : vol.resolveTool raw = .ok target) :
    vol.Shared raw target ↔
      anyCredentialComponent (pathParts raw) = false ∧
        (vol.Leads raw → ∀ root inside, realpath vol.fs vol.root = some root → target = root ++ inside →
          anyCredentialComponent inside = false) := by
  have haccepted := resolveTool_accepted htool
  constructor
  · intro h
    refine ⟨h.spelled, fun hleads root inside hroot htarget => ?_⟩
    subst htarget
    exact (haccepted.inside_iff hlower).mpr
      ⟨h.mirrored hleads root inside hroot rfl, h.last hleads root inside hroot rfl⟩
  · rintro ⟨hspelled, hinside⟩
    refine ⟨hspelled, fun hleads root inside hroot htarget => ?_,
      fun hleads root inside hroot htarget => ?_⟩
    · subst htarget
      exact ((haccepted.inside_iff hlower).mp (hinside hleads root inside hroot rfl)).1
    · subst htarget
      exact ((haccepted.inside_iff hlower).mp (hinside hleads root inside hroot rfl)).2

theorem resolveFrom_passes (htool : vol.resolveTool raw = .ok target)
    (hproject : vol.isThere (vol.root ++ [lit ".git"]) = true)
    (h : vol.Leads raw → ∀ root inside, realpath vol.fs vol.root = some root →
      target = root ++ inside → anyCredentialComponent inside = false)
    (maxBytes : Nat) :
    vol.resolveFrom raw maxBytes ≠ .error .credential ∧
      vol.resolveFrom raw maxBytes ≠ .error .escapesRoot ∧
      vol.resolveFrom raw maxBytes ≠ .error .hardLinked := by
  rcases resolveFrom_cases htool maxBytes with
    ⟨-, hnowhere | hnowhere⟩ | ⟨root, inside, hroot, hthere, hreal, htarget, heq⟩
  · simp [hnowhere]
  · simp [hnowhere]
  · have hleads : vol.Leads raw := ⟨hproject, root, hroot, hthere⟩
    rw [h hleads root inside hreal htarget] at heq
    simp only [Bool.false_eq_true, if_false] at heq
    cases hfile : vol.checkFile target maxBytes with
    | ok =>
      rw [hfile] at heq
      simp [heq, bind, Except.bind]
    | error e =>
      obtain ⟨h₁, h₂, h₃⟩ := checkFile_error vol (resolveTool_accepted htool) hfile
      rw [hfile] at heq
      simp [heq, bind, Except.bind, h₁, h₂, h₃]

theorem resolveFrom_inside (htool : vol.resolveTool raw = .ok target) (maxBytes : Nat)
    (hpass : vol.resolveFrom raw maxBytes ≠ .error .credential) (hleads : vol.Leads raw)
    {root inside : FilePath} (hroot : realpath vol.fs vol.root = some root)
    (htarget : target = root ++ inside) : anyCredentialComponent inside = false := by
  rcases resolveFrom_cases htool maxBytes with
    ⟨hnowhere, -⟩ | ⟨root', inside', -, -, hroot', htarget', heq⟩
  · obtain ⟨-, root', hroot', hthere⟩ := hleads
    exact absurd ((hnowhere root' hroot').symm.trans hthere) (by decide)
  · obtain rfl := Option.some.inj (hroot.symm.trans hroot')
    obtain rfl : inside' = inside := List.append_cancel_left (htarget'.symm.trans htarget)
    rw [← Bool.not_eq_true]
    intro hcredential
    rw [if_pos hcredential] at heq
    exact hpass heq

/-- A target that the tools accept is not refused by `pathguard` exactly when its names are shared. -/
theorem passes_iff (hlower : LowersAscii vol.lower) (htool : vol.resolveTool raw = .ok target) :
    (∀ maxBytes, vol.resolveWithin raw maxBytes ≠ .error .credential ∧
      vol.resolveWithin raw maxBytes ≠ .error .escapesRoot ∧
      vol.resolveWithin raw maxBytes ≠ .error .hardLinked) ↔
        RefusedAtSight raw ∨ vol.Shared raw target := by
  by_cases hsight : RefusedAtSight raw
  · refine ⟨fun _ => .inl hsight, fun _ maxBytes => ?_⟩
    rcases resolveWithin_atSight htool hsight maxBytes with h | h
    · simp [h]
    · simp [h]
  simp only [resolveWithin_eq htool hsight, or_iff_right hsight, shared_iff hlower htool]
  cases hspelled : anyCredentialComponent (pathParts raw) with
  | true => simp
  | false =>
    simp only [Bool.false_eq_true, if_false, true_and]
    cases hproject : vol.isThere (vol.root ++ [lit ".git"]) with
    | false =>
      have hleads : ¬vol.Leads raw := fun h => absurd (hproject.symm.trans h.1) (by decide)
      simp [hleads]
    | true =>
      simp only [Bool.true_eq_false, if_false]
      constructor
      · intro hpass hleads root inside hroot htarget
        exact resolveFrom_inside htool 0 (hpass 0).1 hleads hroot htarget
      · exact resolveFrom_passes htool hproject

/-! ## What is opened -/

theorem checkFile_ok (h : vol.checkFile path maxBytes = .ok ()) :
    ∃ links, vol.fs.entry path = some (.file links) ∧ links ≤ 1 := by
  unfold Volume.checkFile at h
  cases hentry : vol.entry path with
  | none =>
    rw [hentry] at h
    cases h
  | some entry =>
    simp only [hentry] at h
    cases entry with
    | file links =>
      have hpath : path ≠ [] := by
        rintro rfl
        simp [Volume.entry] at hentry
      rw [Volume.entry, if_neg hpath] at hentry
      refine ⟨links, hentry, ?_⟩
      by_contra hmany
      simp only [checkMetadata, if_pos (Nat.lt_of_not_le hmany)] at h
      cases h
    | dir => cases h
    | link target => cases h

/-- What `resolveWithin` accepts lies below the root, and no name of it that is text carries a
credential. -/
theorem resolveWithin_ok (h : vol.resolveWithin rel maxBytes = .ok path) :
    ∃ root inside, vol.canonicalize vol.root = .ok root ∧ path = root ++ inside ∧
      anyCredentialComponent inside = false ∧ vol.checkFile path maxBytes = .ok () := by
  unfold Volume.resolveWithin at h
  split_ifs at h
  unfold Volume.resolveFrom at h
  obtain ⟨root, hroot, h⟩ := bind_ok_iff.mp h
  obtain ⟨resolved, -, h⟩ := bind_ok_iff.mp h
  split_ifs at h with hbelow hcredential
  obtain ⟨⟨⟩, hfile, h⟩ := bind_ok_iff.mp h
  obtain rfl : resolved = path := Except.ok.inj h
  obtain ⟨inside, rfl⟩ := List.isPrefixOf_iff_prefix.mp (Bool.not_eq_false _ ▸ hbelow)
  rw [List.drop_left, Bool.not_eq_true] at hcredential
  exact ⟨root, inside, hroot, rfl, hcredential, hfile⟩

theorem openWithin_path {opened : OpenedFile} (h : vol.openWithin rel maxBytes = .ok opened) :
    vol.resolveWithin rel maxBytes = .ok opened.path := by
  unfold Volume.openWithin at h
  obtain ⟨path, hpath, h⟩ := bind_ok_iff.mp h
  split_ifs at h
  obtain ⟨⟨⟩, -, h⟩ := bind_ok_iff.mp h
  unfold Volume.readFile at h
  simp only at h
  split at h
  next => cases h
  next =>
    split at h
    next => cases h
    next text _ =>
      cases h
      exact hpath

/-- A file is opened under a harmless name exactly when the names on its path that are no UTF-8 carry
no credential. -/
theorem harmless_iff {opened : OpenedFile} (h : vol.openWithin rel maxBytes = .ok opened) :
    vol.Harmless opened.path ↔ ∀ root inside, vol.canonicalize vol.root = .ok root →
      opened.path = root ++ inside → ∀ name ∈ inside, encodable name = false →
        isCredentialSegment name = false := by
  obtain ⟨root, inside, hroot, hpath, htext, hfile⟩ := resolveWithin_ok (openWithin_path h)
  obtain ⟨links, hentry, hsingle⟩ := checkFile_ok hfile
  have hsame : ∀ root' inside', vol.canonicalize vol.root = .ok root' →
      opened.path = root' ++ inside' → inside' = inside := by
    intro root' inside' hroot' hpath'
    obtain rfl := Except.ok.inj (hroot.symm.trans hroot')
    exact List.append_cancel_left (hpath'.symm.trans hpath)
  constructor
  · rintro ⟨root₁, inside₁, _, hroot₁, hpath₁, -, -, hnone⟩ root₂ inside₂ hroot₂ hpath₂ name hname _
    rw [hsame root₂ inside₂ hroot₂ hpath₂, ← hsame root₁ inside₁ hroot₁ hpath₁] at hname
    exact hnone name hname
  · intro hbytes
    refine ⟨root, inside, links, hroot, hpath, hentry, hsingle, fun name hname => ?_⟩
    cases henc : encodable name with
    | true => exact anyCredentialComponent_eq_false_iff.mp htext name hname henc
    | false => exact hbytes root inside hroot hpath name hname henc

/-- `pathguard` passes what the tools read exactly when the names are shared, and what it opens is a
file with one name inside the root, under a harmless one exactly when it has been able to read them
all. -/
theorem passed_by_both (hlower : LowersAscii vol.lower) (raw : PyStr) :
    (vol.Mirrored raw ↔
      ∀ target, vol.resolveTool raw = .ok target → RefusedAtSight raw ∨ vol.Shared raw target) ∧
    ∀ maxBytes opened, vol.openWithin raw maxBytes = .ok opened →
      (vol.Harmless opened.path ↔ ∀ root inside, vol.canonicalize vol.root = .ok root →
        opened.path = root ++ inside → ∀ name ∈ inside, encodable name = false →
          isCredentialSegment name = false) :=
  ⟨forall₂_congr fun _ htool => passes_iff hlower htool, fun _ _ => harmless_iff⟩

/-- A worktree with the file `name`. -/
def worktree (name : PyStr) : Volume where
  fs := [([lit "w"], .dir), ([lit "w", lit ".git"], .file 1), ([lit "w", name], .file 1)]
  root := [lit "w"]
  lower := asciiLower
  printable := fun _ => true
  bytes := fun _ => []
  readable := fun _ => true
  hops := 40

theorem passed_by_both_plain : (worktree (lit "a.py")).Mirrored (lit "a.py") := by
  refine (passed_by_both LowersAscii.asciiLower (lit "a.py")).1.mpr fun target htool => .inr ?_
  have haccepted : (worktree (lit "a.py")).resolveTool (lit "a.py") = .ok [lit "w", lit "a.py"] := rfl
  obtain rfl := Except.ok.inj (haccepted.symm.trans htool)
  have hinside : ∀ root inside, some [lit "w"] = some root → [lit "w", lit "a.py"] = root ++ inside →
      inside = [lit "a.py"] := by
    rintro _ inside ⟨⟩ hsplit
    have htail : [lit "w"] ++ [lit "a.py"] = [lit "w"] ++ inside := hsplit
    exact (List.append_cancel_left htail).symm
  refine ⟨by decide, fun _ root inside hroot hsplit => ?_,
    fun _ root inside hroot hsplit => ?_⟩
  · rw [hinside root inside hroot hsplit]
    decide
  · rw [hinside root inside hroot hsplit]
    simp

/-- The tools read the tokens of a package registry. -/
theorem npmrc_read :
    ¬ ∀ (vol : Volume) (raw : PyStr), LowersAscii vol.lower → vol.Mirrored raw := by
  intro h
  let vol := worktree (lit ".npmrc")
  have haccepted : ∃ target, vol.resolveTool (lit ".npmrc") = .ok target :=
    fault_eq_none_iff.mp (Option.isNone_iff_eq_none.mp (by decide +kernel))
  have hrefused : vol.resolveWithin (lit ".npmrc") 0 = .error .credential := by decide
  obtain ⟨target, htarget⟩ := haccepted
  exact (h vol (lit ".npmrc") LowersAscii.asciiLower target htarget 0).1 hrefused

end PathGuard
end Tempest
