import Tempest.Prove.Pipeline

/-!
# Unzip — extracting an uploaded archive (`ingest.py`, `_safe_extract`)

An archive is the list of its members, each with what `zipfile` does when it is opened and when it is
read to its end.  `extractAll` puts them below a fresh directory as `ZipFile.extractall` does, and
`extractAll_ok_iff` says which lists of members it gets through.
-/

namespace Tempest
namespace Unzip

open Python

/-! ## Archives -/

/-- What `zipfile` raises. -/
inductive ZipFault where
  | badZipFile
  | notImplemented
  | runtimeError
  deriving DecidableEq

/-- `ZipInfo`, with the answer of `ZipFile.open` and then of reading the member to its end. -/
structure Member where
  filename : PyStr
  fileSize : Nat
  opened : Except ZipFault (Except ZipFault Bytes)

inductive Exc where
  | key
  | value
  | type
  | os
  | overflow
  | recursion
  | integrity
  | zip (fault : ZipFault)
  deriving DecidableEq

abbrev Path := List PyStr

inductive Node where
  | dir
  | file (content : Bytes)
  deriving DecidableEq

abbrev Tree := Dict Path Node

def Member.isDir (m : Member) : Bool := [slash].isSuffixOf m.filename

/-- The names of `_extract_member`, which drops empty ones, `.` and `..`. -/
def Member.parts (m : Member) : List PyStr :=
  (m.filename.splitOn slash).filter fun name => name ≠ [] ∧ name ≠ lit "." ∧ name ≠ lit ".."

def follow (path : Path) (name : PyStr) : Path :=
  if name = [] ∨ name = lit "." then path
  else if name = lit ".." then path.dropLast
  else path ++ [name]

/-- `(dest / filename).resolve()`, below a directory without links. -/
def resolve (dest : Path) (filename : PyStr) : Path :=
  (filename.splitOn slash).foldl follow (if startsWith [slash] filename then [] else dest)

/-- `target.is_relative_to(resolved_dest)`. -/
def Member.isSafe (dest : Path) (m : Member) : Bool := dest.isPrefixOf (resolve dest m.filename)

/-! ## Extraction -/

section Extract

-- the paths that the file system takes: it bounds their names and their lengths
variable (accepts : Path → Bool) (dest : Path)

/-- `os.makedirs` of the names below a path. -/
def makeDirs (tree : Tree) (path : Path) : List PyStr → Tree × Option Exc
  | [] => (tree, none)
  | name :: names =>
    match tree.get? (path ++ [name]) with
    | some (.file _) => (tree, some .os)
    | some .dir => makeDirs tree (path ++ [name]) names
    | none =>
      if accepts (path ++ [name]) then
        makeDirs (tree.set (path ++ [name]) .dir) (path ++ [name]) names
      else (tree, some .os)

/-- `os.mkdir` of the target, which may be a directory already. -/
def makeTarget (tree : Tree) (path : Path) : Tree × Option Exc :=
  if path = dest then (tree, none)
  else
    match tree.get? path with
    | some (.file _) => (tree, some .os)
    | some .dir => (tree, none)
    | none => if accepts path then (tree.set path .dir, none) else (tree, some .os)

/-- `open(targetpath, "wb")` and the copy of the member.  What was copied before reading it failed is
not kept track of. -/
def writeTarget (tree : Tree) (path : Path) (content : Except ZipFault Bytes) : Tree × Option Exc :=
  if path = dest ∨ tree.get? path = some .dir ∨ accepts path = false then (tree, some .os)
  else
    match content with
    | .ok bytes => (tree.set path (.file bytes), none)
    | .error fault => (tree.set path (.file []), some (.zip fault))

/-- `ZipFile._extract_member`. -/
def extract (tree : Tree) (m : Member) : Tree × Option Exc :=
  match makeDirs accepts tree dest m.parts.dropLast with
  | (tree, some e) => (tree, some e)
  | (tree, none) =>
    if m.isDir then makeTarget accepts dest tree (dest ++ m.parts)
    else
      match m.opened with
      | .error fault => (tree, some (.zip fault))
      | .ok content => writeTarget accepts dest tree (dest ++ m.parts) content

def extractAll (tree : Tree) : List Member → Tree × Option Exc
  | [] => (tree, none)
  | m :: members =>
    match extract accepts dest tree m with
    | (tree, some e) => (tree, some e)
    | (tree, none) => extractAll tree members

/-! ## What can be extracted -/

def Member.content? (m : Member) : Option Bytes :=
  match m.opened with
  | .ok (.ok bytes) => some bytes
  | _ => none

/-- A directory, or a file that can be read and has a name. -/
def Member.Sound (m : Member) : Prop :=
  (∀ q, q ≠ [] → q <+: m.parts → accepts (dest ++ q) = true) ∧
    (m.isDir = false → m.content?.isSome = true ∧ m.parts ≠ [])

/-- No file of one member stands where another has a directory. -/
def Apart (m m' : Member) : Prop :=
  m.isDir = false →
    (m.parts <+: m'.parts → m.parts = m'.parts ∧ m'.isDir = false)

structure Extractable (members : List Member) : Prop where
  sound : ∀ m ∈ members, m.Sound accepts dest
  apart : ∀ m ∈ members, ∀ m' ∈ members, Apart m m'

def contentAt (members : List Member) (q : Path) : Option Bytes :=
  (members.reverse.find? fun m => !m.isDir && decide (m.parts = q)).bind Member.content?

def DirAt (members : List Member) (q : Path) : Prop :=
  q ≠ [] ∧ ∃ m ∈ members, q <+: m.parts ∧ (q ≠ m.parts ∨ m.isDir = true)

structure Shows (tree : Tree) (members : List Member) : Prop where
  file : ∀ q c, tree.get? (dest ++ q) = some (.file c) ↔ contentAt members q = some c
  dir : ∀ q, tree.get? (dest ++ q) = some .dir ↔ DirAt members q

/-! ## One member after the other -/

variable {accepts dest} {tree tree' : Tree} {m : Member} {members : List Member}

theorem prefix_dropLast_iff {q l : Path} (hq : q ≠ []) : q <+: l.dropLast ↔ q <+: l ∧ q ≠ l := by
  rcases l.eq_nil_or_concat with rfl | ⟨l, x, rfl⟩
  · refine ⟨fun h => absurd (List.prefix_nil.1 h) hq, fun h => absurd (List.prefix_nil.1 h.1) hq⟩
  · rw [List.concat_eq_append, List.dropLast_concat, List.prefix_concat_iff]
    constructor
    · intro h
      refine ⟨Or.inr h, fun heq => ?_⟩
      have hlength := h.length_le
      rw [heq, List.length_append, List.length_singleton] at hlength
      omega
    · exact fun h => h.1.resolve_left h.2

theorem forall_front {α : Type} {P : List α → Prop} {a : α} {l : List α} :
    (∀ q, q ≠ [] → q <+: a :: l → P q) ↔ P [a] ∧ ∀ q, q ≠ [] → q <+: l → P (a :: q) := by
  constructor
  · intro h
    exact ⟨h [a] (List.cons_ne_nil _ _) ⟨l, rfl⟩,
      fun q _ hprefix => h (a :: q) (List.cons_ne_nil _ _) (List.cons_prefix_cons.2 ⟨rfl, hprefix⟩)⟩
  · rintro ⟨hone, h⟩ q hq hprefix
    cases q with
    | nil => exact absurd rfl hq
    | cons first q =>
      obtain ⟨rfl, hrest⟩ := List.cons_prefix_cons.1 hprefix
      by_cases hnil : q = []
      · exact hnil ▸ hone
      · exact h q hnil hrest

variable {path q : Path}

theorem makeDirs_ok_iff {names : List PyStr} :
    (makeDirs accepts tree path names).2 = none ↔
      ∀ q, q ≠ [] → q <+: names → (∀ c, tree.get? (path ++ q) ≠ some (.file c)) ∧
        (tree.get? (path ++ q) = none → accepts (path ++ q) = true) := by
  induction names generalizing tree path with
  | nil => exact ⟨fun _ q hq hprefix => absurd (List.prefix_nil.1 hprefix) hq, fun _ => rfl⟩
  | cons name names ih =>
    have hlonger : ∀ q, path ++ (name :: q) = (path ++ [name]) ++ q := by simp
    rw [makeDirs, forall_front]
    cases hplace : tree.get? (path ++ [name]) with
    | some node =>
      cases node with
      | file c => exact ⟨fun h => (by cases h), fun h => absurd rfl (h.1.1 c)⟩
      | dir =>
        simp only
        rw [ih]
        constructor
        · intro h
          refine ⟨⟨fun c heq => (by cases heq), fun heq => (by cases heq)⟩, fun q hq hprefix => ?_⟩
          rw [hlonger]
          exact h q hq hprefix
        · intro h q hq hprefix
          rw [← hlonger]
          exact h.2 q hq hprefix
    | none =>
      simp only
      by_cases haccepts : accepts (path ++ [name]) = true
      · rw [if_pos haccepts, ih]
        -- the new directory is no path below it
        have hset : ∀ q, q ≠ [] → (tree.set (path ++ [name]) .dir).get? (path ++ [name] ++ q) =
            tree.get? (path ++ [name] ++ q) := by
          intro q hq
          rw [Dict.get?_set, if_neg]
          intro heq
          exact hq (List.append_right_eq_self.1 heq)
        constructor
        · intro h
          refine ⟨⟨fun c heq => (by cases heq), fun _ => haccepts⟩, fun q hq hprefix => ?_⟩
          rw [hlonger, ← hset q hq]
          exact h q hq hprefix
        · intro h q hq hprefix
          rw [hset q hq, ← hlonger]
          exact h.2 q hq hprefix
      · rw [if_neg haccepts]
        exact ⟨fun h => (by cases h), fun h => absurd (h.1.2 trivial) haccepts⟩

open Classical in
/-- The directories that were made, and nothing else. -/
theorem get?_makeDirs {names : List PyStr} (h : (makeDirs accepts tree path names).2 = none) (p : Path) :
    (makeDirs accepts tree path names).1.get? p =
      if tree.get? p = none ∧ ∃ q, q ≠ [] ∧ q <+: names ∧ p = path ++ q then some .dir
      else tree.get? p := by
  induction names generalizing tree path with
  | nil =>
    rw [if_neg]
    · rfl
    · rintro ⟨-, q, hq, hprefix, -⟩
      exact hq (List.prefix_nil.1 hprefix)
  | cons name names ih =>
    have hcases : (∃ q, q ≠ [] ∧ q <+: name :: names ∧ p = path ++ q) ↔
        p = path ++ [name] ∨ ∃ q, q ≠ [] ∧ q <+: names ∧ p = path ++ [name] ++ q := by
      constructor
      · rintro ⟨q, hq, hprefix, rfl⟩
        cases q with
        | nil => exact absurd rfl hq
        | cons first q =>
          obtain ⟨rfl, hrest⟩ := List.cons_prefix_cons.1 hprefix
          by_cases hnil : q = []
          · exact Or.inl (by rw [hnil])
          · exact Or.inr ⟨q, hnil, hrest, by simp⟩
      · rintro (rfl | ⟨q, -, hprefix, rfl⟩)
        · exact ⟨[name], List.cons_ne_nil _ _, ⟨names, rfl⟩, rfl⟩
        · exact ⟨name :: q, List.cons_ne_nil _ _, List.cons_prefix_cons.2 ⟨rfl, hprefix⟩, by simp⟩
    rw [makeDirs] at h ⊢
    cases hplace : tree.get? (path ++ [name]) with
    | some node =>
      rw [hplace] at h
      cases node with
      | file c => cases h
      | dir =>
        simp only at h ⊢
        rw [ih h]
        by_cases hnone : tree.get? p = none
        · have hp : p ≠ path ++ [name] := by
            rintro rfl
            rw [hplace] at hnone
            cases hnone
          simp only [hnone, hcases, hp, false_or, true_and]
        · simp only [hnone, false_and]
    | none =>
      rw [hplace] at h
      by_cases haccepts : accepts (path ++ [name]) = true
      · simp only [if_pos haccepts] at h ⊢
        rw [ih h, Dict.get?_set]
        by_cases hp : p = path ++ [name]
        · subst hp
          simp [hplace]
        · rw [if_neg hp]
          simp only [hcases.trans (or_iff_right hp)]
      · simp only [if_neg haccepts] at h
        cases h

theorem contentAt_concat (q : Path) :
    contentAt (members ++ [m]) q =
      if m.isDir = false ∧ m.parts = q then m.content? else contentAt members q := by
  rw [contentAt, List.reverse_append, List.reverse_singleton, List.singleton_append, List.find?_cons]
  by_cases h : m.isDir = false ∧ m.parts = q
  · simp [h]
  · have hfalse : (!m.isDir && decide (m.parts = q)) = false := by
      rw [Bool.and_eq_false_iff]
      by_cases hdir : m.isDir = false
      · exact Or.inr (decide_eq_false fun heq => h ⟨hdir, heq⟩)
      · exact Or.inl (by simpa using hdir)
    rw [hfalse, if_neg h]
    rfl

theorem dirAt_concat :
    DirAt (members ++ [m]) q ↔
      DirAt members q ∨ q ≠ [] ∧ q <+: m.parts ∧ (q ≠ m.parts ∨ m.isDir = true) := by
  simp only [DirAt, List.mem_append, List.mem_singleton]
  constructor
  · rintro ⟨hq, m', hold | rfl, hprefix⟩
    · exact Or.inl ⟨hq, m', hold, hprefix⟩
    · exact Or.inr ⟨hq, hprefix⟩
  · rintro (⟨hq, m', hold, hprefix⟩ | ⟨hq, hprefix⟩)
    · exact ⟨hq, m', Or.inl hold, hprefix⟩
    · exact ⟨hq, m, Or.inr rfl, hprefix⟩

/-- A file that is there is the last readable one of its path. -/
theorem mem_of_contentAt {c : Bytes} (h : contentAt members q = some c) :
    ∃ m ∈ members, m.isDir = false ∧ m.parts = q := by
  rw [contentAt, Option.bind_eq_some_iff] at h
  obtain ⟨m, hm, -⟩ := h
  have htest := List.find?_some hm
  rw [Bool.and_eq_true] at htest
  exact ⟨m, List.mem_reverse.1 (List.mem_of_find?_eq_some hm), by simpa using htest.1,
    of_decide_eq_true htest.2⟩

/-- Where every file can be read, every path of a file is there. -/
theorem contentAt_isSome (hsound : ∀ m ∈ members, m.Sound accepts dest)
    (h : ∃ m ∈ members, m.isDir = false ∧ m.parts = q) : (contentAt members q).isSome = true := by
  obtain ⟨m, hm, hdir, hparts⟩ := h
  have hfound : (members.reverse.find? fun m => !m.isDir && decide (m.parts = q)).isSome = true := by
    rw [List.find?_isSome]
    exact ⟨m, List.mem_reverse.2 hm, by simp [hdir, hparts]⟩
  obtain ⟨last, hlast⟩ := Option.isSome_iff_exists.1 hfound
  have htest := List.find?_some hlast
  rw [Bool.and_eq_true] at htest
  have hfile : last.isDir = false := by simpa using htest.1
  rw [contentAt, hlast]
  exact ((hsound last (List.mem_reverse.1 (List.mem_of_find?_eq_some hlast))).2 hfile).1

/-- A member goes through when it is sound and stands in no other's way. -/
def Fits (accepts : Path → Bool) (dest : Path) (members : List Member) (m : Member) : Prop :=
  m.Sound accepts dest ∧ ∀ m' ∈ members, Apart m m' ∧ Apart m' m

/-- The way to a member is free when no file stands on it. -/
theorem dirs_ok_iff (hshows : Shows dest tree members)
    (hmembers : ∀ m' ∈ members, m'.Sound accepts dest) :
    (makeDirs accepts tree dest m.parts.dropLast).2 = none ↔
      ∀ q, q ≠ [] → q <+: m.parts → q ≠ m.parts →
        accepts (dest ++ q) = true ∧ ∀ m' ∈ members, m'.isDir = false → m'.parts ≠ q := by
  rw [makeDirs_ok_iff]
  refine forall₂_congr fun q hq => ?_
  rw [prefix_dropLast_iff hq, and_imp]
  refine forall₂_congr fun hprefix hne => ?_
  have hnofile : (∀ c, tree.get? (dest ++ q) ≠ some (.file c)) ↔
      ∀ m' ∈ members, m'.isDir = false → m'.parts ≠ q := by
    constructor
    · intro h m' hm' hdir hparts
      obtain ⟨c, hc⟩ := Option.isSome_iff_exists.1 (contentAt_isSome hmembers ⟨m', hm', hdir, hparts⟩)
      exact h c ((hshows.file q c).2 hc)
    · intro h c hc
      obtain ⟨m', hm', hdir, hparts⟩ := mem_of_contentAt ((hshows.file q c).1 hc)
      exact h m' hm' hdir hparts
  rw [hnofile, and_comm]
  refine and_congr_left fun hfree => ?_
  constructor
  · intro h
    cases hplace : tree.get? (dest ++ q) with
    | none => exact h hplace
    | some node =>
      cases node with
      | file c => exact absurd hplace (hnofile.2 hfree c)
      | dir =>
        -- a directory that is there was accepted when it was made
        obtain ⟨-, m', hm', hprefix', -⟩ := (hshows.dir q).1 hplace
        exact (hmembers m' hm').1 q hq hprefix'
  · exact fun h _ => h

/-- What the directories on the way leave at the target. -/
theorem get?_target (hdirs : (makeDirs accepts tree dest m.parts.dropLast).2 = none) :
    (makeDirs accepts tree dest m.parts.dropLast).1.get? (dest ++ m.parts) =
      tree.get? (dest ++ m.parts) := by
  rw [get?_makeDirs hdirs, if_neg]
  rintro ⟨-, q, hq, hprefix, heq⟩
  exact ((prefix_dropLast_iff hq).1 hprefix).2 (List.append_cancel_left heq).symm

theorem accepts_iff (hparts : m.parts ≠ []) :
    ((∀ q, q ≠ [] → q <+: m.parts → q ≠ m.parts → accepts (dest ++ q) = true) ∧
        accepts (dest ++ m.parts) = true) ↔
      ∀ q, q ≠ [] → q <+: m.parts → accepts (dest ++ q) = true := by
  refine ⟨fun h q hq hprefix => ?_, fun h => ⟨fun q hq hprefix _ => h q hq hprefix,
    h m.parts hparts (List.prefix_refl _)⟩⟩
  by_cases heq : q = m.parts
  · exact heq ▸ h.2
  · exact h.1 q hq hprefix heq

theorem extract_of_dirs {e : Exc} (h : (makeDirs accepts tree dest m.parts.dropLast).2 = some e) :
    (extract accepts dest tree m).2 = some e := by
  rw [extract]
  split
  · rename_i tree' e' heq
    rw [heq] at h
    exact h
  · rename_i tree' heq
    rw [heq] at h
    cases h

/-- A directory goes through. -/
theorem extract_dir (hdir : m.isDir = true)
    (hdirs : (makeDirs accepts tree dest m.parts.dropLast).2 = none) :
    extract accepts dest tree m =
      makeTarget accepts dest (makeDirs accepts tree dest m.parts.dropLast).1 (dest ++ m.parts) := by
  rw [extract]
  split
  · rename_i tree' e' heq
    rw [heq] at hdirs
    cases hdirs
  · rename_i tree' heq
    rw [heq, if_pos hdir]

theorem extract_file (hdir : m.isDir = false)
    (hdirs : (makeDirs accepts tree dest m.parts.dropLast).2 = none) :
    extract accepts dest tree m =
      match m.opened with
      | .error fault => ((makeDirs accepts tree dest m.parts.dropLast).1, some (.zip fault))
      | .ok content =>
        writeTarget accepts dest (makeDirs accepts tree dest m.parts.dropLast).1 (dest ++ m.parts)
          content := by
  rw [extract]
  split
  · rename_i tree' e' heq
    rw [heq] at hdirs
    cases hdirs
  · rename_i tree' heq
    rw [heq, if_neg (by rw [hdir]; exact Bool.false_ne_true)]

/-- No file of the others is on the way to a member, or at its place. -/
theorem free_iff (hmembers : ∀ m' ∈ members, m'.Sound accepts dest) :
    (∀ q, q ≠ [] → q <+: m.parts → q ≠ m.parts → ∀ m' ∈ members, m'.isDir = false → m'.parts ≠ q) ↔
      ∀ m' ∈ members, m'.isDir = false → m'.parts <+: m.parts → m'.parts = m.parts := by
  constructor
  · intro h m' hm' hdir hprefix
    by_contra hne
    exact h m'.parts ((hmembers m' hm').2 hdir).2 hprefix hne m' hm' hdir rfl
  · rintro h q - hprefix hne m' hm' hdir rfl
    exact hne (h m' hm' hdir hprefix)

theorem dir_fits_iff (hshows : Shows dest tree members) (hdir : m.isDir = true)
    (hmembers : ∀ m' ∈ members, m'.Sound accepts dest)
    (hdirs : (makeDirs accepts tree dest m.parts.dropLast).2 = none) :
    (extract accepts dest tree m).2 = none ↔ Fits accepts dest members m := by
  have hway := (dirs_ok_iff hshows hmembers).1 hdirs
  have hfree := (free_iff hmembers).1 fun q hq hprefix hne => (hway q hq hprefix hne).2
  have hmine : ∀ m', Apart m m' := fun m' hfile => by
    rw [hdir] at hfile
    cases hfile
  rw [extract_dir hdir hdirs, makeTarget]
  by_cases hparts : m.parts = []
  · rw [hparts, List.append_nil, if_pos rfl]
    refine ⟨fun _ => ⟨⟨fun q hq hprefix => ?_, fun hfile => ?_⟩, fun m' hm' => ⟨hmine m', ?_⟩⟩,
      fun _ => rfl⟩
    · rw [hparts] at hprefix
      exact absurd (List.prefix_nil.1 hprefix) hq
    · rw [hdir] at hfile
      cases hfile
    · intro hfile hprefix
      rw [hparts] at hprefix
      exact absurd (List.prefix_nil.1 hprefix) ((hmembers m' hm').2 hfile).2
  · have hdest : dest ++ m.parts ≠ dest := fun heq => hparts (List.append_right_eq_self.1 heq)
    rw [if_neg hdest, get?_target hdirs]
    have hothers : ∀ m' ∈ members, Apart m' m ↔ (m'.isDir = false → m'.parts ≠ m.parts) := by
      intro m' hm'
      constructor
      · intro hapart hfile heq
        have hend := (hapart hfile (heq ▸ List.prefix_refl _)).2
        rw [hdir] at hend
        cases hend
      · intro hne hfile hprefix
        exact absurd (hfree m' hm' hfile hprefix) (hne hfile)
    have hfits : Fits accepts dest members m ↔ accepts (dest ++ m.parts) = true ∧
        ∀ m' ∈ members, m'.isDir = false → m'.parts ≠ m.parts := by
      constructor
      · rintro ⟨hsound, hapart⟩
        exact ⟨hsound.1 m.parts hparts (List.prefix_refl _),
          fun m' hm' => (hothers m' hm').1 (hapart m' hm').2⟩
      · rintro ⟨haccepts, hne⟩
        refine ⟨⟨(accepts_iff hparts).1
          ⟨fun q hq hprefix hqne => (hway q hq hprefix hqne).1, haccepts⟩, fun hfile => ?_⟩,
          fun m' hm' => ⟨hmine m', (hothers m' hm').2 (hne m' hm')⟩⟩
        rw [hdir] at hfile
        cases hfile
    rw [hfits]
    cases hplace : tree.get? (dest ++ m.parts) with
    | none =>
      have hnone : ∀ m' ∈ members, m'.isDir = false → m'.parts ≠ m.parts := by
        intro m' hm' hfile heq
        obtain ⟨c, hc⟩ := Option.isSome_iff_exists.1
          (contentAt_isSome hmembers ⟨m', hm', hfile, heq⟩)
        rw [(hshows.file _ c).2 hc] at hplace
        cases hplace
      by_cases haccepts : accepts (dest ++ m.parts) = true
      · simp only [if_pos haccepts]
        exact ⟨fun _ => ⟨haccepts, hnone⟩, fun _ => trivial⟩
      · simp only [if_neg haccepts]
        exact ⟨fun h => (by cases h), fun h => absurd h.1 haccepts⟩
    | some node =>
      cases node with
      | file c =>
        obtain ⟨m', hm', hfile, heq⟩ := mem_of_contentAt ((hshows.file _ c).1 hplace)
        exact ⟨fun h => (by cases h), fun h => absurd heq (h.2 m' hm' hfile)⟩
      | dir =>
        obtain ⟨-, m', hm', hprefix, -⟩ := (hshows.dir _).1 hplace
        refine ⟨fun _ => ⟨(hmembers m' hm').1 m.parts hparts hprefix, ?_⟩, fun _ => rfl⟩
        intro m₁ hm₁ hfile heq
        obtain ⟨c, hc⟩ := Option.isSome_iff_exists.1
          (contentAt_isSome hmembers ⟨m₁, hm₁, hfile, heq⟩)
        rw [(hshows.file _ c).2 hc] at hplace
        cases hplace

theorem writeTarget_ok_iff {content : Except ZipFault Bytes} :
    (writeTarget accepts dest tree path content).2 = none ↔
      (path ≠ dest ∧ tree.get? path ≠ some .dir ∧ accepts path = true) ∧
        ∃ bytes, content = .ok bytes := by
  unfold writeTarget
  by_cases h : path = dest ∨ tree.get? path = some .dir ∨ accepts path = false
  · rw [if_pos h]
    refine ⟨fun hnone => (by cases hnone), fun hok => ?_⟩
    rcases h with hdest | hdir | haccepts
    · exact absurd hdest hok.1.1
    · exact absurd hdir hok.1.2.1
    · rw [haccepts] at hok
      exact absurd hok.1.2.2 Bool.false_ne_true
  · rw [if_neg h]
    push Not at h
    rw [Bool.ne_false_iff] at h
    cases content with
    | ok bytes => exact ⟨fun _ => ⟨h, bytes, rfl⟩, fun _ => rfl⟩
    | error fault =>
      exact ⟨fun hnone => (by cases hnone),
        fun hok => (by obtain ⟨-, bytes, hbytes⟩ := hok; cases hbytes)⟩

theorem file_fits_iff (hshows : Shows dest tree members) (hdir : m.isDir = false)
    (hmembers : ∀ m' ∈ members, m'.Sound accepts dest)
    (hdirs : (makeDirs accepts tree dest m.parts.dropLast).2 = none) :
    (extract accepts dest tree m).2 = none ↔ Fits accepts dest members m := by
  have hway := (dirs_ok_iff hshows hmembers).1 hdirs
  have hfree := (free_iff hmembers).1 fun q hq hprefix hne => (hway q hq hprefix hne).2
  have hothers : ∀ m' ∈ members, Apart m' m :=
    fun m' hm' hfile hprefix => ⟨hfree m' hm' hfile hprefix, hdir⟩
  have hplace : m.parts ≠ [] → ((∀ m' ∈ members, Apart m m') ↔
      tree.get? (dest ++ m.parts) ≠ some .dir) := by
    intro hparts
    rw [ne_eq, hshows.dir, DirAt]
    constructor
    · rintro hapart ⟨-, m', hm', hprefix, hor⟩
      obtain ⟨heq, hfile⟩ := hapart m' hm' hdir hprefix
      rcases hor with hne | hisDir
      · exact hne heq
      · rw [hfile] at hisDir
        cases hisDir
    · intro hnone m' hm' _ hprefix
      by_contra hcon
      rw [not_and_or, Bool.not_eq_false] at hcon
      exact hnone ⟨hparts, m', hm', hprefix, hcon⟩
  have hok : (extract accepts dest tree m).2 = none ↔ m.content?.isSome = true ∧ m.parts ≠ [] ∧
      tree.get? (dest ++ m.parts) ≠ some .dir ∧ accepts (dest ++ m.parts) = true := by
    rw [extract_file hdir hdirs, Member.content?]
    cases m.opened with
    | error fault => simp
    | ok content =>
      simp only
      rw [writeTarget_ok_iff, get?_target hdirs, ne_eq (dest ++ m.parts), List.append_right_eq_self]
      cases content with
      | ok bytes => simp
      | error fault => simp
  rw [hok]
  constructor
  · rintro ⟨hcontent, hparts, hnodir, haccepts⟩
    refine ⟨⟨(accepts_iff hparts).1
      ⟨fun q hq hprefix hqne => (hway q hq hprefix hqne).1, haccepts⟩, fun _ => ⟨hcontent, hparts⟩⟩,
      fun m' hm' => ⟨(hplace hparts).2 hnodir m' hm', hothers m' hm'⟩⟩
  · rintro ⟨⟨haccepts, hfile⟩, hapart⟩
    obtain ⟨hcontent, hparts⟩ := hfile hdir
    exact ⟨hcontent, hparts, (hplace hparts).1 fun m' hm' => (hapart m' hm').1,
      haccepts m.parts hparts (List.prefix_refl _)⟩

theorem extract_ok_iff (hshows : Shows dest tree members)
    (hmembers : ∀ m' ∈ members, m'.Sound accepts dest) :
    (extract accepts dest tree m).2 = none ↔ Fits accepts dest members m := by
  cases hdirs : (makeDirs accepts tree dest m.parts.dropLast).2 with
  | none =>
    cases hdir : m.isDir with
    | true => exact dir_fits_iff hshows hdir hmembers hdirs
    | false => exact file_fits_iff hshows hdir hmembers hdirs
  | some e =>
    rw [extract_of_dirs hdirs]
    refine ⟨fun h => (by cases h), fun hfits => ?_⟩
    have hok : (makeDirs accepts tree dest m.parts.dropLast).2 = none := by
      rw [dirs_ok_iff hshows hmembers]
      refine fun q hq hprefix hne => ⟨hfits.1.1 q hq hprefix, fun m' hm' hfile heq => hne ?_⟩
      rw [← heq]
      exact ((hfits.2 m' hm').2 hfile (heq ▸ hprefix)).1
    rw [hok] at hdirs
    cases hdirs

open Classical in
/-- The directories on the way, by the names below the destination. -/
theorem get?_way (hdirs : (makeDirs accepts tree dest m.parts.dropLast).2 = none) (q : Path) :
    (makeDirs accepts tree dest m.parts.dropLast).1.get? (dest ++ q) =
      if tree.get? (dest ++ q) = none ∧ q ≠ [] ∧ q <+: m.parts ∧ q ≠ m.parts then some .dir
      else tree.get? (dest ++ q) := by
  rw [get?_makeDirs hdirs]
  refine if_congr (and_congr_right fun _ => ?_) rfl rfl
  constructor
  · rintro ⟨q', hq, hprefix, heq⟩
    obtain rfl := List.append_cancel_left heq
    exact ⟨hq, (prefix_dropLast_iff hq).1 hprefix⟩
  · exact fun ⟨hq, hprefix⟩ => ⟨q, hq, (prefix_dropLast_iff hq).2 hprefix, rfl⟩

theorem dirs_of_ok (h : (extract accepts dest tree m).2 = none) :
    (makeDirs accepts tree dest m.parts.dropLast).2 = none := by
  cases hdirs : (makeDirs accepts tree dest m.parts.dropLast).2 with
  | none => rfl
  | some e =>
    rw [extract_of_dirs hdirs] at h
    cases h

/-- A directory that went through leaves directories up to its own place. -/
theorem get?_extract_dir (hdir : m.isDir = true) (h : (extract accepts dest tree m).2 = none)
    (q : Path) :
    (extract accepts dest tree m).1.get? (dest ++ q) =
      if tree.get? (dest ++ q) = none ∧ q ≠ [] ∧ q <+: m.parts then some .dir
      else tree.get? (dest ++ q) := by
  have hdirs := dirs_of_ok h
  have hway := get?_way hdirs q
  rw [extract_dir hdir hdirs, makeTarget] at h ⊢
  by_cases hparts : m.parts = []
  · have hnone : ¬ (q ≠ [] ∧ q <+: m.parts) := fun hq => hq.1 (List.prefix_nil.1 (hparts ▸ hq.2))
    have hdest : dest ++ m.parts = dest := by rw [hparts, List.append_nil]
    rw [if_pos hdest, hway, if_neg fun hcon => hnone ⟨hcon.2.1, hcon.2.2.1⟩,
      if_neg fun hcon => hnone hcon.2]
  · have hdest : dest ++ m.parts ≠ dest := fun heq => hparts (List.append_right_eq_self.1 heq)
    rw [if_neg hdest, get?_target hdirs] at h ⊢
    -- at the target itself, or below it on the way
    have hself : q = m.parts → tree.get? (dest ++ q) ≠ none →
        (makeDirs accepts tree dest m.parts.dropLast).1.get? (dest ++ q) =
          if tree.get? (dest ++ q) = none ∧ q ≠ [] ∧ q <+: m.parts then some .dir
          else tree.get? (dest ++ q) := by
      intro _ hsome
      rw [hway, if_neg fun hcon => hsome hcon.1, if_neg fun hcon => hsome hcon.1]
    have hother : q ≠ m.parts →
        (makeDirs accepts tree dest m.parts.dropLast).1.get? (dest ++ q) =
          if tree.get? (dest ++ q) = none ∧ q ≠ [] ∧ q <+: m.parts then some .dir
          else tree.get? (dest ++ q) := by
      intro hne
      rw [hway]
      exact if_congr (by simp [hne]) rfl rfl
    cases hplace : tree.get? (dest ++ m.parts) with
    | some node =>
      rw [hplace] at h
      cases node with
      | file c => cases h
      | dir =>
        by_cases hq : q = m.parts
        · exact hself hq (by rw [hq, hplace]; exact Option.some_ne_none _)
        · exact hother hq
    | none =>
      rw [hplace] at h
      by_cases haccepts : accepts (dest ++ m.parts) = true
      · simp only [if_pos haccepts]
        rw [Dict.get?_set]
        by_cases hq : q = m.parts
        · subst hq
          rw [if_pos rfl, if_pos ⟨hplace, hparts, List.prefix_refl _⟩]
        · rw [if_neg fun heq => hq (List.append_cancel_left heq)]
          exact hother hq
      · simp only [if_neg haccepts] at h
        cases h

/-- A file that went through has its bytes, and directories on its way. -/
theorem get?_extract_file (hdir : m.isDir = false) (h : (extract accepts dest tree m).2 = none)
    (q : Path) :
    (extract accepts dest tree m).1.get? (dest ++ q) =
      if q = m.parts then m.content?.map Node.file
      else if tree.get? (dest ++ q) = none ∧ q ≠ [] ∧ q <+: m.parts then some .dir
      else tree.get? (dest ++ q) := by
  have hdirs := dirs_of_ok h
  rw [extract_file hdir hdirs] at h ⊢
  rw [Member.content?]
  cases hopened : m.opened with
  | error fault =>
    rw [hopened] at h
    cases h
  | ok content =>
    rw [hopened] at h
    obtain ⟨⟨hdest, hnodir, haccepts⟩, bytes, rfl⟩ := writeTarget_ok_iff.1 h
    have hfree : ¬ (dest ++ m.parts = dest ∨
        (makeDirs accepts tree dest m.parts.dropLast).1.get? (dest ++ m.parts) = some .dir ∨
          accepts (dest ++ m.parts) = false) := by
      rw [not_or, not_or, Bool.not_eq_false]
      exact ⟨hdest, hnodir, haccepts⟩
    simp only [writeTarget, if_neg hfree, Option.map_some]
    rw [Dict.get?_set]
    by_cases hq : q = m.parts
    · rw [if_pos (by rw [hq]), if_pos hq]
    · rw [if_neg fun heq => hq (List.append_cancel_left heq), if_neg hq, get?_way hdirs]
      exact if_congr (by simp [hq]) rfl rfl

/-- Extracting one more member shows it too. -/
theorem extract_shows (hshows : Shows dest tree members)
    (hmembers : ∀ m' ∈ members, m'.Sound accepts dest)
    (h : (extract accepts dest tree m).2 = none) :
    Shows dest (extract accepts dest tree m).1 (members ++ [m]) := by
  have hfits := (extract_ok_iff hshows hmembers).1 h
  -- no file stands on the way
  have hnofile : ∀ q c, q <+: m.parts → q ≠ m.parts ∨ m.isDir = true →
      tree.get? (dest ++ q) ≠ some (.file c) := by
    intro q c hprefix hor hfile
    obtain ⟨m', hm', hdir', rfl⟩ := mem_of_contentAt ((hshows.file q c).1 hfile)
    obtain ⟨heq, hmdir⟩ := (hfits.2 m' hm').2 hdir' hprefix
    rcases hor with hne | htrue
    · exact hne heq
    · rw [hmdir] at htrue
      cases htrue
  have hway : ∀ q, q <+: m.parts → q ≠ m.parts ∨ m.isDir = true →
      ((if tree.get? (dest ++ q) = none ∧ q ≠ [] ∧ q <+: m.parts then some Node.dir
        else tree.get? (dest ++ q)) = some .dir ↔ DirAt members q ∨ q ≠ []) := by
    intro q hprefix hor
    by_cases hnone : tree.get? (dest ++ q) = none
    · have hnodir : ¬ DirAt members q := fun hd => by
        rw [(hshows.dir q).2 hd] at hnone
        cases hnone
      by_cases hq : q = []
      · rw [if_neg fun hcon => hcon.2.1 hq, hnone]
        exact ⟨fun hcon => (by cases hcon), fun hd => absurd (hd.resolve_left hnodir) (by simp [hq])⟩
      · rw [if_pos ⟨hnone, hq, hprefix⟩]
        exact ⟨fun _ => Or.inr hq, fun _ => rfl⟩
    · rw [if_neg fun hcon => hnone hcon.1]
      constructor
      · exact fun hd => Or.inl ((hshows.dir q).1 hd)
      · intro _
        cases hplace : tree.get? (dest ++ q) with
        | none => exact absurd hplace hnone
        | some node =>
          cases node with
          | dir => rfl
          | file c => exact absurd hplace (hnofile q c hprefix hor)
  cases hdir : m.isDir with
  | true =>
    constructor
    · intro q c
      have hold : contentAt (members ++ [m]) q = contentAt members q := by
        rw [contentAt_concat, if_neg (by simp [hdir])]
      rw [get?_extract_dir hdir h, hold, ← hshows.file q c]
      split
      · rename_i hnew
        rw [hnew.1]
        exact ⟨fun hcon => (by cases hcon), fun hcon => (by cases hcon)⟩
      · exact Iff.rfl
    · intro q
      rw [get?_extract_dir hdir h, dirAt_concat]
      by_cases hprefix : q <+: m.parts
      · rw [hway q hprefix (Or.inr hdir)]
        simp [ hprefix, hdir]
      · rw [if_neg fun hcon => hprefix hcon.2.2, hshows.dir]
        simp [ hprefix]
  | false =>
    have hcontent : m.content?.isSome = true := (hfits.1.2 hdir).1
    obtain ⟨bytes, hbytes⟩ := Option.isSome_iff_exists.1 hcontent
    constructor
    · intro q c
      rw [get?_extract_file hdir h]
      by_cases hq : q = m.parts
      · rw [if_pos hq, contentAt_concat, if_pos ⟨hdir, hq.symm⟩, hbytes]
        simp
      · have hold : contentAt (members ++ [m]) q = contentAt members q := by
          rw [contentAt_concat, if_neg fun hcon => hq hcon.2.symm]
        rw [if_neg hq, hold, ← hshows.file q c]
        split
        · rename_i hnew
          rw [hnew.1]
          exact ⟨fun hcon => (by cases hcon), fun hcon => (by cases hcon)⟩
        · exact Iff.rfl
    · intro q
      rw [get?_extract_file hdir h, dirAt_concat]
      by_cases hq : q = m.parts
      · rw [if_pos hq, hbytes]
        refine ⟨fun hcon => (by cases hcon), fun hcon => ?_⟩
        rcases hcon with ⟨-, m', hm', hprefix, hor⟩ | ⟨-, -, hor⟩
        · obtain ⟨heq, hfile⟩ := (hfits.2 m' hm').1 hdir (hq ▸ hprefix)
          rcases hor with hne | htrue
          · exact absurd (hq.trans heq) hne
          · rw [hfile] at htrue
            cases htrue
        · rcases hor with hne | htrue
          · exact absurd hq hne
          · rw [hdir] at htrue
            cases htrue
      · rw [if_neg hq]
        by_cases hprefix : q <+: m.parts
        · rw [hway q hprefix (Or.inl hq)]
          simp [ hprefix, hq]
        · rw [if_neg fun hcon => hprefix hcon.2.2, hshows.dir]
          simp [ hprefix]

/-! ## All members -/

theorem shows_empty : Shows dest Dict.empty [] where
  file q c := ⟨fun h => (by cases h), fun h => (by cases h)⟩
  dir q := by
    refine ⟨fun h => (by cases h), ?_⟩
    rintro ⟨-, m, hm, -⟩
    cases hm

theorem extractable_concat_iff :
    Extractable accepts dest (members ++ [m]) ↔
      Extractable accepts dest members ∧ Fits accepts dest members m := by
  constructor
  · intro h
    have hm : m ∈ members ++ [m] := List.mem_append.2 (Or.inr (List.mem_singleton.2 rfl))
    have hold : ∀ m' ∈ members, m' ∈ members ++ [m] := fun m' hm' => List.mem_append.2 (Or.inl hm')
    exact ⟨⟨fun m' hm' => h.sound m' (hold m' hm'),
      fun m₁ h₁ m₂ h₂ => h.apart m₁ (hold m₁ h₁) m₂ (hold m₂ h₂)⟩,
      h.sound m hm, fun m' hm' => ⟨h.apart m hm m' (hold m' hm'), h.apart m' (hold m' hm') m hm⟩⟩
  · rintro ⟨h, hsound, hapart⟩
    have hself : Apart m m := fun hfile _ => ⟨rfl, hfile⟩
    constructor
    · intro m' hm'
      rcases List.mem_append.1 hm' with hold | hnew
      · exact h.sound m' hold
      · rw [List.mem_singleton.1 hnew]
        exact hsound
    · intro m₁ h₁ m₂ h₂
      rcases List.mem_append.1 h₁ with h₁ | h₁ <;> rcases List.mem_append.1 h₂ with h₂ | h₂
      · exact h.apart m₁ h₁ m₂ h₂
      · rw [List.mem_singleton.1 h₂]
        exact (hapart m₁ h₁).2
      · rw [List.mem_singleton.1 h₁]
        exact (hapart m₂ h₂).1
      · rw [List.mem_singleton.1 h₁, List.mem_singleton.1 h₂]
        exact hself

theorem Extractable.left {more : List Member} (h : Extractable accepts dest (members ++ more)) :
    Extractable accepts dest members where
  sound m hm := h.sound m (List.mem_append.2 (Or.inl hm))
  apart m hm m' hm' := h.apart m (List.mem_append.2 (Or.inl hm)) m' (List.mem_append.2 (Or.inl hm'))

/-- Behind members that went through, the rest does when all of them can be extracted together. -/
theorem extractAll_spec (hshows : Shows dest tree members) (hbefore : Extractable accepts dest members)
    (more : List Member) :
    ((extractAll accepts dest tree more).2 = none ↔ Extractable accepts dest (members ++ more)) ∧
      ((extractAll accepts dest tree more).2 = none →
        Shows dest (extractAll accepts dest tree more).1 (members ++ more)) := by
  induction more generalizing tree members with
  | nil =>
    rw [List.append_nil]
    exact ⟨⟨fun _ => hbefore, fun _ => rfl⟩, fun _ => hshows⟩
  | cons m more ih =>
    have hone := extract_ok_iff (m := m) hshows hbefore.sound
    have hsplit : members ++ m :: more = (members ++ [m]) ++ more := by simp
    unfold extractAll
    cases hresult : extract accepts dest tree m with
    | mk tree' fault =>
      rw [hresult] at hone
      cases fault with
      | some e =>
        have hnot : ¬ Extractable accepts dest (members ++ m :: more) := by
          intro hall
          rw [hsplit] at hall
          have hnone := hone.2 (extractable_concat_iff.1 hall.left).2
          cases hnone
        exact ⟨⟨fun h => (by cases h), fun h => absurd h hnot⟩, fun h => (by cases h)⟩
      | none =>
        have hfits := hone.1 rfl
        have hnext := extract_shows (m := m) hshows hbefore.sound (by rw [hresult])
        rw [hresult] at hnext
        rw [hsplit]
        exact ih hnext (extractable_concat_iff.2 ⟨hbefore, hfits⟩)

/-- An archive is extracted exactly when its members can be. -/
theorem extractAll_ok_iff :
    (extractAll accepts dest Dict.empty members).2 = none ↔ Extractable accepts dest members :=
  (extractAll_spec shows_empty ⟨fun m hm => (by cases hm), fun m hm => (by cases hm)⟩ members).1

theorem extractAll_shows (h : (extractAll accepts dest Dict.empty members).2 = none) :
    Shows dest (extractAll accepts dest Dict.empty members).1 members :=
  (extractAll_spec shows_empty ⟨fun m hm => (by cases hm), fun m hm => (by cases hm)⟩ members).2 h

/-! ## Where it writes -/

def Inside (dest : Path) (tree : Tree) : Prop := ∀ p ∈ tree.keys, dest <+: p

theorem Inside.set {p : Path} {node : Node} (h : Inside dest tree) (hp : dest <+: p) :
    Inside dest (tree.set p node) := by
  intro p' hp'
  rcases Dict.mem_keys_set.1 hp' with rfl | hold
  · exact hp
  · exact h p' hold

theorem Inside.makeDirs (names : List PyStr) (h : Inside dest tree) (hpath : dest <+: path) :
    Inside dest (makeDirs accepts tree path names).1 := by
  induction names generalizing tree path with
  | nil => exact h
  | cons name names ih =>
    have hnext : dest <+: path ++ [name] := hpath.trans (List.prefix_append _ _)
    unfold Unzip.makeDirs
    split
    · exact h
    · exact ih h hnext
    · split
      · exact ih (h.set hnext) hnext
      · exact h

theorem Inside.makeTarget (h : Inside dest tree) (hpath : dest <+: path) :
    Inside dest (makeTarget accepts dest tree path).1 := by
  unfold Unzip.makeTarget
  split
  · exact h
  · split
    · exact h
    · exact h
    · split
      · exact h.set hpath
      · exact h

theorem Inside.writeTarget {content : Except ZipFault Bytes} (h : Inside dest tree)
    (hpath : dest <+: path) : Inside dest (writeTarget accepts dest tree path content).1 := by
  unfold Unzip.writeTarget
  split
  · exact h
  · split
    · exact h.set hpath
    · exact h.set hpath

/-- No name of a member leads out of the destination, whatever becomes of the member. -/
theorem Inside.extract (h : Inside dest tree) : Inside dest (extract accepts dest tree m).1 := by
  have hdirs : Inside dest (Unzip.makeDirs accepts tree dest m.parts.dropLast).1 :=
    h.makeDirs m.parts.dropLast (List.prefix_refl _)
  have htarget : dest <+: dest ++ m.parts := List.prefix_append _ _
  unfold Unzip.extract
  split
  · rename_i heq
    rw [heq] at hdirs
    exact hdirs
  · rename_i heq
    rw [heq] at hdirs
    split
    · exact hdirs.makeTarget htarget
    · split
      · exact hdirs
      · exact hdirs.writeTarget htarget

theorem Inside.extractAll (h : Inside dest tree) :
    Inside dest (extractAll accepts dest tree members).1 := by
  induction members generalizing tree with
  | nil => exact h
  | cons m members ih =>
    have hone : Inside dest (Unzip.extract accepts dest tree m).1 := h.extract
    unfold Unzip.extractAll
    split
    · rename_i heq
      rw [heq] at hone
      exact hone
    · rename_i heq
      rw [heq] at hone
      exact ih hone

theorem inside_empty : Inside dest Dict.empty := fun p hp => (by cases hp)

end Extract

end Unzip
end Tempest
