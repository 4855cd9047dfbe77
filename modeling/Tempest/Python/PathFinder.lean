import Mathlib.Algebra.GroupWithZero.Nat
import Mathlib.Algebra.Order.Group.Nat
import Mathlib.Algebra.Order.Monoid.WithTop

/-!
# PathFinder — which file a dotted name leads to on a search path

A finder says what a directory has under a name: a package, a plain module, a portion of a namespace
package or nothing.  A search path takes the first directory with a package or a module; where there is
none, all portions together are searched for the rest of the name.  `load_eq_some_iff` says it without
the search: the directory that decides is the one whose package or module stands at the least depth, and
the first of those.
-/

namespace Tempest
namespace PathFinder

variable {δ φ ν : Type}

inductive Seen (δ φ : Type) where
  | package (init : φ) (dir : δ)
  | module (file : φ)
  | portion (dir : δ)
  | nothing

def Seen.spec : Seen δ φ → Option (φ × Option δ)
  | .package init dir => some (init, some dir)
  | .module file => some (file, none)
  | .portion _ | .nothing => none

def Seen.portion? : Seen δ φ → Option δ
  | .portion dir => some dir
  | _ => none

variable (look : δ → ν → Seen δ φ)

def spec (places : List δ) (name : ν) : Option (φ × Option δ) :=
  places.findSome? fun dir => (look dir name).spec

def portions (places : List δ) (name : ν) : List δ :=
  places.filterMap fun dir => (look dir name).portion?

/-- The file of the module that importing a dotted name ends with; a namespace package has none, and
nothing is found below a module that is no package. -/
def load : List δ → List ν → Option φ
  | _, [] => none
  | places, [name] => (spec look places name).map Prod.fst
  | places, name :: next :: rest =>
    match spec look places name with
    | some (_, some dir) => load [dir] (next :: rest)
    | some (_, none) => none
    | none => load (portions look places name) (next :: rest)

def reach : δ → List ν → Option φ
  | _, [] => none
  | dir, [name] => (look dir name).spec.map Prod.fst
  | dir, name :: next :: rest =>
    match look dir name with
    | .package _ inner | .portion inner => reach inner (next :: rest)
    | .module _ | .nothing => none

/-- How many portions are passed before there is a package or a module. -/
def depth : δ → List ν → WithTop Nat
  | _, [] => ⊤
  | dir, name :: rest =>
    match look dir name with
    | .package _ _ | .module _ => 0
    | .portion inner => depth inner rest + 1
    | .nothing => ⊤

/-- A directory of the search path whose package or module stands at the least depth, and is the first
there. -/
structure Decides (above : List δ) (dir : δ) (below : List δ) (names : List ν) : Prop where
  above : ∀ other ∈ above, depth look dir names < depth look other names
  below : ∀ other ∈ below, depth look dir names ≤ depth look other names

def Leads (places : List δ) (names : List ν) (file : φ) : Prop :=
  ∃ above dir below, places = above ++ dir :: below ∧ Decides look above dir below names ∧
    reach look dir names = some file

variable {look}

/-! ## One directory -/

theorem add_one_pos (n : WithTop Nat) : 0 < n + 1 :=
  lt_of_lt_of_le (WithTop.coe_lt_coe.2 Nat.zero_lt_one) le_add_self

variable {name : ν}

theorem depth_eq_zero_iff {dir : δ} {rest : List ν} :
    depth look dir (name :: rest) = 0 ↔ (look dir name).spec ≠ none := by
  cases hseen : look dir name with
  | package _ _ | module _ => simp [depth, hseen, Seen.spec]
  | portion inner => simp [depth, hseen, Seen.spec, (add_one_pos (depth look inner rest)).ne']
  | nothing => simp [depth, hseen, Seen.spec]

/-- A directory without a package or a module of the name. -/
theorem depth_of_no_spec {dir : δ} (h : (look dir name).spec = none) (rest : List ν) :
    depth look dir (name :: rest) =
      ((look dir name).portion?.map fun inner => depth look inner rest + 1).getD ⊤ := by
  cases hseen : look dir name with
  | package _ _ | module _ => simp [hseen, Seen.spec] at h
  | portion _ | nothing => simp [depth, hseen, Seen.portion?]

theorem reach_of_no_spec {dir : δ} (h : (look dir name).spec = none) (next : ν) (rest : List ν) :
    reach look dir (name :: next :: rest) =
      (look dir name).portion?.bind fun inner => reach look inner (next :: rest) := by
  cases hseen : look dir name with
  | package _ _ | module _ => simp [hseen, Seen.spec] at h
  | portion _ | nothing => simp [reach, hseen, Seen.portion?]

theorem depth_of_reach {names : List ν} : ∀ {dir : δ} {file : φ},
    reach look dir names = some file → depth look dir names ≠ ⊤ := by
  induction names with
  | nil =>
    intro dir file h
    cases h
  | cons name rest ih =>
    intro dir file h
    cases hspec : (look dir name).spec with
    | some found =>
      have hzero : depth look dir (name :: rest) = 0 := depth_eq_zero_iff.2 (by simp [hspec])
      simp [hzero]
    | none =>
      cases rest with
      | nil => simp [reach, hspec] at h
      | cons next rest =>
        rw [reach_of_no_spec hspec] at h
        obtain ⟨inner, hinner, hreach⟩ := Option.bind_eq_some_iff.1 h
        rw [depth_of_no_spec hspec, hinner]
        simpa using ih hreach

/-! ## The search path -/

theorem load_single (names : List ν) : ∀ dir : δ, load look [dir] names = reach look dir names := by
  induction names with
  | nil => exact fun _ => rfl
  | cons name rest ih =>
    intro dir
    cases rest with
    | nil => cases hseen : look dir name <;> simp [load, reach, spec, hseen, Seen.spec]
    | cons next rest =>
      cases hseen : look dir name with
      | package init inner => simp [load, reach, spec, hseen, Seen.spec, ih inner]
      | module file => simp [load, reach, spec, hseen, Seen.spec]
      | portion inner =>
        simp [load, reach, spec, portions, hseen, Seen.spec, Seen.portion?, ih inner]
      | nothing =>
        have hnone : ∀ names : List ν, load look [] names = none := by
          intro names
          induction names with
          | nil => rfl
          | cons name rest ih => cases rest <;> simp [load, spec, portions, ih]
        simp [load, reach, spec, portions, hseen, Seen.spec, Seen.portion?, hnone]

/-- The first directory with a package or a module decides. -/
theorem load_of_spec {above : List δ} {dir : δ} {below : List δ} (rest : List ν)
    (hspec : (look dir name).spec ≠ none) (habove : ∀ other ∈ above, (look other name).spec = none) :
    load look (above ++ dir :: below) (name :: rest) = reach look dir (name :: rest) := by
  obtain ⟨found, hfound⟩ := Option.ne_none_iff_exists'.1 hspec
  have hfirst : spec look (above ++ dir :: below) name = some found :=
    List.findSome?_eq_some_iff.2 ⟨above, dir, below, rfl, hfound, habove⟩
  cases rest with
  | nil => simp [load, reach, hfirst, hfound]
  | cons next rest =>
    cases hseen : look dir name with
    | package init inner =>
      simp only [hseen, Seen.spec, Option.some.injEq] at hfound
      simp [load, reach, hfirst, ← hfound, hseen, load_single]
    | module file =>
      simp only [hseen, Seen.spec, Option.some.injEq] at hfound
      simp [load, reach, hfirst, ← hfound, hseen]
    | portion inner => simp [hseen, Seen.spec] at hspec
    | nothing => simp [hseen, Seen.spec] at hspec

theorem load_of_no_spec {places : List δ} (h : ∀ dir ∈ places, (look dir name).spec = none) (next : ν)
    (rest : List ν) :
    load look places (name :: next :: rest) =
      load look (portions look places name) (next :: rest) := by
  have hnone : spec look places name = none := List.findSome?_eq_none_iff.2 h
  simp [load, hnone]

theorem Decides.least {above : List δ} {dir : δ} {below : List δ} {names : List ν}
    (h : Decides look above dir below names) :
    ∀ other ∈ above ++ dir :: below, depth look dir names ≤ depth look other names := by
  intro other hother
  rcases List.mem_append.1 hother with habove | hbelow
  · exact (h.above other habove).le
  · rcases List.mem_cons.1 hbelow with rfl | hbelow
    · exact le_rfl
    · exact h.below other hbelow

/-- Where no directory has a package or a module, the portions decide one level below. -/
theorem leads_portions_iff {places : List δ} (h : ∀ dir ∈ places, (look dir name).spec = none)
    (next : ν) (rest : List ν) (file : φ) :
    Leads look (portions look places name) (next :: rest) file ↔
      Leads look places (name :: next :: rest) file := by
  -- a directory is as deep as its portion and one more
  have hdepth : ∀ dir ∈ places, ∀ inner, (look dir name).portion? = some inner →
      depth look dir (name :: next :: rest) = depth look inner (next :: rest) + 1 := by
    intro dir hdir inner hinner
    rw [depth_of_no_spec (h dir hdir), hinner]
    rfl
  have htop : ∀ dir ∈ places, (look dir name).portion? = none →
      depth look dir (name :: next :: rest) = ⊤ := by
    intro dir hdir hnone
    rw [depth_of_no_spec (h dir hdir), hnone]
    rfl
  constructor
  · rintro ⟨above, inner, below, hplaces, hdecides, hreach⟩
    obtain ⟨front, back, rfl, hfront, hback⟩ := List.filterMap_eq_append_iff.1 hplaces
    obtain ⟨skipped, dir, tail, rfl, hskipped, hdir, htail⟩ := List.filterMap_eq_cons_iff.1 hback
    have hlow : depth look inner (next :: rest) ≠ ⊤ := depth_of_reach hreach
    have hown := hdepth dir (by simp) inner hdir
    refine ⟨front ++ skipped, dir, tail, by simp, ⟨?_, ?_⟩, ?_⟩
    · intro other hother
      have hmem : other ∈ front ++ (skipped ++ dir :: tail) := by
        rcases List.mem_append.1 hother with hfst | hsnd
        · simp [hfst]
        · simp [hsnd]
      rw [hown]
      cases hportion : (look other name).portion? with
      | none =>
        rw [htop other hmem hportion]
        simpa [lt_top_iff_ne_top] using hlow
      | some inner' =>
        have hin : inner' ∈ above := by
          rcases List.mem_append.1 hother with hfst | hsnd
          · exact hfront ▸ List.mem_filterMap.2 ⟨other, hfst, hportion⟩
          · cases (hskipped other hsnd).symm.trans hportion
        rw [hdepth other hmem inner' hportion]
        exact (WithTop.add_lt_add_iff_right WithTop.one_ne_top).2 (hdecides.above inner' hin)
    · intro other hother
      have hmem : other ∈ front ++ (skipped ++ dir :: tail) := by simp [hother]
      rw [hown]
      cases hportion : (look other name).portion? with
      | none =>
        rw [htop other hmem hportion]
        exact le_top
      | some inner' =>
        have hin : inner' ∈ below := htail ▸ List.mem_filterMap.2 ⟨other, hother, hportion⟩
        rw [hdepth other hmem inner' hportion]
        exact (WithTop.add_le_add_iff_right WithTop.one_ne_top).2 (hdecides.below inner' hin)
    · rw [reach_of_no_spec (h dir (by simp)), hdir]
      exact hreach
  · rintro ⟨above, dir, below, rfl, hdecides, hreach⟩
    rw [reach_of_no_spec (h dir (by simp))] at hreach
    obtain ⟨inner, hinner, hreach⟩ := Option.bind_eq_some_iff.1 hreach
    have hown := hdepth dir (by simp) inner hinner
    refine ⟨portions look above name, inner, portions look below name, ?_, ⟨?_, ?_⟩, hreach⟩
    · simp [portions, List.filterMap_append, hinner]
    · intro inner' hin
      obtain ⟨other, hother, hportion⟩ := List.mem_filterMap.1 hin
      have hless := hdecides.above other hother
      rw [hown, hdepth other (by simp [hother]) inner' hportion] at hless
      exact (WithTop.add_lt_add_iff_right WithTop.one_ne_top).1 hless
    · intro inner' hin
      obtain ⟨other, hother, hportion⟩ := List.mem_filterMap.1 hin
      have hless := hdecides.below other hother
      rw [hown, hdepth other (by simp [hother]) inner' hportion] at hless
      exact (WithTop.add_le_add_iff_right WithTop.one_ne_top).1 hless

/-- A dotted name leads to the file that the deciding directory has under it. -/
theorem load_eq_some_iff (names : List ν) : ∀ (places : List δ) (file : φ),
    load look places names = some file ↔ Leads look places names file := by
  induction names with
  | nil =>
    intro places file
    constructor
    · intro h
      cases h
    · rintro ⟨_, _, _, _, _, h⟩
      cases h
  | cons name rest ih =>
    intro places file
    by_cases hsome : ∃ dir ∈ places, (look dir name).spec ≠ none
    · obtain ⟨first, hfirst, hspec⟩ := hsome
      constructor
      · intro hload
        obtain ⟨found, hfound⟩ : ∃ found, spec look places name = some found := by
          refine Option.ne_none_iff_exists'.1 fun hnone => ?_
          exact hspec (List.findSome?_eq_none_iff.1 hnone first hfirst)
        obtain ⟨above, dir, below, rfl, hdir, habove⟩ := List.findSome?_eq_some_iff.1 hfound
        have hdir' : (look dir name).spec ≠ none := by simp [hdir]
        have hzero : depth look dir (name :: rest) = 0 := depth_eq_zero_iff.2 hdir'
        rw [load_of_spec rest hdir' habove] at hload
        refine ⟨above, dir, below, rfl, ⟨fun other hother => ?_, fun other _ => ?_⟩, hload⟩
        · rw [hzero, pos_iff_ne_zero]
          exact fun h => depth_eq_zero_iff.1 h (habove other hother)
        · rw [hzero]
          exact zero_le
      · rintro ⟨above, dir, below, rfl, hdecides, hreach⟩
        have hzero : depth look dir (name :: rest) = 0 := by
          have hleast := hdecides.least first hfirst
          rw [depth_eq_zero_iff.2 hspec] at hleast
          exact le_antisymm hleast zero_le
        rw [load_of_spec rest (depth_eq_zero_iff.1 hzero), hreach]
        intro other hother
        by_contra hother'
        have hless := hdecides.above other hother
        rw [hzero, depth_eq_zero_iff.2 hother'] at hless
        exact lt_irrefl _ hless
    · have hnone : ∀ dir ∈ places, (look dir name).spec = none := by
        intro dir hdir
        by_contra hspec
        exact hsome ⟨dir, hdir, hspec⟩
      cases rest with
      | nil =>
        have hspec : spec look places name = none := List.findSome?_eq_none_iff.2 hnone
        constructor
        · intro hload
          simp [load, hspec] at hload
        · rintro ⟨above, dir, below, rfl, _, hreach⟩
          simp [reach, hnone dir (by simp)] at hreach
      | cons next rest =>
        rw [load_of_no_spec hnone, ih, leads_portions_iff hnone]

end PathFinder
end Tempest
