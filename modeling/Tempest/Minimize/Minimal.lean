import Tempest.Minimize.Ddmin
import Tempest.Python.Halving

/-!
# Minimal — the search ends, and where it ends nothing smaller is left to try

Some of the smaller values are not shorter: a float may be rounded up, letters may become `a`.
`valueWeight` is a number that every step of `shrinkValue` makes smaller unless it changes nothing,
so no input can be shrunk back to itself.  A step that changes nothing exists (half of a NaN is a
NaN), and the search passes it over because the literals agree; `nan_is_shrunk_to_itself` is such
an input.
-/

namespace Tempest

open Python

namespace Builtins

def withFloats (b : Builtins) : Builtins := { b with halve := halveFloat, rounded := roundFloat }

/-! ## The weight of a value -/

/-- The letters that are not yet all `a`. -/
def strWeight (s : PyStr) : Nat :=
  2 * s.length + if s = List.replicate s.length (codePoint 0x61) then 0 else 1

/-- A set is rebuilt in the order of the `repr` of its elements. -/
def setWeight (b : Builtins) (elements : List PyVal) : Nat :=
  2 * elements.length + if elements.Pairwise fun x y => b.repr x ≤ b.repr y then 0 else 1

mutual

def valueWeight (b : Builtins) : PyVal → Nat
  | .bool value => if value then 1 else 0
  | .int n => n.natAbs
  | .float x => floatWeight x
  | .str s => strWeight s
  | .bytes data => data.length
  | .list items => itemsWeight b items
  | .tuple items => itemsWeight b items
  | .set elements => setWeight b elements
  | .frozenset elements => setWeight b elements
  | .dict items => pairsWeight b items
  | _ => 0

def itemsWeight (b : Builtins) : List PyVal → Nat
  | [] => 0
  | item :: items => valueWeight b item + 1 + itemsWeight b items

def pairsWeight (b : Builtins) : List (PyVal × PyVal) → Nat
  | [] => 0
  | (_, value) :: items => valueWeight b value + 1 + pairsWeight b items

end

variable {b : Builtins}

/-- A step of the shrinker changes nothing or loses weight. -/
def Lighter (b : Builtins) (new old : PyVal) : Prop :=
  new = old ∨ b.valueWeight new < b.valueWeight old

/-! ### Containers -/

theorem itemsWeight_sublist {xs ys : List PyVal} (h : xs.Sublist ys) :
    xs = ys ∨ b.itemsWeight xs < b.itemsWeight ys := by
  induction h with
  | slnil => exact Or.inl rfl
  | cons y _ ih =>
    right
    rw [itemsWeight]
    rcases ih with rfl | hless <;> omega
  | cons_cons y _ ih =>
    rcases ih with rfl | hless
    · exact Or.inl rfl
    · right
      rw [itemsWeight, itemsWeight]
      omega

theorem pairsWeight_sublist {xs ys : List (PyVal × PyVal)} (h : xs.Sublist ys) :
    xs = ys ∨ b.pairsWeight xs < b.pairsWeight ys := by
  induction h with
  | slnil => exact Or.inl rfl
  | cons y _ ih =>
    right
    rw [pairsWeight]
    rcases ih with rfl | hless <;> omega
  | cons_cons y _ ih =>
    rcases ih with rfl | hless
    · exact Or.inl rfl
    · right
      rw [pairsWeight, pairsWeight]
      omega

theorem itemsWeight_set {items : List PyVal} {i : Nat} {old new : PyVal}
    (hold : items[i]? = some old) (h : b.Lighter new old) :
    items.set i new = items ∨ b.itemsWeight (items.set i new) < b.itemsWeight items := by
  induction items generalizing i with
  | nil => cases hold
  | cons item items ih =>
    cases i with
    | zero =>
      cases hold
      cases h with
      | inl hsame => exact Or.inl (by rw [hsame, List.set_cons_zero])
      | inr hless =>
        right
        rw [List.set_cons_zero, itemsWeight, itemsWeight]
        omega
    | succ i =>
      rw [List.set_cons_succ]
      cases ih hold with
      | inl hsame => exact Or.inl (by rw [hsame])
      | inr hless =>
        right
        rw [itemsWeight, itemsWeight]
        omega

variable {items : List (PyVal × PyVal)}

theorem pairsWeight_set {i : Nat} {key old new : PyVal} (hold : items[i]? = some (key, old))
    (h : b.Lighter new old) :
    items.set i (key, new) = items ∨
      b.pairsWeight (items.set i (key, new)) < b.pairsWeight items := by
  induction items generalizing i with
  | nil => cases hold
  | cons item items ih =>
    cases i with
    | zero =>
      cases hold
      cases h with
      | inl hsame => exact Or.inl (by rw [hsame, List.set_cons_zero])
      | inr hless =>
        right
        rw [List.set_cons_zero, pairsWeight, pairsWeight]
        omega
    | succ i =>
      rw [List.set_cons_succ]
      cases ih hold with
      | inl hsame => exact Or.inl (by rw [hsame])
      | inr hless =>
        right
        rw [pairsWeight, pairsWeight]
        omega

/-- Whatever is left of the elements after the sort. -/
theorem setWeight_filter {elements : List PyVal} (keep : PyVal → Bool) :
    let sorted := elements.insertionSort fun x y => b.repr x ≤ b.repr y
    sorted.filter keep = elements ∨ b.setWeight (sorted.filter keep) < b.setWeight elements := by
  intro sorted
  have hlength : sorted.length = elements.length := List.length_insertionSort _ _
  have hsorted : sorted.Pairwise fun x y => b.repr x ≤ b.repr y := List.pairwise_insertionSort _ _
  have hkept : (sorted.filter keep).Pairwise fun x y => b.repr x ≤ b.repr y :=
    hsorted.sublist List.filter_sublist
  have hle : (sorted.filter keep).length ≤ sorted.length := List.length_filter_le _ _
  unfold setWeight
  rw [if_pos hkept]
  by_cases hfull : (sorted.filter keep).length = sorted.length
  · -- nothing was dropped, so the elements were sorted already or are so now
    have hall : sorted.filter keep = sorted := List.filter_sublist.eq_of_length hfull
    by_cases hbefore : elements.Pairwise fun x y => b.repr x ≤ b.repr y
    · left
      rw [hall]
      exact List.Pairwise.insertionSort_eq hbefore
    · right
      rw [if_neg hbefore]
      omega
  · right
    omega

/-! ### Steps -/

variable {new : Smaller}

theorem lighter_int {n : Int} (h : new ∈ shrinkInt n) :
    b.Lighter new.1 (.int n) := by
  right
  have hof : ∀ m : Int, m.natAbs < n.natAbs → b.valueWeight (.int m) < b.valueWeight (.int n) := by
    intro m hless
    exact hless
  unfold shrinkInt at h
  simp only at h
  by_cases hzero : n = 0
  · rw [if_pos hzero] at h
    cases h
  rw [if_neg hzero] at h
  rcases List.mem_cons.1 h with rfl | h
  · exact hof 0 (by omega)
  rcases List.mem_append.1 h with h | h
  · split_ifs at h with hpos hhalf hhalf
    · cases h
    · obtain rfl := List.mem_singleton.1 h
      exact hof _ (by omega)
    · cases h
    · obtain rfl := List.mem_singleton.1 h
      exact hof _ (by omega)
  · obtain rfl := List.mem_singleton.1 h
    apply hof
    split_ifs <;> omega

theorem floatWeight_zero : floatWeight zeroFloat = 0 := by
  have hunits : units 0 0 = 0 := rfl
  simp only [zeroFloat, floatWeight, hunits, roundWeight_zero oneUnits_pos]

theorem units_of_nonzero {neg : Bool} {expo : Fin 2047} {frac : Fin (2 ^ 52)}
    (h : ¬ isZero (.finite neg expo frac)) : 0 < units expo frac := by
  apply units_pos
  intro hboth
  apply h
  simp only [isZero, Bool.and_eq_true, decide_eq_true_eq]
  exact ⟨Fin.ext hboth.1, Fin.ext hboth.2⟩

theorem lighter_float {x : PyFloat} (h : new ∈ b.withFloats.shrinkFloat x) :
    b.withFloats.Lighter new.1 (.float x) := by
  unfold shrinkFloat at h
  simp only at h
  by_cases hzero : isZero x
  · rw [if_pos hzero] at h
    cases h
  rw [if_neg hzero] at h
  rcases List.mem_cons.1 h with rfl | h
  · right
    change floatWeight zeroFloat < floatWeight x
    rw [floatWeight_zero]
    cases x with
    | finite neg expo frac => exact roundWeight_pos (units_of_nonzero hzero)
    | _ => exact Nat.one_pos
  rcases List.mem_cons.1 h with rfl | h
  · cases x with
    | finite neg expo frac =>
      right
      exact halveFloat_lighter (units_of_nonzero hzero)
    | _ => exact Or.inl rfl
  split_ifs at h with hround
  · obtain rfl := List.mem_singleton.1 h
    cases x with
    | finite neg expo frac =>
      have hlighter := @roundFloat_lighter neg _ _ (units_of_nonzero hzero)
      exact hlighter.imp (congrArg PyVal.float) id
    | _ => exact Or.inl rfl
  · cases h

theorem lighter_str {s : PyStr} (h : new ∈ shrinkStr s) :
    b.Lighter new.1 (.str s) := by
  right
  have hshort : ∀ t : PyStr, t.length < s.length →
      b.valueWeight (.str t) < b.valueWeight (.str s) := by
    intro t hlength
    change strWeight t < strWeight s
    simp only [strWeight]
    split_ifs <;> omega
  unfold shrinkStr at h
  simp only at h
  split_ifs at h with hnone hlong hsimple hsimple <;>
    simp only [List.append_nil, List.nil_append, List.cons_append, List.mem_cons,
      List.not_mem_nil, or_false] at h
  · rcases h with rfl | rfl | rfl | rfl | rfl <;> apply hshort <;>
      simp only [List.length_nil, List.length_take, List.length_drop, List.length_dropLast] <;> omega
  · rcases h with rfl | rfl | rfl | rfl | rfl | rfl
    iterate 5
      apply hshort
      simp only [List.length_nil, List.length_take, List.length_drop, List.length_dropLast]
      omega
    change strWeight _ < strWeight s
    simp only [strWeight, List.length_replicate, if_true, if_neg (Ne.symm hsimple)]
    omega
  · obtain rfl := h
    apply hshort
    simp only [List.length_nil]
    omega
  · rcases h with rfl | rfl
    · apply hshort
      simp only [List.length_nil]
      omega
    · change strWeight _ < strWeight s
      simp only [strWeight, List.length_replicate, if_true, if_neg (Ne.symm hsimple)]
      omega

theorem lighter_bytes {data : Bytes} (h : new ∈ shrinkBytes data) :
    b.Lighter new.1 (.bytes data) := by
  right
  have hshort : ∀ xs : Bytes, xs.length < data.length →
      b.valueWeight (.bytes xs) < b.valueWeight (.bytes data) := by
    intro xs hlength
    exact hlength
  unfold shrinkBytes at h
  simp only at h
  split_ifs at h with hnone hlong
  · cases h
  · simp only [List.mem_cons, List.not_mem_nil, or_false] at h
    rcases h with rfl | rfl | rfl <;> apply hshort <;>
      simp only [List.length_nil, List.length_take, List.length_dropLast] <;> omega
  · obtain rfl := List.mem_singleton.1 h
    apply hshort
    simp only [List.length_nil]
    omega

/-- A list or a tuple, whose items are shrunk by `inner`. -/
theorem itemsWeight_shrinkSeq {wrap : List PyVal → PyVal} {items : List PyVal}
    {inner : PyVal → List Smaller} (h : new ∈ shrinkSeq wrap items inner)
    (hinner : ∀ old, ∀ s ∈ inner old, b.Lighter s.1 old) :
    ∃ xs, new.1 = wrap xs ∧ (xs = items ∨ b.itemsWeight xs < b.itemsWeight items) := by
  unfold shrinkSeq at h
  simp only at h
  by_cases hnone : items.length = 0
  · rw [if_pos hnone] at h
    cases h
  rw [if_neg hnone] at h
  rcases List.mem_cons.1 h with rfl | h
  · exact ⟨[], rfl, itemsWeight_sublist (List.nil_sublist items)⟩
  rcases List.mem_append.1 h with h | h
  · split_ifs at h with hlong
    · rcases List.mem_cons.1 h with rfl | h
      · exact ⟨_, rfl, itemsWeight_sublist (List.take_sublist _ items)⟩
      rcases List.mem_cons.1 h with rfl | h
      · exact ⟨_, rfl, itemsWeight_sublist (List.drop_sublist _ items)⟩
      obtain ⟨i, _, rfl⟩ := List.mem_map.1 h
      exact ⟨_, rfl, itemsWeight_sublist (List.eraseIdx_sublist items i)⟩
    · cases h
  · obtain ⟨p, hp, h⟩ := List.mem_flatMap.1 h
    obtain ⟨s, hs, rfl⟩ := List.mem_map.1 h
    have hitem := List.mem_zipIdx_iff_getElem?.1 (List.mem_of_mem_take hp)
    exact ⟨_, rfl, itemsWeight_set hitem (hinner p.1 s hs)⟩

theorem mem_sortedItems {p : (PyVal × PyVal) × Nat} (h : p ∈ b.sortedItems items) :
    items[p.2]? = some p.1 :=
  List.mem_zipIdx_iff_getElem?.1 ((List.mem_insertionSort _).1 h)

theorem pairsWeight_shrinkDict {inner : PyVal → List Smaller} (h : new ∈ b.shrinkDict items inner)
    (hinner : ∀ old, ∀ s ∈ inner old, b.Lighter s.1 old) : b.Lighter new.1 (.dict items) := by
  have hof : ∀ xs, xs = items ∨ b.pairsWeight xs < b.pairsWeight items →
      b.Lighter (.dict xs) (.dict items) := by
    intro xs hxs
    exact hxs.imp (congrArg PyVal.dict) id
  unfold shrinkDict at h
  simp only at h
  by_cases hnone : b.sortedItems items = []
  · rw [if_pos hnone] at h
    cases h
  rw [if_neg hnone] at h
  rcases List.mem_cons.1 h with rfl | h
  · exact hof [] (pairsWeight_sublist (List.nil_sublist items))
  rcases List.mem_append.1 h with h | h
  · obtain ⟨p, _, rfl⟩ := List.mem_map.1 h
    exact hof _ (pairsWeight_sublist List.filter_sublist)
  · obtain ⟨p, hp, h⟩ := List.mem_flatMap.1 h
    obtain ⟨s, hs, rfl⟩ := List.mem_map.1 h
    exact hof _ (pairsWeight_set (mem_sortedItems (List.mem_of_mem_take hp)) (hinner _ s hs))

/-- A `set` or a `frozenset`. -/
theorem setWeight_shrinkSet {wrap : List PyVal → PyVal} {elements : List PyVal}
    (h : new ∈ b.shrinkSet wrap elements) :
    ∃ xs, new.1 = wrap xs ∧ (xs = elements ∨ b.setWeight xs < b.setWeight elements) := by
  unfold shrinkSet at h
  simp only at h
  split_ifs at h with hnone
  · cases h
  rcases List.mem_cons.1 h with rfl | h
  · refine ⟨[], rfl, Or.inr ?_⟩
    have hlength : 0 < elements.length := by
      rw [← List.length_insertionSort fun x y => b.repr x ≤ b.repr y]
      exact List.length_pos_iff.2 hnone
    simp only [setWeight, List.length_nil, List.Pairwise.nil, if_true]
    omega
  · obtain ⟨item, _, rfl⟩ := List.mem_map.1 h
    exact ⟨_, rfl, setWeight_filter _⟩

/-- Every step of the shrinker changes nothing or loses weight. -/
theorem lighter_of_shrinkValue {depth : Nat} {v : PyVal}
    (h : new ∈ b.withFloats.shrinkValue depth v) : b.withFloats.Lighter new.1 v := by
  induction depth generalizing v new with
  | zero => cases h
  | succ depth ih =>
    have hinner : ∀ old, ∀ s ∈ b.withFloats.shrinkValue depth old,
        b.withFloats.Lighter s.1 old := fun old s hs => ih hs
    cases v with
    | bool value =>
      cases value with
      | false => cases h
      | true =>
        obtain rfl := List.mem_singleton.1 h
        exact Or.inr Nat.one_pos
    | int n => exact lighter_int h
    | float x => exact lighter_float h
    | str s => exact lighter_str h
    | bytes data => exact lighter_bytes h
    | list items =>
      obtain ⟨xs, hnew, hxs⟩ := itemsWeight_shrinkSeq h hinner
      rw [hnew]
      exact hxs.imp (congrArg PyVal.list) id
    | tuple items =>
      obtain ⟨xs, hnew, hxs⟩ := itemsWeight_shrinkSeq h hinner
      rw [hnew]
      exact hxs.imp (congrArg PyVal.tuple) id
    | dict items => exact pairsWeight_shrinkDict h hinner
    | set elements =>
      obtain ⟨xs, hnew, hxs⟩ := setWeight_shrinkSet h
      rw [hnew]
      exact hxs.imp (congrArg PyVal.set) id
    | frozenset elements =>
      obtain ⟨xs, hnew, hxs⟩ := setWeight_shrinkSet h
      rw [hnew]
      exact hxs.imp (congrArg PyVal.frozenset) id
    | _ => cases h

/-! ## The weight of an input -/

def pointWeight (b : Builtins) (p : Point) : Nat := b.itemsWeight p.args + b.pairsWeight p.kwargs

/-- A candidate whose literal differs weighs less. -/
theorem pointWeight_candidate {p q : Point} (h : q ∈ b.withFloats.candidates p)
    (hliterals : b.withFloats.literals q ≠ b.withFloats.literals p) :
    b.withFloats.pointWeight q < b.withFloats.pointWeight p := by
  have hof : q.args = p.args ∧ (q.kwargs = p.kwargs ∨
        b.withFloats.pairsWeight q.kwargs < b.withFloats.pairsWeight p.kwargs) ∨
      q.kwargs = p.kwargs ∧ (q.args = p.args ∨
        b.withFloats.itemsWeight q.args < b.withFloats.itemsWeight p.args) := by
    rcases List.mem_append.1 h with h | h
    · right
      obtain ⟨arg, harg, h⟩ := List.mem_flatMap.1 h
      obtain ⟨s, hs, rfl⟩ := List.mem_map.1 h
      exact ⟨rfl, itemsWeight_set (List.mem_zipIdx_iff_getElem?.1 harg) (lighter_of_shrinkValue hs)⟩
    · left
      obtain ⟨item, hitem, h⟩ := List.mem_flatMap.1 h
      rcases List.mem_cons.1 h with rfl | h
      · exact ⟨rfl, pairsWeight_sublist List.filter_sublist⟩
      · obtain ⟨s, hs, rfl⟩ := List.mem_map.1 h
        exact ⟨rfl, pairsWeight_set (mem_sortedItems hitem) (lighter_of_shrinkValue hs)⟩
  have hsame : ¬ (q.args = p.args ∧ q.kwargs = p.kwargs) := by
    intro heq
    exact hliterals (by rw [literals, literals, heq.1, heq.2])
  unfold pointWeight
  rcases hof with ⟨hargs, hkwargs | hless⟩ | ⟨hkwargs, hargs | hless⟩
  · exact absurd ⟨hargs, hkwargs⟩ hsame
  · rw [hargs]
    omega
  · exact absurd ⟨hargs, hkwargs⟩ hsame
  · rw [hkwargs]
    omega

def Point.input (p : Point) : List PyVal × List (PyVal × PyVal) := (p.args, p.kwargs)

/-- One step of the shrinker from an input to another: a candidate of the first, with another
literal. -/
def ShrinksTo (b : Builtins) (old new : List PyVal × List (PyVal × PyVal)) : Prop :=
  ∃ q ∈ b.candidates ⟨old.1, old.2, []⟩,
    q.input = new ∧ b.literals q ≠ b.literals ⟨old.1, old.2, []⟩

theorem shrinksTo_acyclic (input : List PyVal × List (PyVal × PyVal)) :
    ¬ Relation.TransGen b.withFloats.ShrinksTo input input := by
  have hstep : ∀ old new, b.withFloats.ShrinksTo old new →
      b.withFloats.pointWeight ⟨new.1, new.2, []⟩ < b.withFloats.pointWeight ⟨old.1, old.2, []⟩ := by
    intro old new h
    obtain ⟨q, hq, rfl, hliterals⟩ := h
    have hless := pointWeight_candidate hq hliterals
    exact hless
  have hrun : ∀ old new, Relation.TransGen b.withFloats.ShrinksTo old new →
      b.withFloats.pointWeight ⟨new.1, new.2, []⟩ < b.withFloats.pointWeight ⟨old.1, old.2, []⟩ := by
    intro old new h
    induction h with
    | single hone => exact hstep _ _ hone
    | tail _ hone ih => exact (hstep _ _ hone).trans ih
  exact fun hcycle => Nat.lt_irrefl _ (hrun input input hcycle)

/-! ## The search -/

section Minimization

variable {rerun : Literals → Option Diverged} {l : Literals} {maxAttempts : Nat}

/-- The literals `minimize_input` calls `rerun` with, in its order. -/
def rerunCalls (b : Builtins) (rerun : Literals → Option Diverged) (l : Literals)
    (maxAttempts : Nat) : List Literals :=
  l ::
    match rerun l, b.unpack l with
    | some d, some (args, kwargs) =>
      (Greedy.descendAsked b.candidates b.sameLiterals (b.diverges rerun d.divergenceClass)
        maxAttempts maxAttempts ⟨args, kwargs, []⟩ 1).map b.literals
    | _, _ => []

def classAt (rerun : Literals → Option Diverged) (l : Literals) : Option DivergenceClass :=
  (rerun l).map Diverged.divergenceClass

theorem firstAccepted_weight {c : DivergenceClass} {p q : Point}
    (h : Greedy.firstAccepted b.withFloats.candidates b.withFloats.sameLiterals
      (b.withFloats.diverges rerun c) p = some q) :
    b.withFloats.pointWeight q < b.withFloats.pointWeight p := by
  apply pointWeight_candidate (List.mem_of_find?_eq_some h)
  have hkept := List.find?_some h
  simp only [Bool.and_eq_true, Bool.not_eq_true', sameLiterals, decide_eq_false_iff_not] at hkept
  exact hkept.1

/-- Where no candidate is taken, none with another literal shows the class. -/
theorem not_diverges_of_firstAccepted {c : DivergenceClass} {p q : Point}
    (h : Greedy.firstAccepted b.candidates b.sameLiterals (b.diverges rerun c) p = none)
    (hq : q ∈ b.candidates p) (hliterals : b.literals q ≠ b.literals p) :
    classAt rerun (b.literals q) ≠ some c := by
  have hnot := List.find?_eq_none.1 h q hq
  intro hclass
  apply hnot
  simp only [Bool.and_eq_true, Bool.not_eq_true', sameLiterals, decide_eq_false_iff_not, diverges,
    decide_eq_true_eq]
  exact ⟨hliterals, hclass⟩

/-- The points of the search after the first one show the class. -/
theorem diverges_of_searched {c : DivergenceClass} {start p : Point}
    (h : Greedy.Trail b.candidates b.sameLiterals (b.diverges rerun c) start p)
    (hstart : classAt rerun (b.literals start) = some c) :
    classAt rerun (b.literals p) = some c := by
  cases h with
  | refl => exact hstart
  | tail _ haccepted =>
    have hkept := List.find?_some haccepted
    simp only [Bool.and_eq_true, diverges, decide_eq_true_eq] at hkept
    exact hkept.2

/-- For literals that are read as an input, `minimize_input` answers exactly when they diverge, and
asks for at most as many reruns as allowed.  What it returns shows the class of the first rerun when
the `repr` of what the literals are read as is rerun like them; where attempts are left, no
candidate with another literal shows it.  No input is shrunk back to itself, and some number of attempts is never
used up. -/
theorem minimizeInput_spec (b : Builtins) (rerun : Literals → Option Diverged) (l : Literals)
    (input : List PyVal × List (PyVal × PyVal)) (hread : b.withFloats.unpack l = some input) :
    (∀ maxAttempts, 1 ≤ maxAttempts →
      (b.withFloats.minimizeInput rerun l maxAttempts = none ↔ rerun l = none) ∧
        (b.withFloats.rerunCalls rerun l maxAttempts).length ≤ maxAttempts ∧
        ∀ d, rerun l = some d →
          ∃ m p, b.withFloats.minimizeInput rerun l maxAttempts = some m ∧
            (m.argsLiteral, m.kwargsLiteral) = b.withFloats.literals p ∧
            m.attemptsUsed = (b.withFloats.rerunCalls rerun l maxAttempts).length ∧
            (rerun (b.withFloats.literals ⟨input.1, input.2, []⟩) = rerun l →
              classAt rerun (m.argsLiteral, m.kwargsLiteral) = some d.divergenceClass) ∧
            (m.attemptsUsed < maxAttempts → ∀ q ∈ b.withFloats.candidates p,
              b.withFloats.literals q ≠ b.withFloats.literals p →
                classAt rerun (b.withFloats.literals q) ≠ some d.divergenceClass)) ∧
      (∃ bound, ∀ maxAttempts,
        (b.withFloats.rerunCalls rerun l maxAttempts).length ≤ bound) ∧
      ∀ other, ¬ Relation.TransGen b.withFloats.ShrinksTo other other := by
  obtain ⟨args, kwargs⟩ := input
  refine ⟨?_, ?_, shrinksTo_acyclic⟩
  · intro maxAttempts hpos
    cases hfirst : rerun l with
    | none =>
      have hnone : b.withFloats.minimizeInput rerun l maxAttempts = none := by
        simp only [minimizeInput, hfirst]
      have hcalls : b.withFloats.rerunCalls rerun l maxAttempts = [l] := by
        simp only [rerunCalls, hfirst]
      refine ⟨⟨fun _ => rfl, fun _ => hnone⟩, ?_, ?_⟩
      · rw [hcalls]
        exact hpos
      · intro d hd
        cases hd
    | some d =>
      have hspent := @Greedy.descend_spent _ b.withFloats.candidates b.withFloats.sameLiterals
        (b.withFloats.diverges rerun d.divergenceClass) maxAttempts maxAttempts ⟨args, kwargs, []⟩ 1
      have hle := @Greedy.descend_le _ b.withFloats.candidates b.withFloats.sameLiterals
        (b.withFloats.diverges rerun d.divergenceClass) maxAttempts maxAttempts ⟨args, kwargs, []⟩ 1
        hpos
      have hcalls : (b.withFloats.rerunCalls rerun l maxAttempts).length =
          (Greedy.descend b.withFloats.candidates b.withFloats.sameLiterals
            (b.withFloats.diverges rerun d.divergenceClass) maxAttempts maxAttempts
            ⟨args, kwargs, []⟩ 1).2 := by
        rw [hspent]
        simp only [rerunCalls, hfirst, hread, List.length_cons, List.length_map, Nat.add_comm]
      generalize hlast : Greedy.descend b.withFloats.candidates b.withFloats.sameLiterals
        (b.withFloats.diverges rerun d.divergenceClass) maxAttempts maxAttempts
        ⟨args, kwargs, []⟩ 1 = last at hle hcalls
      have hanswer : b.withFloats.minimizeInput rerun l maxAttempts =
          some ⟨(b.withFloats.literals last.1).1, (b.withFloats.literals last.1).2, last.1.path,
            last.2⟩ := by
        simp only [minimizeInput, hfirst, hread, hlast]
      refine ⟨?_, hcalls.trans_le hle, ?_⟩
      · rw [hanswer]
        exact ⟨fun h => absurd h (Option.some_ne_none _), fun h => absurd h (Option.some_ne_none _)⟩
      · intro d' hd'
        cases hd'
        refine ⟨_, last.1, hanswer, rfl, hcalls.symm, ?_, ?_⟩
        · intro hcanonical
          have htrail := @Greedy.descend_trail _ b.withFloats.candidates
            b.withFloats.sameLiterals (b.withFloats.diverges rerun d.divergenceClass) maxAttempts
            maxAttempts _ _ 1 (@Relation.ReflTransGen.refl _ _ ⟨args, kwargs, []⟩)
          rw [hlast] at htrail
          apply diverges_of_searched htrail
          rw [classAt, hcanonical]
          rfl
        · intro hleft q hq hliterals
          have hstopped := Greedy.descend_stopped hlast (Nat.le_add_left maxAttempts 1) hleft
          exact not_diverges_of_firstAccepted hstopped hq hliterals
  · cases hfirst : rerun l with
    | none =>
      refine ⟨1, ?_⟩
      intro maxAttempts
      simp only [rerunCalls, hfirst, List.length_singleton, Nat.le_refl]
    | some d =>
      obtain ⟨bound, hbound⟩ := @Greedy.exists_bound _ b.withFloats.candidates
        b.withFloats.sameLiterals (b.withFloats.diverges rerun d.divergenceClass)
        b.withFloats.pointWeight (fun p q h => firstAccepted_weight h) ⟨args, kwargs, []⟩
      refine ⟨1 + bound, ?_⟩
      intro maxAttempts
      have hspent := hbound maxAttempts maxAttempts 1
      rw [Greedy.descend_spent] at hspent
      simp only [rerunCalls, hfirst, hread, List.length_cons, List.length_map]
      omega

end Minimization

/-! ## A NaN -/

/-- `float("nan")`. -/
def quietNan : PyFloat := .nan false ⟨2 ^ 51 - 1, by norm_num⟩

/-- `repr` and the parser on the inputs met here. -/
def nanBuiltins : Builtins where
  repr := fun
    | .float (.nan _ _) => lit "nan"
    | .float _ => lit "0.0"
    | .tuple [.float (.nan _ _)] => lit "(nan,)"
    | .tuple _ => lit "(0.0,)"
    | .dict _ => lit "{}"
    | _ => []
  parse := fun text =>
    if text = lit "(nan,)" ∨ text = lit "(nan, )" then some (.tuple [.float quietNan])
    else if text = lit "{}" then some (.dict [])
    else none
  eq := fun _ _ => false
  halve := halveFloat
  rounded := roundFloat

def nanLiterals : Literals := (lit "(nan,)", lit "{}")

def nanPoint : Point := ⟨[.float quietNan], [], []⟩

def nanRerun (l : Literals) : Option Diverged :=
  if l = nanLiterals then some (returnsDiffer false) else none

theorem minimizeInput_spec_nan :
    (nanBuiltins.withFloats.rerunCalls nanRerun nanLiterals 200).length ≤ 200 ∧
      ∃ bound, ∀ maxAttempts,
        (nanBuiltins.withFloats.rerunCalls nanRerun nanLiterals maxAttempts).length ≤ bound := by
  have hspec := minimizeInput_spec nanBuiltins nanRerun nanLiterals ([.float quietNan], []) rfl
  exact ⟨(hspec.1 200 (by decide)).2.1, hspec.2.1⟩

def blankRerun (l : Literals) : Option Diverged :=
  if l = (lit "(nan, )", lit "{}") then some (returnsDiffer false) else none

/-- The second rerun shows that nothing is left to do, although half of the NaN, which is the NaN
again, diverges as it does.  Without the blank nothing diverges, and that is what is returned. -/
theorem nan_is_shrunk_to_itself :
    (∃ m, nanBuiltins.minimizeInput nanRerun nanLiterals 200 = some m ∧ m.attemptsUsed < 200 ∧
      (m.argsLiteral, m.kwargsLiteral) = nanBuiltins.literals nanPoint ∧
      ∃ q ∈ nanBuiltins.candidates nanPoint,
        classAt nanRerun nanLiterals = some .returnValue ∧
          classAt nanRerun (nanBuiltins.literals q) = some .returnValue ∧
          q.input = nanPoint.input) ∧
      ∃ m, nanBuiltins.minimizeInput blankRerun (lit "(nan, )", lit "{}") 200 = some m ∧
        blankRerun (m.argsLiteral, m.kwargsLiteral) = none := by
  have hcandidates : nanBuiltins.candidates nanPoint =
      [⟨[.float zeroFloat], [], [lit "args[0]: nan→0.0"]⟩,
        ⟨[.float quietNan], [], [lit "args[0]: nan→nan"]⟩] := by
    rfl
  refine ⟨⟨⟨lit "(nan,)", lit "{}", [], 2⟩, rfl, by decide, rfl,
    ⟨[.float quietNan], [], [lit "args[0]: nan→nan"]⟩, ?_, rfl, rfl, rfl⟩,
    ⟨lit "(nan,)", lit "{}", [], 2⟩, rfl, rfl⟩
  rw [hcandidates]
  exact List.mem_cons_of_mem _ (List.mem_singleton_self _)

end Builtins
end Tempest
