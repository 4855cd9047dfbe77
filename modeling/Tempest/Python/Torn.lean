import Tempest.Python.ReadBack

/-!
# Torn — prefixes of a printed object, and what is written behind them

Inside the text of an object the machine always has something open.  So a proper prefix is not
accepted; and another object behind a prefix is read inside what is open, or breaks it.
-/

namespace Tempest
namespace Python

section Torn

variable {interp : Interpreter}

/-! ## Something is open -/

/-- The whole text has been read, up to blanks. -/
def Machine.Idle (m : Machine) : Prop := m.stack = [] ∧ ∃ v, m.mode = .after v

/-- Something is open, or all of it has been closed. -/
def Machine.Begun (m : Machine) : Prop := m.stack ≠ [] ∨ m.Idle

theorem begun_after (stack : List Frame) (v : JsonValue) : Machine.Begun ⟨stack, .after v⟩ := by
  cases stack with
  | nil => exact .inr ⟨rfl, v, rfl⟩
  | cons frame stack => exact .inl (List.cons_ne_nil _ _)

variable {stack : List Frame} {c : CodePoint} {m m' : Machine}

theorem begun_endValue {v : JsonValue} (h : endValue stack v c = .ok m') : m'.Begun := by
  cases stack with
  | nil => cases h
  | cons frame stack =>
    cases frame with
    | arr items =>
      simp only [endValue] at h
      split_ifs at h <;> obtain rfl := Except.ok.inj h
      · exact .inl (List.cons_ne_nil _ _)
      · exact begun_after _ _
    | obj fields key =>
      simp only [endValue] at h
      split_ifs at h <;> obtain rfl := Except.ok.inj h
      · exact .inl (List.cons_ne_nil _ _)
      · exact begun_after _ _

variable {p q raw s : PyStr}

theorem begun_endString {forKey : Bool} (hstack : stack ≠ [])
    (h : endString stack forKey raw = .ok m') : m'.Begun := by
  unfold endString at h
  split at h
  · cases h
  · split_ifs at h
    · split at h
      · cases h
        exact .inl (List.cons_ne_nil _ _)
      · cases h
    · cases h
      exact .inl hstack

theorem begun_beginValue (hstack : stack ≠ []) (h : beginValue interp stack c = .ok m') : m'.Begun := by
  unfold beginValue at h
  split_ifs at h <;> obtain rfl := Except.ok.inj h <;>
    first | exact .inl hstack | exact .inl (List.cons_ne_nil _ _)

/-- What is open stays open until the last of it is closed. -/
theorem begun_step (hstack : m.stack ≠ []) (h : m.step interp c = .ok m') : m'.Begun := by
  obtain ⟨stack, mode⟩ := m
  cases mode with
  | str forKey raw escaped =>
    simp only [Machine.step] at h
    split_ifs at h
    · cases h
      exact .inl hstack
    · exact begun_endString hstack h
    · cases h
      exact .inl hstack
  | scalar raw =>
    simp only [Machine.step] at h
    split_ifs at h with hend hspace
    · cases hv : scalarOf interp raw.reverse with
      | error e =>
        rw [hv] at h
        cases h
      | ok v =>
        rw [hv] at h
        cases h
        exact .inl hstack
    · cases hv : scalarOf interp raw.reverse with
      | error e =>
        rw [hv] at h
        cases h
      | ok v =>
        rw [hv] at h
        exact begun_endValue h
    · cases h
      exact .inl hstack
  | value =>
    simp only [Machine.step] at h
    split_ifs at h
    · cases h
      exact .inl hstack
    · exact begun_beginValue hstack h
  | firstItem =>
    cases stack with
    | nil => exact absurd rfl hstack
    | cons frame stack =>
      cases frame with
      | arr items =>
        simp only [Machine.step] at h
        split_ifs at h
        · cases h
          exact .inl hstack
        · cases h
          exact begun_after _ _
        · exact begun_beginValue hstack h
      | obj fields key =>
        simp only [Machine.step] at h
        split_ifs at h
        cases h
        exact .inl hstack
  | firstKey =>
    cases stack with
    | nil => exact absurd rfl hstack
    | cons frame stack =>
      cases frame with
      | arr items =>
        simp only [Machine.step] at h
        split_ifs at h
        cases h
        exact .inl hstack
      | obj fields key =>
        simp only [Machine.step] at h
        split_ifs at h <;> obtain rfl := Except.ok.inj h
        · exact .inl hstack
        · exact begun_after _ _
        · exact .inl hstack
  | nextKey | colon =>
    simp only [Machine.step] at h
    split_ifs at h <;> obtain rfl := Except.ok.inj h <;> exact .inl hstack
  | after v =>
    simp only [Machine.step] at h
    split_ifs at h
    · cases h
      exact .inl hstack
    · exact begun_endValue h

/-- Behind the end of a text only blanks are read. -/
theorem idle_step (hidle : m.Idle) (h : m.step interp c = .ok m') :
    isJsonSpace c = true ∧ m'.Idle := by
  obtain ⟨stack, mode⟩ := m
  obtain ⟨rfl, v, rfl⟩ := hidle
  simp only [Machine.step] at h
  split_ifs at h with hspace
  · cases h
    exact ⟨hspace, rfl, v, rfl⟩
  · cases h

theorem run_cons_ok (h : m.run interp (c :: s) = .ok m') :
    ∃ m₁, m.step interp c = .ok m₁ ∧ m₁.run interp s = .ok m' := by
  cases hstep : m.step interp c with
  | error e =>
    rw [run_cons_error hstep] at h
    cases h
  | ok m₁ => exact ⟨m₁, rfl, (run_cons hstep).symm.trans h⟩

theorem idle_run (hidle : m.Idle) (h : m.run interp s = .ok m') :
    (∀ c ∈ s, isJsonSpace c = true) ∧ m'.Idle := by
  induction s generalizing m with
  | nil =>
    cases h
    exact ⟨nofun, hidle⟩
  | cons c s ih =>
    obtain ⟨m₁, hstep, hrun⟩ := run_cons_ok h
    obtain ⟨hspace, hidle⟩ := idle_step hidle hstep
    obtain ⟨hspaces, hidle⟩ := ih hidle hrun
    exact ⟨List.forall_mem_cons.mpr ⟨hspace, hspaces⟩, hidle⟩

theorem begun_run (hbegun : m.Begun) (h : m.run interp s = .ok m') :
    m'.Begun := by
  induction s generalizing m with
  | nil =>
    cases h
    exact hbegun
  | cons c s ih =>
    rcases hbegun with hstack | hidle
    · obtain ⟨m₁, hstep, hrun⟩ := run_cons_ok h
      exact ih (begun_step hstack hstep) hrun
    · exact .inr (idle_run hidle h).2

/-! ## Prefixes of an object -/

/-- The object has fields, and each key begins with a small letter. -/
def Lettered (fields : List (PyStr × Json)) : Prop :=
  fields ≠ [] ∧ ∀ p ∈ fields, ∃ c key, p.1 = c :: key ∧ 0x61 ≤ c.val ∧ c.val ≤ 0x7A

def startsSmall : PyStr → Bool
  | [] => false
  | c :: _ => 0x61 ≤ c.val && c.val ≤ 0x7A

variable {fields : List (PyStr × Json)}

theorem lettered_of_all (hne : fields ≠ []) (h : fields.all (fun p => startsSmall p.1) = true) :
    Lettered fields := by
  refine ⟨hne, fun p hp => ?_⟩
  have hsmall := List.all_eq_true.mp h p hp
  cases hkey : p.1 with
  | nil => simp [hkey, startsSmall] at hsmall
  | cons c key =>
    rw [hkey] at hsmall
    exact ⟨c, key, rfl, by simpa [startsSmall] using hsmall⟩

theorem jsonUnit_letter {n : Nat} (hlow : 0x61 ≤ n) (hhigh : n ≤ 0x7A) :
    jsonUnit (codeUnit n) = [codePoint n] := by
  interval_cases n <;> rfl

/-- The text of an object begins with its brace, a quote and a letter, and ends with its brace. -/
theorem dumpsSorted_lettered (h : Lettered fields) :
    ∃ c s, dumpsSorted (.obj fields) = openObj :: dquote :: c :: s ∧ 0x61 ≤ c.val ∧ c.val ≤ 0x7A := by
  obtain ⟨hne, hkeys⟩ := h
  rw [dumpsSorted, sortFields_dumpsSortedFields]
  cases hsorted : sortByKey fields with
  | nil =>
    have hlength := List.length_insertionSort (fun a b : PyStr × Json => a.1 ≤ b.1) fields
    rw [← sortByKey, hsorted] at hlength
    exact absurd (List.length_eq_zero_iff.mp hlength.symm) hne
  | cons p rest =>
    obtain ⟨c, key, hkey, hlow, hhigh⟩ := hkeys p (mem_sortByKey.mp (hsorted ▸ List.mem_cons_self))
    have hletter : utf16 p.1 = codeUnit c.val :: utf16 key := by
      rw [hkey, utf16_cons, utf16Char, if_pos (hhigh.trans_lt (by decide))]
      rfl
    have hkeyText : jsonStr p.1 = dquote :: c :: ((utf16 key).flatMap jsonUnit ++ [dquote]) := by
      rw [jsonStr, hletter, List.flatMap_cons, jsonUnit_letter hlow hhigh, codePoint_val]
      rfl
    rw [List.map_cons, List.map_cons]
    cases rest with
    | nil =>
      rw [List.map_nil, List.map_nil, join, hkeyText]
      exact ⟨c, _, rfl, hlow, hhigh⟩
    | cons next rest =>
      rw [List.map_cons, List.map_cons, join, hkeyText]
      exact ⟨c, _, rfl, hlow, hhigh⟩

theorem dumpsSorted_closes (fields : List (PyStr × Json)) :
    ∃ s, dumpsSorted (.obj fields) = s ++ [closeObj] := by
  rw [dumpsSorted]
  exact ⟨_, (List.cons_append ..).symm⟩

/-- Where a text may be broken off: something is open there. -/
theorem run_prefix (hletters : Lettered fields) (hlong : (Json.obj fields).hasLongInt = false)
    (hdepth : (Json.obj fields).height ≤ interp.depth) (htext : dumpsSorted (.obj fields) = p ++ q)
    (hp : p ≠ []) (hq : q ≠ []) : ∃ m, Machine.run interp ⟨[], .value⟩ p = .ok m ∧ m.stack ≠ [] := by
  obtain ⟨m', hrun⟩ : ∃ m', Machine.run interp ⟨[], .value⟩ (dumpsSorted (.obj fields)) = .ok m' := by
    rcases reads_dumpsSorted (.obj fields) hlong [] with ⟨hdeep, -⟩ | ⟨m', hrun, -⟩
    · simp only [List.length_nil, Nat.zero_add] at hdeep
      exact absurd hdepth (Nat.not_le.mpr hdeep)
    · exact ⟨m', hrun⟩
  rw [htext, run_append] at hrun
  cases hfirst : Machine.run interp ⟨[], .value⟩ p with
  | error e =>
    rw [hfirst] at hrun
    cases hrun
  | ok m =>
    rw [hfirst] at hrun
    refine ⟨m, rfl, ?_⟩
    obtain ⟨c, s, hhead, -⟩ := dumpsSorted_lettered hletters
    obtain ⟨p', rfl⟩ : ∃ p', p = openObj :: p' := by
      cases p with
      | nil => exact absurd rfl hp
      | cons c' p' =>
        obtain ⟨rfl, -⟩ := List.cons.inj (hhead.symm.trans htext)
        exact ⟨p', rfl⟩
    have hopen : ¬ interp.depth ≤ ([] : List Frame).length := by
      have := interp.roomy
      simp only [List.length_nil]
      omega
    rw [run_cons (step_openObj.trans (if_neg hopen))] at hfirst
    rcases begun_run (.inl (List.cons_ne_nil _ _)) hfirst with hstack | hidle
    · exact hstack
    · -- All is closed, but the brace at the end of the text is still to come.
      obtain ⟨t, hclose⟩ := dumpsSorted_closes fields
      have hlast : closeObj ∈ q := by
        obtain ⟨q', last, rfl⟩ := (List.eq_nil_or_concat' q).resolve_left hq
        rw [hclose, ← List.append_assoc] at htext
        obtain ⟨-, heq⟩ := List.append_inj' htext rfl
        exact List.mem_append_right _ (heq ▸ List.mem_cons_self)
      exact absurd ((idle_run hidle hrun).1 closeObj hlast) (by decide)

/-- A proper prefix of an object is no document. -/
theorem loads_prefix (hletters : Lettered fields) (hlong : (Json.obj fields).hasLongInt = false)
    (hdepth : (Json.obj fields).height ≤ interp.depth) (htext : dumpsSorted (.obj fields) = p ++ q)
    (hp : p ≠ []) (hq : q ≠ []) : loads interp p = .error .malformed := by
  obtain ⟨m, hrun, hstack⟩ := run_prefix hletters hlong hdepth htext hp hq
  unfold loads
  rw [hrun]
  exact finish_of_stack hstack

/-! ## An object behind a prefix -/

def Machine.outcome (interp : Interpreter) (m : Machine) (s : PyStr) : Except LoadsError JsonValue :=
  (m.run interp s).bind fun m' => m'.finish interp

theorem outcome_cons (h : m.step interp c = .ok m') :
    m.outcome interp (c :: s) = m'.outcome interp s := by
  rw [Machine.outcome, run_cons h]
  rfl

theorem outcome_cons_error {e : LoadsError} (h : m.step interp c = .error e) :
    m.outcome interp (c :: s) = .error e := by
  rw [Machine.outcome, run_cons_error h]
  rfl

theorem endString_ok {forKey : Bool} (h : endString stack forKey raw = .ok m) :
    (∃ stack', m = ⟨stack', .colon⟩) ∨ ∃ v, m = ⟨stack, .after v⟩ := by
  unfold endString at h
  split at h
  · cases h
  · split_ifs at h
    · split at h
      · exact .inl ⟨_, (Except.ok.inj h).symm⟩
      · cases h
    · exact .inr ⟨_, (Except.ok.inj h).symm⟩

theorem endValue_error (hcomma : c ≠ comma) (harr : c ≠ closeArr) (hobj : c ≠ closeObj)
    (stack : List Frame) (v : JsonValue) : endValue stack v c = .error .malformed := by
  cases stack with
  | nil => rfl
  | cons frame stack => cases frame <;> simp [endValue, hcomma, harr, hobj]

/-- Behind a prefix that ends inside a string, the next object closes the string and goes on with a
letter. -/
theorem outcome_in_string {forKey escaped : Bool} (hlow : 0x61 ≤ c.val) (hhigh : c.val ≤ 0x7A) :
    ∃ e, Machine.outcome interp ⟨stack, .str forKey raw escaped⟩ (openObj :: dquote :: c :: s) =
      .error e := by
  have hbrace : Machine.step interp ⟨stack, .str forKey raw escaped⟩ openObj =
      .ok ⟨stack, .str forKey (openObj :: raw) false⟩ := by
    cases escaped <;> rfl
  rw [outcome_cons hbrace]
  have hc (n : Nat) (hn : n < 0x61 ∨ 0x7A < n) (hlt : n < 0x110000) : c ≠ codePoint n := by
    rintro rfl
    have hval : (codePoint n).val = n := Nat.mod_eq_of_lt hlt
    omega
  have hspace : isJsonSpace c = false := by
    simp only [isJsonSpace, Bool.or_eq_false_iff, decide_eq_false_iff_not]
    omega
  have hcomma : c ≠ comma := hc 0x2C (by decide) (by decide)
  have hcolon : c ≠ colonChar := hc 0x3A (by decide) (by decide)
  have hcloseArr : c ≠ closeArr := hc 0x5D (by decide) (by decide)
  have hcloseObj : c ≠ closeObj := hc 0x7D (by decide) (by decide)
  cases hend : endString stack forKey (openObj :: raw) with
  | error e => exact ⟨e, outcome_cons_error ((step_str_end _).trans hend)⟩
  | ok m =>
    rw [outcome_cons ((step_str_end _).trans hend)]
    refine ⟨.malformed, outcome_cons_error ?_⟩
    rcases endString_ok hend with ⟨stack', rfl⟩ | ⟨v, rfl⟩
    · simp [Machine.step, hspace, hcolon]
    · simpa [Machine.step, hspace] using endValue_error hcomma hcloseArr hcloseObj stack v

/-- Where something is open, an object is read inside it, or breaks it. -/
theorem outcome_behind (hletters : Lettered fields) (hlong : (Json.obj fields).hasLongInt = false)
    (hstack : m.stack ≠ []) : ∃ e, m.outcome interp (dumpsSorted (.obj fields)) = .error e := by
  obtain ⟨c, s, htext, hlow, hhigh⟩ := dumpsSorted_lettered hletters
  have hbroken {m : Machine} (hstep : m.step interp openObj = .error .malformed) :
      ∃ e, m.outcome interp (dumpsSorted (.obj fields)) = .error e := by
    rw [htext]
    exact ⟨_, outcome_cons_error hstep⟩
  have hvalue (stack : List Frame) (hstack : stack ≠ []) :
      ∃ e, Machine.outcome interp ⟨stack, .value⟩ (dumpsSorted (.obj fields)) = .error e := by
    unfold Machine.outcome
    rcases reads_dumpsSorted (.obj fields) hlong stack with ⟨-, hrun⟩ | ⟨m', hrun, hholds⟩
    · exact ⟨_, by rw [hrun]; rfl⟩
    · refine ⟨.malformed, ?_⟩
      rw [hrun]
      refine finish_of_stack ?_
      rcases hholds with rfl | ⟨raw, rfl, -⟩ <;> exact hstack
  obtain ⟨stack, mode⟩ := m
  cases mode with
  | value => exact hvalue stack hstack
  | firstItem =>
    cases stack with
    | nil => exact absurd rfl hstack
    | cons frame stack =>
      cases frame with
      | arr items =>
        have hsame := hvalue (.arr items :: stack) hstack
        rw [htext] at hsame ⊢
        rwa [Machine.outcome, run_firstItem (by decide) (by decide)]
      | obj fields key => exact hbroken rfl
  | firstKey =>
    refine hbroken ?_
    cases stack with
    | nil => exact absurd rfl hstack
    | cons frame stack => cases frame <;> rfl
  | nextKey | colon => exact hbroken rfl
  | after v => exact hbroken (endValue_error (by decide) (by decide) (by decide) stack v)
  | str forKey raw escaped =>
    rw [htext]
    exact outcome_in_string hlow hhigh
  | scalar raw =>
    rw [htext]
    cases hraw : scalarOf interp raw.reverse with
    | error e =>
      refine ⟨e, outcome_cons_error ?_⟩
      have hend : isDelimiter openObj = true := by decide
      simp only [Machine.step, hend, if_true, hraw]
      rfl
    | ok v =>
      refine ⟨.malformed, outcome_cons_error ?_⟩
      have hholds : Machine.Holds interp ⟨stack, .scalar raw⟩ stack v := .inr ⟨raw, rfl, hraw⟩
      rw [hholds.step (by decide) (by decide)]
      exact endValue_error (by decide) (by decide) (by decide) stack v

variable (interp) in
/-- An object behind a prefix of another, or behind all of it, is no document with it. -/
theorem loads_behind {fields later : List (PyStr × Json)} (hletters : Lettered fields)
    (hlong : (Json.obj fields).hasLongInt = false) (hdepth : (Json.obj fields).height ≤ interp.depth)
    (hletters' : Lettered later) (hlong' : (Json.obj later).hasLongInt = false)
    (htext : dumpsSorted (.obj fields) = p ++ q) (hp : p ≠ []) :
    ∃ e, loads interp (p ++ dumpsSorted (.obj later)) = .error e := by
  have hloads {m : Machine} (hrun : Machine.run interp ⟨[], .value⟩ p = .ok m) :
      loads interp (p ++ dumpsSorted (.obj later)) = m.outcome interp (dumpsSorted (.obj later)) := by
    unfold loads
    rw [run_append_ok hrun]
    rfl
  by_cases hq : q = []
  · -- The whole object: the brace of the next one is extra data.
    rw [hq, List.append_nil] at htext
    rcases reads_dumpsSorted (.obj fields) hlong [] with ⟨hdeep, -⟩ | ⟨m, hrun, hholds⟩
    · simp only [List.length_nil, Nat.zero_add] at hdeep
      exact absurd hdepth (Nat.not_le.mpr hdeep)
    · obtain ⟨c, s, htext', -⟩ := dumpsSorted_lettered hletters'
      rw [hloads (htext ▸ hrun), htext']
      exact ⟨_, outcome_cons_error (hholds.step (by decide) (by decide))⟩
  · obtain ⟨m, hrun, hstack⟩ := run_prefix hletters hlong hdepth htext hp hq
    rw [hloads hrun]
    exact outcome_behind hletters' hlong' hstack

end Torn

end Python
end Tempest
