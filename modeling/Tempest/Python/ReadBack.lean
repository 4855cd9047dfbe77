import Tempest.Python.Reads

/-!
# ReadBack — a printed value is read back

On top of a stack, the text of a value either nests too deep or leaves the value of it on the same
stack (`Reads`); by induction on the value, `loads` inverts `dumpsSorted` up to `Json.wire`.
-/

namespace Tempest
namespace Python

section Machine

variable {interp : Interpreter} {stack : List Frame}

/-! ## Values -/

def Reads (interp : Interpreter) (stack : List Frame) (t : PyStr) (height : Nat) (v : JsonValue) : Prop :=
  (interp.depth < stack.length + height ∧ Machine.run interp ⟨stack, .value⟩ t = .error .tooDeep) ∨
    ∃ m, Machine.run interp ⟨stack, .value⟩ t = .ok m ∧ m.Holds interp stack v

/-- A printed value begins with a character that opens a value. -/
theorem dumpsSorted_head (j : Json) :
    ∃ c s, dumpsSorted j = c :: s ∧ c ≠ closeArr ∧ isJsonSpace c = false := by
  cases j with
  | null => exact ⟨_, _, rfl, by decide, by decide⟩
  | bool b => cases b <;> exact ⟨_, _, rfl, by decide, by decide⟩
  | int n =>
    cases htext : intText n with
    | nil => exact absurd htext (intText_ne_nil n)
    | cons c s =>
      have hc : IntChar c := intChar_of_mem_intText (htext ▸ List.mem_cons_self)
      refine ⟨c, s, by rw [dumpsSorted, htext], ?_, ?_⟩
      · rintro rfl
        exact absurd hc (by unfold IntChar; decide)
      · unfold IntChar at hc
        simp only [isJsonSpace, Bool.or_eq_false_iff, decide_eq_false_iff_not]
        omega
  | str s => exact ⟨_, _, rfl, by decide, by decide⟩
  | arr items => exact ⟨openArr, _, by rw [dumpsSorted], by decide, by decide⟩
  | obj fields => exact ⟨openObj, _, by rw [dumpsSorted], by decide, by decide⟩

theorem run_firstItem {items : List JsonValue} {c : CodePoint} (hc : c ≠ closeArr)
    (hspace : isJsonSpace c = false) (s : PyStr) :
    Machine.run interp ⟨.arr items :: stack, .firstItem⟩ (c :: s) =
      Machine.run interp ⟨.arr items :: stack, .value⟩ (c :: s) := by
  simp [Machine.run, List.foldlM_cons, Machine.step, hspace, hc]

theorem step_space {mode : Mode} (hmode : mode = .value ∨ mode = .nextKey) :
    Machine.step interp ⟨stack, mode⟩ (codePoint 0x20) = .ok ⟨stack, mode⟩ := by
  rcases hmode with rfl | rfl <;> rfl

/-- The items of an array behind its items so far. -/
theorem run_items {items : List Json} (hne : items ≠ [])
    (hitems : ∀ item ∈ items, ∀ stack, Reads interp stack (dumpsSorted item) item.height item.wire)
    (acc : List JsonValue) :
    (interp.depth < stack.length + 1 + itemsHeight items ∧
      Machine.run interp ⟨.arr acc :: stack, .value⟩
        (join (lit ", ") (items.map dumpsSorted) ++ [closeArr]) = .error .tooDeep) ∨
    Machine.run interp ⟨.arr acc :: stack, .value⟩ (join (lit ", ") (items.map dumpsSorted) ++ [closeArr]) =
      .ok ⟨stack, .after (.arr (acc.reverse ++ items.map Json.wire))⟩ := by
  induction items generalizing acc with
  | nil => exact absurd rfl hne
  | cons item items ih =>
    obtain ⟨hitem, hitems⟩ := List.forall_mem_cons.mp hitems
    rcases hitem (.arr acc :: stack) with ⟨hdeep, hrun⟩ | ⟨m, hrun, hholds⟩
    · -- The first item already nests too deep.
      refine .inl ⟨?_, ?_⟩
      · simp only [List.length_cons] at hdeep
        exact lt_of_lt_of_le hdeep (Nat.add_le_add_left (le_max_left _ _) _)
      · cases items with
        | nil => exact run_append_error hrun _
        | cons next rest =>
          rw [List.map_cons, List.map_cons, join, List.append_assoc, List.append_assoc]
          exact run_append_error hrun _
    · cases items with
      | nil =>
        have hclose : m.step interp closeArr =
            .ok ⟨stack, .after (.arr (item.wire :: acc).reverse)⟩ :=
          (hholds.step (by decide) (by decide)).trans rfl
        refine .inr ?_
        rw [List.map_singleton, join, run_append_ok hrun, run_cons hclose, run_nil]
        simp
      | cons next rest =>
        have hcomma : m.step interp comma = .ok ⟨.arr (item.wire :: acc) :: stack, .value⟩ :=
          (hholds.step (by decide) (by decide)).trans rfl
        have hsame : Machine.run interp ⟨.arr acc :: stack, .value⟩
            (join (lit ", ") ((item :: next :: rest).map dumpsSorted) ++ [closeArr]) =
          Machine.run interp ⟨.arr (item.wire :: acc) :: stack, .value⟩
            (join (lit ", ") ((next :: rest).map dumpsSorted) ++ [closeArr]) := by
          rw [List.map_cons, List.map_cons, join, List.append_assoc, List.append_assoc,
            run_append_ok hrun]
          exact (run_cons hcomma).trans (run_cons (step_space (.inl rfl)))
        rw [hsame]
        refine (ih (List.cons_ne_nil _ _) hitems (item.wire :: acc)).imp ?_ ?_
        · rintro ⟨hdeep, hrest⟩
          exact ⟨lt_of_lt_of_le hdeep (Nat.add_le_add_left (le_max_right _ _) _), hrest⟩
        · intro hrest
          rw [hrest]
          simp

def fieldText (p : PyStr × Json) : PyStr := jsonStr p.1 ++ lit ": " ++ dumpsSorted p.2

/-- The key of a field, from in front of its quote to in front of its value. -/
theorem run_key {mode : Mode} (hmode : mode = .firstKey ∨ mode = .nextKey)
    (acc : List (PyStr × JsonValue)) (key : PyStr) (p : PyStr × Json) (s : PyStr) :
    Machine.run interp ⟨.obj acc key :: stack, mode⟩ (fieldText p ++ s) =
      Machine.run interp ⟨.obj acc (wireText p.1) :: stack, .value⟩ (dumpsSorted p.2 ++ s) := by
  have hopen : Machine.step interp ⟨.obj acc key :: stack, mode⟩ dquote =
      .ok ⟨.obj acc key :: stack, .str true [] false⟩ := by
    rcases hmode with rfl | rfl <;> rfl
  have hkey : Machine.run interp ⟨.obj acc key :: stack, .str true [] false⟩
      ((utf16 p.1).flatMap jsonUnit ++ [dquote]) = .ok ⟨.obj acc (wireText p.1) :: stack, .colon⟩ :=
    (run_str_end p.1).trans (endString_key acc key p.1)
  have hcolon : Machine.step interp ⟨.obj acc (wireText p.1) :: stack, .colon⟩ colonChar =
      .ok ⟨.obj acc (wireText p.1) :: stack, .value⟩ := rfl
  have hsplit : fieldText p ++ s = dquote :: (((utf16 p.1).flatMap jsonUnit ++ [dquote]) ++
      colonChar :: codePoint 0x20 :: (dumpsSorted p.2 ++ s)) := by
    simp [fieldText, jsonStr, lit, colonChar]
  rw [hsplit, run_cons hopen, run_append_ok hkey, run_cons hcolon, run_cons (step_space (.inl rfl))]

theorem run_blanks {blanks : PyStr} (hblanks : ∀ c ∈ blanks, isJsonSpace c = true) {mode : Mode}
    (hmode : mode = .value ∨ mode = .firstKey ∨ mode = .nextKey) :
    Machine.run interp ⟨stack, mode⟩ blanks = .ok ⟨stack, mode⟩ := by
  induction blanks with
  | nil => rfl
  | cons c blanks ih =>
    obtain ⟨hc, hblanks⟩ := List.forall_mem_cons.mp hblanks
    have hstep : Machine.step interp ⟨stack, mode⟩ c = .ok ⟨stack, mode⟩ := by
      rcases hmode with rfl | rfl | rfl <;> simp [Machine.step, hc]
    rw [run_cons hstep, ih hblanks]

/-- The fields of an object behind its fields so far, with blanks behind the commas and the last one. -/
theorem run_fields {fields : List (PyStr × Json)} (hne : fields ≠ [])
    (hfields : ∀ p ∈ fields, ∀ stack, Reads interp stack (dumpsSorted p.2) p.2.height p.2.wire)
    {mode : Mode} (hmode : mode = .firstKey ∨ mode = .nextKey) {blanks ends : PyStr}
    (hblanks : ∀ c ∈ blanks, isJsonSpace c = true) (hends : ∀ c ∈ ends, isJsonSpace c = true)
    (acc : List (PyStr × JsonValue)) (key : PyStr) :
    (interp.depth < stack.length + 1 + fieldsHeight fields ∧
      Machine.run interp ⟨.obj acc key :: stack, mode⟩
        (join (comma :: blanks) (fields.map fieldText) ++ (ends ++ [closeObj])) = .error .tooDeep) ∨
    Machine.run interp ⟨.obj acc key :: stack, mode⟩
        (join (comma :: blanks) (fields.map fieldText) ++ (ends ++ [closeObj])) =
      .ok ⟨stack, .after (.obj (assignAll (fields.map fun p => (p.1, p.2.wire)) acc))⟩ := by
  induction fields generalizing acc key mode with
  | nil => exact absurd rfl hne
  | cons p fields ih =>
    obtain ⟨hp, hfields⟩ := List.forall_mem_cons.mp hfields
    -- What comes behind the first field.
    obtain ⟨rest, hrest⟩ : ∃ rest, join (comma :: blanks) ((p :: fields).map fieldText) ++
        (ends ++ [closeObj]) = fieldText p ++ rest ∧ rest = match fields with
          | [] => ends ++ [closeObj]
          | next :: later => comma :: (blanks ++
              (join (comma :: blanks) ((next :: later).map fieldText) ++ (ends ++ [closeObj]))) := by
      cases fields with
      | nil => exact ⟨_, rfl, rfl⟩
      | cons next later => exact ⟨_, by simp [join, List.append_assoc], rfl⟩
    rw [hrest.1, run_key hmode]
    rcases hp (.obj acc (wireText p.1) :: stack) with ⟨hdeep, hrun⟩ | ⟨m, hrun, hholds⟩
    · refine .inl ⟨?_, run_append_error hrun _⟩
      simp only [List.length_cons] at hdeep
      exact lt_of_lt_of_le hdeep (Nat.add_le_add_left (le_max_left _ _) _)
    · rw [run_append_ok hrun, hrest.2]
      cases fields with
      | nil =>
        obtain ⟨m', hblank, hholds'⟩ := hholds.blanks hends
        have hclose : m'.step interp closeObj =
            .ok ⟨stack, .after (.obj (Dict.assign (wireText p.1) p.2.wire acc))⟩ :=
          (hholds'.step (by decide) (by decide)).trans rfl
        exact .inr ((run_append_ok hblank _).trans (run_cons hclose))
      | cons next later =>
        have hcomma : m.step interp comma =
            .ok ⟨.obj (Dict.assign (wireText p.1) p.2.wire acc) [] :: stack, .nextKey⟩ :=
          (hholds.step (by decide) (by decide)).trans rfl
        have hsame (s : PyStr) : m.run interp (comma :: (blanks ++ s)) = Machine.run interp
            ⟨.obj (Dict.assign (wireText p.1) p.2.wire acc) [] :: stack, .nextKey⟩ s :=
          (run_cons hcomma).trans (run_append_ok (run_blanks hblanks (.inr (.inr rfl))) s)
        rw [hsame]
        refine (ih (List.cons_ne_nil _ _) hfields (.inr rfl) _ _).imp ?_ id
        rintro ⟨hdeep, hrest⟩
        exact ⟨lt_of_lt_of_le hdeep (Nat.add_le_add_left (le_max_right _ _) _), hrest⟩

theorem step_openArr : Machine.step interp ⟨stack, .value⟩ openArr =
    if interp.depth ≤ stack.length then .error .tooDeep else .ok ⟨.arr [] :: stack, .firstItem⟩ := rfl

theorem step_openObj : Machine.step interp ⟨stack, .value⟩ openObj =
    if interp.depth ≤ stack.length then .error .tooDeep else .ok ⟨.obj [] [] :: stack, .firstKey⟩ := rfl

theorem reads_arr {items : List Json}
    (hitems : ∀ item ∈ items, ∀ stack, Reads interp stack (dumpsSorted item) item.height item.wire)
    (stack : List Frame) :
    Reads interp stack (dumpsSorted (.arr items)) (Json.arr items).height (Json.arr items).wire := by
  rw [dumpsSorted, dumpsSortedItems_eq_map, Json.height, Json.wire, wireJsons_eq_map]
  by_cases hroom : interp.depth ≤ stack.length
  · exact .inl ⟨by omega, run_cons_error (step_openArr.trans (if_pos hroom))⟩
  · unfold Reads
    rw [run_cons (step_openArr.trans (if_neg hroom))]
    cases items with
    | nil => exact .inr ⟨_, rfl, .inl rfl⟩
    | cons item items =>
      obtain ⟨c, s, htext, hc, hspace⟩ := dumpsSorted_head item
      obtain ⟨rest, hrest⟩ : ∃ rest, join (lit ", ") ((item :: items).map dumpsSorted) ++ [closeArr] =
          c :: rest := by
        cases items with
        | nil => exact ⟨_, by rw [List.map_singleton, join, htext]; rfl⟩
        | cons next later => exact ⟨_, by rw [List.map_cons, List.map_cons, join, htext]; rfl⟩
      rw [hrest, run_firstItem hc hspace, ← hrest]
      refine (run_items (List.cons_ne_nil _ _) hitems []).imp ?_ fun hrun => ⟨_, hrun, .inl rfl⟩
      rintro ⟨hdeep, hrun⟩
      exact ⟨by omega, hrun⟩

theorem reads_obj {fields : List (PyStr × Json)}
    (hfields : ∀ p ∈ fields, ∀ stack, Reads interp stack (dumpsSorted p.2) p.2.height p.2.wire)
    (stack : List Frame) :
    Reads interp stack (dumpsSorted (.obj fields)) (Json.obj fields).height (Json.obj fields).wire := by
  rw [dumpsSorted, sortFields_dumpsSortedFields, Json.height, Json.wire, sortByKey_wireJsonFields,
    List.map_map]
  by_cases hroom : interp.depth ≤ stack.length
  · exact .inl ⟨by omega, run_cons_error (step_openObj.trans (if_pos hroom))⟩
  · unfold Reads
    rw [run_cons (step_openObj.trans (if_neg hroom))]
    by_cases hnone : sortByKey fields = []
    · rw [hnone]
      exact .inr ⟨_, rfl, .inl rfl⟩
    · have hsorted : ∀ p ∈ sortByKey fields, ∀ stack,
          Reads interp stack (dumpsSorted p.2) p.2.height p.2.wire :=
        fun p hp => hfields p (mem_sortByKey.mp hp)
      have hblank : ∀ c ∈ [codePoint 0x20], isJsonSpace c = true := List.forall_mem_singleton.mpr rfl
      have hnoEnds : ∀ c ∈ ([] : PyStr), isJsonSpace c = true := List.forall_mem_nil _
      refine (run_fields hnone hsorted (.inl rfl) hblank hnoEnds [] []).imp ?_ fun hrun => ⟨_,
        hrun, .inl rfl⟩
      rintro ⟨hdeep, hrun⟩
      refine ⟨?_, hrun⟩
      have hheight : fieldsHeight (sortByKey fields) ≤ fieldsHeight fields :=
        fieldsHeight_le_iff.mpr fun p hp => le_fieldsHeight (mem_sortByKey.mp hp)
      omega

theorem isDelimiter_of_intChar {c : CodePoint} (h : IntChar c) : isDelimiter c = false := by
  unfold IntChar at h
  have hne (n : Nat) (hn : n < 0x2D ∨ 0x39 < n) (hlt : n < 0x110000) : c ≠ codePoint n := by
    rintro rfl
    have hval : (codePoint n).val = n := Nat.mod_eq_of_lt hlt
    omega
  have hspace : isJsonSpace c = false := by
    simp only [isJsonSpace, Bool.or_eq_false_iff, decide_eq_false_iff_not]
    omega
  have hcomma : c ≠ comma := hne 0x2C (by decide) (by decide)
  have hcolon : c ≠ colonChar := hne 0x3A (by decide) (by decide)
  have hopenArr : c ≠ openArr := hne 0x5B (by decide) (by decide)
  have hcloseArr : c ≠ closeArr := hne 0x5D (by decide) (by decide)
  have hopenObj : c ≠ openObj := hne 0x7B (by decide) (by decide)
  have hcloseObj : c ≠ closeObj := hne 0x7D (by decide) (by decide)
  have hquote : c ≠ dquote := hne 0x22 (by decide) (by decide)
  simp [isDelimiter, hspace, hcomma, hcolon, hopenArr, hcloseArr, hopenObj, hcloseObj, hquote]

theorem reads_str (s : PyStr) (stack : List Frame) :
    Reads interp stack (dumpsSorted (.str s)) (Json.str s).height (Json.str s).wire := by
  have hopen : Machine.step interp ⟨stack, .value⟩ dquote = .ok ⟨stack, .str false [] false⟩ := rfl
  refine .inr ⟨_, ?_, .inl rfl⟩
  rw [dumpsSorted, jsonStr, List.cons_append, run_cons hopen, run_str_end]
  exact endString_value s

theorem reads_of_scalar {t : PyStr} {v : JsonValue} (hne : t ≠ [])
    (ht : t.all (fun c => !isDelimiter c) = true) (hv : scalarOf interp t = .ok v)
    (stack : List Frame) (height : Nat) :
    Reads interp stack t height v := by
  cases t with
  | nil => exact absurd rfl hne
  | cons c s => exact .inr (run_scalar_value (fun c' hc' => by simpa using List.all_eq_true.mp ht c' hc') hv)

/-- A value without long integers is read on top of any stack. -/
def ReadsBack (interp : Interpreter) (j : Json) : Prop :=
  j.hasLongInt = false → ∀ stack, Reads interp stack (dumpsSorted j) j.height j.wire

mutual

theorem reads_dumpsSorted : ∀ j : Json, ReadsBack interp j
  | .null, _, stack => reads_of_scalar (by decide) rfl rfl stack _
  | .bool true, _, stack => reads_of_scalar (by decide) rfl rfl stack _
  | .bool false, _, stack => reads_of_scalar (by decide) rfl rfl stack _
  | .int n, hlong, stack =>
    reads_of_scalar (intText_ne_nil n)
      (List.all_eq_true.mpr fun c hc => by rw [isDelimiter_of_intChar (intChar_of_mem_intText hc)]; rfl)
      (scalarOf_intText hlong) stack _
  | .str s, _, stack => reads_str s stack
  | .arr items, hlong, stack =>
    reads_arr (fun item h => reads_items items item h (hasLongIntItems_iff.mp hlong item h)) stack
  | .obj fields, hlong, stack =>
    reads_obj (fun p h => reads_fields fields p h (hasLongIntFields_iff.mp hlong p h)) stack

theorem reads_items : ∀ items : List Json, ∀ item ∈ items, ReadsBack interp item
  | first :: items, item, h => by
    rcases List.mem_cons.mp h with hfirst | hlater
    · rw [hfirst]
      exact reads_dumpsSorted first
    · exact reads_items items item hlater

theorem reads_fields : ∀ fields : List (PyStr × Json), ∀ p ∈ fields, ReadsBack interp p.2
  | (key, value) :: fields, p, h => by
    rcases List.mem_cons.mp h with hfirst | hlater
    · rw [hfirst]
      exact reads_dumpsSorted value
    · exact reads_fields fields p hlater

end

/-- A printed value within the recursion limit is read back. -/
theorem loads_dumpsSorted {j : Json} (hlong : j.hasLongInt = false) (hdepth : j.height ≤ interp.depth) :
    loads interp (dumpsSorted j) = .ok j.wire := by
  rcases reads_dumpsSorted j hlong [] with ⟨hdeep, -⟩ | ⟨m, hrun, hholds⟩
  · simp only [List.length_nil, Nat.zero_add] at hdeep
    exact absurd hdepth (Nat.not_le.mpr hdeep)
  · unfold loads
    rw [hrun]
    exact hholds.finish

end Machine

end Python
end Tempest
