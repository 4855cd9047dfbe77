import Tempest.Api.LocalStore

/-!
# Migration — any number of opens of the SQLite store of the desktop

What an open does that nothing interrupts, and `migrates_iff`: which stores come to the current one
whatever interrupts the opens before the last.
-/

namespace Tempest
namespace LocalStore

open Script

variable {ρ : Type}

/-! ## Without an interruption -/

/-- The script comes to its end, whatever transaction is open. -/
def Does (p : Script ρ) (s s' : Store ρ) : Prop :=
  ∀ c : Conn ρ, c.live = s → c.left = none → ∃ c', p c = (.ok (), c') ∧ c'.live = s' ∧ c'.left = none

def Fails (p : Script ρ) (s : Store ρ) : Prop :=
  ∀ c : Conn ρ, c.live = s → c.left = none → ∃ e c', p c = (.error (.raised e), c')

section Whole

variable {s s' s'' : Store ρ} {p q : Script ρ} {st : Statement}

theorem Does.done : Does done s s := fun c hlive hleft => ⟨c, rfl, hlive, hleft⟩

theorem Does.andThen (hp : Does p s s') (hq : Does q s' s'') : Does (p.andThen q) s s'' := by
  intro c hlive hleft
  obtain ⟨c', hrun, hlive', hleft'⟩ := hp c hlive hleft
  rw [andThen_ok hrun]
  exact hq c' hlive' hleft'

theorem Does.andThen_fails (hp : Does p s s') (hq : Fails q s') : Fails (p.andThen q) s := by
  intro c hlive hleft
  obtain ⟨c', hrun, hlive', hleft'⟩ := hp c hlive hleft
  rw [andThen_ok hrun]
  exact hq c' hlive' hleft'

theorem Fails.andThen (hp : Fails p s) : Fails (p.andThen q) s := by
  intro c hlive hleft
  obtain ⟨e, c', hrun⟩ := hp c hlive hleft
  exact ⟨e, c', andThen_error hrun⟩

theorem Does.look {f : Store ρ → Script ρ} (h : Does (f s) s s') : Does (look f) s s' := by
  intro c hlive hleft
  subst hlive
  exact h c rfl hleft

theorem Fails.look {f : Store ρ → Script ρ} (h : Fails (f s) s) : Fails (look f) s := by
  intro c hlive hleft
  subst hlive
  exact h c rfl hleft

theorem Fails.raise (e : StoreError) : Fails (raise e) s := fun c _ _ => ⟨e, c, rfl⟩

theorem left_ne_zero {c : Conn ρ} (h : c.left = none) : ¬c.left = some 0 := by
  rw [h]
  exact fun heq => by cases heq

theorem Does.exec (h : st.apply s = .ok s') : Does (exec st) s s' := by
  rintro c rfl hleft
  refine ⟨c.write st s', ?_, rfl, ?_⟩
  · simp only [LocalStore.exec, if_neg (left_ne_zero hleft), h]
  · simp only [Conn.write, hleft, Option.map_none]

theorem Fails.exec {e : SqlError} (h : st.apply s = .error e) : Fails (exec st) s := by
  rintro c rfl hleft
  refine ⟨.sql e, { c with left := c.left.map (· - 1) }, ?_⟩
  simp only [LocalStore.exec, if_neg (left_ne_zero hleft), h]

theorem Does.execSkipping {table column : String} (h : s.has table = true) :
    Does (execSkipping (.addColumn table column)) s (s.add [.column table column]) := by
  rintro c rfl hleft
  have htable : ¬c.live.has table = false := Bool.not_eq_false _ ▸ h
  by_cases hthere : .column table column ∈ c.live.objects
  · have happly : (Statement.addColumn table column).apply c.live =
        .error (.duplicateColumn column) := by
      simp only [Statement.apply, if_neg htable, if_pos hthere]
    have hsame : c.live.add [.column table column] = c.live := by
      have hobjects : c.live.objects ∪ [Obj.column table column].toFinset = c.live.objects :=
        Finset.union_eq_left.mpr (by simpa using hthere)
      exact congrArg (fun objects => { c.live with objects := objects }) hobjects
    refine ⟨{ c with left := c.left.map (· - 1) }, ?_, hsame.symm, by simp [hleft]⟩
    simp only [LocalStore.execSkipping, LocalStore.exec, if_neg (left_ne_zero hleft), happly]
  · have happly : (Statement.addColumn table column).apply c.live =
        .ok (c.live.add [.column table column]) := by
      simp only [Statement.apply, if_neg htable, if_neg hthere]
    obtain ⟨c', hrun, hrest⟩ := Does.exec happly c rfl hleft
    exact ⟨c', by simp only [LocalStore.execSkipping, hrun], hrest⟩

theorem Fails.execSkipping {table column : String} (h : s.has table = false) :
    Fails (execSkipping (.addColumn table column)) s := by
  intro c hlive hleft
  have happly : (Statement.addColumn table column).apply s = .error (.noSuchTable table) := by
    simp only [Statement.apply, if_pos h]
  refine ⟨.sql (.noSuchTable table), { c with left := c.left.map (· - 1) }, ?_⟩
  simp only [LocalStore.execSkipping, LocalStore.exec, if_neg (left_ne_zero hleft), hlive, happly]

@[simp] theorem Store.add_nil (s : Store ρ) : s.add [] = s :=
  congrArg (fun objects => { s with objects := objects }) (Finset.union_empty s.objects)

theorem Store.add_add (s : Store ρ) (xs ys : List Obj) : (s.add xs).add ys = s.add (xs ++ ys) := by
  have hobjects : s.objects ∪ xs.toFinset ∪ ys.toFinset = s.objects ∪ (xs ++ ys).toFinset := by
    rw [List.toFinset_append, Finset.union_assoc]
  exact congrArg (fun objects => { s with objects := objects }) hobjects

variable {name table : String}

theorem Store.has_iff : s.has table = true ↔ .table table ∈ s.objects :=
    decide_eq_true_iff

theorem Store.has_add {xs : List Obj} (h : .table table ∉ xs) :
    (s.add xs).has table = s.has table := by
  simp [Store.has, h]

def columnObjects (columns : List (String × String)) : List Obj :=
  columns.map fun column => .column column.1 column.2

variable {columns : List (String × String)}

theorem table_notMem_columnObjects :
    Obj.table table ∉ columnObjects columns := by
  simp [columnObjects]

variable {s : Store ρ}

theorem Does.forward (columns : List (String × String)) (h : ∀ column ∈ columns, s.has column.1 = true) :
    Does (all LocalStore.execSkipping (addColumns columns)) s (s.add (columnObjects columns)) := by
  induction columns generalizing s with
  | nil => exact (Store.add_nil s).symm ▸ Does.done
  | cons column columns ih =>
    obtain ⟨hfirst, hrest⟩ := List.forall_mem_cons.mp h
    have hone : ∀ table, (s.add [.column column.1 column.2]).has table = s.has table :=
      fun table => Store.has_add (by simp)
    have hlater := ih (s := s.add [.column column.1 column.2])
      fun c hc => (hone c.1).trans (hrest c hc)
    rw [Store.add_add] at hlater
    exact (Does.execSkipping hfirst).andThen hlater

theorem Fails.forward (h : ∃ column ∈ columns, s.has column.1 = false) :
    Fails (all LocalStore.execSkipping (addColumns columns)) s := by
  induction columns generalizing s with
  | nil => simp at h
  | cons column columns ih =>
    cases hfirst : s.has column.1 with
    | false => exact (Fails.execSkipping hfirst).andThen
    | true =>
      refine (Does.execSkipping hfirst).andThen_fails (ih ?_)
      obtain ⟨c, hc, hnone⟩ := h
      rcases List.mem_cons.mp hc with rfl | hc
      · cases hfirst.symm.trans hnone
      · exact ⟨c, hc, (Store.has_add (by simp)).trans hnone⟩

/-- The steps of an upgrade must all be new. -/
theorem Does.steps (columns : List (String × String)) (hnodup : columns.Nodup)
    (h : ∀ column ∈ columns, s.has column.1 = true ∧ .column column.1 column.2 ∉ s.objects) :
    Does (all LocalStore.exec (addColumns columns)) s (s.add (columnObjects columns)) := by
  induction columns generalizing s with
  | nil => exact (Store.add_nil s).symm ▸ Does.done
  | cons column columns ih =>
    obtain ⟨⟨htable, hnew⟩, hrest⟩ := List.forall_mem_cons.mp h
    obtain ⟨hnotMem, hnodup⟩ := List.nodup_cons.mp hnodup
    have happly : (Statement.addColumn column.1 column.2).apply s =
        .ok (s.add [.column column.1 column.2]) := by
      simp only [Statement.apply, htable, Bool.true_eq_false, if_false, if_neg hnew]
    have hlater := ih (s := s.add [.column column.1 column.2]) hnodup fun c hc => ?_
    · rw [Store.add_add] at hlater
      exact (Does.exec happly).andThen hlater
    · obtain ⟨hhas, hnewer⟩ := hrest c hc
      refine ⟨(Store.has_add (by simp)).trans hhas, ?_⟩
      have hother : c ≠ column := fun heq => hnotMem (heq ▸ hc)
      simp only [Store.add_objects, List.toFinset_cons, List.toFinset_nil, Finset.mem_union,
        Finset.mem_insert, Obj.column.injEq, Finset.notMem_empty, or_false, not_or]
      exact ⟨hnewer, fun heq => hother (Prod.ext heq.1 heq.2)⟩

theorem Fails.steps
    (h : ∃ column ∈ columns, s.has column.1 = false ∨ .column column.1 column.2 ∈ s.objects) :
    Fails (all LocalStore.exec (addColumns columns)) s := by
  induction columns generalizing s with
  | nil => simp at h
  | cons column columns ih =>
    cases happly : (Statement.addColumn column.1 column.2).apply s with
    | error e => exact (Fails.exec happly).andThen
    | ok s₁ =>
      refine (Does.exec happly).andThen_fails (ih ?_)
      obtain ⟨hkept, -⟩ := apply_keeps happly
      simp only [Statement.apply] at happly
      split_ifs at happly with htable hthere
      cases happly
      obtain ⟨c, hc, hbad⟩ := h
      rcases List.mem_cons.mp hc with rfl | hc
      · exact absurd hbad (not_or.mpr ⟨htable, hthere⟩)
      · refine ⟨c, hc, hbad.imp (fun hnone => ?_) fun hmem => hkept hmem⟩
        exact (Store.has_add (by simp)).trans hnone

theorem all_append {α : Type} {f : α → Script ρ} {as bs : List α} :
    all f (as ++ bs) = (all f as).andThen (all f bs) := by
  induction as with
  | nil => rfl
  | cons a as ih => rw [List.cons_append, all, all, ih, andThen_assoc]

theorem Does.createIndexes (indexes : List String) (htable : s.has name = true)
    (hnew : ∀ i ∈ indexes, Obj.index name i ∉ s.objects) (hnodup : indexes.Nodup) :
    Does (all LocalStore.exec (indexes.map (.createIndex name))) s (s.add (indexes.map
      (.index name))) := by
  induction indexes generalizing s with
  | nil => exact (Store.add_nil s).symm ▸ Does.done
  | cons i indexes ih =>
    obtain ⟨hfirst, hrest⟩ := List.forall_mem_cons.mp hnew
    obtain ⟨hnotMem, hnodup⟩ := List.nodup_cons.mp hnodup
    have happly : (Statement.createIndex name i).apply s = .ok (s.add [.index name i]) := by
      simp only [Statement.apply, htable, Bool.true_eq_false, if_false, if_neg hfirst]
    have hlater := ih (s := s.add [.index name i]) ((Store.has_add (by simp)).trans htable) ?_ hnodup
    · rw [Store.add_add] at hlater
      exact (Does.exec happly).andThen hlater
    · intro j hj
      have hother : j ≠ i := fun heq => hnotMem (heq ▸ hj)
      simp only [Store.add_objects, List.toFinset_cons, List.toFinset_nil, Finset.mem_union,
        Finset.mem_insert, Obj.index.injEq, Finset.notMem_empty, or_false, not_or]
      exact ⟨hrest j hj, fun heq => hother heq.2⟩

theorem table_mem_objects {t : Table} : Obj.table name ∈ t.objects ↔ name = t.name := by
  simp [Table.objects]

theorem index_mem_objects {t : Table} {name i : String} :
    Obj.index name i ∈ t.objects ↔ name = t.name ∧ i ∈ t.indexes := by
  simp only [Table.objects, List.mem_cons, reduceCtorEq, List.mem_append, List.mem_map, and_false,
    exists_false, Obj.index.injEq, false_or]
  exact ⟨fun ⟨_, hi, hname, heq⟩ => ⟨hname.symm, heq ▸ hi⟩, fun ⟨hname, hi⟩ => ⟨i, hi, hname.symm, rfl⟩⟩

theorem column_mem_objects {t : Table} {name c : String} :
    Obj.column name c ∈ t.objects ↔ name = t.name ∧ c ∈ t.columns := by
  simp only [Table.objects, List.mem_cons, reduceCtorEq, List.mem_append, List.mem_map, and_false,
    exists_false, Obj.column.injEq, false_or, or_false]
  exact ⟨fun ⟨_, hc, hname, heq⟩ => ⟨hname.symm, heq ▸ hc⟩, fun ⟨hname, hc⟩ => ⟨c, hc, hname.symm, rfl⟩⟩

theorem Does.createTables (ts : List Table) (hnodup : (ts.map Table.name).Nodup)
    (habsent : ∀ t ∈ ts, s.has t.name = false) (hindexes : ∀ t ∈ ts, t.indexes.Nodup)
    (hnew : ∀ t ∈ ts, ∀ i ∈ t.indexes, Obj.index t.name i ∉ s.objects) :
    Does (all LocalStore.exec (ts.flatMap fun t =>
      .createTable t :: t.indexes.map (.createIndex t.name))) s
      (s.add (ts.flatMap Table.objects)) := by
  induction ts generalizing s with
  | nil => exact (Store.add_nil s).symm ▸ Does.done
  | cons t ts ih =>
    rw [List.map_cons, List.nodup_cons] at hnodup
    rw [List.forall_mem_cons] at habsent hindexes hnew
    let columns := Obj.table t.name :: t.columns.map (.column t.name)
    have hthere : (s.add columns).has t.name = true := Store.has_iff.mpr (by simp [columns])
    have hfree : ∀ i ∈ t.indexes, Obj.index t.name i ∉ (s.add columns).objects := by
      intro i hi
      simpa [columns] using hnew.1 i hi
    have htable : Does (all LocalStore.exec (.createTable t :: t.indexes.map (.createIndex t.name))) s
        (s.add t.objects) := by
      have hrest := Does.createIndexes t.indexes hthere hfree hindexes.1
      rw [Store.add_add] at hrest
      exact (Does.exec (apply_createTable habsent.1)).andThen hrest
    have hother : ∀ t' ∈ ts, t'.name ≠ t.name := fun t' ht' heq =>
      hnodup.1 (List.mem_map.mpr ⟨t', ht', heq⟩)
    have hlater := ih (s := s.add t.objects) hnodup.2 (fun t' ht' => ?_) hindexes.2
      fun t' ht' i hi => ?_
    · rw [Store.add_add] at hlater
      rw [List.flatMap_cons, all_append]
      exact htable.andThen hlater
    · rw [Store.has_add fun hmem => hother t' ht' (table_mem_objects.mp hmem)]
      exact habsent.2 t' ht'
    · rw [Store.add_objects, Finset.mem_union, List.mem_toFinset, index_mem_objects, not_or]
      exact ⟨hnew.2 t' ht' i hi, fun h => hother t' ht' h.1⟩

/-- What `create_all` adds. -/
def created (s : Store ρ) : List Obj :=
  (metadata.filter fun t => s.has t.name = false).flatMap Table.objects

theorem Does.createAll (hindex : ∀ t i, Obj.index t i ∈ s.objects → s.has t = true) :
    Does createAll s (s.add (created s)) := by
  have hnames : (metadata.map Table.name).Nodup := by decide
  have hindexes : ∀ t ∈ metadata, t.indexes.Nodup := by decide
  have habsent : ∀ t ∈ metadata.filter fun t => s.has t.name = false, s.has t.name = false :=
    fun t ht => of_decide_eq_true (List.mem_filter.mp ht).2
  refine Does.look (Does.createTables _ ?_ habsent (fun t ht => hindexes t (List.mem_filter.mp ht).1) ?_)
  · exact hnames.sublist (List.filter_sublist.map _)
  · intro t ht i _ hthere
    exact Bool.false_ne_true ((habsent t ht).symm.trans (hindex t.name i hthere))

theorem created_eq_nil (h : ∀ t ∈ metadata, s.has t.name = true) : created s = [] := by
  rw [created, List.filter_eq_nil_iff.mpr fun t ht hnone => ?_, List.flatMap_nil]
  exact Bool.false_ne_true ((of_decide_eq_true hnone).symm.trans (h t ht))

theorem created_congr {s' : Store ρ} (h : ∀ table, s'.has table = s.has table) :
    created s' = created s := by
  simp only [created, h]

def repaired (s : Store ρ) : Store ρ := s.add (columnObjects additive ++ created s)

theorem repaired_eq_self (h : missingColumns s = []) : repaired s = s := by
  rw [missingColumns_eq_nil_iff] at h
  have hadditive : ∀ column ∈ additive, ∃ t ∈ metadata, t.name = column.1 ∧ column.2 ∈ t.columns := by
    decide
  have hobjects : s.objects ∪ (columnObjects additive ++ created s).toFinset = s.objects := by
    rw [created_eq_nil fun t ht => (h t ht).1, List.append_nil]
    refine Finset.union_eq_left.mpr fun obj hobj => ?_
    obtain ⟨column, hcolumn, rfl⟩ := List.mem_map.mp (List.mem_toFinset.mp hobj)
    obtain ⟨t, ht, hname, hc⟩ := hadditive column hcolumn
    exact hname ▸ (h t ht).2 _ hc
  exact congrArg (fun objects => { s with objects := objects }) hobjects

theorem has_forward (table : String) : (s.add (columnObjects additive)).has table = s.has table :=
  Store.has_add table_notMem_columnObjects

theorem index_forward (hindex : ∀ t i, Obj.index t i ∈ s.objects → s.has t = true) (t i : String)
    (h : Obj.index t i ∈ (s.add (columnObjects additive)).objects) :
    (s.add (columnObjects additive)).has t = true := by
  rw [has_forward]
  refine hindex t i ?_
  simpa [columnObjects] using h

theorem repaired_eq : (s.add (columnObjects additive)).add (created (s.add (columnObjects additive))) =
    repaired s := by
  rw [Store.add_add, created_congr has_forward, repaired]

theorem forward_tables (hruns : s.has "runs" = true) (hdivergences : s.has "divergences" = true) :
    ∀ column ∈ additive, s.has column.1 = true := by
  have htables : ∀ column ∈ additive, column.1 = "runs" ∨ column.1 = "divergences" := by decide
  intro column hcolumn
  exact (htables column hcolumn).elim (fun h => h ▸ hruns) fun h => h ▸ hdivergences

theorem runs_divergences_of_complete (h : missingColumns s = []) :
    s.has "runs" = true ∧ s.has "divergences" = true := by
  rw [missingColumns_eq_nil_iff] at h
  have hmem : ∀ name ∈ ["runs", "divergences"], ∃ t ∈ metadata, t.name = name := by decide
  have hhas : ∀ name ∈ ["runs", "divergences"], s.has name = true := by
    intro name hname
    obtain ⟨t, ht, rfl⟩ := hmem name hname
    exact (h t ht).1
  exact ⟨hhas _ (by simp), hhas _ (by simp)⟩

theorem Does.verifyAndRepair (hindex : ∀ t i, Obj.index t i ∈ s.objects → s.has t = true)
    (htables : s.has "runs" = true ∧ s.has "divergences" = true)
    (hcomplete : missingColumns (repaired s) = []) :
    Does verifyAndRepair s (repaired s) := by
  refine Does.look ?_
  by_cases hmissing : missingColumns s = []
  · rw [if_pos hmissing, repaired_eq_self hmissing]
    exact Does.done
  · rw [if_neg hmissing]
    refine (Does.forward additive (forward_tables htables.1 htables.2)).andThen
      ((Does.createAll (index_forward hindex)).andThen (Does.look ?_))
    rw [repaired_eq, if_pos hcomplete]
    exact Does.done

theorem Fails.verifyAndRepair (hindex : ∀ t i, Obj.index t i ∈ s.objects → s.has t = true)
    (h : ¬((s.has "runs" = true ∧ s.has "divergences" = true) ∧ missingColumns (repaired s) = [])) :
    Fails verifyAndRepair s := by
  refine Fails.look ?_
  have hmissing : missingColumns s ≠ [] := fun hnone =>
    h ⟨runs_divergences_of_complete hnone, (repaired_eq_self hnone).symm ▸ hnone⟩
  rw [if_neg hmissing]
  by_cases htables : s.has "runs" = true ∧ s.has "divergences" = true
  · refine (Does.forward additive (forward_tables htables.1 htables.2)).andThen_fails
      ((Does.createAll (index_forward hindex)).andThen_fails (Fails.look ?_))
    rw [repaired_eq, if_neg fun hcomplete => h ⟨htables, hcomplete⟩]
    exact Fails.raise _
  · refine (Fails.forward ?_).andThen
    have hruns : ∃ column ∈ additive, column.1 = "runs" := by decide
    have hdivergences : ∃ column ∈ additive, column.1 = "divergences" := by decide
    rcases not_and_or.mp htables with hnone | hnone
    · obtain ⟨column, hcolumn, hname⟩ := hruns
      exact ⟨column, hcolumn, hname ▸ Bool.eq_false_of_not_eq_true hnone⟩
    · obtain ⟨column, hcolumn, hname⟩ := hdivergences
      exact ⟨column, hcolumn, hname ▸ Bool.eq_false_of_not_eq_true hnone⟩

/-- The search is added, and nothing else in the schema changes. -/
structure Searched (s s' : Store ρ) : Prop where
  objects : s'.objects = s.objects ∪ ftsObjects.toFinset
  stamp : s'.stamp = s.stamp

theorem Does.createAdjuncts (objs : List Obj) (hdivergences : s.has "divergences" = true) :
    ∃ s', Does (all LocalStore.exec (objs.map .createAdjunct)) s s' ∧
      s'.objects = s.objects ∪ objs.toFinset ∧ s'.stamp = s.stamp := by
  induction objs generalizing s with
  | nil => exact ⟨s, Does.done, (Finset.union_empty _).symm, rfl⟩
  | cons obj objs ih =>
    have hone : ∃ s₁, (Statement.createAdjunct obj).apply s = .ok s₁ ∧
        s₁.objects = s.objects ∪ {obj} ∧ s₁.stamp = s.stamp := by
      simp only [Statement.apply, hdivergences, Bool.true_eq_false, if_false]
      split_ifs with hthere
      · exact ⟨s, rfl, (Finset.union_eq_left.mpr (Finset.singleton_subset_iff.mpr hthere)).symm, rfl⟩
      · exact ⟨_, rfl, rfl, rfl⟩
      · exact ⟨_, rfl, rfl, rfl⟩
    obtain ⟨s₁, happly, hobjects, hstamp⟩ := hone
    have hhas : s₁.has "divergences" = true := by
      rw [Store.has_iff, hobjects, Finset.mem_union]
      exact .inl (Store.has_iff.mp hdivergences)
    obtain ⟨s', hrun, hobjects', hstamp'⟩ := ih hhas
    refine ⟨s', (Does.exec happly).andThen hrun, ?_, hstamp'.trans hstamp⟩
    rw [hobjects', hobjects, Finset.union_assoc, List.toFinset_cons, Finset.insert_eq]

theorem Does.ensureFts (hdivergences : s.has "divergences" = true) :
    ∃ s', Does ensureFts s s' ∧ Searched s s' := by
  obtain ⟨s₁, hrun, hobjects, hstamp⟩ := Does.createAdjuncts ftsObjects hdivergences
  by_cases hcount : s₁.indexed = (s₁.rows "divergences").length
  · refine ⟨s₁, hrun.andThen (Does.look ?_), hobjects, hstamp⟩
    rw [if_pos hcount]
    exact Does.done
  · refine ⟨{ s₁ with indexed := (s₁.rows "divergences").length }, hrun.andThen (Does.look ?_),
      hobjects, hstamp⟩
    rw [if_neg hcount]
    exact Does.exec rfl

end Whole

/-! ## What a whole open leaves -/

section Finished

variable {s s' : Store ρ}

theorem openStore_of_does (hknown : ∀ revision, readStamp s = some revision → revision ∈ revisionChain)
    (h : Does (prepare.andThen ensureFts) s s') : openStore s none = (.ok (), s') := by
  obtain ⟨c', hrun, hlive, hleft⟩ := h ⟨s, s, false, none⟩ rfl rfl
  have hcommit : commit c' = (.ok (), { c' with disk := c'.live, within := false }) := by
    simp only [commit, hleft, Option.isSome_none, Bool.false_eq_true, if_false]
  have heq := prepareLocalStore_eq (c := ⟨s, s, false, none⟩) hknown
  rw [← andThen_assoc, andThen_ok hrun, hcommit] at heq
  simp only [openStore, heq, hlive]

theorem openStore_of_fails (hknown : ∀ revision, readStamp s = some revision → revision ∈ revisionChain)
    (h : Fails prepare s) : (openStore s none).1 ≠ .ok () := by
  obtain ⟨e, c', hrun⟩ := h ⟨s, s, false, none⟩ rfl rfl
  have heq := prepareLocalStore_eq (c := ⟨s, s, false, none⟩) hknown
  rw [andThen_error hrun] at heq
  simp only [openStore, heq]
  exact fun herror => by cases herror

theorem openStore_interrupted (n : Nat) : (openStore s (some n)).1 ≠ .ok () := by
  have hexec : ∀ st, Preserves (fun c : Conn ρ => c.left.isSome = true) (exec st) := by
    intro st c h
    unfold exec
    split
    case isTrue => exact h
    case isFalse => cases st.apply c.live <;> simpa [Conn.write] using h
  have hcheck : Preserves (fun c : Conn ρ => c.left.isSome = true) checkNotNewer := by
    refine .look fun s => ?_
    split
    · exact .done
    · split
      · exact .done
      · exact .raise _
  have hleft := (hcheck.andThen ((Preserves.prepare hexec).andThen (Preserves.ensureFts hexec)))
    ⟨s, s, false, some n⟩ rfl
  have heq : prepareLocalStore (ρ := ρ) =
      (checkNotNewer.andThen (prepare.andThen ensureFts)).andThen commit := by
    rw [andThen_assoc, andThen_assoc, prepareLocalStore]
  simp only [openStore, heq]
  cases hrun : (checkNotNewer.andThen (prepare.andThen ensureFts)) ⟨s, s, false, some n⟩ with
  | mk outcome c =>
    rw [hrun] at hleft
    cases outcome with
    | error halt =>
      rw [andThen_error hrun]
      exact fun herror => by cases herror
    | ok =>
      rw [andThen_ok hrun, commit, if_pos hleft]
      exact fun herror => by cases herror

structure Lacks (s : Store ρ) (columns : List (String × String)) : Prop where
  column : ∀ t ∈ metadata, s.has t.name = true → ∀ c ∈ t.columns, (t.name, c) ∉ columns →
    .column t.name c ∈ s.objects
  index : ∀ t ∈ metadata, s.has t.name = true → ∀ i ∈ t.indexes, .index t.name i ∈ s.objects

/-- The schema of a store to which the columns, the missing tables and the adjuncts were added. -/
def grown (s : Store ρ) (columns : List (String × String)) : Finset Obj :=
  s.objects ∪ (columnObjects columns ++ created s).toFinset ∪ (versionTable :: ftsObjects).toFinset

theorem mem_headObjects {obj : Obj} :
    obj ∈ headObjects ↔ (∃ t ∈ metadata, obj ∈ t.objects) ∨ obj ∈ versionTable :: ftsObjects := by
  rw [headObjects, List.mem_toFinset, List.mem_append, List.mem_flatMap]

variable {columns : List (String × String)}

theorem mem_grown {obj : Obj} :
    obj ∈ grown s columns ↔ obj ∈ s.objects ∨ obj ∈ columnObjects columns ∨ obj ∈ created s ∨
      obj ∈ versionTable :: ftsObjects := by
  simp only [grown, Finset.mem_union, List.mem_toFinset, List.mem_append, or_assoc]

theorem mem_created {obj : Obj} :
    obj ∈ created s ↔ ∃ t ∈ metadata, s.has t.name = false ∧ obj ∈ t.objects := by
  simp only [created, List.mem_flatMap, List.mem_filter, decide_eq_true_eq, and_assoc]

theorem mem_columnObjects {t c : String} :
    Obj.column t c ∈ columnObjects columns ↔ (t, c) ∈ columns := by
  simp only [columnObjects, List.mem_map, Obj.column.injEq]
  constructor
  · rintro ⟨⟨_, _⟩, hcolumn, rfl, rfl⟩
    exact hcolumn
  · exact fun h => ⟨_, h, rfl, rfl⟩

theorem notMem_adjuncts {t x : String} :
    Obj.column t x ∉ versionTable :: ftsObjects ∧ Obj.index t x ∉ versionTable :: ftsObjects := by
  simp [versionTable, ftsObjects, ftsTable]

theorem metadata_columns {column : String × String} (h : column ∈ additive) :
    ∃ t ∈ metadata, t.name = column.1 ∧ column.2 ∈ t.columns := by
  have hall : ∀ column ∈ additive, ∃ t ∈ metadata, t.name = column.1 ∧ column.2 ∈ t.columns := by decide
  exact hall column h

theorem metadata_names {t t' : Table} (ht : t ∈ metadata) (ht' : t' ∈ metadata) (h : t.name = t'.name) :
    t = t' := by
  have hnames : (metadata.map Table.name).Nodup := by decide
  exact List.inj_on_of_nodup_map hnames ht ht' h

/-- What is created belongs to tables that were missing. -/
theorem notMem_created {t : Table} (ht : t ∈ metadata) (hhas : s.has t.name = true) {obj : Obj}
    (hobj : ∀ t' : Table, obj ∈ t'.objects → t.name = t'.name) : obj ∉ created s := by
  intro hmem
  obtain ⟨t', ht', habsent, hin⟩ := mem_created.mp hmem
  obtain rfl := metadata_names ht ht' (hobj t' hin)
  exact Bool.false_ne_true (habsent.symm.trans hhas)

theorem Lacks.mem (h : Lacks s columns) {t : Table} (ht : t ∈ metadata) {obj : Obj}
    (hobj : obj ∈ t.objects) : obj ∈ s.objects ∨ obj ∈ columnObjects columns ∨ obj ∈ created s := by
  cases hhas : s.has t.name with
  | false => exact .inr (.inr (mem_created.mpr ⟨t, ht, hhas, hobj⟩))
  | true =>
    rw [Table.objects, List.mem_cons, List.mem_append, List.mem_map, List.mem_map] at hobj
    rcases hobj with rfl | ⟨c, hc, rfl⟩ | ⟨i, hi, rfl⟩
    · exact .inl (Store.has_iff.mp hhas)
    · by_cases hnew : (t.name, c) ∈ columns
      · exact .inr (.inl (mem_columnObjects.mpr hnew))
      · exact .inl (h.column t ht hhas c hc hnew)
    · exact .inl (h.index t ht hhas i hi)

/-- What is added makes the schema that of the models exactly when nothing else was missing. -/
theorem grown_eq_iff (hr : Released s) (hcolumns : columns ⊆ additive) :
    grown s columns = headObjects ↔ Lacks s columns := by
  constructor
  · intro heq
    have hthere : ∀ t ∈ metadata, ∀ obj ∈ t.objects, obj ∈ grown s columns := fun t ht obj hobj =>
      heq ▸ mem_headObjects.mpr (.inl ⟨t, ht, hobj⟩)
    constructor
    · intro t ht hhas c hc hnew
      have hmem := hthere t ht _ (column_mem_objects.mpr ⟨rfl, hc⟩)
      have hcreated : Obj.column t.name c ∉ created s :=
        notMem_created ht hhas fun t' hin => (column_mem_objects.mp hin).1
      rcases mem_grown.mp hmem with hold | hadded | hmade | hadjunct
      · exact hold
      · exact absurd (mem_columnObjects.mp hadded) hnew
      · exact absurd hmade hcreated
      · exact absurd hadjunct notMem_adjuncts.1
    · intro t ht hhas i hi
      have hmem := hthere t ht _ (index_mem_objects.mpr ⟨rfl, hi⟩)
      have hcreated : Obj.index t.name i ∉ created s :=
        notMem_created ht hhas fun t' hin => (index_mem_objects.mp hin).1
      rcases mem_grown.mp hmem with hold | hadded | hmade | hadjunct
      · exact hold
      · simp [columnObjects] at hadded
      · exact absurd hmade hcreated
      · exact absurd hadjunct notMem_adjuncts.2
  · intro h
    ext obj
    rw [mem_grown, mem_headObjects]
    constructor
    · rintro (hold | hadded | hmade | hadjunct)
      · exact mem_headObjects.mp (hr.known hold)
      · obtain ⟨column, hcolumn, rfl⟩ := List.mem_map.mp hadded
        obtain ⟨t, ht, hname, hc⟩ := metadata_columns (hcolumns hcolumn)
        exact .inl ⟨t, ht, column_mem_objects.mpr ⟨hname.symm, hc⟩⟩
      · obtain ⟨t, ht, -, hobj⟩ := mem_created.mp hmade
        exact .inl ⟨t, ht, hobj⟩
      · exact .inr hadjunct
    · rintro (⟨t, ht, hobj⟩ | hadjunct)
      case inr => exact .inr (.inr (.inr hadjunct))
      exact (h.mem ht hobj).imp_right (.imp_right .inl)

/-- A store that has come to its end is current exactly when it lacked no more than was added. -/
theorem finishes_of_does (hr : Released s) (hcolumns : columns ⊆ additive) {s₁ : Store ρ}
    (hprepare : Does prepare s s₁) (hobjects : s₁.objects ∪ ftsObjects.toFinset = grown s columns)
    (hstamp : s₁.stamp = some headRevision) : Finishes s none ↔ Lacks s columns := by
  have hdivergences : s₁.has "divergences" = true := by
    obtain ⟨t, ht, hname⟩ := divergences_mem
    have hthere : Obj.table "divergences" ∈ grown s columns := by
      rw [mem_grown]
      cases hhas : s.has "divergences" with
      | true => exact .inl (Store.has_iff.mp hhas)
      | false =>
        have hmade : Obj.table "divergences" ∈ created s :=
          mem_created.mpr ⟨t, ht, hname ▸ hhas, table_mem_objects.mpr hname.symm⟩
        exact .inr (.inr (.inl hmade))
    rw [← hobjects, Finset.mem_union] at hthere
    exact Store.has_iff.mpr (hthere.resolve_right (by simp [ftsObjects, ftsTable]))
  obtain ⟨s₂, hfts, hsearched⟩ := Does.ensureFts hdivergences
  have hopen := openStore_of_does hr.stamp (hprepare.andThen hfts)
  rw [← grown_eq_iff hr hcolumns, ← hobjects, ← hsearched.objects]
  constructor
  · intro h
    have hcurrent := h.2.1
    rw [hopen] at hcurrent
    exact hcurrent.objects
  · intro hcurrent
    refine ⟨by rw [hopen], ?_, (openStore_keeps s none).2⟩
    rw [hopen]
    exact ⟨hcurrent, hsearched.stamp.trans hstamp⟩

theorem not_finishes (hr : Released s) (h : Fails prepare s) : ¬Finishes s none :=
  fun hfinishes => openStore_of_fails hr.stamp h hfinishes.1

theorem Does.adopt (hindex : ∀ t i, Obj.index t i ∈ s.objects → s.has t = true) :
    Does (LocalStore.createAll.andThen
      ((LocalStore.exec .createVersionTable).andThen (LocalStore.exec .insertStamp))) s
      { s.add (created s ++ [versionTable]) with stamp := some headRevision } := by
  have hversion : Statement.apply (s.add (created s)) .createVersionTable =
      .ok (s.add (created s ++ [versionTable])) := congrArg Except.ok (Store.add_add _ _ _)
  have hinsert : Statement.apply (s.add (created s ++ [versionTable])) .insertStamp =
      .ok { s.add (created s ++ [versionTable]) with stamp := some headRevision } := by
    have hthere : versionTable ∈ (s.add (created s ++ [versionTable])).objects := by simp
    simp only [Statement.apply, if_pos hthere]
  exact (Does.createAll hindex).andThen ((Does.exec hversion).andThen (Does.exec hinsert))

theorem union_toFinset (xs ys zs : List Obj) :
    s.objects ∪ (xs ++ ys).toFinset ∪ zs.toFinset = s.objects ∪ xs.toFinset ∪ (ys ++ zs).toFinset := by
  simp only [List.toFinset_append, Finset.union_assoc]

theorem finishes_adopted (hr : Released s) (hstamp : readStamp s = none) (hruns : s.has "runs" = false) :
    Finishes s none ↔ Lacks s [] := by
  have hprepare : Does prepare s
      { s.add (created s ++ [versionTable]) with stamp := some headRevision } := by
    refine Does.look ?_
    simp only [hstamp, hruns, Bool.false_eq_true, if_false, done_andThen]
    exact Does.adopt hr.index
  exact finishes_of_does hr (List.nil_subset _) hprepare (union_toFinset _ _ _) rfl

theorem finishes_adopted_runs (hr : Released s) (hstamp : readStamp s = none)
    (hruns : s.has "runs" = true) :
    Finishes s none ↔ s.has "divergences" = true ∧ Lacks s additive := by
  by_cases hdivergences : s.has "divergences" = true
  · have hadopt := Does.adopt (index_forward hr.index)
    rw [created_congr has_forward, Store.add_add, ← List.append_assoc] at hadopt
    have hprepare : Does prepare s { s.add (columnObjects additive ++ created s ++ [versionTable]) with
        stamp := some headRevision } := by
      refine Does.look ?_
      simp only [hstamp, hruns, if_true]
      exact (Does.forward additive (forward_tables hruns hdivergences)).andThen hadopt
    rw [and_iff_right hdivergences]
    exact finishes_of_does hr (List.Subset.refl _) hprepare (union_toFinset _ _ _) rfl
  · refine iff_of_false (not_finishes hr (Fails.look ?_)) fun h => hdivergences h.1
    have hcolumn : ∃ column ∈ additive, column.1 = "divergences" := by decide
    obtain ⟨column, hcolumn, hname⟩ := hcolumn
    simp only [hstamp, hruns, if_true]
    exact (Fails.forward ⟨column, hcolumn, hname ▸ Bool.eq_false_of_not_eq_true hdivergences⟩).andThen

theorem readStamp_some {revision : String} (h : readStamp s = some revision) :
    versionTable ∈ s.objects ∧ s.stamp = some revision := by
  unfold readStamp at h
  split_ifs at h with hthere
  exact ⟨hthere, h⟩

theorem grown_eq_of_mem (hthere : versionTable ∈ s.objects) (columns : List (String × String)) :
    s.objects ∪ (columnObjects columns ++ created s).toFinset ∪ ftsObjects.toFinset =
      grown s columns := by
  rw [grown, List.toFinset_cons, Finset.union_insert]
  refine (Finset.insert_eq_of_mem ?_).symm
  exact Finset.mem_union_left _ (Finset.mem_union_left _ hthere)

/-- A store that is the current one after the repair lacks nothing. -/
theorem missingColumns_repaired (h : Lacks s additive) : missingColumns (repaired s) = [] := by
  rw [missingColumns_eq_nil_iff]
  intro t ht
  have hmem : ∀ obj ∈ t.objects, obj ∈ (repaired s).objects := by
    intro obj hobj
    rw [repaired, Store.add_objects, Finset.mem_union, List.mem_toFinset, List.mem_append]
    exact h.mem ht hobj
  exact ⟨Store.has_iff.mpr (hmem _ (table_mem_objects.mpr rfl)),
    fun c hc => hmem _ (column_mem_objects.mpr ⟨rfl, hc⟩)⟩

theorem missingColumns_congr {s' : Store ρ} (h : s'.objects = s.objects) :
    missingColumns s' = missingColumns s := by
  cases s
  cases s'
  subst h
  rfl

theorem finishes_verified (hr : Released s) (hversion : versionTable ∈ s.objects) {s₁ : Store ρ}
    (hcolumns : columns ⊆ additive)
    (hobjects : s₁.objects = s.objects ∪ (columnObjects columns).toFinset)
    (hstamp : s₁.stamp = some headRevision)
    (hdoes : ∀ s₂, Does verifyAndRepair s₁ s₂ → Does prepare s s₂)
    (hfails : Fails verifyAndRepair s₁ → Fails prepare s) :
    Finishes s none ↔ (s.has "runs" = true ∧ s.has "divergences" = true) ∧ Lacks s additive := by
  have hhas : ∀ table, s₁.has table = s.has table := by
    intro table
    simp [Store.has, hobjects, columnObjects]
  have hindex : ∀ t i, Obj.index t i ∈ s₁.objects → s₁.has t = true := by
    intro t i hmem
    rw [hhas]
    exact hr.index t i (by simpa [hobjects, columnObjects] using hmem)
  have hsteps : (columnObjects columns).toFinset ∪ (columnObjects additive ++ created s).toFinset =
      (columnObjects additive ++ created s).toFinset := by
    refine Finset.union_eq_right.mpr fun obj hobj => ?_
    rw [List.mem_toFinset, List.mem_append]
    exact .inl (List.map_subset _ hcolumns (List.mem_toFinset.mp hobj))
  have hrepaired : (repaired s₁).objects = (repaired s).objects := by
    rw [repaired, repaired, Store.add_objects, Store.add_objects, created_congr hhas, hobjects,
      Finset.union_assoc, hsteps]
  by_cases hgood : (s₁.has "runs" = true ∧ s₁.has "divergences" = true) ∧
      missingColumns (repaired s₁) = []
  · have hrun := hdoes _ (Does.verifyAndRepair hindex hgood.1 hgood.2)
    have htables := hgood.1
    rw [hhas, hhas] at htables
    rw [and_iff_right htables]
    refine finishes_of_does hr (List.Subset.refl _) hrun ?_ hstamp
    rw [hrepaired]
    exact grown_eq_of_mem hversion additive
  · refine iff_of_false (not_finishes hr (hfails (Fails.verifyAndRepair hindex hgood))) fun h => hgood ?_
    rw [hhas, hhas, missingColumns_congr hrepaired]
    exact ⟨h.1, missingColumns_repaired h.2⟩

theorem additive_eq_append (revision : String) : ∃ before, additive = before ++ stepsFrom revision := by
  refine ⟨(forwardSteps.takeWhile fun step => step.1 ≠ revision).flatMap Prod.snd, ?_⟩
  rw [stepsFrom, ← List.flatMap_append, List.takeWhile_append_dropWhile, additive]

theorem stepsFrom_subset (revision : String) : stepsFrom revision ⊆ additive := by
  obtain ⟨before, heq⟩ := additive_eq_append revision
  exact heq ▸ List.subset_append_right _ _

theorem stepsFrom_nodup (revision : String) : (stepsFrom revision).Nodup := by
  have hall : additive.Nodup := by decide
  obtain ⟨before, heq⟩ := additive_eq_append revision
  rw [heq] at hall
  exact (List.nodup_append.mp hall).2.1

theorem finishes_stamped (hr : Released s) {revision : String} (hstamp : readStamp s = some revision) :
    Finishes s none ↔
      (∀ column ∈ stepsFrom revision, s.has column.1 = true ∧ .column column.1 column.2 ∉ s.objects) ∧
        (s.has "runs" = true ∧ s.has "divergences" = true) ∧ Lacks s additive := by
  obtain ⟨hversion, hrow⟩ := readStamp_some hstamp
  by_cases hhead : revision = headRevision
  · subst hhead
    have hnone : stepsFrom headRevision = [] := by decide
    have hprepare : ∀ c : Conn ρ, c.live = s → prepare c = verifyAndRepair c := by
      rintro c rfl
      simp only [prepare, look, hstamp, if_true]
    rw [hnone, and_iff_right (List.forall_mem_nil _)]
    refine finishes_verified hr hversion (List.nil_subset _) (Finset.union_empty _).symm hrow
      (fun s₂ hrun c hlive => ?_) fun hfail c hlive => ?_
    · rw [hprepare c hlive]
      exact hrun c hlive
    · rw [hprepare c hlive]
      exact hfail c hlive
  · have hknown := hr.stamp revision hstamp
    have hprepare : ∀ c : Conn ρ, c.live = s → prepare c =
        ((all exec (addColumns (stepsFrom revision))).andThen
        ((exec .updateStamp).andThen verifyAndRepair)) c := by
      rintro c rfl
      simp only [prepare, look, hstamp, if_neg hhead, if_neg (not_not_intro hknown)]
    by_cases hsteps : ∀ column ∈ stepsFrom revision, s.has column.1 = true ∧
        .column column.1 column.2 ∉ s.objects
    · have hupdate : Statement.apply (s.add (columnObjects (stepsFrom revision))) .updateStamp =
          .ok { s.add (columnObjects (stepsFrom revision)) with stamp := some headRevision } := by
        have hthere : versionTable ∈ (s.add (columnObjects (stepsFrom revision))).objects :=
          Finset.mem_union_left _ hversion
        simp only [Statement.apply, if_pos hthere]
      have hrun := Does.steps (stepsFrom revision) (stepsFrom_nodup revision) hsteps
      rw [and_iff_right hsteps]
      have hstepped : ({ s.add (columnObjects (stepsFrom revision)) with stamp := some headRevision } :
          Store ρ).objects = s.objects ∪ (columnObjects (stepsFrom revision)).toFinset := rfl
      refine finishes_verified hr hversion (stepsFrom_subset revision) hstepped rfl
        (fun s₂ hverify c hlive => ?_) fun hfail c hlive => ?_
      · rw [hprepare c hlive]
        exact (hrun.andThen ((Does.exec hupdate).andThen hverify)) c hlive
      · rw [hprepare c hlive]
        exact (hrun.andThen_fails ((Does.exec hupdate).andThen_fails hfail)) c hlive
    · refine iff_of_false (not_finishes hr fun c hlive => ?_) fun h => hsteps h.1
      rw [hprepare c hlive]
      refine (Fails.steps ?_).andThen c hlive
      by_contra hnone
      refine hsteps fun column hcolumn => ?_
      have hgood := not_or.mp fun hbad => hnone ⟨column, hcolumn, hbad⟩
      exact ⟨Bool.eq_true_of_not_eq_false hgood.1, hgood.2⟩

/-- A whole open brings the store to the current one exactly when it can be upgraded. -/
theorem finishes_iff (hr : Released s) : Finishes s none ↔ Upgradable s := by
  cases hstamp : readStamp s with
  | some revision =>
    rw [finishes_stamped hr hstamp]
    constructor
    · rintro ⟨hsteps, htables, hlacks⟩
      refine ⟨hlacks.column, hlacks.index, fun hnone => ?_, fun r hr => ?_, fun _ _ => htables⟩
      · cases hnone.symm.trans hstamp
      · obtain rfl := Option.some.inj (hr.symm.trans hstamp)
        exact hsteps
    · intro hu
      exact ⟨hu.steps revision hstamp, hu.verified revision hstamp, hu.plain, hu.indexed⟩
  | none =>
    have hunstamped : ∀ {P : String → Prop} (r : String), readStamp s = some r → P r :=
      fun r hr => by cases hr.symm.trans hstamp
    cases hruns : s.has "runs" with
    | true =>
      rw [finishes_adopted_runs hr hstamp hruns]
      constructor
      · rintro ⟨hdivergences, hlacks⟩
        refine ⟨hlacks.column, hlacks.index, fun _ => ?_, hunstamped, hunstamped⟩
        rw [if_pos hruns]
        exact hdivergences
      · intro hu
        have hadopted := hu.adopted hstamp
        rw [if_pos hruns] at hadopted
        exact ⟨hadopted, hu.plain, hu.indexed⟩
    | false =>
      have hnone : ¬s.has "runs" = true := Bool.not_eq_true _ ▸ hruns
      rw [finishes_adopted hr hstamp hruns]
      constructor
      · intro hlacks
        refine ⟨fun t ht hhas c hc _ => hlacks.column t ht hhas c hc List.not_mem_nil, hlacks.index,
          fun _ => ?_, hunstamped, hunstamped⟩
        rw [if_neg hnone]
        intro column hcolumn hhas
        obtain ⟨t, ht, hname, hc⟩ := metadata_columns hcolumn
        exact hname ▸ hlacks.column t ht (hname ▸ hhas) _ hc List.not_mem_nil
      · intro hu
        have hadopted := hu.adopted hstamp
        rw [if_neg hnone] at hadopted
        refine ⟨fun t ht hhas c hc _ => ?_, hu.indexed⟩
        by_cases hadditive : (t.name, c) ∈ additive
        · exact hadopted _ hadditive hhas
        · exact hu.plain t ht hhas c hc hadditive

end Finished

/-! ## Any number of opens -/

section Opens

variable {s s' : Store ρ}

/-- The rows and the search decide nothing. -/
theorem Upgradable.congr (hobjects : s'.objects = s.objects) (hstamp : s'.stamp = s.stamp)
    (hu : Upgradable s') : Upgradable s := by
  cases s
  cases s'
  subst hobjects hstamp
  exact ⟨hu.plain, hu.indexed, hu.adopted, hu.steps, hu.verified⟩

theorem Released.congr (hobjects : s'.objects = s.objects) (hstamp : s'.stamp = s.stamp)
    (hr : Released s) : Released s' := by
  cases s
  cases s'
  subst hobjects hstamp
  exact ⟨hr.known, hr.column, hr.index, hr.stamp⟩

namespace Current

theorem mem (h : Current s) {t : Table} (ht : t ∈ metadata) {obj : Obj} (hobj : obj ∈ t.objects) :
    obj ∈ s.objects := by
  rw [h.objects]
  exact mem_headObjects.mpr (.inl ⟨t, ht, hobj⟩)

theorem has (h : Current s) {t : Table} (ht : t ∈ metadata) : s.has t.name = true :=
  Store.has_iff.mpr (h.mem ht (table_mem_objects.mpr rfl))

theorem adjunct (h : Current s) {obj : Obj} (hobj : obj ∈ versionTable :: ftsObjects) :
    obj ∈ s.objects := by
  rw [h.objects]
  exact mem_headObjects.mpr (.inr hobj)

theorem readStamp (h : Current s) : readStamp s = some headRevision := by
  rw [LocalStore.readStamp, if_pos (h.adjunct List.mem_cons_self), h.stamp]

theorem released (h : Current s) : Released s where
  known := h.objects ▸ Finset.Subset.refl _
  column := by
    intro t c hmem
    rw [h.objects, mem_headObjects] at hmem
    obtain ⟨table, ht, hobj⟩ := hmem.resolve_right notMem_adjuncts.1
    exact (column_mem_objects.mp hobj).1 ▸ h.has ht
  index := by
    intro t i hmem
    rw [h.objects, mem_headObjects] at hmem
    obtain ⟨table, ht, hobj⟩ := hmem.resolve_right notMem_adjuncts.2
    exact (index_mem_objects.mp hobj).1 ▸ h.has ht
  stamp := by
    intro revision hstamp
    obtain rfl := Option.some.inj (h.readStamp.symm.trans hstamp)
    decide

theorem complete (h : Current s) : missingColumns s = [] :=
  missingColumns_eq_nil_iff.mpr fun _ ht =>
    ⟨h.has ht, fun _ hc => h.mem ht (column_mem_objects.mpr ⟨rfl, hc⟩)⟩

theorem upgradable (h : Current s) : Upgradable s where
  plain := fun _ ht _ _ hc _ => h.mem ht (column_mem_objects.mpr ⟨rfl, hc⟩)
  indexed := fun _ ht _ _ hi => h.mem ht (index_mem_objects.mpr ⟨rfl, hi⟩)
  adopted := fun hnone => by cases hnone.symm.trans h.readStamp
  steps := by
    intro revision hstamp
    obtain rfl := Option.some.inj (h.readStamp.symm.trans hstamp)
    have hnone : stepsFrom headRevision = [] := by decide
    rw [hnone]
    exact List.forall_mem_nil _
  verified := fun _ _ => runs_divergences_of_complete h.complete

/-- Nothing is added to the current store. -/
theorem harmless (h : Current s) (n : Nat) : Harmless s n := by
  intro st hst
  have hagenda : agenda s = ftsObjects.map .createAdjunct := by
    simp only [agenda, h.readStamp, if_true, if_pos h.complete, List.nil_append]
  have hmem := List.mem_of_mem_take hst
  rw [hagenda] at hmem
  obtain ⟨obj, hobj, rfl⟩ := List.mem_map.mp hmem
  rintro ⟨s', happly, hne⟩
  simp only [Statement.apply, if_pos (h.adjunct (List.mem_cons_of_mem _ hobj))] at happly
  exact hne (congrArg Store.objects (Except.ok.inj happly)).symm

theorem migrates (h : Current s) (fates : List (Option Nat)) : Migrates s fates := by
  induction fates generalizing s with
  | nil => exact (finishes_iff h.released).mpr h.upgradable
  | cons fate fates ih =>
    cases fate with
    | none =>
      have hfinishes := (finishes_iff h.released).mpr h.upgradable
      exact ⟨.inl hfinishes, ih hfinishes.2.1⟩
    | some n =>
      have hself : (openStore s (some n)).2 = s :=
        (openStore_iff (K := (· = s)) rfl (fun d hd => congrArg Store.objects hd) h.released
          h.upgradable n).mpr
          (h.harmless n)
      refine ⟨.inr ⟨openStore_interrupted n, ?_⟩, ?_⟩
      · rw [hself]
        exact ⟨rfl, rfl, rfl⟩
      · rw [hself]
        exact ih h

end Current

/-- An interrupted open is atomic exactly when the schema and the stamp are the same afterwards. -/
theorem atomic_interrupted_iff (n : Nat) : Atomic s (some n) ↔
    (openStore s (some n)).2.objects = s.objects ∧ (openStore s (some n)).2.stamp = s.stamp := by
  have hraised := openStore_interrupted (s := s) n
  have hrows := (openStore_keeps s (some n)).2
  constructor
  · rintro (hfinishes | h)
    · exact absurd hfinishes.1 hraised
    · exact ⟨h.2.1, h.2.2.1⟩
  · exact fun h => .inr ⟨hraised, h.1, h.2, hrows⟩

/-- Whatever interrupts the opens, each is atomic and the last one finishes, exactly when the store can
be upgraded and no interruption before the first whole open comes behind a statement that adds to it. -/
theorem migrates_iff (h : Released s) (fates : List (Option Nat)) :
    Migrates s fates ↔
      Upgradable s ∧ ∀ n, some n ∈ fates.takeWhile Option.isSome → Harmless s n := by
  induction fates generalizing s with
  | nil => simpa [Migrates] using finishes_iff h
  | cons fate fates ih =>
    -- an open that changes nothing leaves a store that cannot be upgraded either
    have hstuck : ¬Upgradable s → (openStore s fate).2.objects = s.objects →
        (openStore s fate).2.stamp = s.stamp → ¬Migrates (openStore s fate).2 fates := by
      intro hu hobjects hstamp hlater
      exact hu (((ih (h.congr hobjects hstamp)).mp hlater).1.congr hobjects hstamp)
    by_cases hu : Upgradable s
    case neg =>
      refine iff_of_false (fun hmigrates => ?_) fun hall => hu hall.1
      obtain ⟨hatomic, hlater⟩ := hmigrates
      rcases hatomic with hfinishes | ⟨-, hobjects, hstamp, -⟩
      · cases fate with
        | none => exact hu ((finishes_iff h).mp hfinishes)
        | some n => exact openStore_interrupted n hfinishes.1
      · exact hstuck hu hobjects hstamp hlater
    case pos =>
      rw [and_iff_right hu]
      cases fate with
      | none =>
        have hfinishes := (finishes_iff h).mpr hu
        refine iff_of_true ⟨.inl hfinishes, hfinishes.2.1.migrates fates⟩ ?_
        simp
      | some n =>
        have hsame : (openStore s (some n)).2.objects = s.objects ∧
            (openStore s (some n)).2.stamp = s.stamp ↔ Harmless s n :=
          openStore_iff (K := fun d => d.objects = s.objects ∧ d.stamp = s.stamp) ⟨rfl, rfl⟩
            (fun _ hd => hd.1) h hu n
        have hself : (openStore s (some n)).2 = s ↔ Harmless s n :=
          openStore_iff (K := (· = s)) rfl (fun _ hd => congrArg Store.objects hd) h hu n
        have hfates : (∀ m, some m ∈ (some n :: fates).takeWhile Option.isSome → Harmless s m) ↔
            Harmless s n ∧ ∀ m, some m ∈ fates.takeWhile Option.isSome → Harmless s m := by
          simp
        rw [hfates, Migrates, atomic_interrupted_iff, hsame]
        refine and_congr_right fun hharmless => ?_
        rw [hself.mpr hharmless, ih h, and_iff_right hu]

/-- Before the first open there is nothing. -/
def absent (ρ : Type) : Store ρ := { objects := ∅, stamp := none, rows := fun _ => [], indexed := 0 }

theorem released_absent : Released (absent ρ) where
  known := Finset.empty_subset _
  column := fun _ _ hmem => absurd hmem (Finset.notMem_empty _)
  index := fun _ _ hmem => absurd hmem (Finset.notMem_empty _)
  stamp := fun _ hstamp => absurd (readStamp_some hstamp).1 (Finset.notMem_empty _)

theorem migrates_absent : Migrates (absent String) [some 0, none] := by
  have hnone : ∀ table, (absent String).has table ≠ true := fun _ h =>
    absurd (Store.has_iff.mp h) (Finset.notMem_empty _)
  have hstamp : ∀ revision, readStamp (absent String) ≠ some revision := fun _ h =>
    absurd (readStamp_some h).1 (Finset.notMem_empty _)
  refine (migrates_iff released_absent _).mpr ⟨?_, fun n hn => ?_⟩
  · refine ⟨fun t _ h => absurd h (hnone _), fun t _ h => absurd h (hnone _), fun _ => ?_,
      fun _ h => absurd h (hstamp _), fun _ h => absurd h (hstamp _)⟩
    rw [if_neg (hnone _)]
    exact fun _ _ h => absurd h (hnone _)
  · obtain rfl : n = 0 := by simpa using hn
    exact List.forall_mem_nil _

/-- A first open that dies behind `CREATE TABLE runs` leaves a file that no later one can open. -/
theorem interrupted_install :
    ¬∀ (s : Store String) (fates : List (Option Nat)), Released s → Migrates s fates := by
  intro h
  have hopened := (h (absent String) [some 3] released_absent).2.1
  have hraised : (openStore (openStore (absent String) (some 3)).2 none).1 =
      .error (.raised (.sql (.noSuchTable "divergences"))) := by decide
  rw [hraised] at hopened
  cases hopened

end Opens

end LocalStore
end Tempest
