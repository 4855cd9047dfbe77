import Tempest.Index.Fresh
import Tempest.Python.Lines

/-!
# Query — who calls a symbol (`index/query.py`)

The query layer takes the calls that are written with the last component of the symbol's name and the
calls that are resolved to the symbol.  The two are the same exactly where every called name is the
last component of one symbol at most, and of a top-level one.
-/

namespace Tempest

open Python

/-! ## Answers -/

structure Citation where
  kind : PyStr
  reference : PyStr

structure Statement where
  text : PyStr
  citations : List Citation

structure Answer where
  question : PyStr
  route : PyStr
  statements : List Statement
  unanswered : PyStr

/-- A row of `symbol_rows`: the symbol with the path of its file. -/
abbrev LocatedRow := PyStr × SymbolRow

/-- `_by_id`. -/
def rowsById (index : Index) (ids : List Nat) : List LocatedRow :=
  index.symbols.filterMap fun s =>
    if s.id ∈ ids then (index.files.find? fun f => f.id = s.fileId).map fun f => (f.path, s) else none

/-- `_source`. -/
def sourceCitation (row : LocatedRow) : Citation :=
  ⟨lit "source", row.1 ++ lit ":" ++ natText row.2.lineStart ++ lit "-" ++ natText row.2.lineEnd⟩

/-- The ids that the query of `_answer_callers` selects. -/
def callerIds (index : Index) (target : SymbolRow) : List Nat :=
  (index.calls.filter fun c =>
    c.callee.val = lastComponent target.qualname ∨ c.calleeId = some target.id).map CallRow.callerId

def rowOrder (a b : LocatedRow) : Prop :=
  a.1 < b.1 ∨ a.1 = b.1 ∧ a.2.lineStart ≤ b.2.lineStart

instance : DecidableRel rowOrder := fun _ _ => inferInstanceAs (Decidable (_ ∨ _ ∧ _))

def reportedCallers (index : Index) (target : SymbolRow) (limit : Nat) : List LocatedRow :=
  ((rowsById index (callerIds index target)).insertionSort rowOrder).take limit

/-- `_answer_callers`; `top` is what `_top_symbols` finds for the question, and `nothing` what
`_nothing_matched` says. -/
def answerCallers (index : Index) (top : List LocatedRow) (question nothing : PyStr) (limit : Nat) :
    Answer :=
  match top with
  | [] => ⟨question, lit "structural", [], nothing⟩
  | target :: _ =>
    if (rowsById index (callerIds index target.2)).isEmpty then
      ⟨question, lit "structural", [], lit "no indexed symbol calls " ++ target.2.qualname⟩
    else
      ⟨question, lit "structural", (reportedCallers index target.2 limit).map fun row =>
        ⟨row.2.qualname ++ lit " calls " ++ target.2.qualname,
          [sourceCitation row, sourceCitation target]⟩, []⟩

section Callers

variable {tools : IndexTools} {index : Index} {snaps : List Snapshot}

/-- A resolved call is one of the only symbol its name can denote, and a reported caller has a call
that is resolved to the symbol it is reported for. -/
structure NamesRightCallers (index : Index) : Prop where
  resolved : ∀ c ∈ index.calls, ∀ id, c.calleeId = some id →
    ∃ s ∈ index.symbols, s.id = id ∧ lastComponent s.qualname = c.callee.val ∧
      ∀ s' ∈ index.symbols, lastComponent s'.qualname = c.callee.val → s' = s
  reported : ∀ target ∈ index.symbols, ∀ limit, ∀ row ∈ reportedCallers index target limit,
    ∃ c ∈ index.calls, c.callerId = row.2.id ∧ c.calleeId = some target.id

def NamesOneSymbol (index : Index) : Prop :=
  ∀ c ∈ index.calls, ∀ s ∈ index.symbols, lastComponent s.qualname = c.callee.val →
    s.qualname = c.callee.val ∧
      ∀ s' ∈ index.symbols, lastComponent s'.qualname = c.callee.val → s' = s

theorem valid_buildAll : (buildAll tools .empty snaps).Valid := by
  induction snaps using List.reverseRecOn with
  | nil => exact (@tracks_empty tools).valid
  | append_singleton snaps snap ih =>
    rw [buildAll, List.foldl_append]
    exact (build_spec ih).1

theorem resolved_buildAll : ∀ c ∈ (buildAll tools .empty snaps).calls,
    c.calleeId = uniqueId (buildAll tools .empty snaps).symbols c.callee.val := by
  induction snaps using List.reverseRecOn with
  | nil => exact fun c hc => nomatch hc
  | append_singleton snaps snap ih =>
    rw [buildAll, List.foldl_append]
    exact resolved_build

theorem mem_rowsById (hvalid : index.Valid) {ids : List Nat} {row : LocatedRow} :
    row ∈ rowsById index ids ↔ row.2 ∈ index.symbols ∧ row.2.id ∈ ids ∧
      row.1 = pathOf index.files row.2.fileId := by
  have hfind : ∀ s ∈ index.symbols, (index.files.find? fun f => f.id = s.fileId).isSome := by
    intro s hs
    obtain ⟨f, hf, hid⟩ := hvalid.owned s hs
    exact List.find?_isSome.2 ⟨f, hf, by simpa using hid⟩
  constructor
  · intro h
    obtain ⟨s, hs, hrow⟩ := List.mem_filterMap.1 h
    split_ifs at hrow with hid
    obtain ⟨f, hf, rfl⟩ := Option.map_eq_some_iff.1 hrow
    exact ⟨hs, hid, by simp [pathOf, hf]⟩
  · rintro ⟨hs, hid, hpath⟩
    obtain ⟨f, hf⟩ := Option.isSome_iff_exists.1 (hfind row.2 hs)
    refine List.mem_filterMap.2 ⟨row.2, hs, ?_⟩
    rw [if_pos hid, hf]
    simp [pathOf, hf] at hpath
    simp [← hpath]

theorem mem_callers (hvalid : index.Valid) {target : SymbolRow} {row : LocatedRow} :
    row ∈ rowsById index (callerIds index target) ↔
      (∃ c ∈ index.calls, c.callerId = row.2.id ∧
        (c.callee.val = lastComponent target.qualname ∨ c.calleeId = some target.id)) ∧
      row.2 ∈ index.symbols ∧ row.1 = pathOf index.files row.2.fileId := by
  rw [mem_rowsById hvalid]
  simp only [callerIds, List.mem_map, List.mem_filter, decide_eq_true_eq]
  constructor
  · rintro ⟨hs, ⟨c, ⟨hc, hname⟩, hid⟩, hpath⟩
    exact ⟨⟨c, hc, hid, hname⟩, hs, hpath⟩
  · rintro ⟨⟨c, hc, hid, hname⟩, hs, hpath⟩
    exact ⟨hs, ⟨c, ⟨hc, hname⟩, hid⟩, hpath⟩

theorem mem_reportedCallers (hvalid : index.Valid) {target : SymbolRow} {row : LocatedRow}
    {limit : Nat} (h : row ∈ reportedCallers index target limit) :
    ∃ c ∈ index.calls, c.callerId = row.2.id ∧
      (c.callee.val = lastComponent target.qualname ∨ c.calleeId = some target.id) :=
  ((mem_callers hvalid).1 ((List.mem_insertionSort rowOrder).1 (List.mem_of_mem_take h))).1

/-- With room for all of them every caller that writes the name is reported. -/
theorem reported_of_call (hvalid : index.Valid) {target s : SymbolRow} {c : CallRow}
    (hs : s ∈ index.symbols) (hc : c ∈ index.calls) (hcaller : c.callerId = s.id)
    (hname : c.callee.val = lastComponent target.qualname) :
    ∃ limit, (pathOf index.files s.fileId, s) ∈ reportedCallers index target limit := by
  have hmem : (pathOf index.files s.fileId, s) ∈ rowsById index (callerIds index target) :=
    (mem_callers hvalid).2 ⟨⟨c, hc, hcaller, Or.inl hname⟩, hs, rfl⟩
  refine ⟨(rowsById index (callerIds index target)).length, ?_⟩
  rw [reportedCallers, List.take_of_length_le (List.length_insertionSort _ _).le]
  exact (List.mem_insertionSort rowOrder).2 hmem

theorem uniqueId_eq_some_iff (hvalid : index.Valid) {name : PyStr} {id : Nat} :
    uniqueId index.symbols name = some id ↔
      ∃ s ∈ index.symbols, s.id = id ∧ s.qualname = name ∧
        ∀ s' ∈ index.symbols, s'.qualname = name → s' = s := by
  have hmem : ∀ s, s ∈ index.symbols.filter (fun s => s.qualname = name) ↔
      s ∈ index.symbols ∧ s.qualname = name := by simp
  have hnodup : (index.symbols.filter fun s => s.qualname = name).Nodup :=
    (hvalid.symbolIds.of_map).filter _
  unfold uniqueId
  generalize (index.symbols.filter fun s => s.qualname = name) = found at hmem hnodup
  match found with
  | [] =>
    simp only [reduceCtorEq, false_iff]
    rintro ⟨s, hs, _, hname, _⟩
    cases (hmem s).2 ⟨hs, hname⟩
  | [s] =>
    obtain ⟨hs, hname⟩ := (hmem s).1 (List.mem_singleton.2 rfl)
    simp only [Option.some.injEq]
    constructor
    · rintro rfl
      exact ⟨s, hs, rfl, hname, fun s' hs' h => List.mem_singleton.1 ((hmem s').2 ⟨hs', h⟩)⟩
    · rintro ⟨s', _, rfl, _, hsole⟩
      rw [hsole s hs hname]
  | s :: t :: rest =>
    simp only [reduceCtorEq, false_iff]
    rintro ⟨s', _, _, _, hsole⟩
    obtain ⟨hs, hs'⟩ := (hmem s).1 List.mem_cons_self
    obtain ⟨ht, ht'⟩ := (hmem t).1 (List.mem_cons_of_mem s List.mem_cons_self)
    rw [hsole s hs hs', hsole t ht ht'] at hnodup
    simp at hnodup

/-- The callers of an indexed repository are right exactly where every called name can denote one
symbol at most, and that by its whole qualified name. -/
theorem namesRightCallers_iff : NamesRightCallers (buildAll tools .empty snaps) ↔
    NamesOneSymbol (buildAll tools .empty snaps) := by
  have hvalid : (buildAll tools .empty snaps).Valid := valid_buildAll
  have hresolved := @resolved_buildAll tools snaps
  generalize buildAll tools .empty snaps = index at hvalid hresolved ⊢
  have hdotless : ∀ c : CallRow, lastComponent c.callee.val = c.callee.val :=
    fun c => lastComponent_of_notMem c.callee.property
  constructor
  · intro hright c hc s hs hname
    obtain ⟨caller, hcaller, hid⟩ := hvalid.called c hc
    obtain ⟨limit, hreported⟩ : ∃ limit,
        (pathOf index.files caller.fileId, caller) ∈ reportedCallers index s limit :=
      reported_of_call hvalid hcaller hc hid.symm hname.symm
    -- the caller has a call that is resolved to the symbol, and so written with its whole name
    obtain ⟨c', hc', _, hcallee⟩ := hright.reported s hs limit _ hreported
    have hunique := hcallee
    rw [hresolved c' hc', uniqueId_eq_some_iff hvalid] at hunique
    obtain ⟨s₀, hs₀, hid₀, hwhole, _⟩ := hunique
    rw [eq_of_nodup_map hvalid.symbolIds hs₀ hs hid₀] at hwhole
    have hsame : c.callee.val = c'.callee.val := by
      calc c.callee.val = lastComponent s.qualname := hname.symm
        _ = lastComponent c'.callee.val := by rw [hwhole]
        _ = c'.callee.val := hdotless c'
    refine ⟨hwhole.trans hsame.symm, ?_⟩
    obtain ⟨s₁, hs₁, hid₁, _, hsole⟩ := hright.resolved c' hc' s.id hcallee
    rw [eq_of_nodup_map hvalid.symbolIds hs₁ hs hid₁] at hsole
    rw [hsame]
    exact hsole
  · intro hone
    have hwhole : ∀ c ∈ index.calls, ∀ s ∈ index.symbols, lastComponent s.qualname = c.callee.val →
        c.calleeId = some s.id := by
      intro c hc s hs hname
      obtain ⟨hqualname, hsole⟩ := hone c hc s hs hname
      rw [hresolved c hc, uniqueId_eq_some_iff hvalid]
      refine ⟨s, hs, rfl, hqualname, fun s' hs' hname' => hsole s' hs' ?_⟩
      rw [hname', hdotless]
    refine ⟨fun c hc id hcallee => ?_, fun target htarget limit row hrow => ?_⟩
    · rw [hresolved c hc, uniqueId_eq_some_iff hvalid] at hcallee
      obtain ⟨s, hs, hid, hqualname, _⟩ := hcallee
      have hname : lastComponent s.qualname = c.callee.val := by rw [hqualname, hdotless]
      exact ⟨s, hs, hid, hname, (hone c hc s hs hname).2⟩
    · obtain ⟨c, hc, hcaller, hname | hcallee⟩ := mem_reportedCallers hvalid hrow
      · exact ⟨c, hc, hcaller, hwhole c hc target htarget hname.symm⟩
      · exact ⟨c, hc, hcaller, hcallee⟩

end Callers

/-- A function `run`, a class with a method of that name, and a call of `job.run()`. -/
def jobTools : IndexTools where
  parse := fun _ => some
    [.definition .function ⟨lit "run", by decide⟩ 1 2 [] [] [] [],
      .definition .classDef ⟨lit "Job", by decide⟩ 3 5 [] [] []
        [.definition .function ⟨lit "run", by decide⟩ 4 5 [] (lit "self") [] []],
      .definition .function ⟨lit "start", by decide⟩ 6 7 [] (lit "job") []
        [.call (some ⟨lit "run", by decide⟩) 7 []]]
  digestOf := fun _ => lit "7a2eac89fa37345c"

def jobSource : PyStr :=
  lit "def run():\n    pass\nclass Job:\n    def run(self):\n        pass\ndef start(job):\n    job.run()\n"

def jobRepository : Snapshot :=
  billingAt [(lit "billing.py", some jobSource)] (List.nodup_singleton _)

/-- The method's call is resolved to the function. -/
theorem method_call_misnamed : ¬ NamesRightCallers (buildAll jobTools .empty [jobRepository]) := by
  intro hright
  have hcall : ∃ c ∈ (buildAll jobTools .empty [jobRepository]).calls,
      c.callee.val = lit "run" ∧ c.calleeId.isSome = true := by decide
  have hids : ((buildAll jobTools .empty [jobRepository]).symbols.filter fun s =>
      lastComponent s.qualname = lit "run").map SymbolRow.id = [1, 3] := by decide
  obtain ⟨c, hc, hname, hsome⟩ := hcall
  obtain ⟨id, hid⟩ := Option.isSome_iff_exists.1 hsome
  obtain ⟨s, _, _, _, hsole⟩ := hright.resolved c hc id hid
  have hsame : ∀ k ∈ ([1, 3] : List Nat), k = s.id := by
    intro k hk
    rw [← hids] at hk
    obtain ⟨s', hs', rfl⟩ := List.mem_map.1 hk
    obtain ⟨hmem, hlast⟩ := List.mem_filter.1 hs'
    rw [hsole s' hmem ((by simpa using hlast : lastComponent s'.qualname = lit "run").trans hname.symm)]
  have hone := hsame 1 (by decide)
  have hthree := hsame 3 (by decide)
  omega

end Tempest
