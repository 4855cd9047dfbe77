import Tempest.Process.Reachable
import Tempest.Python.Convert

/-!
# AgentStore — agents, their versions and the walk over their list (`agentstore.py`)

A request reads one whole document and writes one whole document, its history in it, and other requests
may run between the two.  The fields that a payload may touch stand apart from those that are the store's
to write.
-/

namespace Tempest
namespace AgentStore

open Python

/-! ## Documents -/

/-- The updatable fields of a document, or the fields of a payload; an absent field is `none`. -/
abbrev Fields := PyStr → Option JsonValue

def updatable : List PyStr :=
  [lit "name", lit "description", lit "instructions", lit "additional_instructions", lit "model",
    lit "provider", lit "model_parameters", lit "tools", lit "tool_kwargs", lit "tool_resources",
    lit "conversation_starters", lit "avatar", lit "category", lit "recursion_limit",
    lit "end_after_tools", lit "hide_sequential_outputs", lit "artifacts", lit "support_contact",
    lit "tempest_repo"]

/-- A document without its history: what is answered (`_public`) and what the history keeps. -/
structure Snapshot where
  id : PyStr
  fields : Fields
  version : Nat
  updatedAt : PyStr

structure Doc where
  current : Snapshot
  versions : List Snapshot

def Doc.history (doc : Doc) : List Snapshot := doc.versions.reverse

def Doc.commitNewVersion (doc : Doc) (now : PyStr) : Doc :=
  let current := { doc.current with version := doc.current.version + 1, updatedAt := now }
  ⟨current, doc.versions ++ [current]⟩

/-- The loop over `_UPDATABLE`, which comes to each field once. -/
def Doc.withFields (doc : Doc) (new : Fields) : Doc :=
  { doc with current := { doc.current with
      fields := fun field => if field ∈ updatable then new field else doc.current.fields field } }

def Doc.update (doc : Doc) (payload : Fields) (now : PyStr) : Doc :=
  (doc.withFields fun field => (payload field).or (doc.current.fields field)).commitNewVersion now

def Doc.revert (doc : Doc) (versionIndex : Int) (now : PyStr) : Option Doc :=
  if 0 ≤ versionIndex then
    doc.history[versionIndex.toNat]?.map fun target =>
      (doc.withFields target.fields).commitNewVersion now
  else none

/-- What a new document starts from; a provider that is given is written over this one. -/
def blank : Fields := fun field =>
  if field ∈ [lit "name", lit "description", lit "instructions", lit "avatar", lit "model"] then
    some .null
  else if field = lit "model_parameters" then some (.obj [])
  else if field ∈ [lit "tools", lit "conversation_starters"] then some (.arr [])
  else if field = lit "provider" then some (.str [])
  else none

def notNone : Option JsonValue → Option JsonValue
  | some .null => none
  | value => value

def create (id : PyStr) (payload : Fields) (now : PyStr) : Doc :=
  let current : Snapshot := ⟨id, blank, 1, now⟩
  let filled := (Doc.mk current []).withFields fun field => (notNone (payload field)).or (blank field)
  ⟨filled.current, [filled.current]⟩

variable (interp : Interpreter) (lower : PyStr → PyStr)

/-- `str(fields.get(field) or default)`. -/
def Snapshot.textOr (default : PyStr) (r : Snapshot) (field : PyStr) : PyStr :=
  match r.fields field with
  | some value => if value.truthy then value.text interp else default
  | none => default

def Doc.copyPayload (doc : Doc) : Fields := fun field =>
  if field = lit "name" then
    some (.str (doc.current.textOr interp (lit "Agent") (lit "name") ++ lit " (copy)"))
  else if field ∈ updatable then notNone (doc.current.fields field)
  else none

/-! ## The list and the walk over it -/

def Snapshot.isShown (search category : PyStr) (r : Snapshot) : Bool :=
  (search.isEmpty || decide (lower search <:+: lower (r.textOr interp [] (lit "name"))) ||
    decide (lower search <:+: lower (r.textOr interp [] (lit "description")))) &&
  (category.isEmpty || decide (category = lit "all") ||
    (match r.fields (lit "category") with
      | some (.str value) => decide (value = category)
      | _ => false))

structure Page where
  data : List Snapshot
  firstId : PyStr
  lastId : PyStr
  hasMore : Bool
  after : PyStr

def startOf (rows : List Snapshot) (cursor : PyStr) : Nat :=
  if cursor ≠ [] ∧ cursor ∈ rows.map Snapshot.id then (rows.map Snapshot.id).idxOf cursor + 1 else 0

def page (rows : List Snapshot) (limit : Int) (cursor : PyStr) : Page :=
  let start := startOf rows cursor
  let data := (rows.drop start).take (max 1 limit).toNat
  let hasMore := decide (start + data.length < rows.length)
  { data, hasMore
    firstId := (data.head?.map Snapshot.id).getD []
    lastId := (data.getLast?.map Snapshot.id).getD []
    after := if hasMore then (data.getLast?.map Snapshot.id).getD [] else [] }

/-- The client follows `after` while there is more. -/
def walk (page : PyStr → Page) : Nat → PyStr → Option (List Snapshot)
  | 0, _ => none
  | fuel + 1, cursor =>
    if (page cursor).hasMore then (walk page fuel (page cursor).after).map ((page cursor).data ++ ·)
    else some (page cursor).data

section Walk

variable {rows : List Snapshot} {limit : Int}

/-- The identity of a row leads to the place behind it. -/
theorem startOf_getElem (hids : (rows.map Snapshot.id).Nodup) (hnames : ∀ r ∈ rows, r.id ≠ [])
    {i : Nat} (hi : i < rows.length) : startOf rows rows[i].id = i + 1 := by
  have hmem : rows[i].id ∈ rows.map Snapshot.id := List.mem_map_of_mem (List.getElem_mem hi)
  have hplace : (rows.map Snapshot.id).idxOf rows[i].id = i := by
    have hi' : i < (rows.map Snapshot.id).length := by simpa using hi
    have hget : (rows.map Snapshot.id)[i] = rows[i].id := List.getElem_map _
    rw [← hget]
    exact hids.idxOf_getElem i hi'
  rw [startOf, if_pos ⟨hnames _ (List.getElem_mem hi), hmem⟩, hplace]

/-- What the walk sees from a cursor on is what stands behind it in the list. -/
theorem walk_eq (hids : (rows.map Snapshot.id).Nodup) (hnames : ∀ r ∈ rows, r.id ≠ []) (fuel : Nat)
    (cursor : PyStr) (hfuel : rows.length - startOf rows cursor < fuel) :
    walk (page rows limit) fuel cursor = some (rows.drop (startOf rows cursor)) := by
  induction fuel generalizing cursor with
  | zero => omega
  | succ fuel ih =>
    have hsize : 1 ≤ (max 1 limit).toNat := by omega
    generalize hm : (max 1 limit).toNat = m at hsize
    generalize hstart : startOf rows cursor = start at hfuel
    have hdata : (page rows limit cursor).data = (rows.drop start).take m := by
      simp only [page, hstart, hm]
    have hmore : (page rows limit cursor).hasMore =
        decide (start + ((rows.drop start).take m).length < rows.length) := by
      simp only [page, hstart, hm]
    by_cases hlast : start + m < rows.length
    · -- a full page, and its last row is not the last one
      have hplace : start + (m - 1) < rows.length := by omega
      have hfull : ((rows.drop start).take m).length = m := by
        simp only [List.length_take, List.length_drop]
        omega
      have hmore' : (page rows limit cursor).hasMore = true := by
        rw [hmore, hfull]
        exact decide_eq_true hlast
      have hget : ((rows.drop start).take m).getLast? = some rows[start + (m - 1)] := by
        rw [List.getLast?_eq_getElem?, hfull, List.getElem?_take_of_lt (by omega), List.getElem?_drop,
          List.getElem?_eq_getElem (by omega)]
      have hafter : (page rows limit cursor).after = rows[start + (m - 1)].id := by
        have hraw : (page rows limit cursor).after = if (page rows limit cursor).hasMore then
            (((page rows limit cursor).data).getLast?.map Snapshot.id).getD [] else [] := rfl
        rw [hraw, hmore', hdata, hget]
        rfl
      have hnext : startOf rows (page rows limit cursor).after = start + m := by
        rw [hafter, startOf_getElem hids hnames]
        omega
      have hrest := ih (page rows limit cursor).after (by omega)
      rw [walk, if_pos hmore', hrest, hnext, hdata, Option.map_some, ← List.drop_drop,
        List.take_append_drop]
    · have hnone : ¬ start + ((rows.drop start).take m).length < rows.length := by
        simp only [List.length_take, List.length_drop]
        omega
      have hshort : (rows.drop start).length ≤ m := by
        rw [List.length_drop]
        omega
      rw [walk, hmore, if_neg (by simpa using hnone), hdata, List.take_of_length_le hshort]

end Walk

/-! ## Requests -/

/-- What a request that has read still has to write. -/
inductive Pending where
  | commit (id : PyStr) (before after : Doc)
  | copy (payload : Fields)

/-- The documents, the requests between their read and their write, and what has happened: what updates
and reverts were answered with, who was deleted and which identities were drawn. -/
structure State where
  rows : Dict PyStr Doc
  pending : List Pending
  answered : List (PyStr × Snapshot)
  deleted : List PyStr
  drawn : List PyStr

inductive Action where
  | create (hex : PyStr) (payload : Fields) (now : PyStr)
  | update (id : PyStr) (payload : Fields) (now : PyStr)
  | revert (id : PyStr) (versionIndex : Int) (now : PyStr)
  | duplicate (id : PyStr)
  | write (i : Nat) (hex now : PyStr)
  | delete (id : PyStr)

/-- `uuid4` draws no identity twice. -/
def State.insert (s : State) (hex : PyStr) (payload : Fields) (now : PyStr) : Option State :=
  let id := lit "agent_" ++ hex
  if id ∈ s.drawn then none
  else some { s with rows := s.rows.set id (AgentStore.create id payload now), drawn := id :: s.drawn }

def State.read (s : State) (id : PyStr) (next : Doc → Option Pending) : State :=
  match (s.rows.get? id).bind next with
  | none => s
  | some p => { s with pending := p :: s.pending }

def step (s : State) : Action → Option State
  | .create hex payload now => s.insert hex payload now
  | .update id payload now => some (s.read id fun doc => some (.commit id doc (doc.update payload now)))
  | .revert id versionIndex now =>
    some (s.read id fun doc => (doc.revert versionIndex now).map (.commit id doc))
  | .duplicate id => some (s.read id fun doc => some (.copy (doc.copyPayload interp)))
  | .write i hex now =>
    match s.pending[i]? with
    | none => none
    | some (.commit id _ after) =>
      some { s with rows := s.rows.set id after, pending := s.pending.eraseIdx i
                    answered := (id, after.current) :: s.answered }
    | some (.copy payload) => ({ s with pending := s.pending.eraseIdx i }).insert hex payload now
  | .delete id =>
    some { s with rows := s.rows.filterKeys fun key => decide (key ≠ id)
                  deleted := if (s.rows.get? id).isSome then id :: s.deleted else s.deleted }

def State.Started (s : State) : Prop := s = ⟨Dict.empty, [], [], [], []⟩

/-- What a request writes over is still the document that it read. -/
def Unchanged (s : State) : Action → Prop
  | .write i _ _ => ∀ id before after, s.pending[i]? = some (.commit id before after) →
      s.rows.get? id = some before
  | _ => True

/-! ## Complete histories -/

def Doc.Numbered (doc : Doc) : Prop :=
  doc.versions.map Snapshot.version = List.range' 1 doc.current.version

/-- What `list_ordered` lists, for one order of the documents. -/
def State.listed (order : List Doc → List Doc) (s : State) : List Snapshot :=
  (order (s.rows.items.map Prod.snd)).map Doc.current

structure State.Holds (order : List Doc → List Doc) (s : State) : Prop where
  numbered : ∀ id doc, s.rows.get? id = some doc → doc.Numbered
  answered : ∀ id answer, (id, answer) ∈ s.answered → id ∉ s.deleted →
    ∃ doc, s.rows.get? id = some doc ∧ answer ∈ doc.versions
  deleted : ∀ id ∈ s.deleted, s.rows.get? id = none
  /-- What a revert writes and answers has the fields of the version that the index counts back to. -/
  reverted : ∀ id doc (k : Nat) now, s.rows.get? id = some doc → k < doc.current.version →
    ∃ after target, doc.revert k now = some after ∧ doc.history[k]? = some target ∧
      target.version = doc.current.version - k ∧
      ∀ field ∈ updatable, after.current.fields field = target.fields field
  walked : ∀ limit search category, ∃ fuel visited,
    walk (page ((s.listed order).filter (Snapshot.isShown interp lower search category)) limit)
        fuel [] = some visited ∧
      visited.Perm ((s.rows.items.map fun row => row.2.current).filter
        (Snapshot.isShown interp lower search category)) ∧
      (visited.map Snapshot.id).Nodup

structure State.Inv (s : State) : Prop where
  named : ∀ id doc, s.rows.get? id = some doc →
    doc.current.id = id ∧ id ≠ [] ∧ id ∈ s.drawn ∧ id ∉ s.deleted
  numbered : ∀ id doc, s.rows.get? id = some doc → doc.Numbered
  drawn : ∀ id ∈ s.deleted, id ∈ s.drawn
  follows : ∀ id before after, Pending.commit id before after ∈ s.pending →
    after.current.id = before.current.id ∧ after.versions = before.versions ++ [after.current] ∧
      after.current.version = before.current.version + 1
  answered : ∀ id answer, (id, answer) ∈ s.answered →
    id ∈ s.deleted ∨ ∃ doc, s.rows.get? id = some doc ∧ answer ∈ doc.versions

variable {s s' : State} {interp lower}

theorem inv_start (h : s.Started) : s.Inv := by
  subst h
  constructor <;> simp [Dict.get?, Dict.find, Dict.empty]

theorem inv_insert {hex now : PyStr} {payload : Fields} (h : s.Inv)
    (hinsert : s.insert hex payload now = some s') : s'.Inv := by
  simp only [State.insert] at hinsert
  split at hinsert
  · cases hinsert
  · rename_i hfresh
    cases hinsert
    have hold : ∀ id doc, s.rows.get? id = some doc → id ≠ lit "agent_" ++ hex := by
      rintro id doc hget rfl
      exact hfresh (h.named _ doc hget).2.2.1
    refine ⟨fun id doc hget => ?_, fun id doc hget => ?_,
      fun id hid => List.mem_cons_of_mem _ (h.drawn id hid), h.follows, fun id answer hmem => ?_⟩
    · rw [Dict.get?_set] at hget
      split at hget
      · rename_i heq
        subst heq
        cases hget
        exact ⟨rfl, by simp [lit], List.mem_cons_self, fun hmem => hfresh (h.drawn _ hmem)⟩
      · obtain ⟨hid, hne, hdrawn, hdeleted⟩ := h.named id doc hget
        exact ⟨hid, hne, List.mem_cons_of_mem _ hdrawn, hdeleted⟩
    · rw [Dict.get?_set] at hget
      split at hget
      · cases hget
        rfl
      · exact h.numbered id doc hget
    · refine (h.answered id answer hmem).imp_right ?_
      rintro ⟨doc, hget, hversion⟩
      exact ⟨doc, by rw [Dict.get?_set, if_neg (hold id doc hget), hget], hversion⟩

theorem inv_read {id : PyStr} {next : Doc → Option Pending} (h : s.Inv)
    (hnext : ∀ doc id' before after, next doc = some (.commit id' before after) →
      after.current.id = before.current.id ∧ after.versions = before.versions ++ [after.current] ∧
        after.current.version = before.current.version + 1) : (s.read id next).Inv := by
  unfold State.read
  split
  · exact h
  · rename_i p hp
    obtain ⟨doc, -, hdoc⟩ := Option.bind_eq_some_iff.1 hp
    refine ⟨h.named, h.numbered, h.drawn, fun id' before after hmem => ?_, h.answered⟩
    rcases List.mem_cons.1 hmem with rfl | hmem
    · exact hnext doc id' before after hdoc
    · exact h.follows id' before after hmem

/-- A write over the document that was read puts one version behind those that were there. -/
theorem inv_write {i : Nat} {id : PyStr} {before after : Doc} (h : s.Inv)
    (hpending : s.pending[i]? = some (.commit id before after)) (hget : s.rows.get? id = some before) :
    State.Inv { s with rows := s.rows.set id after, pending := s.pending.eraseIdx i
                       answered := (id, after.current) :: s.answered } := by
  obtain ⟨hid, hversions, hversion⟩ := h.follows id before after (List.mem_of_getElem? hpending)
  obtain ⟨hname, hne, hdrawn, hdeleted⟩ := h.named id before hget
  refine ⟨fun id' doc hget' => ?_, fun id' doc hget' => ?_, h.drawn,
    fun id' b a hmem => h.follows id' b a (List.mem_of_mem_eraseIdx hmem), fun id' answer hmem => ?_⟩
  · rw [Dict.get?_set] at hget'
    split at hget'
    · rename_i heq
      subst heq
      cases hget'
      exact ⟨hid.trans hname, hne, hdrawn, hdeleted⟩
    · exact h.named id' doc hget'
  · rw [Dict.get?_set] at hget'
    split at hget'
    · cases hget'
      have hbefore : before.versions.map Snapshot.version = List.range' 1 before.current.version :=
        h.numbered id before hget
      rw [Doc.Numbered, hversions, List.map_append, hbefore, hversion, List.range'_1_concat,
        List.map_singleton, hversion, Nat.add_comm]
    · exact h.numbered id' doc hget'
  · rcases List.mem_cons.1 hmem with heq | hmem
    · cases heq
      exact .inr ⟨after, by rw [Dict.get?_set, if_pos rfl], by simp [hversions]⟩
    · refine (h.answered id' answer hmem).imp_right ?_
      rintro ⟨doc, hget', hanswer⟩
      by_cases heq : id' = id
      · subst heq
        cases hget.symm.trans hget'
        exact ⟨after, by rw [Dict.get?_set, if_pos rfl], hversions ▸ List.mem_append_left _ hanswer⟩
      · exact ⟨doc, by rw [Dict.get?_set, if_neg heq, hget'], hanswer⟩

theorem get?_deleted {id key : PyStr} {doc : Doc} :
    (s.rows.filterKeys fun key => decide (key ≠ id)).get? key = some doc ↔
      s.rows.get? key = some doc ∧ key ≠ id := by
  rw [Dict.get?_filterKeys, decide_eq_true_eq]

theorem inv_delete (h : s.Inv) (id : PyStr) :
    State.Inv { s with rows := s.rows.filterKeys fun key => decide (key ≠ id)
                       deleted := if (s.rows.get? id).isSome then id :: s.deleted else s.deleted } := by
  have hdeleted : ∀ id', id' ∈ (if (s.rows.get? id).isSome then id :: s.deleted else s.deleted) ↔
      id' ∈ s.deleted ∨ id' = id ∧ (s.rows.get? id).isSome := by
    intro id'
    split <;> simp_all [or_comm]
  refine ⟨fun id' doc hget => ?_, fun id' doc hget => h.numbered id' doc (get?_deleted.1 hget).1,
    fun id' hid => ?_, h.follows, fun id' answer hmem => ?_⟩
  · obtain ⟨hget, hother⟩ := get?_deleted.1 hget
    obtain ⟨hid, hne, hdrawn, hgone⟩ := h.named id' doc hget
    exact ⟨hid, hne, hdrawn, fun hmem => ((hdeleted id').1 hmem).elim hgone fun heq => hother heq.1⟩
  · rcases (hdeleted id').1 hid with hid | ⟨rfl, hsome⟩
    · exact h.drawn id' hid
    · obtain ⟨doc, hget⟩ := Option.isSome_iff_exists.1 hsome
      exact (h.named id' doc hget).2.2.1
  · rcases h.answered id' answer hmem with hgone | ⟨doc, hget, hanswer⟩
    · exact .inl ((hdeleted id').2 (.inl hgone))
    · by_cases heq : id' = id
      · exact .inl ((hdeleted id').2 (.inr ⟨heq, by rw [← heq, hget]; rfl⟩))
      · exact .inr ⟨doc, get?_deleted.2 ⟨hget, heq⟩, hanswer⟩

theorem inv_step {a : Action} (h : s.Inv) (hok : Unchanged s a) (hstep : step interp s a = some s') :
    s'.Inv := by
  cases a with
  | create hex payload now => exact inv_insert h hstep
  | update id payload now =>
    cases hstep
    refine inv_read h fun doc id' before after hnext => ?_
    cases hnext
    exact ⟨rfl, rfl, rfl⟩
  | revert id versionIndex now =>
    cases hstep
    refine inv_read h fun doc id' before after hnext => ?_
    obtain ⟨doc', hrevert, heq⟩ := Option.map_eq_some_iff.1 hnext
    cases heq
    unfold Doc.revert at hrevert
    split at hrevert
    · obtain ⟨target, -, rfl⟩ := Option.map_eq_some_iff.1 hrevert
      exact ⟨rfl, rfl, rfl⟩
    · cases hrevert
  | duplicate id =>
    cases hstep
    refine inv_read h fun doc id' before after hnext => ?_
    cases hnext
  | write i hex now =>
    simp only [step] at hstep
    split at hstep
    · cases hstep
    · rename_i id before after hpending
      cases hstep
      exact inv_write h hpending (hok id before after hpending)
    · have hrest : State.Inv { s with pending := s.pending.eraseIdx i } :=
        ⟨h.named, h.numbered, h.drawn,
          fun id b a hmem => h.follows id b a (List.mem_of_mem_eraseIdx hmem), h.answered⟩
      exact inv_insert hrest hstep
  | delete id =>
    cases hstep
    exact inv_delete h id

/-! ## What holds in every state -/

theorem nodup_ids (h : s.Inv) : ((s.rows.items.map fun row => row.2.current).map Snapshot.id).Nodup := by
  have hkeys : (s.rows.items.map fun row => row.2.current).map Snapshot.id =
      s.rows.items.map Prod.fst := by
    rw [List.map_map]
    refine List.map_congr_left fun row hrow => ?_
    exact (h.named row.1 row.2 (Dict.get?_eq_some_iff.2 hrow)).1
  rw [hkeys]
  exact s.rows.nodup

theorem holds_walked (h : s.Inv) {order : List Doc → List Doc} (horder : ∀ docs, (order docs).Perm docs)
    (limit : Int) (shown : Snapshot → Bool) : ∃ fuel visited,
      walk (page ((s.listed order).filter shown) limit) fuel [] = some visited ∧
        visited.Perm ((s.rows.items.map fun row => row.2.current).filter shown) ∧
        (visited.map Snapshot.id).Nodup := by
  have hperm : ((s.listed order).filter shown).Perm
      ((s.rows.items.map fun row => row.2.current).filter shown) := by
    have hlisted := (horder (s.rows.items.map Prod.snd)).map Doc.current
    rw [List.map_map] at hlisted
    exact hlisted.filter shown
  have hids : (((s.listed order).filter shown).map Snapshot.id).Nodup :=
    (hperm.map Snapshot.id).nodup_iff.2 ((nodup_ids h).sublist (List.filter_sublist.map Snapshot.id))
  have hnames : ∀ r ∈ (s.listed order).filter shown, r.id ≠ [] := by
    intro r hr
    obtain ⟨row, hrow, rfl⟩ := List.mem_map.1 (List.mem_of_mem_filter (hperm.mem_iff.1 hr))
    obtain ⟨hid, hne, -⟩ := h.named row.1 row.2 (Dict.get?_eq_some_iff.2 hrow)
    exact hid ▸ hne
  refine ⟨_, _, walk_eq hids hnames (((s.listed order).filter shown).length + 1) [] (by omega), ?_, ?_⟩
  · simpa [startOf] using hperm
  · simpa [startOf] using hids

theorem holds_reverted (h : s.Inv) {id : PyStr} {doc : Doc} (hget : s.rows.get? id = some doc) {k : Nat}
    (hk : k < doc.current.version) (now : PyStr) :
    ∃ after target, doc.revert k now = some after ∧ doc.history[k]? = some target ∧
      target.version = doc.current.version - k ∧
      ∀ field ∈ updatable, after.current.fields field = target.fields field := by
  have hversions : doc.versions.map Snapshot.version = List.range' 1 doc.current.version :=
    h.numbered id doc hget
  have hlength : doc.versions.length = doc.current.version := by
    simpa using congrArg List.length hversions
  have hplace : doc.versions.length - 1 - k < doc.versions.length := by omega
  have hhistory : doc.history[k]? = some doc.versions[doc.versions.length - 1 - k] := by
    rw [Doc.history, List.getElem?_reverse (by omega), List.getElem?_eq_getElem (by omega)]
  refine ⟨(doc.withFields doc.versions[doc.versions.length - 1 - k].fields).commitNewVersion now, _, ?_,
    hhistory, ?_, fun field hfield => ?_⟩
  · rw [Doc.revert, if_pos (Int.natCast_nonneg k), Int.toNat_natCast, hhistory, Option.map_some]
  · have hversion := congrArg (·[doc.versions.length - 1 - k]?) hversions
    simp only [List.getElem?_map, List.getElem?_eq_getElem hplace, Option.map_some] at hversion
    rw [List.getElem?_eq_getElem (by simp; omega), Option.some.injEq, List.getElem_range'] at hversion
    omega
  · simp only [Doc.commitNewVersion, Doc.withFields, if_pos hfield]

/-- Where every write finds what its request read, histories are complete, and reverting, deleting and
walking do what they say. -/
theorem history_complete {order : List Doc → List Doc} (horder : ∀ docs, (order docs).Perm docs)
    (h : Reachable (step interp) Unchanged State.Started s) : s.Holds interp lower order := by
  have hinv : s.Inv := h.invariant (fun _ => inv_start) fun _ _ _ hinv hok hstep => inv_step hinv hok hstep
  refine ⟨hinv.numbered, fun id answer hmem hnot => (hinv.answered id answer hmem).resolve_left hnot,
    fun id hid => ?_, fun id doc k now hget hk => holds_reverted hinv hget hk now,
    fun limit search category => holds_walked hinv horder limit _⟩
  cases hget : s.rows.get? id with
  | none => rfl
  | some doc => exact absurd hid (hinv.named id doc hget).2.2.2

theorem history_complete_updated : ∃ s : State, s.answered.length = 1 ∧
    s.Holds bareInterpreter (fun text => text) (fun docs => docs) := by
  have hreached : Reachable (step bareInterpreter) Unchanged State.Started _ :=
    .step (.step (.step (.start rfl)
      (a := .create (lit "1") (fun _ => none) (lit "1")) trivial rfl)
      (a := .update (lit "agent_1") (fun _ => none) (lit "2")) trivial rfl)
      (a := .write 0 [] []) (fun id before after h => by cases h; rfl) rfl
  exact ⟨_, rfl, history_complete (fun docs => .refl docs) hreached⟩

/-- Two updates read the same document, and the second write takes the first one's version away. -/
theorem interleaved_updates : ¬ ∀ (interp : Interpreter) (lower : PyStr → PyStr)
    (order : List Doc → List Doc) (s : State), (∀ docs, (order docs).Perm docs) →
    Reachable (step interp) (fun _ _ => True) State.Started s → s.Holds interp lower order := by
  intro h
  have hreached : Reachable (step bareInterpreter) (fun _ _ => True) State.Started _ :=
    .of_always (.start rfl) [.create (lit "1") (fun _ => none) (lit "1"),
      .update (lit "agent_1") (fun _ => none) (lit "2"),
      .update (lit "agent_1") (fun _ => none) (lit "3"), .write 1 [] [], .write 0 [] []]
      (fun _ _ _ => trivial) rfl
  obtain ⟨doc, hget, hversion⟩ := (h bareInterpreter (fun text => text) (fun docs => docs) _
    (fun docs => .refl docs) hreached).answered (lit "agent_1") _
    (List.mem_cons_of_mem _ List.mem_cons_self) List.not_mem_nil
  cases hget
  have hstamp := List.mem_map_of_mem (f := Snapshot.updatedAt) hversion
  revert hstamp
  decide

end AgentStore
end Tempest
