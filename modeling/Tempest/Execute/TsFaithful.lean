import Tempest.Execute.TsAgree

/-!
# TsFaithful — when the TypeScript comparison is right about two values

Values that are the same and stay within the caps are written as one document, which equals itself:
the order of a set is lost in the sort, unless the collation of the process ties two different
elements.  With the other direction this says when the answer for two values is right.
-/

namespace Tempest
namespace Ts

open Python

/-! ## Conditions -/

/-- `MAX_DEPTH` and `MAX_ITEMS`. -/
def WithinCaps (depth : Nat) : JsVal → Prop
  | .arr items => depth ≤ maxDepth ∧ items.length ≤ maxItems
  | .obj fields => depth ≤ maxDepth ∧ fields.length ≤ maxItems
  | _ => depth ≤ maxDepth

/-- The collation ties the texts of two elements only if they are one text. -/
def Untied (collation : Collation) (depth : Nat) (items : List JsVal) : Prop :=
  ∀ x ∈ items, ∀ y ∈ items, ∀ a b, Written collation depth x a → Written collation depth y b →
    collation.le a b = true → collation.le b a = true → a = b

/-- The collation ties the texts of two keys only if their entries are written alike. -/
def UntiedKeys (collation : Collation) (depth : Nat) (entries : List (JsVal × JsVal)) : Prop :=
  ∀ e ∈ entries, ∀ f ∈ entries, ∀ a b, EntryWritten collation depth e a →
    EntryWritten collation depth f b →
    collation.le a.1 b.1 = true → collation.le b.1 a.1 = true → a = b

/-- A node above the cap that is sent as it is: no line break in a string, no invalid date, no
ties. -/
def Sendable (collation : Collation) (depth : Nat) : JsVal → Prop
  | .str s => depth ≤ maxDepth → oneLineText (ofUtf16 s) = true
  | .date none => maxDepth < depth
  | .set items => depth ≤ maxDepth → Untied collation (depth + 1) items
  | .map entries => depth ≤ maxDepth → UntiedKeys collation (depth + 1) entries
  | .obj fields => depth ≤ maxDepth → ∀ f ∈ fields, oneLineText (ofUtf16 f.1) = true
  | _ => True

section Complete

variable {collation : Collation} {depth : Nat} {u v : JsVal} {doc : JsonValue}

theorem written_of_shape (hdepth : depth ≤ maxDepth) (h : Shape collation depth u doc) :
    Written collation depth u doc := by
  unfold Written
  cases h with
  | null | bool _ | str _ => rw [canonicalize, atDepth_of_le hdepth]
  | num hzero =>
    rw [canonicalize, atDepth_of_le hdepth]
    simp only [canonicalNumber, if_neg hzero]
  | arr hlen hdocs =>
    rw [canonicalize, atDepth_of_le hdepth, if_neg (Nat.not_lt.2 hlen), items_ok.2 hdocs]
    rfl
  | plain hname =>
    rcases plainName_cases hname with ⟨rfl, rfl⟩ | ⟨rfl, rfl⟩ | ⟨rfl, rfl⟩ | ⟨rfl, rfl⟩ |
      ⟨expo, frac, rfl, hunits, rfl⟩
    · rw [canonicalize, atDepth_of_le hdepth]
    · rw [canonicalize, atDepth_of_le hdepth, canonicalNumber]
    · rw [canonicalize, atDepth_of_le hdepth, canonicalNumber]
    · rw [canonicalize, atDepth_of_le hdepth, canonicalNumber]
    · rw [canonicalize, atDepth_of_le hdepth, canonicalNumber, if_pos ⟨rfl, hunits⟩]
  | tagged hshape =>
    cases hshape with
    | bigint n => rw [canonicalize, atDepth_of_le hdepth]
    | date iso => rw [canonicalize, atDepth_of_le hdepth]
    | map hdocs =>
      rw [canonicalize, atDepth_of_le hdepth, entries_ok.2 hdocs]
      rfl
    | set hdocs =>
      rw [canonicalize, atDepth_of_le hdepth, items_ok.2 hdocs]
      rfl
  | obj hlen hdocs =>
    rw [canonicalize, atDepth_of_le hdepth, if_neg (Nat.not_lt.2 hlen),
      fields_ok.2 ⟨_, hdocs, rfl⟩]
    rfl

/-! ## Documents that arrive and equal themselves -/

structure Good (doc : JsonValue) : Prop where
  arrives : oneLine doc = true
  self : pyEq doc doc = true

theorem oneLineItems_iff {docs : List JsonValue} :
    oneLineItems docs = true ↔ ∀ d ∈ docs, oneLine d = true := by
  induction docs with
  | nil => simp [oneLineItems]
  | cons d docs ih => simp [oneLineItems, ih]

theorem oneLineFields_iff {fields : List (PyStr × JsonValue)} :
    oneLineFields fields = true ↔
      ∀ f ∈ fields, oneLineText f.1 = true ∧ oneLine f.2 = true := by
  induction fields with
  | nil => simp [oneLineFields]
  | cons f fields ih => simp [oneLineFields, ih, and_assoc]

theorem good_str {s : PyStr} (h : oneLineText s = true) : Good (.str s) :=
  ⟨by rwa [oneLine], by rw [pyEq]; exact decide_eq_true rfl⟩

theorem good_arr {docs : List JsonValue} (h : ∀ d ∈ docs, Good d) : Good (.arr docs) where
  arrives := by
    rw [oneLine]
    exact oneLineItems_iff.2 fun d hd => (h d hd).arrives
  self := by
    rw [pyEq, itemsEq_iff, List.forall₂_same]
    exact fun d hd => (h d hd).self

theorem good_obj {fields : List (PyStr × JsonValue)} (hkeys : (fields.map Prod.fst).Nodup)
    (hline : ∀ f ∈ fields, oneLineText f.1 = true) (h : ∀ f ∈ fields, Good f.2) :
    Good (.obj fields) where
  arrives := by
    rw [oneLine]
    exact oneLineFields_iff.2 fun f hf => ⟨hline f hf, (h f hf).arrives⟩
  self := by
    rw [pyEq, Bool.and_eq_true]
    refine ⟨decide_eq_true rfl, fieldsIn_iff.2 fun f hf => ⟨f.2, ?_, (h f hf).self⟩⟩
    exact Dict.find_of_mem hkeys hf

theorem good_marker {name : PyStr} (h : name ∈ plainNames) : Good (marker name) := by
  refine good_obj (by simp) ?_ ?_
  · simp only [List.mem_singleton, forall_eq]
    decide
  · simp only [List.mem_singleton, forall_eq]
    refine good_str ?_
    have hall : ∀ name ∈ plainNames, oneLineText name = true := by decide
    exact hall name h

theorem good_tagged {name : PyStr} (h : name ∈ taggedNames) (hdoc : Good doc) :
    Good (tagged name doc) := by
  refine good_obj (by simp [tempestKey_ne]) ?_ ?_
  · simp only [List.mem_cons, List.not_mem_nil, or_false, forall_eq_or_imp, forall_eq]
    decide
  · simp only [List.mem_cons, List.not_mem_nil, or_false, forall_eq_or_imp, forall_eq]
    refine ⟨good_str ?_, hdoc⟩
    have hall : ∀ name ∈ taggedNames, oneLineText name = true := by decide
    exact hall name h

theorem oneLine_ascii {s : PyStr} (h : ∀ c ∈ s, c.val < 0x80) : oneLineText s = true := by
  rw [oneLineText, List.all_eq_true]
  intro c hc
  have hlt := h c hc
  simp only [isBreak, Bool.not_eq_true', Bool.or_eq_false_iff, beq_eq_false_iff_ne]
  omega

theorem good_number {neg : Bool} {expo : Fin 2047} {frac : Fin (2 ^ 52)}
    (h : ¬ (neg = true ∧ units expo frac = 0)) : Good (numberDocument neg expo frac) := by
  obtain ⟨q, hq, -⟩ := numeric_numberDocument h
  have hkind := docKind_number neg expo frac
  generalize numberDocument neg expo frac = doc at hq hkind
  cases doc with
  | bool _ | int _ | float _ => exact ⟨rfl, by simp [pyEq, scalarEq, hq]⟩
  | null | str _ | arr _ | obj _ => cases hkind

/-! ## The same value is written as the same document -/

theorem at_strict {p : Prop} (h : Reading.at ⟨false, false⟩ depth p) : p := by
  rcases h with ⟨h, -⟩ | h
  · cases h
  · exact h

/-- A value and all that are the same have one document, and it is good. -/
def Completes (collation : Collation) (u : JsVal) : Prop :=
  ∀ depth v, Agree ⟨false, false⟩ depth u v → Everywhere WithinCaps depth u →
    Everywhere KeysNodup depth u → Everywhere (Sendable collation) depth u →
    ∃ doc, Written collation depth u doc ∧ Written collation depth v doc ∧ Good doc

theorem scalar_written (hdepth : depth ≤ maxDepth) (hu : u.isScalar = true)
    (hsend : Everywhere (Sendable collation) depth u) :
    ∃ doc, Written collation depth u doc ∧ Good doc := by
  cases u with
  | null => exact ⟨_, written_of_shape hdepth .null, rfl, rfl⟩
  | undefined => exact ⟨_, written_of_shape hdepth (.plain rfl), good_marker (by decide)⟩
  | bool b =>
    refine ⟨_, written_of_shape hdepth (.bool b), rfl, ?_⟩
    simp [pyEq, scalarEq, numeric]
  | num x =>
    refine ⟨_, written_of_shape hdepth (shape_num x), ?_⟩
    cases x with
    | nan => exact good_marker (by decide)
    | inf neg => cases neg <;> exact good_marker (by decide)
    | finite neg expo frac =>
      rw [canonicalNumber]
      split_ifs with hzero
      · exact good_marker (by decide)
      · exact good_number hzero
  | str s => exact ⟨_, written_of_shape hdepth (.str s), good_str (hsend hdepth)⟩
  | bigint n =>
    refine ⟨_, written_of_shape hdepth (.tagged (.bigint n)), good_tagged (by decide) ?_⟩
    refine good_str (oneLine_ascii fun c hc => ?_)
    have hchar := intChar_of_mem_intText hc
    unfold IntChar at hchar
    omega
  | date iso =>
    cases iso with
    | none => exact absurd hsend (Nat.not_lt.2 hdepth)
    | some iso =>
      refine ⟨_, written_of_shape hdepth (.tagged (.date iso)), good_tagged (by decide) ?_⟩
      exact good_str (oneLine_ascii iso.ascii)
  | arr _ | map _ | set _ | obj _ => cases hu

theorem scalar_same (hu : u.isScalar = true) (h : Agree ⟨false, false⟩ depth u v) : v = u := by
  cases u with
  | bool _ | num _ =>
    rw [Agree] at h
    rcases at_strict h with h | ⟨h, -⟩
    · exact h
    · cases h
  | null | undefined | str _ | bigint _ | date _ =>
    rw [Agree] at h
    exact at_strict h
  | arr _ | map _ | set _ | obj _ => cases hu

/-- The members of a container have their documents, and so have those of the other one. -/
theorem members_have_documents {α β : Type} {R : α → α → Prop} {W : α → β → Prop} {G : β → Prop}
    {xs ys : List α} (h : List.Forall₂ R xs ys)
    (hone : ∀ x ∈ xs, ∀ y, R x y → ∃ d, W x d ∧ W y d ∧ G d) :
    ∃ docs, List.Forall₂ W xs docs ∧ List.Forall₂ W ys docs ∧ ∀ d ∈ docs, G d := by
  induction h with
  | nil => exact ⟨[], .nil, .nil, by simp⟩
  | cons hxy _ ih =>
    rw [List.forall_mem_cons] at hone
    obtain ⟨doc, hx, hy, hgood⟩ := hone.1 _ hxy
    obtain ⟨docs, hxs, hys, hgoods⟩ := ih hone.2
    exact ⟨doc :: docs, .cons hx hxs, .cons hy hys, List.forall_mem_cons.2 ⟨hgood, hgoods⟩⟩

/-- Sorting forgets the order of items that are not tied. -/
theorem insertionSort_eq {α : Type} {r : α → α → Prop} [DecidableRel r]
    (htotal : ∀ a b, r a b ∨ r b a) (htrans : ∀ a b c, r a b → r b c → r a c) {xs xs' : List α}
    (hperm : xs'.Perm xs) (huntied : ∀ a ∈ xs, ∀ b ∈ xs, r a b → r b a → a = b) :
    xs'.insertionSort r = xs.insertionSort r := by
  have : Std.Total r := ⟨htotal⟩
  have : IsTrans α r := ⟨htrans⟩
  have hmem : ∀ {ys : List α} {a}, a ∈ ys.insertionSort r ↔ a ∈ ys := List.mem_insertionSort _
  refine List.Perm.eq_of_pairwise ?_ (List.pairwise_insertionSort r xs')
    (List.pairwise_insertionSort r xs) ?_
  · intro a b ha hb
    exact huntied a (hperm.mem_iff.1 (hmem.1 ha)) b (hmem.1 hb)
  · exact (List.perm_insertionSort _ _).trans (hperm.trans (List.perm_insertionSort _ _).symm)

theorem sort_eq {docs docs' : List JsonValue} (hperm : docs'.Perm docs)
    (huntied : ∀ a ∈ docs, ∀ b ∈ docs, collation.le a b = true → collation.le b a = true → a = b) :
    collation.sort docs' = collation.sort docs :=
  insertionSort_eq collation.total collation.trans hperm huntied

theorem sortEntries_eq {docs docs' : List (JsonValue × JsonValue)} (hperm : docs'.Perm docs)
    (huntied : ∀ a ∈ docs, ∀ b ∈ docs,
      collation.le a.1 b.1 = true → collation.le b.1 a.1 = true → a = b) :
    collation.sortEntries docs' = collation.sortEntries docs :=
  insertionSort_eq (fun a b => collation.total a.1 b.1)
    (fun a b c => collation.trans a.1 b.1 c.1) hperm huntied

theorem sortKeys_eq {docs docs' : List (JsStr × JsonValue)} (hperm : docs'.Perm docs)
    (hkeys : (docs.map Prod.fst).Nodup) : sortKeys docs' = sortKeys docs :=
  insertionSort_eq (r := fun a b : JsStr × JsonValue => a.1 ≤ b.1)
    (fun a b => le_total a.1 b.1) (fun _ _ _ => le_trans) hperm
    fun _ ha _ hb hab hba => List.inj_on_of_nodup_map hkeys ha hb (le_antisymm hab hba)

theorem completes_arr {items : List JsVal} (ih : ∀ x ∈ items, Completes collation x) :
    Completes collation (.arr items) := by
  intro depth v h hcaps hkeys hsend
  rw [Agree] at h
  obtain ⟨ys, rfl, hagree⟩ := at_strict h
  simp only [Everywhere, everywhereItems_iff] at hcaps hkeys hsend
  have hagree := agreeItems_iff.1 hagree
  obtain ⟨docs, hxs, hys, hgood⟩ := members_have_documents hagree fun x hx _ hxy =>
    ih x hx _ _ hxy (hcaps.2 x hx) (hkeys.2 x hx) (hsend.2 x hx)
  obtain ⟨hdepth, hlen⟩ : depth ≤ maxDepth ∧ items.length ≤ maxItems := hcaps.1
  have hlen' : ys.length ≤ maxItems := hagree.length_eq ▸ hlen
  exact ⟨_, written_of_shape hdepth (.arr hlen hxs), written_of_shape hdepth (.arr hlen' hys),
    good_arr hgood⟩

theorem completes_set {items : List JsVal} (ih : ∀ x ∈ items, Completes collation x) :
    Completes collation (.set items) := by
  intro depth v h hcaps hkeys hsend
  rw [Agree] at h
  obtain ⟨ys, zs, rfl, hperm, hagree⟩ := at_strict h
  simp only [Everywhere, everywhereItems_iff] at hcaps hkeys hsend
  obtain ⟨docs, hxs, hzs, hgood⟩ := members_have_documents (agreeItems_iff.1 hagree)
    fun x hx _ hxy => ih x hx _ _ hxy (hcaps.2 x hx) (hkeys.2 x hx) (hsend.2 x hx)
  have hdepth : depth ≤ maxDepth := hcaps.1
  obtain ⟨docs', hys, hdocs⟩ := List.perm_comp_forall₂ hperm hzs
  have hsorted : collation.sort docs' = collation.sort docs := by
    refine sort_eq hdocs fun a ha b hb => ?_
    obtain ⟨x, hx, hxa⟩ := forall₂_mem_right hxs ha
    obtain ⟨y, hy, hyb⟩ := forall₂_mem_right hxs hb
    exact hsend.1 hdepth x hx y hy a b hxa hyb
  refine ⟨_, written_of_shape hdepth (.tagged (.set hxs)), ?_, ?_⟩
  · rw [← hsorted]
    exact written_of_shape hdepth (.tagged (.set hys))
  · refine good_tagged (by decide) (good_arr fun d hd => hgood d ?_)
    exact (List.mem_insertionSort _).1 hd

theorem completes_map {entries : List (JsVal × JsVal)}
    (ih : ∀ e ∈ entries, Completes collation e.1 ∧ Completes collation e.2) :
    Completes collation (.map entries) := by
  intro depth v h hcaps hkeys hsend
  rw [Agree] at h
  obtain ⟨ys, zs, rfl, hperm, hagree⟩ := at_strict h
  simp only [Everywhere, everywhereEntries_iff] at hcaps hkeys hsend
  have hone : ∀ e ∈ entries, ∀ f, Agree ⟨false, false⟩ (depth + 1) e.1 f.1 ∧
      Agree ⟨false, false⟩ (depth + 1) e.2 f.2 → ∃ doc, EntryWritten collation (depth + 1) e doc ∧
        EntryWritten collation (depth + 1) f doc ∧ Good doc.1 ∧ Good doc.2 := by
    intro e he f hef
    obtain ⟨hcap, hkey, hsent⟩ := And.intro (hcaps.2 e he) (And.intro (hkeys.2 e he) (hsend.2 e he))
    obtain ⟨key, hk, hk', hkgood⟩ := (ih e he).1 _ _ hef.1 hcap.1 hkey.1 hsent.1
    obtain ⟨doc, hd, hd', hdgood⟩ := (ih e he).2 _ _ hef.2 hcap.2 hkey.2 hsent.2
    exact ⟨(key, doc), ⟨hk, hd⟩, ⟨hk', hd'⟩, hkgood, hdgood⟩
  obtain ⟨docs, hxs, hzs, hgood⟩ := members_have_documents (agreeEntries_iff.1 hagree) hone
  have hdepth : depth ≤ maxDepth := hcaps.1
  obtain ⟨docs', hys, hdocs⟩ := List.perm_comp_forall₂ hperm hzs
  have hsorted : collation.sortEntries docs' = collation.sortEntries docs := by
    refine sortEntries_eq hdocs fun a ha b hb => ?_
    obtain ⟨x, hx, hxa⟩ := forall₂_mem_right hxs ha
    obtain ⟨y, hy, hyb⟩ := forall₂_mem_right hxs hb
    exact hsend.1 hdepth x hx y hy a b hxa hyb
  refine ⟨_, written_of_shape hdepth (.tagged (.map hxs)), ?_, ?_⟩
  · rw [← hsorted]
    exact written_of_shape hdepth (.tagged (.map hys))
  · refine good_tagged (by decide) (good_arr ?_)
    refine List.forall_mem_map.2 fun e he => good_arr ?_
    have hgoods := hgood e ((List.mem_insertionSort _).1 he)
    simp [hgoods.1, hgoods.2]

theorem keys_of_written {fields : List (JsStr × JsVal)} {docs : List (JsStr × JsonValue)}
    (h : List.Forall₂ (FieldWritten collation depth) fields docs) :
    fields.map Prod.fst = docs.map Prod.fst := by
  induction h with
  | nil => rfl
  | cons hf _ ih => rw [List.map_cons, List.map_cons, ih, hf.1]

theorem completes_obj {fields : List (JsStr × JsVal)} (ih : ∀ f ∈ fields, Completes collation f.2) :
    Completes collation (.obj fields) := by
  intro depth v h hcaps hkeys hsend
  rw [Agree] at h
  obtain ⟨ys, zs, rfl, hperm, hagree⟩ := at_strict h
  simp only [Everywhere, everywhereFields_iff] at hcaps hkeys hsend
  -- Read strictly, no member is passed over.
  have hkeeps : ∀ fs : List (JsStr × JsVal),
      (fs.filter fun f => (⟨false, false⟩ : Reading).keeps f.1) = fs :=
    fun fs => List.filter_eq_self.2 fun _ _ => rfl
  have hagree := agreeFields_iff.1 hagree
  rw [hkeeps] at hperm hagree
  have hone : ∀ f ∈ fields, ∀ g : JsStr × JsVal,
      f.1 = g.1 ∧ Agree ⟨false, false⟩ (depth + 1) f.2 g.2 →
      ∃ doc, FieldWritten collation (depth + 1) f doc ∧ FieldWritten collation (depth + 1) g doc ∧
        Good doc.2 := by
    intro f hf g hfg
    obtain ⟨doc, hd, hd', hgood⟩ :=
      ih f hf _ _ hfg.2 (hcaps.2 f hf) (hkeys.2 f hf) (hsend.2 f hf)
    exact ⟨(f.1, doc), ⟨rfl, hd⟩, ⟨hfg.1.symm, hd'⟩, hgood⟩
  obtain ⟨docs, hxs, hzs, hgood⟩ := members_have_documents hagree hone
  obtain ⟨hdepth, hlen⟩ : depth ≤ maxDepth ∧ fields.length ≤ maxItems := hcaps.1
  have hlen' : ys.length ≤ maxItems := by
    rw [hperm.length_eq, ← hagree.length_eq]
    exact hlen
  obtain ⟨docs', hys, hdocs⟩ := List.perm_comp_forall₂ hperm hzs
  have hsorted : sortKeys docs' = sortKeys docs :=
    sortKeys_eq hdocs (keys_of_written hxs ▸ hkeys.1)
  refine ⟨_, written_of_shape hdepth (.obj hlen hxs), ?_, ?_⟩
  · rw [← hsorted]
    exact written_of_shape hdepth (.obj hlen' hys)
  · have hown : ∀ item ∈ ownFields (sortKeys docs), item ∈ ownFields docs :=
      fun item hitem => (ownFields_perm docs).mem_iff.1 hitem
    refine good_obj (ownFields_keys hxs hkeys.1) ?_ ?_
    · intro item hitem
      obtain ⟨f, hf, hwritten⟩ := forall₂_mem_right (members_written hxs) (hown item hitem)
      rw [← hwritten.1]
      exact hsend.1 hdepth f (List.mem_filter.1 hf).1
    · intro item hitem
      obtain ⟨d, hd, rfl⟩ := List.mem_map.1 (hown item hitem)
      exact hgood d (List.mem_filter.1 hd).1

theorem completes_all (u : JsVal) : Completes collation u := by
  refine JsVal.ind ?_ ?_ ?_ ?_ ?_ u
  · intro u hscalar depth v h hcaps _ hsend
    obtain rfl := scalar_same hscalar h
    have hdepth : depth ≤ maxDepth := by
      cases v with
      | arr _ | map _ | set _ | obj _ => cases hscalar
      | _ => exact hcaps
    obtain ⟨doc, hwritten, hgood⟩ := scalar_written hdepth hscalar hsend
    exact ⟨doc, hwritten, hwritten, hgood⟩
  · exact fun items ih => completes_arr ih
  · exact fun entries ih => completes_map ih
  · exact fun items ih => completes_set ih
  · exact fun fields ih => completes_obj ih

end Complete

/-! ## The answer -/

/-- A JavaScript value: its objects have each key once. -/
def JsValue := { u : JsVal // Everywhere KeysNodup 0 u }

def Answer.isEqual : Answer → Bool
  | .compared .equal => true
  | _ => false

def Answer.isUnprovable : Answer → Bool
  | .compared (.unprovable _) => true
  | _ => false

/-- The answer for two values is right: equal only if they are the same, and then always within the
caps; unprovable when they differ only below the depth cap. -/
structure Faithful (answer : Answer) (u v : JsVal) : Prop where
  sound : answer.isEqual = true → Same u v
  complete : Same u v → Everywhere WithinCaps 0 u → Everywhere WithinCaps 0 v →
    answer.isEqual = true
  capped : SameAbove u v → ¬ Same u v → answer.isUnprovable = true

/-- Both values are objects with one tag of the Python encoder. -/
def SameTag (u v : JsVal) : Prop :=
  ∃ tag, tagKind (.str tag) ≠ none ∧ ∃ fields fields', u = .obj fields ∧ v = .obj fields' ∧
    (js "__t", .str (utf16 tag)) ∈ fields ∧ (js "__t", .str (utf16 tag)) ∈ fields'

/-- Two values that the code tells apart, or that it sends alike. -/
structure Clear (collation : Collation) (u v : JsVal) : Prop where
  unspelled : ¬ Same u v → Everywhere NoMarker 0 u ∧ Everywhere NoMarker 0 v
  sendable : Same u v → Everywhere WithinCaps 0 u → Everywhere (Sendable collation) 0 u
  untagged : ¬ SameTag u v
  apart : Close u v → Same u v
  above : SameAbove u v → Same u v

section Verdict

variable {collation : Collation} {reader : TextReader} {cfg : CompareConfig} {depth n : Nat}
  {stdout stderr : PyStr} {u v : JsVal} {a b : JsonValue}

/-- Documents that `_values_equal` accepts: tagged alike, or equal and not a boolean for a number. -/
theorem values_accepted {signOnly : Bool}
    (h : valuesEqual reader cfg (n + 1) a b = .ok (true, signOnly)) :
    (∃ xs ys, a = .obj xs ∧ b = .obj ys ∧ pyEq (getTag xs) (getTag ys) = true ∧
      tagKind (getTag xs) ≠ none) ∨ pyEq a b = true ∧ isBoolDoc a = isBoolDoc b := by
  cases a with
  | obj xs =>
    cases b with
    | obj ys =>
      by_cases htag : pyEq (getTag xs) (getTag ys) = true
      · cases hkind : tagKind (getTag xs) with
        | some kind => exact .inl ⟨xs, ys, rfl, rfl, htag, by simp [hkind]⟩
        | none =>
          simp only [valuesEqual, htag, Bool.not_true, Bool.false_eq_true, if_false, hkind,
            Except.ok.injEq, Prod.mk.injEq] at h
          exact .inr ⟨h.1, rfl⟩
      · simp [valuesEqual, htag] at h
    | _ => simp [valuesEqual] at h
  | bool x =>
    cases b with
    | bool y =>
      simp only [valuesEqual, Except.ok.injEq, Prod.mk.injEq, beq_iff_eq] at h
      obtain ⟨rfl, -⟩ := h
      exact .inr ⟨by simp [pyEq, scalarEq, numeric], rfl⟩
    | _ => simp [valuesEqual] at h
  | _ =>
    cases b with
    | obj _ | bool _ => simp [valuesEqual] at h
    | _ =>
      simp only [valuesEqual, Except.ok.injEq, Prod.mk.injEq, Bool.and_eq_true] at h
      exact .inr ⟨h.1.1, rfl⟩

theorem values_self (hself : pyEq a a = true)
    (htag : ∀ xs, a = .obj xs → tagKind (getTag xs) = none ∧ pyEq (getTag xs) (getTag xs) = true) :
    valuesEqual reader cfg (n + 1) a a = .ok (true, false) := by
  cases a with
  | obj xs =>
    obtain ⟨hkind, htagSelf⟩ := htag xs rfl
    simp [valuesEqual, htagSelf, hkind, hself]
  | bool x => simp [valuesEqual]
  | _ => simp [valuesEqual, hself, valuesEqual.sameType]

/-- A document with a tag comes from an object that has it. -/
theorem tag_member {xs : List (PyStr × JsonValue)} (h : Written collation 0 u (.obj xs))
    (hkind : tagKind (getTag xs) ≠ none) :
    ∃ tag fields, getTag xs = .str tag ∧ u = .obj fields ∧
      (js "__t", .str (utf16 tag)) ∈ fields := by
  have hnone : ∀ items : List (PyStr × JsonValue), (∀ f ∈ items, f.1 ≠ lit "__t") →
      tagKind (getTag items) = none := by
    intro items hitems
    have hfind : Dict.find (lit "__t") items = none := by
      refine Dict.find_eq_none_iff.2 fun hmem => ?_
      obtain ⟨f, hf, hkey⟩ := List.mem_map.1 hmem
      exact hitems f hf hkey
    rw [getTag, hfind]
    rfl
  rcases shape_dict (shape_of_written (Nat.zero_le _) h) rfl with ⟨name, -, hdoc⟩ |
    ⟨name, content, -, hdoc⟩ | ⟨fields, docs, rfl, hdoc, hdocs⟩
  · rw [JsonValue.obj.inj hdoc] at hkind
    refine absurd (hnone _ ?_) hkind
    simp only [List.mem_singleton, forall_eq]
    decide
  · rw [JsonValue.obj.inj hdoc] at hkind
    refine absurd (hnone _ ?_) hkind
    simp only [List.mem_cons, List.not_mem_nil, or_false, forall_eq_or_imp, forall_eq]
    decide
  · cases hfind : Dict.find (lit "__t") xs with
    | none => exact absurd (by rw [getTag, hfind]; rfl) hkind
    | some y =>
      have htag : getTag xs = y := by rw [getTag, hfind]; rfl
      rw [htag] at hkind ⊢
      cases y with
      | str tag =>
        have hmem : (lit "__t", JsonValue.str tag) ∈ ownFields docs :=
          (ownFields_perm docs).mem_iff.1 (JsonValue.obj.inj hdoc ▸ Dict.mem_of_find hfind)
        obtain ⟨f, hf, hwritten⟩ := forall₂_mem_right (members_written hdocs) hmem
        have hkey : f.1 = js "__t" := by
          rw [← utf16_ofUtf16 f.1, hwritten.1]
          rfl
        refine ⟨tag, fields, rfl, rfl, ?_⟩
        rw [← hkey, ← written_str hwritten.2]
        exact (List.mem_filter.1 hf).1
      | _ => exact absurd rfl hkind

theorem tag_self {xs : List (PyStr × JsonValue)} (h : pyEq (.obj xs) (.obj xs) = true) :
    pyEq (getTag xs) (getTag xs) = true := by
  rw [pyEq, Bool.and_eq_true] at h
  cases hfind : Dict.find (lit "__t") xs with
  | none =>
    rw [getTag, hfind]
    rfl
  | some y =>
    obtain ⟨y', hfind', heq⟩ := fieldsIn_iff.1 h.2 _ (Dict.mem_of_find hfind)
    obtain rfl : y = y' := Option.some.inj (hfind.symm.trans hfind')
    rw [getTag, hfind]
    exact heq

/-! ### What `canonicalize` throws -/

variable {reason : PyStr}

theorem bind_eq_error {α β : Type} {x : Except PyStr α} {f : α → Except PyStr β} :
    x >>= f = .error reason ↔ x = .error reason ∨ ∃ a, x = .ok a ∧ f a = .error reason := by
  cases x with
  | error _ | ok _ => simp [bind, Except.bind]

def Explains (collation : Collation) (u : JsVal) : Prop :=
  ∀ depth reason, canonicalize collation depth u = .error reason → reason ≠ []

theorem items_explain {items : List JsVal} (ih : ∀ x ∈ items, Explains collation x)
    (h : canonicalizeItems collation depth items = .error reason) : reason ≠ [] := by
  induction items with
  | nil => cases h
  | cons x items ihItems =>
    simp only [List.forall_mem_cons] at ih
    rw [canonicalizeItems] at h
    rcases bind_eq_error.1 h with h | ⟨doc, -, h⟩
    · exact ih.1 _ _ h
    · rcases bind_eq_error.1 h with h | ⟨docs, -, h⟩
      · exact ihItems ih.2 h
      · cases h

theorem entries_explain {entries : List (JsVal × JsVal)}
    (ih : ∀ e ∈ entries, Explains collation e.1 ∧ Explains collation e.2)
    (h : canonicalizeEntries collation depth entries = .error reason) : reason ≠ [] := by
  induction entries with
  | nil => cases h
  | cons e entries ihEntries =>
    simp only [List.forall_mem_cons] at ih
    rw [canonicalizeEntries] at h
    rcases bind_eq_error.1 h with h | ⟨key, -, h⟩
    · exact ih.1.1 _ _ h
    · rcases bind_eq_error.1 h with h | ⟨value, -, h⟩
      · exact ih.1.2 _ _ h
      · rcases bind_eq_error.1 h with h | ⟨docs, -, h⟩
        · exact ihEntries ih.2 h
        · cases h

theorem inOrder_error {fields : List (JsStr × Except PyStr JsonValue)}
    (h : inOrder fields = .error reason) : ∃ f ∈ fields, f.2 = .error reason := by
  induction fields with
  | nil => cases h
  | cons f fields ih =>
    rw [inOrder] at h
    rcases bind_eq_error.1 h with h | ⟨value, -, h⟩
    · exact ⟨f, List.mem_cons_self, h⟩
    · rcases bind_eq_error.1 h with h | ⟨values, -, h⟩
      · obtain ⟨g, hg, hreason⟩ := ih h
        exact ⟨g, List.mem_cons_of_mem _ hg, hreason⟩
      · cases h

theorem explains_of {u : JsVal}
    (h : ∀ depth reason, depth ≤ maxDepth → canonicalize collation depth u = .error reason →
      reason ≠ []) : Explains collation u := by
  intro depth reason hreason
  by_cases hdepth : depth ≤ maxDepth
  · exact h depth reason hdepth hreason
  · -- Below the cap nothing is thrown.
    have hcapped : ∀ x, atDepth depth x = .ok (marker (lit "depth-capped")) :=
      fun x => if_pos (Nat.not_le.1 hdepth)
    cases u with
    | date iso => cases iso <;> rw [canonicalize, hcapped] at hreason <;> cases hreason
    | _ =>
      rw [canonicalize, hcapped] at hreason
      cases hreason

theorem explains_all (u : JsVal) : Explains collation u := by
  have hlead : ∀ {s t : PyStr}, s ≠ [] → s ++ t ≠ [] := by
    intro s t hs h
    exact hs (List.append_eq_nil_iff.1 h).1
  refine JsVal.ind ?_ ?_ ?_ ?_ ?_ u
  · intro u hscalar
    refine explains_of fun depth reason hdepth h => ?_
    cases u with
    | date iso =>
      cases iso with
      | none =>
        rw [canonicalize, atDepth_of_le hdepth] at h
        cases h
        decide
      | some iso =>
        rw [canonicalize, atDepth_of_le hdepth] at h
        cases h
    | arr _ | map _ | set _ | obj _ => cases hscalar
    | _ =>
      rw [canonicalize, atDepth_of_le hdepth] at h
      cases h
  · intro items ih
    refine explains_of fun depth reason hdepth h => ?_
    rw [canonicalize, atDepth_of_le hdepth] at h
    split_ifs at h with hlen
    · cases h
      exact hlead (by decide)
    · rcases bind_eq_error.1 h with h | ⟨docs, -, h⟩
      · exact items_explain ih h
      · cases h
  · intro entries ih
    refine explains_of fun depth reason hdepth h => ?_
    rw [canonicalize, atDepth_of_le hdepth] at h
    rcases bind_eq_error.1 h with h | ⟨docs, -, h⟩
    · exact entries_explain ih h
    · cases h
  · intro items ih
    refine explains_of fun depth reason hdepth h => ?_
    rw [canonicalize, atDepth_of_le hdepth] at h
    rcases bind_eq_error.1 h with h | ⟨docs, -, h⟩
    · exact items_explain ih h
    · cases h
  · intro fields ih
    refine explains_of fun depth reason hdepth h => ?_
    rw [canonicalize, atDepth_of_le hdepth] at h
    split_ifs at h with hlen
    · cases h
      exact hlead (hlead (by decide))
    · rcases bind_eq_error.1 h with h | ⟨out, -, h⟩
      · obtain ⟨f, hf, hreason⟩ := inOrder_error h
        rw [canonicalizeFields_eq_map] at hf
        obtain ⟨g, hg, rfl⟩ := List.mem_map.1 ((List.mem_insertionSort _).1 hf)
        exact ih g hg _ _ hreason
      · cases h

/-! ### Right answers -/

/-- What is observed of a value: its document, or why it has none. -/
theorem observe_cases {w : JsVal} {o : TsObservation}
    (h : observe collation w stdout stderr = some o) :
    (∃ a, Written collation 0 w a ∧ o = ⟨true, a, none, stdout, stderr⟩) ∨
      ∃ reason, o = ⟨false, .null, some reason, stdout, stderr⟩ := by
  unfold observe at h
  split_ifs at h with hprinted
  cases hdoc : canonicalize collation 0 w with
  | ok doc =>
    rw [hdoc] at h
    dsimp only at h
    split_ifs at h with hline
    exact .inl ⟨doc, hdoc, (Option.some.inj h).symm⟩
  | error reason =>
    rw [hdoc] at h
    dsimp only at h
    rw [if_neg (explains_all w 0 reason hdoc)] at h
    exact .inr ⟨reason, (Option.some.inj h).symm⟩

theorem documents_of_equal
    (h : (answer reader cfg collation stdout stderr u v).isEqual = true) :
    ∃ a b signOnly, Written collation 0 u a ∧ Written collation 0 v b ∧
      valuesEqual reader cfg (nesting a + 1) a b = .ok (true, signOnly) := by
  unfold answer at h
  cases hbase : observe collation u stdout stderr with
  | none => simp [hbase, Answer.isEqual] at h
  | some base =>
    cases hhead : observe collation v stdout stderr with
    | none => simp [hbase, hhead, Answer.isEqual] at h
    | some head =>
      simp only [hbase, hhead] at h
      rcases observe_cases hbase with ⟨a, ha, rfl⟩ | ⟨reason, rfl⟩
      · rcases observe_cases hhead with ⟨b, hb, rfl⟩ | ⟨reason, rfl⟩
        · refine ⟨a, b, ?_⟩
          simp only [compareObserved, Bool.and_self, if_true, bind, Except.bind] at h
          cases hvalues : valuesEqual reader cfg (nesting a + 1) a b with
          | error e => simp [hvalues, Answer.isEqual] at h
          | ok values =>
            rcases values with ⟨equal, signOnly⟩
            cases equal with
            | true => exact ⟨signOnly, ha, hb, rfl⟩
            | false =>
              simp [hvalues, Answer.isEqual, pure, Except.pure] at h
        · simp [compareObserved, Answer.isEqual, notEncoded] at h
      · simp [compareObserved, Answer.isEqual, notEncoded] at h

/-- A document that arrives and equals itself, sent twice. -/
theorem equal_of_document (hu : Written collation 0 u a) (hv : Written collation 0 v a)
    (hline : oneLine a = true) (hprinted : oneLineText stdout = true ∧ oneLineText stderr = true)
    (hself : valuesEqual reader cfg (nesting a + 1) a a = .ok (true, false)) :
    (answer reader cfg collation stdout stderr u v).isEqual = true := by
  have hobserve : ∀ {w}, Written collation 0 w a →
      observe collation w stdout stderr = some ⟨true, a, none, stdout, stderr⟩ := by
    intro w hw
    rw [observe, hprinted.1, hprinted.2, show canonicalize collation 0 w = .ok a from hw]
    simp [hline]
  rw [answer, hobserve hu, hobserve hv]
  simp [compareObserved, hself, Answer.isEqual, bind, Except.bind, pure, Except.pure]

end Verdict

/-! ## Arrays of texts, and a boolean in an array -/

theorem everywhere_texts {P : Nat → JsVal → Prop} {texts : List JsStr}
    (harr : P 0 (.arr (texts.map JsVal.str))) (hstr : ∀ s ∈ texts, P 1 (.str s)) :
    Everywhere P 0 (.arr (texts.map JsVal.str)) := by
  rw [Everywhere, everywhereItems_iff]
  refine ⟨harr, fun x hx => ?_⟩
  obtain ⟨s, hs, rfl⟩ := List.mem_map.1 hx
  simpa [Everywhere] using hstr s hs

def texts (items : List JsStr) : JsValue :=
  ⟨.arr (items.map JsVal.str), everywhere_texts trivial fun _ _ => trivial⟩

/-- Arrays of texts agree only if they are one array: nothing in them lies below the cap. -/
theorem eq_of_agree_texts {r : Reading} {xs ys : List JsStr}
    (h : Agree r 0 (texts xs).val (texts ys).val) : xs = ys := by
  have hcap : ∀ {depth p}, depth ≤ maxDepth → Reading.at r depth p → p := fun hdepth h =>
    h.resolve_left fun hbelow => Nat.not_lt.2 hdepth hbelow.2
  rw [texts, texts, Agree] at h
  obtain ⟨zs, hzs, hitems⟩ := hcap (Nat.zero_le _) h
  obtain rfl := JsVal.arr.inj hzs
  rw [agreeItems_iff, List.forall₂_map_left_iff, List.forall₂_map_right_iff] at hitems
  refine List.forall₂_eq_eq_eq ▸ hitems.imp fun s t hst => ?_
  rw [Agree] at hst
  exact (JsVal.str.inj (hcap (by decide) hst)).symm

theorem same_texts (xs : List JsStr) : Same (texts xs).val (texts xs).val := by
  rw [Same, texts, Agree]
  refine .inr ⟨_, rfl, agreeItems_iff.2 (List.forall₂_same.2 fun x hx => ?_)⟩
  obtain ⟨s, -, rfl⟩ := List.mem_map.1 hx
  rw [Agree]
  exact .inr rfl

/-- Arrays of texts are told apart, and sent alike if no text has a line break. -/
theorem clear_texts {collation : Collation} {xs ys : List JsStr}
    (hlines : ∀ s ∈ xs, oneLineText (ofUtf16 s) = true) :
    Clear collation (texts xs).val (texts ys).val where
  unspelled := fun _ => ⟨everywhere_texts trivial fun _ _ => trivial,
    everywhere_texts trivial fun _ _ => trivial⟩
  sendable := fun _ _ => everywhere_texts trivial fun s hs _ => hlines s hs
  untagged := by
    rintro ⟨tag, -, fields, -, hobj, -⟩
    cases hobj
  apart := by
    intro h
    obtain rfl := eq_of_agree_texts h
    exact same_texts xs
  above := by
    intro h
    obtain rfl := eq_of_agree_texts h
    exact same_texts xs

def tiedLocale : Collation := ⟨fun _ _ => true, by simp, by simp⟩

def noReader : TextReader := ⟨fun _ => [], fun _ => none⟩

def single (u : JsVal) (h : u.isScalar = true) : JsValue :=
  ⟨.arr [u], by cases u <;> first | exact ⟨trivial, trivial, trivial⟩ | cases h⟩

end Ts
end Tempest
