import Tempest.Compare.Projection

/-!
# Faithful — the canonical encoding identifies what it should

`Same` says when two built-in values are the same value: the same constructor at every node and
equal scalars, dicts as unordered maps, sets as unordered collections.  `encode_eq_iff` says that
two encoded values are equal trees exactly when they are the same value, whatever order a set or
a dict was iterated in.

The encoding has no result on a string with a surrogate or an integer that `str()` refuses to
print, once a sort key or the bytes are asked for; `clean` is the absence of both.
-/

namespace Tempest

open Python

/-! ## The same value -/

inductive Same : PyVal → PyVal → Prop
  | none : Same .none .none
  | bool (b : Bool) : Same (.bool b) (.bool b)
  | int (n : Int) : Same (.int n) (.int n)
  | float {x y : PyFloat} (h : x.hexval = y.hexval) : Same (.float x) (.float y)
  | str (s : PyStr) : Same (.str s) (.str s)
  | bytes (data : Bytes) : Same (.bytes data) (.bytes data)
  | list {xs ys : List PyVal} (h : List.Forall₂ Same xs ys) : Same (.list xs) (.list ys)
  | tuple {xs ys : List PyVal} (h : List.Forall₂ Same xs ys) : Same (.tuple xs) (.tuple ys)
  | set {xs xs' ys : List PyVal} (hperm : xs.Perm xs') (h : List.Forall₂ Same xs' ys) :
      Same (.set xs) (.set ys)
  | frozenset {xs xs' ys : List PyVal} (hperm : xs.Perm xs') (h : List.Forall₂ Same xs' ys) :
      Same (.frozenset xs) (.frozenset ys)
  | dict {xs xs' ys : List (PyVal × PyVal)} (hperm : xs.Perm xs')
      (hkeys : List.Forall₂ Same (xs'.map Prod.fst) (ys.map Prod.fst))
      (hvalues : List.Forall₂ Same (xs'.map Prod.snd) (ys.map Prod.snd)) :
      Same (.dict xs) (.dict ys)

def SameKey (k l : PyVal) : Prop := ∃ c, canonicalize k = .ok c ∧ canonicalize l = .ok c

mutual

def DistinctKeys : PyVal → Prop
  | .list items => DistinctKeysItems items
  | .tuple items => DistinctKeysItems items
  | .set items => DistinctKeysItems items
  | .frozenset items => DistinctKeysItems items
  | .dict items => items.Pairwise (fun p q => ¬ SameKey p.1 q.1) ∧ DistinctKeysPairs items
  | _ => True

def DistinctKeysItems : List PyVal → Prop
  | [] => True
  | item :: items => DistinctKeys item ∧ DistinctKeysItems items

def DistinctKeysPairs : List (PyVal × PyVal) → Prop
  | [] => True
  | (key, value) :: items => DistinctKeys key ∧ DistinctKeys value ∧ DistinctKeysPairs items

end

/-! ## Depths -/

mutual

/-- A value that is encoded at some depth has the same tree at every smaller one. -/
theorem encode_shallow {d e : Nat} (hde : e ≤ d) : ∀ {v : PyVal} {c : Canon},
    encode d v = .ok c → encode e v = .ok c
  | .none, c, h | .bool _, c, h | .int _, c, h | .float _, c, h | .str _, c, h | .bytes _, c, h
  | .rejected _, c, h | .bare _, c, h | .hostile _, c, h | .cycle, c, h => by
    simp only [encode, atDepth_eq_ok] at h ⊢
    exact ⟨hde.trans h.1, h.2⟩
  | .list items, c, h | .tuple items, c, h => by
    simp only [encode, atDepth_eq_ok, bind_eq_ok] at h ⊢
    rcases h with ⟨hd, canons, hitems, hc⟩
    exact ⟨hde.trans hd, canons, encodeItems_shallow (Nat.succ_le_succ hde) hitems, hc⟩
  | .set items, c, h | .frozenset items, c, h => by
    simp only [encode, atDepth_eq_ok, bind_eq_ok] at h ⊢
    rcases h with ⟨hd, canons, hitems, hc⟩
    exact ⟨hde.trans hd, canons, encodeItems_shallow (Nat.succ_le_succ hde) hitems, hc⟩
  | .dict items, c, h => by
    simp only [encode, atDepth_eq_ok, bind_eq_ok] at h ⊢
    rcases h with ⟨hd, pairs, hitems, hc⟩
    exact ⟨hde.trans hd, pairs, encodePairs_shallow (Nat.succ_le_succ hde) hitems, hc⟩
  | .object _ attrs, c, h => by
    simp only [encode, atDepth_eq_ok, bind_eq_ok] at h ⊢
    rcases h with ⟨hd, canons, hattrs, hc⟩
    exact ⟨hde.trans hd, canons, encodeAttrs_shallow (Nat.succ_le_succ hde) hattrs, hc⟩

theorem encodeItems_shallow {d e : Nat} (hde : e ≤ d) : ∀ {items : List PyVal}
    {canons : List Canon}, encodeItems d items = .ok canons → encodeItems e items = .ok canons
  | [], _, h => h
  | item :: items, canons, h => by
    simp only [encodeItems, bind_eq_ok] at h ⊢
    rcases h with ⟨c, hc, cs, hcs, hout⟩
    exact ⟨c, encode_shallow hde hc, cs, encodeItems_shallow hde hcs, hout⟩

theorem encodePairs_shallow {d e : Nat} (hde : e ≤ d) : ∀ {items : List (PyVal × PyVal)}
    {pairs : List (Canon × Canon)}, encodePairs d items = .ok pairs → encodePairs e items = .ok pairs
  | [], _, h => h
  | (key, value) :: items, pairs, h => by
    simp only [encodePairs, bind_eq_ok] at h ⊢
    rcases h with ⟨k, hk, v, hv, cs, hcs, hout⟩
    exact ⟨k, encode_shallow hde hk, v, encode_shallow hde hv, cs, encodePairs_shallow hde hcs,
      hout⟩

theorem encodeAttrs_shallow {d e : Nat} (hde : e ≤ d) : ∀ {attrs : List (PyStr × PyVal)}
    {canons : List (PyStr × Canon)},
    encodeAttrs d attrs = .ok canons → encodeAttrs e attrs = .ok canons
  | [], _, h => h
  | (_, value) :: attrs, canons, h => by
    simp only [encodeAttrs, bind_eq_ok] at h ⊢
    rcases h with ⟨v, hv, cs, hcs, hout⟩
    exact ⟨v, encode_shallow hde hv, cs, encodeAttrs_shallow hde hcs, hout⟩

end

theorem canonicalize_of_encode {d : Nat} {v : PyVal} {c : Canon} (h : encode d v = .ok c) :
    canonicalize v = .ok c :=
  encode_shallow (Nat.zero_le d) h

/-! ## Constructors -/

/-- The constructor of a value, counted so that it can be told from its tree. -/
def valueShape : PyVal → Nat
  | .none => 0
  | .bool _ => 1
  | .int _ => 2
  | .float _ => 3
  | .str _ => 4
  | .bytes _ => 5
  | .list _ => 6
  | .tuple _ => 7
  | .set _ => 8
  | .frozenset _ => 9
  | .dict _ => 10
  | .object _ _ => 11
  | .rejected _ => 12
  | .bare _ => 13
  | .hostile _ => 14
  | .cycle => 15

def canonShape : Canon → Nat
  | .none => 0
  | .bool _ => 1
  | .int _ => 2
  | .float _ => 3
  | .str _ => 4
  | .bytes _ => 5
  | .seq .list _ => 6
  | .seq .tuple _ => 7
  | .seq .set _ => 8
  | .seq .frozenset _ => 9
  | .dict _ => 10
  | .obj _ _ => 11

theorem encode_shape {d : Nat} {v : PyVal} {c : Canon} (h : encode d v = .ok c) :
    canonShape c = valueShape v := by
  cases v with
  | none | bool _ | int _ | float _ | str _ | bytes _ =>
    simp only [encode, atDepth_eq_ok, Except.ok.injEq] at h
    rw [← h.2]
    rfl
  | list _ | tuple _ | object _ _ =>
    simp only [encode, atDepth_eq_ok, bind_eq_ok, pure_eq_ok] at h
    rcases h with ⟨_, _, _, hc⟩
    rw [← hc]
    rfl
  | set _ | frozenset _ | dict _ =>
    simp only [encode, atDepth_eq_ok, bind_eq_ok, pure_eq_ok] at h
    rcases h with ⟨_, _, _, _, _, hc⟩
    rw [← hc]
    rfl
  | rejected _ | bare _ | hostile _ | cycle => simp [encode, atDepth_eq_ok] at h

theorem same_shape {u v : PyVal} (h : Same u v) : valueShape u = valueShape v := by
  cases h <;> rfl

/-! ## Equal trees -/

/-- Encodings of `x`, at any depth, are equal to encodings of the same values and no others. -/
def Agrees (x : PyVal) : Prop :=
  x.plain = true → DistinctKeys x → ∀ {y d e c c'}, Encodes d x c → Encodes e y c' →
    (c = c' ↔ Same x y)

/-- The sort key of a dict item determines its key. -/
theorem dict_key_unique {d : Nat} {xs : List (PyVal × PyVal)} {cs : List (Canon × Canon)}
    (hdistinct : xs.Pairwise fun p q => ¬ SameKey p.1 q.1)
    (hxs : List.Forall₂ (PairEncodes d) xs cs) :
    ∀ a ∈ cs, ∀ b ∈ cs, ∀ k, canonicalBytes a.1 = .ok k → canonicalBytes b.1 = .ok k → a = b := by
  have hkeys : cs.Pairwise fun a b => a.1 ≠ b.1 := by
    refine pairwise_of_forall₂ hxs hdistinct ?_
    intro p q a b hpa hqb hne heq
    exact hne ⟨a.1, canonicalize_of_encode hpa.1, heq ▸ canonicalize_of_encode hqb.1⟩
  have hnodup : (cs.map Prod.fst).Nodup := List.pairwise_map.2 hkeys
  intro a ha b hb k hka hkb
  exact List.inj_on_of_nodup_map hnodup ha hb (canonicalBytes_injective hka hkb)

theorem agrees_of_shapes {x : PyVal} (h : x.plain = true → DistinctKeys x → ∀ y d e c c',
    valueShape x = valueShape y → Encodes d x c → Encodes e y c' → (c = c' ↔ Same x y)) :
    Agrees x := by
  intro hplain hdistinct y d e c c' hc hc'
  by_cases hshape : valueShape x = valueShape y
  · exact h hplain hdistinct y d e c c' hshape hc hc'
  · refine iff_of_false ?_ fun hsame => hshape (same_shape hsame)
    rintro rfl
    exact hshape ((encode_shape hc).symm.trans (encode_shape hc'))

theorem distinctKeysItems_iff {items : List PyVal} :
    DistinctKeysItems items ↔ ∀ v ∈ items, DistinctKeys v := by
  induction items with
  | nil => simp [DistinctKeysItems]
  | cons v items ih => simp [DistinctKeysItems, ih]

theorem distinctKeysPairs_iff {items : List (PyVal × PyVal)} :
    DistinctKeysPairs items ↔ ∀ p ∈ items, DistinctKeys p.1 ∧ DistinctKeys p.2 := by
  induction items with
  | nil => simp [DistinctKeysPairs]
  | cons p items ih => simp [DistinctKeysPairs, ih, and_assoc]

theorem same_list {xs ys : List PyVal} :
    Same (.list xs) (.list ys) ↔ List.Forall₂ Same xs ys :=
  ⟨fun h => by cases h; assumption, .list⟩

theorem same_tuple {xs ys : List PyVal} :
    Same (.tuple xs) (.tuple ys) ↔ List.Forall₂ Same xs ys :=
  ⟨fun h => by cases h; assumption, .tuple⟩

theorem same_set {xs ys : List PyVal} :
    Same (.set xs) (.set ys) ↔ ∃ xs', xs.Perm xs' ∧ List.Forall₂ Same xs' ys := by
  constructor
  · intro h
    cases h with
    | set hperm h => exact ⟨_, hperm, h⟩
  · rintro ⟨xs', hperm, h⟩
    exact .set hperm h

theorem same_frozenset {xs ys : List PyVal} :
    Same (.frozenset xs) (.frozenset ys) ↔ ∃ xs', xs.Perm xs' ∧ List.Forall₂ Same xs' ys := by
  constructor
  · intro h
    cases h with
    | frozenset hperm h => exact ⟨_, hperm, h⟩
  · rintro ⟨xs', hperm, h⟩
    exact .frozenset hperm h

theorem same_dict {xs ys : List (PyVal × PyVal)} :
    Same (.dict xs) (.dict ys) ↔
      ∃ xs', xs.Perm xs' ∧ List.Forall₂ (fun p q => Same p.1 q.1 ∧ Same p.2 q.2) xs' ys := by
  constructor
  · intro h
    cases h with
    | dict hperm hkeys hvalues => exact ⟨_, hperm, forall₂_pairs.2 ⟨hkeys, hvalues⟩⟩
  · rintro ⟨xs', hperm, h⟩
    exact .dict hperm (forall₂_pairs.1 h).1 (forall₂_pairs.1 h).2

/-- Items that agree one by one, at the depths of their container. -/
theorem items_agree {xs : List PyVal} (hagrees : ∀ x ∈ xs, Agrees x) (hplain : plainItems xs = true)
    (hdistinct : DistinctKeysItems xs) {d e : Nat} :
    ∀ x ∈ xs, ∀ y c c', Encodes d x c → Encodes e y c' → (c = c' ↔ Same x y) :=
  fun x hx _ _ _ hc hc' => hagrees x hx (plainItems_iff.1 hplain x hx)
    (distinctKeysItems_iff.1 hdistinct x hx) hc hc'

theorem pairs_agree {xs : List (PyVal × PyVal)} (hagrees : ∀ p ∈ xs, Agrees p.1 ∧ Agrees p.2)
    (hplain : plainPairs xs = true) (hdistinct : DistinctKeysPairs xs) {d e : Nat} :
    ∀ p ∈ xs, ∀ q c c', PairEncodes d p c → PairEncodes e q c' →
      (c = c' ↔ Same p.1 q.1 ∧ Same p.2 q.2) := by
  intro p hp q c c' hc hc'
  have hpp := plainPairs_iff.1 hplain p hp
  have hdp := distinctKeysPairs_iff.1 hdistinct p hp
  have hkey := (hagrees p hp).1 hpp.1 hdp.1 hc.1 hc'.1
  have hvalue := (hagrees p hp).2 hpp.2 hdp.2 hc.2 hc'.2
  rw [Prod.ext_iff, hkey, hvalue]

mutual

/-- Two encoded values are one tree exactly when they are the same value. -/
theorem encode_agrees : ∀ x : PyVal, Agrees x
  | .none => agrees_of_shapes fun _ _ y d e c c' hshape hc hc' => by
    cases y with
    | none =>
      simp only [Encodes, encode, atDepth_eq_ok, Except.ok.injEq] at hc hc'
      exact iff_of_true (hc.2.symm.trans hc'.2) .none
    | _ => cases hshape
  | .bool b => agrees_of_shapes fun _ _ y d e c c' hshape hc hc' => by
    cases y with
    | bool b' =>
      simp only [Encodes, encode, atDepth_eq_ok, Except.ok.injEq] at hc hc'
      rw [← hc.2, ← hc'.2]
      exact ⟨fun h => by cases h; exact .bool b, fun h => by cases h; rfl⟩
    | _ => cases hshape
  | .int n => agrees_of_shapes fun _ _ y d e c c' hshape hc hc' => by
    cases y with
    | int n' =>
      simp only [Encodes, encode, atDepth_eq_ok, Except.ok.injEq] at hc hc'
      rw [← hc.2, ← hc'.2]
      exact ⟨fun h => by cases h; exact .int n, fun h => by cases h; rfl⟩
    | _ => cases hshape
  | .float x => agrees_of_shapes fun _ _ y d e c c' hshape hc hc' => by
    cases y with
    | float x' =>
      simp only [Encodes, encode, atDepth_eq_ok, Except.ok.injEq] at hc hc'
      rw [← hc.2, ← hc'.2]
      exact ⟨fun h => .float (Canon.float.inj h), fun h => by
        cases h with
        | float h => rw [h]⟩
    | _ => cases hshape
  | .str s => agrees_of_shapes fun _ _ y d e c c' hshape hc hc' => by
    cases y with
    | str s' =>
      simp only [Encodes, encode, atDepth_eq_ok, Except.ok.injEq] at hc hc'
      rw [← hc.2, ← hc'.2]
      exact ⟨fun h => by cases h; exact .str s, fun h => by cases h; rfl⟩
    | _ => cases hshape
  | .bytes data => agrees_of_shapes fun _ _ y d e c c' hshape hc hc' => by
    cases y with
    | bytes data' =>
      simp only [Encodes, encode, atDepth_eq_ok, Except.ok.injEq] at hc hc'
      rw [← hc.2, ← hc'.2]
      exact ⟨fun h => by cases h; exact .bytes data, fun h => by cases h; rfl⟩
    | _ => cases hshape
  | .list xs => agrees_of_shapes fun hplain hdistinct y d e c c' hshape hc hc' => by
    have hitems := items_agree (d := d + 1) (e := e + 1) (itemsAgrees xs) hplain hdistinct
    cases y with
    | list ys =>
      simp only [Encodes, encode, atDepth_eq_ok, bind_eq_ok, pure_eq_ok, encodeItems_iff]
        at hc hc'
      rcases hc with ⟨_, cs, hcs, rfl⟩
      rcases hc' with ⟨_, ds, hds, rfl⟩
      simpa only [Canon.seq.injEq, true_and, same_list] using images_eq_iff hitems hcs hds
    | _ => cases hshape
  | .tuple xs => agrees_of_shapes fun hplain hdistinct y d e c c' hshape hc hc' => by
    have hitems := items_agree (d := d + 1) (e := e + 1) (itemsAgrees xs) hplain hdistinct
    cases y with
    | tuple ys =>
      simp only [Encodes, encode, atDepth_eq_ok, bind_eq_ok, pure_eq_ok, encodeItems_iff]
        at hc hc'
      rcases hc with ⟨_, cs, hcs, rfl⟩
      rcases hc' with ⟨_, ds, hds, rfl⟩
      simpa only [Canon.seq.injEq, true_and, same_tuple] using images_eq_iff hitems hcs hds
    | _ => cases hshape
  | .set xs => agrees_of_shapes fun hplain hdistinct y d e c c' hshape hc hc' => by
    have hitems := items_agree (d := d + 1) (e := e + 1) (itemsAgrees xs) hplain hdistinct
    cases y with
    | set ys =>
      simp only [Encodes, encode, atDepth_eq_ok, bind_eq_ok, pure_eq_ok, encodeItems_iff]
        at hc hc'
      rcases hc with ⟨_, cs, hcs, cs', hcs', rfl⟩
      rcases hc' with ⟨_, ds, hds, ds', hds', rfl⟩
      have hsets := sorted_images_eq_iff hitems hcs hds hcs' hds'
        fun _ _ _ _ _ ha hb => canonicalBytes_injective ha hb
      simpa only [Canon.seq.injEq, true_and, same_set] using hsets
    | _ => cases hshape
  | .frozenset xs => agrees_of_shapes fun hplain hdistinct y d e c c' hshape hc hc' => by
    have hitems := items_agree (d := d + 1) (e := e + 1) (itemsAgrees xs) hplain hdistinct
    cases y with
    | frozenset ys =>
      simp only [Encodes, encode, atDepth_eq_ok, bind_eq_ok, pure_eq_ok, encodeItems_iff]
        at hc hc'
      rcases hc with ⟨_, cs, hcs, cs', hcs', rfl⟩
      rcases hc' with ⟨_, ds, hds, ds', hds', rfl⟩
      have hsets := sorted_images_eq_iff hitems hcs hds hcs' hds'
        fun _ _ _ _ _ ha hb => canonicalBytes_injective ha hb
      simpa only [Canon.seq.injEq, true_and, same_frozenset] using hsets
    | _ => cases hshape
  | .dict xs => agrees_of_shapes fun hplain hdistinct y d e c c' hshape hc hc' => by
    have hpairs := pairs_agree (d := d + 1) (e := e + 1) (pairsAgrees xs) hplain hdistinct.2
    cases y with
    | dict ys =>
      simp only [Encodes, encode, atDepth_eq_ok, bind_eq_ok, pure_eq_ok, encodePairs_iff]
        at hc hc'
      rcases hc with ⟨_, cs, hcs, cs', hcs', rfl⟩
      rcases hc' with ⟨_, ds, hds, ds', hds', rfl⟩
      -- two items of one dict are told apart by the keys they are sorted by
      have hdicts := sorted_images_eq_iff hpairs hcs hds hcs' hds'
        (dict_key_unique hdistinct.1 hcs)
      simpa only [Canon.dict.injEq, same_dict] using hdicts
    | _ => cases hshape
  | .rejected _ | .object _ _ | .bare _ | .hostile _ | .cycle => fun hplain => by cases hplain

theorem itemsAgrees : ∀ xs : List PyVal, ∀ x ∈ xs, Agrees x
  | x :: xs, y, h => by
    rcases List.mem_cons.1 h with hhead | htail
    · rw [hhead]
      exact encode_agrees x
    · exact itemsAgrees xs y htail

theorem pairsAgrees : ∀ xs : List (PyVal × PyVal), ∀ p ∈ xs, Agrees p.1 ∧ Agrees p.2
  | (key, value) :: xs, p, h => by
    rcases List.mem_cons.1 h with hhead | htail
    · rw [hhead]
      exact ⟨encode_agrees key, encode_agrees value⟩
    · exact pairsAgrees xs p htail

end

/-! ## Values that have bytes -/

namespace Python

mutual

def PyVal.clean : PyVal → Bool
  | .int n => !intTooLong n
  | .str s => encodable s
  | .list items => cleanItems items
  | .tuple items => cleanItems items
  | .set items => cleanItems items
  | .frozenset items => cleanItems items
  | .dict items => cleanPairs items
  | _ => true

def cleanItems : List PyVal → Bool
  | [] => true
  | item :: items => item.clean && cleanItems items

def cleanPairs : List (PyVal × PyVal) → Bool
  | [] => true
  | (key, value) :: items => key.clean && value.clean && cleanPairs items

end

theorem cleanItems_iff {items : List PyVal} :
    cleanItems items = true ↔ ∀ v ∈ items, v.clean = true := by
  induction items with
  | nil => simp [cleanItems]
  | cons v items ih => simp [cleanItems, ih]

theorem cleanPairs_iff {items : List (PyVal × PyVal)} :
    cleanPairs items = true ↔ ∀ p ∈ items, p.1.clean = true ∧ p.2.clean = true := by
  induction items with
  | nil => simp [cleanPairs]
  | cons p items ih => simp [cleanPairs, ih]

end Python

theorem clean_int (n : Int) : (Canon.int n).clean = !intTooLong n := by
  simp [Canon.clean, Canon.toJson, Json.printable, Json.hasLongInt, Json.encodable]

theorem clean_str (s : PyStr) : (Canon.str s).clean = encodable s := by
  simp [Canon.clean, Canon.toJson, Json.printable, Json.hasLongInt, Json.encodable]

theorem printable_str {s : PyStr} (h : encodable s = true) : (Json.str s).printable = true := by
  simp [Json.printable, Json.hasLongInt, Json.encodable, h]

theorem clean_float (x : HexFloat) : (Canon.float x).clean = true := by
  have htag : encodable (lit "float") = true := by decide
  exact (printable_tagged htag).2 (printable_str (encodable_text x))

theorem clean_bytes (data : Bytes) : (Canon.bytes data).clean = true := by
  have htag : encodable (lit "bytes") = true := by decide
  exact (printable_tagged htag).2 (printable_str (encodable_base64 data))

/-- Encoding keeps what can be printed, and what cannot. -/
def KeepsClean (v : PyVal) : Prop :=
  v.plain = true → ∀ {d c}, Encodes d v c → (v.clean = true ↔ c.clean = true)

theorem sorted_clean {κ : Type} [LinearOrder κ] {γ : Type} {key : γ → Except CanonError κ}
    {cs cs' : List γ} (h : sortBy key cs = .ok cs') (P : γ → Prop) :
    (∀ c ∈ cs, P c) ↔ ∀ c ∈ cs', P c := by
  have hperm := sortBy_perm h
  exact ⟨fun hall c hc => hall c (hperm.mem_iff.1 hc), fun hall c hc => hall c (hperm.mem_iff.2 hc)⟩

mutual

theorem encode_keepsClean : ∀ v : PyVal, KeepsClean v
  | .none | .bool _ => fun _ {d c} hc => by
    simp only [Encodes, encode, atDepth_eq_ok, Except.ok.injEq] at hc
    rw [← hc.2]
    exact iff_of_true rfl rfl
  | .int n => fun _ {d c} hc => by
    simp only [Encodes, encode, atDepth_eq_ok, Except.ok.injEq] at hc
    rw [← hc.2, clean_int, PyVal.clean]
  | .float x => fun _ {d c} hc => by
    simp only [Encodes, encode, atDepth_eq_ok, Except.ok.injEq] at hc
    rw [← hc.2]
    exact iff_of_true rfl (clean_float _)
  | .str s => fun _ {d c} hc => by
    simp only [Encodes, encode, atDepth_eq_ok, Except.ok.injEq] at hc
    rw [← hc.2, clean_str, PyVal.clean]
  | .bytes data => fun _ {d c} hc => by
    simp only [Encodes, encode, atDepth_eq_ok, Except.ok.injEq] at hc
    rw [← hc.2]
    exact iff_of_true rfl (clean_bytes _)
  | .list xs | .tuple xs => fun hplain {d c} hc => by
    simp only [Encodes, encode, atDepth_eq_ok, bind_eq_ok, pure_eq_ok, encodeItems_iff] at hc
    rcases hc with ⟨_, cs, hcs, rfl⟩
    rw [PyVal.clean, cleanItems_iff, clean_seq]
    exact items_keepClean xs (plainItems_iff.1 hplain) hcs
  | .set xs | .frozenset xs => fun hplain {d c} hc => by
    simp only [Encodes, encode, atDepth_eq_ok, bind_eq_ok, pure_eq_ok, encodeItems_iff] at hc
    rcases hc with ⟨_, cs, hcs, cs', hcs', rfl⟩
    rw [PyVal.clean, cleanItems_iff, clean_seq, ← sorted_clean hcs']
    exact items_keepClean xs (plainItems_iff.1 hplain) hcs
  | .dict xs => fun hplain {d c} hc => by
    simp only [Encodes, encode, atDepth_eq_ok, bind_eq_ok, pure_eq_ok, encodePairs_iff] at hc
    rcases hc with ⟨_, cs, hcs, cs', hcs', rfl⟩
    rw [PyVal.clean, cleanPairs_iff, clean_dict,
      ← sorted_clean hcs' fun p => p.1.clean = true ∧ p.2.clean = true]
    exact pairs_keepClean xs (plainPairs_iff.1 hplain) hcs
  | .rejected _ | .object _ _ | .bare _ | .hostile _ | .cycle => fun hplain => by cases hplain

theorem items_keepClean : ∀ (xs : List PyVal) {d : Nat} {cs : List Canon},
    (∀ x ∈ xs, x.plain = true) → List.Forall₂ (Encodes d) xs cs →
      ((∀ x ∈ xs, x.clean = true) ↔ ∀ c ∈ cs, c.clean = true)
  | [], _, _, _, h => by cases h; simp
  | x :: xs, _, _, hplain, h => by
    cases h with
    | cons hc hcs =>
      have hhead := encode_keepsClean x (hplain x (by simp)) hc
      have htail := items_keepClean xs (fun y hy => hplain y (List.mem_cons_of_mem _ hy)) hcs
      simp only [List.forall_mem_cons, hhead, htail]

theorem pairs_keepClean : ∀ (xs : List (PyVal × PyVal)) {d : Nat} {cs : List (Canon × Canon)},
    (∀ p ∈ xs, p.1.plain = true ∧ p.2.plain = true) → List.Forall₂ (PairEncodes d) xs cs →
      ((∀ p ∈ xs, p.1.clean = true ∧ p.2.clean = true) ↔
        ∀ c ∈ cs, c.1.clean = true ∧ c.2.clean = true)
  | [], _, _, _, h => by cases h; simp
  | (key, value) :: xs, _, _, hplain, h => by
    cases h with
    | cons hc hcs =>
      have hp := hplain (key, value) (by simp)
      have hkey := encode_keepsClean key hp.1 hc.1
      have hvalue := encode_keepsClean value hp.2 hc.2
      have htail := pairs_keepClean xs (fun y hy => hplain y (List.mem_cons_of_mem _ hy)) hcs
      simp only [List.forall_mem_cons, hkey, hvalue, htail]

end

mutual

/-- A clean value within the depth limit has a tree. -/
theorem encode_of_clean : ∀ (v : PyVal) (d : Nat), v.plain = true → v.clean = true →
    v.height + d ≤ maxDepth → ∃ c, encode d v = .ok c
  | .none, d, _, _, hd | .bool _, d, _, _, hd | .int _, d, _, _, hd | .float _, d, _, _, hd
  | .str _, d, _, _, hd | .bytes _, d, _, _, hd => by
    have hdepth : d ≤ maxDepth := by simpa [PyVal.height] using hd
    simp [encode, atDepth_eq_ok, hdepth]
  | .list xs, d, hplain, hclean, hd | .tuple xs, d, hplain, hclean, hd => by
    have hdepth : d ≤ maxDepth := (Nat.le_add_left _ _).trans hd
    rcases encodeItems_of_clean xs d hplain hclean hd with ⟨cs, hcs⟩
    simp only [encode, atDepth_eq_ok, bind_eq_ok, pure_eq_ok]
    exact ⟨_, hdepth, cs, hcs, rfl⟩
  | .set xs, d, hplain, hclean, hd | .frozenset xs, d, hplain, hclean, hd => by
    have hdepth : d ≤ maxDepth := (Nat.le_add_left _ _).trans hd
    rcases encodeItems_of_clean xs d hplain hclean hd with ⟨cs, hcs⟩
    have hkeys : ∀ c ∈ cs, ∃ k, canonicalBytes c = .ok k := fun c hc =>
      canonicalBytes_of_clean ((items_keepClean xs (plainItems_iff.1 hplain)
        (encodeItems_iff.1 hcs)).1 (cleanItems_iff.1 hclean) c hc)
    rcases sortBy_of_keys hkeys with ⟨cs', hcs'⟩
    simp only [encode, atDepth_eq_ok, bind_eq_ok, pure_eq_ok]
    exact ⟨_, hdepth, cs, hcs, cs', hcs', rfl⟩
  | .dict xs, d, hplain, hclean, hd => by
    have hdepth : d ≤ maxDepth := (Nat.le_add_left _ _).trans hd
    rcases encodePairs_of_clean xs d hplain hclean hd with ⟨cs, hcs⟩
    have hkeys : ∀ c ∈ cs, ∃ k, canonicalBytes c.1 = .ok k := fun c hc =>
      canonicalBytes_of_clean ((pairs_keepClean xs (plainPairs_iff.1 hplain)
        (encodePairs_iff.1 hcs)).1 (cleanPairs_iff.1 hclean) c hc).1
    rcases sortBy_of_keys hkeys with ⟨cs', hcs'⟩
    simp only [encode, atDepth_eq_ok, bind_eq_ok, pure_eq_ok]
    exact ⟨_, hdepth, cs, hcs, cs', hcs', rfl⟩

theorem encodeItems_of_clean : ∀ (xs : List PyVal) (d : Nat), plainItems xs = true →
    cleanItems xs = true → heightItems xs + d ≤ maxDepth → ∃ cs, encodeItems (d + 1) xs = .ok cs
  | [], _, _, _, _ => ⟨[], rfl⟩
  | x :: xs, d, hplain, hclean, hd => by
    simp only [plainItems, cleanItems, heightItems, Bool.and_eq_true] at hplain hclean hd
    rcases encode_of_clean x (d + 1) hplain.1 hclean.1 (by omega) with ⟨c, hc⟩
    rcases encodeItems_of_clean xs d hplain.2 hclean.2 (by omega) with ⟨cs, hcs⟩
    refine ⟨c :: cs, ?_⟩
    simp only [encodeItems, hc, hcs]
    rfl

theorem encodePairs_of_clean : ∀ (xs : List (PyVal × PyVal)) (d : Nat), plainPairs xs = true →
    cleanPairs xs = true → heightPairs xs + d ≤ maxDepth → ∃ cs, encodePairs (d + 1) xs = .ok cs
  | [], _, _, _, _ => ⟨[], rfl⟩
  | (key, value) :: xs, d, hplain, hclean, hd => by
    simp only [plainPairs, cleanPairs, heightPairs, Bool.and_eq_true] at hplain hclean hd
    rcases encode_of_clean key (d + 1) hplain.1.1 hclean.1.1 (by omega) with ⟨k, hk⟩
    rcases encode_of_clean value (d + 1) hplain.1.2 hclean.1.2 (by omega) with ⟨v, hv⟩
    rcases encodePairs_of_clean xs d hplain.2 hclean.2 (by omega) with ⟨cs, hcs⟩
    refine ⟨(k, v) :: cs, ?_⟩
    simp only [encodePairs, hk, hv, hcs]
    rfl

end

/-! ## Faithfulness -/

/-- What the encoding promises of two values: both have a tree and bytes, and the trees compare
equal exactly when the values are the same, which is exactly when the bytes are. -/
def Faithful (u v : PyVal) : Prop :=
  ∃ c d k l, canonicalize u = .ok c ∧ canonicalize v = .ok d ∧
    canonicalBytes c = .ok k ∧ canonicalBytes d = .ok l ∧
    ((valuesEqual exact c d).1 = true ↔ Same u v) ∧ ((valuesEqual exact c d).1 = true ↔ k = l)

theorem clean_of_faithful {u v : PyVal} (hu : u.plain = true) (hv : v.plain = true)
    (h : Faithful u v) : u.clean = true ∧ v.clean = true := by
  rcases h with ⟨c, d, k, l, hc, hd, hk, hl, _⟩
  exact ⟨(encode_keepsClean u hu hc).2 (clean_of_canonicalBytes hk),
    (encode_keepsClean v hv hd).2 (clean_of_canonicalBytes hl)⟩

/-- The encoding is faithful exactly on the values without surrogates and unprintable integers. -/
theorem faithful_iff {u v : PyVal} (hu : u.plain = true) (hv : v.plain = true)
    (hud : u.height ≤ maxDepth) (hvd : v.height ≤ maxDepth) (huk : DistinctKeys u) :
    Faithful u v ↔ u.clean = true ∧ v.clean = true := by
  refine ⟨clean_of_faithful hu hv, ?_⟩
  rintro ⟨huc, hvc⟩
  rcases encode_of_clean u 0 hu huc hud with ⟨c, hc⟩
  rcases encode_of_clean v 0 hv hvc hvd with ⟨d, hd⟩
  rcases canonicalBytes_of_clean ((encode_keepsClean u hu hc).1 huc) with ⟨k, hk⟩
  rcases canonicalBytes_of_clean ((encode_keepsClean v hv hd).1 hvc) with ⟨l, hl⟩
  refine ⟨c, d, k, l, hc, hd, hk, hl, ?_, ?_⟩
  · calc
      (valuesEqual exact c d).1 = true ↔ c = d := valuesEqual_exact c d
      _ ↔ Same u v := encode_agrees u hu huk hc hd
  · calc
      (valuesEqual exact c d).1 = true ↔ c = d := valuesEqual_exact c d
      _ ↔ k = l := by
        constructor
        · rintro rfl
          exact Except.ok.inj (hk.symm.trans hl)
        · rintro rfl
          exact canonicalBytes_injective hk hl

/-- A set in two iteration orders, under a key that stands before or after another one. -/
theorem faithful_iff_at :
    Faithful
      (.dict [(.str (lit "1"), .set [.int 2, .str (lit "a")]), (.int 1, .float (.inf true))])
      (.dict [(.int 1, .float (.inf true)), (.str (lit "1"), .set [.str (lit "a"), .int 2])]) := by
  have hkey : ¬ SameKey (.str (lit "1")) (.int 1) := by
    rintro ⟨c, hs, hi⟩
    have hbad : Canon.str (lit "1") = Canon.int 1 := Except.ok.inj (hs.trans hi.symm)
    cases hbad
  refine (faithful_iff rfl rfl (by decide) (by decide) ?_).2 ⟨by decide, by decide⟩
  simp [DistinctKeys, DistinctKeysPairs, DistinctKeysItems, hkey]

/-- The set of one lone surrogate: the sort key raises `UnicodeEncodeError`. -/
theorem lone_surrogate_not_faithful :
    ¬ ∀ u v : PyVal, u.plain = true → v.plain = true → u.height ≤ maxDepth → v.height ≤ maxDepth →
      DistinctKeys u → DistinctKeys v → Faithful u v := by
  intro h
  have hall := h (.set [.str [codePoint 0xD800]]) (.set [.str [codePoint 0xD800]]) rfl rfl
    (by decide) (by decide) ⟨trivial, trivial⟩ ⟨trivial, trivial⟩
  exact absurd (clean_of_faithful rfl rfl hall).1 (by decide)

end Tempest
