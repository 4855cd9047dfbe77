import Tempest.Python.Text

/-!
# Json — the compact printer `json.dumps(…, sort_keys=True, separators=(",", ":"))`

The printer works on a tree without floats, with `ensure_ascii=False`, so the only characters it
rewrites inside a string are the ones JSON forbids.  Its main property is `dumps_append_cancel`:
a printed tree followed by a delimiter can be cancelled from the left, hence `dumps_injective`.
Objects print their keys in sorted order, so injectivity is stated on trees that hold them sorted
(`SortedKeys`).
-/

namespace Tempest
namespace Python

inductive Json where
  | null
  | bool (b : Bool)
  | int (n : Int)
  | str (s : PyStr)
  | arr (items : List Json)
  | obj (fields : List (PyStr × Json))

/-! ## Strings -/

def backslash : CodePoint := codePoint 0x5C

def dquote : CodePoint := codePoint 0x22

def hexChar (d : Nat) : CodePoint :=
  if d < 10 then codePoint (0x30 + d) else codePoint (0x61 + (d - 10))

/-- What follows the backslash when `c` cannot stand in a JSON string as it is. -/
def escapeTail (c : CodePoint) : Option PyStr :=
  if c.val = 0x22 then some [dquote]
  else if c.val = 0x5C then some [backslash]
  else if c.val = 0x0A then some [codePoint 0x6E]
  else if c.val = 0x0D then some [codePoint 0x72]
  else if c.val = 0x09 then some [codePoint 0x74]
  else if c.val = 0x0C then some [codePoint 0x66]
  else if c.val = 0x08 then some [codePoint 0x62]
  else if c.val < 0x20 then
    some [codePoint 0x75, hexChar 0, hexChar 0, hexChar (c.val / 16), hexChar (c.val % 16)]
  else none

def escape (c : CodePoint) : PyStr :=
  match escapeTail c with
  | some tail => backslash :: tail
  | none => [c]

def quote (s : PyStr) : PyStr := dquote :: s.flatMap escape ++ [dquote]

/-! ## Trees -/

def comma : CodePoint := codePoint 0x2C

def closeArr : CodePoint := codePoint 0x5D

def closeObj : CodePoint := codePoint 0x7D

def field (key value : PyStr) : PyStr := quote key ++ codePoint 0x3A :: value

/-- `sorted(dct.items())`, on fields whose values are printed already. -/
def sortFields (fields : List (PyStr × PyStr)) : List (PyStr × PyStr) :=
  fields.insertionSort fun a b => a.1 ≤ b.1

mutual

def dumps : Json → PyStr
  | .null => lit "null"
  | .bool true => lit "true"
  | .bool false => lit "false"
  | .int n => intText n
  | .str s => quote s
  | .arr items => codePoint 0x5B :: join [comma] (dumpsItems items) ++ [closeArr]
  | .obj fields =>
    codePoint 0x7B ::
      join [comma] ((sortFields (dumpsFields fields)).map fun p => field p.1 p.2) ++ [closeObj]

def dumpsItems : List Json → List PyStr
  | [] => []
  | item :: items => dumps item :: dumpsItems items

def dumpsFields : List (PyStr × Json) → List (PyStr × PyStr)
  | [] => []
  | (key, value) :: fields => (key, dumps value) :: dumpsFields fields

end

theorem dumpsItems_eq_map (items : List Json) : dumpsItems items = items.map dumps := by
  induction items with
  | nil => rfl
  | cons item items ih => simp [dumpsItems, ih]

theorem dumpsFields_eq_map (fields : List (PyStr × Json)) :
    dumpsFields fields = fields.map fun p => (p.1, dumps p.2) := by
  induction fields with
  | nil => rfl
  | cons field fields ih => simp [dumpsFields, ih]

mutual

/-- Every object of the tree holds its keys in strictly increasing order. -/
def SortedKeys : Json → Prop
  | .arr items => SortedItems items
  | .obj fields => (fields.map Prod.fst).Pairwise (· < ·) ∧ SortedFields fields
  | _ => True

def SortedItems : List Json → Prop
  | [] => True
  | item :: items => SortedKeys item ∧ SortedItems items

def SortedFields : List (PyStr × Json) → Prop
  | [] => True
  | (_, value) :: fields => SortedKeys value ∧ SortedFields fields

end

theorem sortedItems_iff {items : List Json} :
    SortedItems items ↔ ∀ item ∈ items, SortedKeys item := by
  induction items with
  | nil => simp [SortedItems]
  | cons item items ih => simp [SortedItems, ih]

variable {fields : List (PyStr × Json)}

theorem sortedFields_iff :
    SortedFields fields ↔ ∀ p ∈ fields, SortedKeys p.2 := by
  induction fields with
  | nil => simp [SortedFields]
  | cons p fields ih => simp [SortedFields, ih]

/-- Sorting leaves the fields of an ordered object where they are. -/
theorem sortFields_dumpsFields (h : (fields.map Prod.fst).Pairwise (· < ·)) :
    sortFields (dumpsFields fields) = dumpsFields fields := by
  unfold sortFields
  refine List.Pairwise.insertionSort_eq ?_
  rw [dumpsFields_eq_map, List.pairwise_map]
  rw [List.pairwise_map] at h
  exact h.imp fun hlt => le_of_lt hlt

theorem dumps_obj (h : (fields.map Prod.fst).Pairwise (· < ·)) :
    dumps (.obj fields) =
      codePoint 0x7B :: join [comma] (fields.map fun p => field p.1 (dumps p.2)) ++ [closeObj] := by
  rw [dumps, sortFields_dumpsFields h, dumpsFields_eq_map, List.map_map]
  rfl

/-! ## Cancelling strings -/

/-- A backslash is always escaped, so it only opens an escape. -/
theorem escapeTail_backslash : escapeTail backslash = some [backslash] := by decide

def hexVal (c : CodePoint) : Nat := if c.val < 0x3A then c.val - 0x30 else c.val - 0x61 + 10

/-- Read back what stands after a backslash. -/
def readEscape : PyStr → Option (CodePoint × PyStr)
  | [] => none
  | e :: s =>
    if e.val = 0x6E then some (codePoint 0x0A, s)
    else if e.val = 0x72 then some (codePoint 0x0D, s)
    else if e.val = 0x74 then some (codePoint 0x09, s)
    else if e.val = 0x66 then some (codePoint 0x0C, s)
    else if e.val = 0x62 then some (codePoint 0x08, s)
    else if e.val = 0x75 then
      match s with
      | _ :: _ :: high :: low :: rest => some (codePoint (16 * hexVal high + hexVal low), rest)
      | _ => none
    else some (e, s)

theorem hexVal_hexChar {d : Nat} (h : d < 16) : hexVal (hexChar d) = d := by
  interval_cases d <;> decide

theorem readEscape_escapeTail {c : CodePoint} {x : PyStr} (h : escapeTail c = some x) (s : PyStr) :
    readEscape (x ++ s) = some (c, s) := by
  have hnamed : ∀ {n : Nat} {y : PyStr}, c.val = n → n < 0x110000 → some y = some x →
      readEscape (y ++ s) = some (codePoint n, s) → readEscape (x ++ s) = some (c, s) := by
    intro n y hc hn hyx hread
    rw [← Option.some.inj hyx, hread, ← hc, codePoint_val]
  unfold escapeTail at h
  split_ifs at h with h1 h2 h3 h4 h5 h6 h7 h8
  · exact hnamed h1 (by decide) h rfl
  · exact hnamed h2 (by decide) h rfl
  · exact hnamed h3 (by decide) h rfl
  · exact hnamed h4 (by decide) h rfl
  · exact hnamed h5 (by decide) h rfl
  · exact hnamed h6 (by decide) h rfl
  · exact hnamed h7 (by decide) h rfl
  · refine hnamed rfl c.isLt h ?_
    have hdigits : 16 * hexVal (hexChar (c.val / 16)) + hexVal (hexChar (c.val % 16)) = c.val := by
      rw [hexVal_hexChar (by omega), hexVal_hexChar (by omega)]
      omega
    have hu : (codePoint 0x75).val = 0x75 := by decide
    simp only [List.cons_append, List.nil_append, readEscape, hu, hdigits]
    rfl

theorem escapeTail_append_cancel {c d : CodePoint} {x y s t : PyStr}
    (hc : escapeTail c = some x) (hd : escapeTail d = some y) (h : x ++ s = y ++ t) :
    c = d ∧ s = t := by
  have hread := readEscape_escapeTail hc s
  rw [h, readEscape_escapeTail hd t] at hread
  have hpair := Option.some.inj hread
  exact ⟨(Prod.mk.inj hpair).1.symm, (Prod.mk.inj hpair).2.symm⟩

theorem escape_append_cancel (c d : CodePoint) (s t : PyStr)
    (h : escape c ++ s = escape d ++ t) : c = d ∧ s = t := by
  unfold escape at h
  split at h
  · rename_i x hx
    split at h
    · rename_i y hy
      exact escapeTail_append_cancel hx hy (by simpa using h)
    · rename_i hy
      have hd : d = backslash := by simpa using (List.cons.inj h).1.symm
      rw [hd, escapeTail_backslash] at hy
      cases hy
  · rename_i hx
    split at h
    · have hc : c = backslash := by simpa using (List.cons.inj h).1
      rw [hc, escapeTail_backslash] at hx
      cases hx
    · exact ⟨(List.cons.inj h).1, (List.cons.inj h).2⟩

/-- The quote that ends a string is never inside it. -/
theorem escape_ne_dquote (c : CodePoint) (s t : PyStr) : escape c ++ s ≠ dquote :: t := by
  intro h
  unfold escape at h
  split at h
  · have hhead := (List.cons.inj h).1
    exact absurd hhead (by decide)
  · rename_i hnone
    have hc : c = dquote := (List.cons.inj h).1
    rw [hc] at hnone
    exact absurd hnone (by decide)

theorem escaped_append_cancel : ∀ {u v s t : PyStr},
    u.flatMap escape ++ dquote :: s = v.flatMap escape ++ dquote :: t → u = v ∧ s = t
  | [], [], s, t, h => ⟨rfl, by simpa using h⟩
  | [], d :: v, s, t, h => by
    have h' : escape d ++ (v.flatMap escape ++ dquote :: t) = dquote :: s := by simpa using h.symm
    exact absurd h' (escape_ne_dquote d _ _)
  | c :: u, [], s, t, h => by
    have h' : escape c ++ (u.flatMap escape ++ dquote :: s) = dquote :: t := by simpa using h
    exact absurd h' (escape_ne_dquote c _ _)
  | c :: u, d :: v, s, t, h => by
    have hcd := escape_append_cancel c d _ _ (by simpa using h)
    have htail := escaped_append_cancel hcd.2
    exact ⟨by rw [hcd.1, htail.1], htail.2⟩

theorem quote_append_cancel {u v s t : PyStr} (h : quote u ++ s = quote v ++ t) :
    u = v ∧ s = t :=
  escaped_append_cancel (by simpa [quote] using h)

/-! ## Cancelling trees -/

/-- Lists printed between a comma and a closing bracket cancel when their items do. -/
theorem join_append_cancel {α : Type*} {f : α → PyStr} {close : CodePoint}
    (hclose : ¬ IntChar close) (hne : comma ≠ close) :
    ∀ {xs ys : List α} {s t : PyStr},
      (∀ a ∈ xs, ∀ s t, f a ++ s ≠ close :: t) → (∀ b ∈ ys, ∀ s t, f b ++ s ≠ close :: t) →
      (∀ a ∈ xs, ∀ b ∈ ys, ∀ s t, StopsAt IntChar s → StopsAt IntChar t →
        f a ++ s = f b ++ t → a = b ∧ s = t) →
      join [comma] (xs.map f) ++ close :: s = join [comma] (ys.map f) ++ close :: t →
        xs = ys ∧ s = t
  | [], [], s, t, _, _, _, h => ⟨rfl, by simpa [join] using h⟩
  | [], y :: ys, s, t, _, hy, _, h => by
    have hstart : ∃ u, join [comma] ((y :: ys).map f) ++ close :: t = f y ++ u := by
      cases ys with
      | nil => exact ⟨close :: t, by simp [join]⟩
      | cons z zs =>
        exact ⟨comma :: (join [comma] ((z :: zs).map f) ++ close :: t), by simp [join]⟩
    rcases hstart with ⟨u, hu⟩
    have hbad : f y ++ u = close :: s := by rw [← hu, ← h]; simp [join]
    exact absurd hbad (hy y (by simp) u s)
  | x :: xs, [], s, t, hx, _, _, h => by
    have hstart : ∃ u, join [comma] ((x :: xs).map f) ++ close :: s = f x ++ u := by
      cases xs with
      | nil => exact ⟨close :: s, by simp [join]⟩
      | cons z zs =>
        exact ⟨comma :: (join [comma] ((z :: zs).map f) ++ close :: s), by simp [join]⟩
    rcases hstart with ⟨u, hu⟩
    have hbad : f x ++ u = close :: t := by rw [← hu, h]; simp [join]
    exact absurd hbad (hx x (by simp) u t)
  | x :: xs, y :: ys, s, t, hx, hy, hcancel, h => by
    have hcomma : ¬ IntChar comma := by unfold IntChar; decide
    have hitem := hcancel x (by simp) y (by simp)
    cases xs with
    | nil =>
      cases ys with
      | nil =>
        have hxy := hitem (close :: s) (close :: t) (stopsAt_cons hclose)
          (stopsAt_cons hclose) (by simpa [join] using h)
        exact ⟨by rw [hxy.1], (List.cons.inj hxy.2).2⟩
      | cons z zs =>
        have hxy := hitem (close :: s) (comma :: (join [comma] ((z :: zs).map f) ++ close :: t))
          (stopsAt_cons hclose) (stopsAt_cons hcomma) (by simpa [join] using h)
        exact absurd (List.cons.inj hxy.2).1.symm hne
    | cons w ws =>
      cases ys with
      | nil =>
        have hxy := hitem (comma :: (join [comma] ((w :: ws).map f) ++ close :: s)) (close :: t)
          (stopsAt_cons hcomma) (stopsAt_cons hclose) (by simpa [join] using h)
        exact absurd (List.cons.inj hxy.2).1 hne
      | cons z zs =>
        have hxy := hitem (comma :: (join [comma] ((w :: ws).map f) ++ close :: s))
          (comma :: (join [comma] ((z :: zs).map f) ++ close :: t))
          (stopsAt_cons hcomma) (stopsAt_cons hcomma) (by simpa [join] using h)
        have hrest := join_append_cancel hclose hne
          (fun a ha => hx a (List.mem_cons_of_mem _ ha))
          (fun b hb => hy b (List.mem_cons_of_mem _ hb))
          (fun a ha b hb => hcancel a (List.mem_cons_of_mem _ ha) b (List.mem_cons_of_mem _ hb))
          (List.cons.inj hxy.2).2
        exact ⟨by rw [hxy.1, hrest.1], hrest.2⟩

/-- The constructor of a tree, as its first printed character shows it. -/
def Json.shape : Json → Nat
  | .null => 0
  | .bool true => 1
  | .bool false => 2
  | .int _ => 3
  | .str _ => 4
  | .arr _ => 5
  | .obj _ => 6

def leadShape (c : CodePoint) : Nat :=
  if c.val = 0x6E then 0
  else if c.val = 0x74 then 1
  else if c.val = 0x66 then 2
  else if c.val = 0x22 then 4
  else if c.val = 0x5B then 5
  else if c.val = 0x7B then 6
  else if c.val = 0x2D ∨ 0x30 ≤ c.val ∧ c.val ≤ 0x39 then 3
  else 7

theorem leadShape_of_intChar {c : CodePoint} (h : IntChar c) : leadShape c = 3 := by
  unfold IntChar at h
  unfold leadShape
  split_ifs <;> first | rfl | omega

theorem dumps_lead (a : Json) : ∃ c s, dumps a = c :: s ∧ leadShape c = a.shape := by
  cases a with
  | null => exact ⟨codePoint 0x6E, lit "ull", rfl, rfl⟩
  | bool b =>
    cases b with
    | false => exact ⟨codePoint 0x66, lit "alse", rfl, rfl⟩
    | true => exact ⟨codePoint 0x74, lit "rue", rfl, rfl⟩
  | int n =>
    cases htext : intText n with
    | nil => exact absurd htext (intText_ne_nil n)
    | cons c s =>
      refine ⟨c, s, by rw [dumps, htext], leadShape_of_intChar ?_⟩
      exact intChar_of_mem_intText (n := n) (by simp [htext])
  | str s => exact ⟨dquote, s.flatMap escape ++ [dquote], rfl, rfl⟩
  | arr items => exact ⟨_, _, rfl, rfl⟩
  | obj fields => exact ⟨_, _, rfl, rfl⟩

theorem shape_eq_of_append {a b : Json} {s t : PyStr} (h : dumps a ++ s = dumps b ++ t) :
    a.shape = b.shape := by
  rcases dumps_lead a with ⟨c, u, hc, hca⟩
  rcases dumps_lead b with ⟨d, v, hd, hdb⟩
  rw [hc, hd] at h
  rw [← hca, ← hdb, (List.cons.inj h).1]

theorem dumps_append_ne_close {a : Json} {close : CodePoint} (hclose : leadShape close = 7)
    (s t : PyStr) : dumps a ++ s ≠ close :: t := by
  intro h
  rcases dumps_lead a with ⟨c, u, hc, hca⟩
  rw [hc] at h
  have hshape : a.shape = 7 := by rw [← hca, (List.cons.inj h).1, hclose]
  cases a with
  | bool b => cases b <;> cases hshape
  | _ => cases hshape

/-- Printed trees before a delimiter cancel from the left. -/
def Cancels (a : Json) : Prop :=
  ∀ b s t, SortedKeys a → SortedKeys b → StopsAt IntChar s → StopsAt IntChar t →
    dumps a ++ s = dumps b ++ t → a = b ∧ s = t

theorem field_append_cancel {p q : PyStr × Json} (hp : Cancels p.2) (hps : SortedKeys p.2)
    (hqs : SortedKeys q.2) {s t : PyStr} (hs : StopsAt IntChar s) (ht : StopsAt IntChar t)
    (h : field p.1 (dumps p.2) ++ s = field q.1 (dumps q.2) ++ t) : p = q ∧ s = t := by
  have hkey := quote_append_cancel (u := p.1) (v := q.1) (s := codePoint 0x3A :: (dumps p.2 ++ s))
    (t := codePoint 0x3A :: (dumps q.2 ++ t)) (by simpa [field] using h)
  have hvalue := hp q.2 s t hps hqs hs ht (List.cons.inj hkey.2).2
  exact ⟨Prod.ext hkey.1 hvalue.1, hvalue.2⟩

theorem closeArr_not_intChar : ¬ IntChar closeArr := by unfold IntChar; decide

theorem closeObj_not_intChar : ¬ IntChar closeObj := by unfold IntChar; decide

mutual

theorem dumps_append_cancel : ∀ a : Json, Cancels a
  | .null, b, s, t, _, _, _, _, h => by
    have hshape := shape_eq_of_append h
    cases b with
    | null => exact ⟨rfl, List.append_cancel_left h⟩
    | bool b => cases b <;> cases hshape
    | _ => cases hshape
  | .bool b, c, s, t, _, _, _, _, h => by
    have hshape := shape_eq_of_append h
    cases c with
    | bool c =>
      cases b <;> cases c <;> first | exact ⟨rfl, List.append_cancel_left h⟩ | cases hshape
    | _ => cases b <;> cases hshape
  | .int n, b, s, t, _, _, hs, ht, h => by
    have hshape := shape_eq_of_append h
    cases b with
    | int m =>
      have hrun := run_append_cancel (fun _ => intChar_of_mem_intText)
        (fun _ => intChar_of_mem_intText) hs ht h
      exact ⟨by rw [intText_injective hrun.1], hrun.2⟩
    | bool b => cases b <;> cases hshape
    | _ => cases hshape
  | .str u, b, s, t, _, _, _, _, h => by
    have hshape := shape_eq_of_append h
    cases b with
    | str v =>
      have huv := quote_append_cancel h
      exact ⟨by rw [huv.1], huv.2⟩
    | bool b => cases b <;> cases hshape
    | _ => cases hshape
  | .arr xs, b, s, t, ha, hb, _, _, h => by
    have hshape := shape_eq_of_append h
    cases b with
    | arr ys =>
      have hxs := sortedItems_iff.1 ha
      have hys := sortedItems_iff.1 hb
      simp only [dumps, dumpsItems_eq_map, List.cons_append, List.append_assoc,
        List.nil_append, List.cons.injEq, true_and] at h
      have hcancel := join_append_cancel closeArr_not_intChar (by decide)
        (fun a _ => dumps_append_ne_close (a := a) (by decide))
        (fun b _ => dumps_append_ne_close (a := b) (by decide))
        (fun a hmem b hmem' s t hs ht heq =>
          items_cancel xs a hmem b s t (hxs a hmem) (hys b hmem') hs ht heq) h
      exact ⟨by rw [hcancel.1], hcancel.2⟩
    | bool b => cases b <;> cases hshape
    | _ => cases hshape
  | .obj xs, b, s, t, ha, hb, _, _, h => by
    have hshape := shape_eq_of_append h
    cases b with
    | obj ys =>
      have hxs := sortedFields_iff.1 ha.2
      have hys := sortedFields_iff.1 hb.2
      rw [dumps_obj ha.1, dumps_obj hb.1] at h
      simp only [List.cons_append, List.append_assoc, List.nil_append, List.cons.injEq,
        true_and] at h
      have hquote : ∀ (p : PyStr × Json) (s t : PyStr),
          field p.1 (dumps p.2) ++ s ≠ closeObj :: t := by
        intro p s t heq
        have hhead := (List.cons.inj heq).1
        exact absurd hhead (by decide)
      have hcancel := join_append_cancel (f := fun p => field p.1 (dumps p.2))
        closeObj_not_intChar (by decide)
        (fun p _ => hquote p) (fun p _ => hquote p)
        (fun p hmem q hmem' s t hs ht heq =>
          field_append_cancel (fields_cancel xs p hmem) (hxs p hmem) (hys q hmem') hs ht heq) h
      exact ⟨by rw [hcancel.1], hcancel.2⟩
    | bool b => cases b <;> cases hshape
    | _ => cases hshape

theorem items_cancel : ∀ xs : List Json, ∀ a ∈ xs, Cancels a
  | x :: xs, a, h => by
    rcases List.mem_cons.1 h with hhead | htail
    · rw [hhead]
      exact dumps_append_cancel x
    · exact items_cancel xs a htail

theorem fields_cancel : ∀ xs : List (PyStr × Json), ∀ p ∈ xs, Cancels p.2
  | (key, value) :: xs, p, h => by
    rcases List.mem_cons.1 h with hhead | htail
    · rw [hhead]
      exact dumps_append_cancel value
    · exact fields_cancel xs p htail

end

/-- The printed text determines an ordered tree. -/
theorem dumps_injective {a b : Json} (ha : SortedKeys a) (hb : SortedKeys b)
    (h : dumps a = dumps b) : a = b :=
  (dumps_append_cancel a b [] [] ha hb (stopsAt_nil _) (stopsAt_nil _) (by simpa using h)).1

/-! ## What can be printed at all -/

mutual

/-- Some integer of the tree has more digits than `str(int)` prints. -/
def Json.hasLongInt : Json → Bool
  | .int n => intTooLong n
  | .arr items => hasLongIntItems items
  | .obj fields => hasLongIntFields fields
  | _ => false

def hasLongIntItems : List Json → Bool
  | [] => false
  | item :: items => item.hasLongInt || hasLongIntItems items

def hasLongIntFields : List (PyStr × Json) → Bool
  | [] => false
  | (_, value) :: fields => value.hasLongInt || hasLongIntFields fields

end

mutual

def Json.encodable : Json → Bool
  | .str s => Python.encodable s
  | .arr items => encodableItems items
  | .obj fields => encodableFields fields
  | _ => true

def encodableItems : List Json → Bool
  | [] => true
  | item :: items => item.encodable && encodableItems items

def encodableFields : List (PyStr × Json) → Bool
  | [] => true
  | (key, value) :: fields => Python.encodable key && value.encodable && encodableFields fields

end

theorem hasLongIntItems_eq_any (items : List Json) :
    hasLongIntItems items = items.any Json.hasLongInt := by
  induction items with
  | nil => rfl
  | cons item items ih => simp [hasLongIntItems, ih]

theorem hasLongIntFields_eq_any (fields : List (PyStr × Json)) :
    hasLongIntFields fields = fields.any fun p => p.2.hasLongInt := by
  induction fields with
  | nil => rfl
  | cons p fields ih => simp [hasLongIntFields, ih]

theorem encodableItems_eq_all (items : List Json) :
    encodableItems items = items.all Json.encodable := by
  induction items with
  | nil => rfl
  | cons item items ih => simp [encodableItems, ih]

theorem encodableFields_eq_all (fields : List (PyStr × Json)) :
    encodableFields fields = fields.all fun p => Python.encodable p.1 && p.2.encodable := by
  induction fields with
  | nil => rfl
  | cons p fields ih => simp [encodableFields, ih]

theorem encodable_cons (c : CodePoint) (s : PyStr) :
    encodable (c :: s) = (!isSurrogate c && encodable s) := by
  simp [encodable]

theorem encodable_append (s t : PyStr) : encodable (s ++ t) = (encodable s && encodable t) := by
  simp [encodable, List.all_append]

theorem encodable_join {sep : PyStr} (hsep : encodable sep = true) :
    ∀ parts : List PyStr, encodable (join sep parts) = parts.all encodable
  | [] => rfl
  | [part] => by simp [join]
  | part :: other :: parts => by
    have ih := encodable_join hsep (other :: parts)
    simp [join, encodable_append, hsep, ih]

theorem hexChar_not_surrogate {d : Nat} (h : d < 16) : isSurrogate (hexChar d) = false := by
  interval_cases d <;> decide

/-- An escape is spelled in ASCII, so it hides no surrogate and shows none. -/
theorem encodable_escape (c : CodePoint) : encodable (escape c) = !isSurrogate c := by
  have hplain : ∀ n : Nat, n < 0xD800 → isSurrogate (codePoint n) = false := by
    intro n hn
    have hval : (codePoint n).val = n := Nat.mod_eq_of_lt (by omega)
    simp [isSurrogate, isHighSurrogate, isLowSurrogate, hval]
    omega
  have hhex : ∀ d : Nat, d < 16 → isSurrogate (hexChar d) = false :=
    fun _ hd => hexChar_not_surrogate hd
  have hsmall : c.val < 0xD800 → isSurrogate c = false := by
    intro hc
    simpa [codePoint_val] using hplain c.val hc
  unfold escape
  cases htail : escapeTail c with
  | none => simp [encodable]
  | some tail =>
    have hbackslash : isSurrogate backslash = false := hplain _ (by omega)
    -- only characters below 0x5D are escaped
    have hspelled : encodable tail = true ∧ c.val < 0xD800 := by
      unfold escapeTail at htail
      split_ifs at htail with h1 h2 h3 h4 h5 h6 h7 h8
      all_goals
        cases htail
        refine ⟨?_, by omega⟩
      · exact (by decide : encodable [dquote] = true)
      · exact (by decide : encodable [backslash] = true)
      · exact (by decide : encodable [codePoint 0x6E] = true)
      · exact (by decide : encodable [codePoint 0x72] = true)
      · exact (by decide : encodable [codePoint 0x74] = true)
      · exact (by decide : encodable [codePoint 0x66] = true)
      · exact (by decide : encodable [codePoint 0x62] = true)
      · simp [encodable, hhex 0 (by omega), hhex _ (show c.val / 16 < 16 by omega),
          hhex _ (show c.val % 16 < 16 by omega), hplain]
    simp [encodable_cons, hbackslash, hspelled.1, hsmall hspelled.2]

theorem encodable_quote (s : PyStr) : encodable (quote s) = encodable s := by
  have hdquote : isSurrogate dquote = false := by decide
  have hbody : encodable (s.flatMap escape) = encodable s := by
    induction s with
    | nil => rfl
    | cons c s ih => simp [encodable_append, encodable_cons, encodable_escape, ih]
  have hnil : encodable [] = true := rfl
  simp [quote, encodable_cons, encodable_append, hdquote, hbody, hnil]

theorem encodable_natText (n : Nat) : encodable (natText n) = true := by
  refine List.all_eq_true.2 ?_
  intro c hc
  have hdigit := intChar_of_mem_natText hc
  simp [isSurrogate, isHighSurrogate, isLowSurrogate]
  omega

theorem encodable_intText (n : Int) : encodable (intText n) = true := by
  cases n with
  | ofNat n => exact encodable_natText n
  | negSucc n =>
    have hminus : isSurrogate (codePoint 0x2D) = false := by decide
    simp [intText, encodable_cons, hminus, encodable_natText]

theorem base64Char_not_surrogate {d : Nat} (h : d < 64) : isSurrogate (base64Char d) = false := by
  have hval := base64Char_val h
  simp only [isSurrogate, isHighSurrogate, isLowSurrogate, hval]
  split_ifs <;> simp <;> omega

theorem encodable_base64 : ∀ data : Bytes, encodable (base64 data) = true
  | [] => rfl
  | [a] => by
    have ha := a.isLt
    have hpad : isSurrogate base64Pad = false := by decide
    simp [base64, encodable, hpad, base64Char_not_surrogate (show a.val / 4 < 64 by omega),
      base64Char_not_surrogate (show a.val % 4 * 16 < 64 by omega)]
  | [a, b] => by
    have ha := a.isLt
    have hb := b.isLt
    have hpad : isSurrogate base64Pad = false := by decide
    simp [base64, encodable, hpad, base64Char_not_surrogate (show a.val / 4 < 64 by omega),
      base64Char_not_surrogate (show a.val % 4 * 16 + b.val / 16 < 64 by omega),
      base64Char_not_surrogate (show b.val % 16 * 4 < 64 by omega)]
  | a :: b :: c :: data => by
    have ha := a.isLt
    have hb := b.isLt
    have hc := c.isLt
    have ih := encodable_base64 data
    simp [base64, encodable_cons, ih, base64Char_not_surrogate (show a.val / 4 < 64 by omega),
      base64Char_not_surrogate (show a.val % 4 * 16 + b.val / 16 < 64 by omega),
      base64Char_not_surrogate (show b.val % 16 * 4 + c.val / 64 < 64 by omega),
      base64Char_not_surrogate (show c.val % 64 < 64 by omega)]

mutual

/-- The printed tree can be encoded when its strings can. -/
theorem encodable_dumps : ∀ j : Json, encodable (dumps j) = j.encodable
  | .null => by simp only [dumps, Json.encodable]; decide
  | .bool true => by simp only [dumps, Json.encodable]; decide
  | .bool false => by simp only [dumps, Json.encodable]; decide
  | .int n => by simp [dumps, Json.encodable, encodable_intText]
  | .str s => by simp [dumps, Json.encodable, encodable_quote]
  | .arr items => by
    have hcomma : encodable [comma] = true := by decide
    have hopen : isSurrogate (codePoint 0x5B) = false := by decide
    have hclose : encodable [closeArr] = true := by decide
    have ih := encodable_dumpsItems items
    simp [dumps, Json.encodable, encodable_cons, encodable_append, encodable_join hcomma, hopen,
      hclose, ih]
  | .obj fields => by
    have hcomma : encodable [comma] = true := by decide
    have hopen : isSurrogate (codePoint 0x7B) = false := by decide
    have hclose : encodable [closeObj] = true := by decide
    have ih := encodable_dumpsFields fields
    have hsorted : (sortFields (dumpsFields fields)).all
        (fun p => encodable p.1 && encodable p.2) = Python.encodableFields fields := by
      rw [← ih]
      exact (List.perm_insertionSort _ _).all_eq
    have hfield : ∀ key value : PyStr,
        encodable (field key value) = (encodable key && encodable value) := by
      intro key value
      have hcolon : isSurrogate (codePoint 0x3A) = false := by decide
      simp [field, encodable_append, encodable_cons, encodable_quote, hcolon]
    simp [dumps, Json.encodable, encodable_cons, encodable_append, encodable_join hcomma, hopen,
      hclose, List.all_map, Function.comp_def, hfield, hsorted]

theorem encodable_dumpsItems : ∀ items : List Json,
    (dumpsItems items).all encodable = encodableItems items
  | [] => rfl
  | item :: items => by
    simp [dumpsItems, encodableItems, encodable_dumps item, encodable_dumpsItems items]

theorem encodable_dumpsFields : ∀ fields : List (PyStr × Json),
    (dumpsFields fields).all (fun p => encodable p.1 && encodable p.2) = encodableFields fields
  | [] => rfl
  | (key, value) :: fields => by
    simp [dumpsFields, encodableFields, encodable_dumps value, encodable_dumpsFields fields]

end

/-- `json.dumps(…).encode()` has a result. -/
def Json.printable (j : Json) : Bool := !j.hasLongInt && j.encodable

theorem printable_arr {items : List Json} :
    (Json.arr items).printable = true ↔ ∀ j ∈ items, j.printable = true := by
  simp only [Json.printable, Json.hasLongInt, Json.encodable, hasLongIntItems_eq_any,
    encodableItems_eq_all, Bool.and_eq_true, Bool.not_eq_true', List.any_eq_false,
    List.all_eq_true, Bool.not_eq_true]
  exact ⟨fun h j hj => ⟨h.1 j hj, h.2 j hj⟩, fun h => ⟨fun j hj => (h j hj).1, fun j hj => (h j hj).2⟩⟩

theorem printable_obj :
    (Json.obj fields).printable = true ↔
      ∀ p ∈ fields, encodable p.1 = true ∧ p.2.printable = true := by
  simp only [Json.printable, Json.hasLongInt, Json.encodable, hasLongIntFields_eq_any,
    encodableFields_eq_all, Bool.and_eq_true, Bool.not_eq_true', List.any_eq_false,
    List.all_eq_true, Bool.not_eq_true]
  constructor
  · intro h p hp
    exact ⟨(h.2 p hp).1, h.1 p hp, (h.2 p hp).2⟩
  · intro h
    exact ⟨fun p hp => (h p hp).2.1, fun p hp => ⟨(h p hp).1, (h p hp).2.2⟩⟩

end Python
end Tempest
