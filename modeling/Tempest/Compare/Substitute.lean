import Tempest.Compare.Normalize

/-!
# Substitute — what `pattern.sub` leaves as it was

`sub` walks a text from the left; at every place the pattern either finds nothing there, and the
character is kept, or it finds a word, and the replacement stands for it.  `sub_induct` is the
induction along this walk.  The rules of this module say when a later search sees through a
replacement: what starts with other characters than the replacement is found in the result
exactly where it was found before.

`normalizeMessage_idem` is the first result: a normalized text has nothing left to normalize.
-/

namespace Tempest

open Python

/-! ## The walk -/

section Walk

variable {P Q : Pattern} {repl : PyStr}

/-- What a pattern finds is a word of the text, and not the empty one. -/
def Measured (P : Pattern) : Prop := ∀ text n, P text = some n → 0 < n ∧ n ≤ text.length

theorem subFrom_skip (n : Nat) (text : PyStr) :
    subFrom P repl n text = sub P repl (text.drop n) := by
  induction n generalizing text with
  | zero => rfl
  | succ n ih =>
    cases text with
    | nil => rfl
    | cons c text => exact ih text

theorem sub_nil : sub P repl [] = [] := rfl

theorem sub_keep {c : CodePoint} {text : PyStr} (h : P (c :: text) = none) :
    sub P repl (c :: text) = c :: sub P repl text := by
  simp [sub, subFrom, h]

theorem sub_found {word text : PyStr} (hword : word ≠ [])
    (h : P (word ++ text) = some word.length) :
    sub P repl (word ++ text) = repl ++ sub P repl text := by
  cases word with
  | nil => exact absurd rfl hword
  | cons c word =>
    rw [List.cons_append] at h ⊢
    have hstep : sub P repl (c :: (word ++ text)) =
        repl ++ subFrom P repl word.length (word ++ text) := by
      simp [sub, subFrom, h]
    rw [hstep, subFrom_skip, List.drop_left]

/-- Induction along the places `sub` comes by. -/
theorem sub_induct {motive : PyStr → Prop} (hP : Measured P) (nil : motive [])
    (keep : ∀ c text, P (c :: text) = none → motive text → motive (c :: text))
    (found : ∀ word text, word ≠ [] → P (word ++ text) = some word.length → motive text →
      motive (word ++ text)) (text : PyStr) : motive text := by
  induction hlen : text.length using Nat.strong_induction_on generalizing text with
  | _ n ih =>
    cases text with
    | nil => exact nil
    | cons c text =>
      cases hfind : P (c :: text) with
      | none => exact keep c text hfind (ih text.length (by simp [← hlen]) text rfl)
      | some k =>
        have hk := hP _ _ hfind
        have hsplit := List.take_append_drop k (c :: text)
        have hlength : ((c :: text).take k).length = k := List.length_take_of_le hk.2
        have hne : (c :: text).take k ≠ [] := by
          intro hnil
          rw [hnil] at hlength
          exact absurd hlength hk.1.ne
        have hshort : ((c :: text).drop k).length < n := by
          rw [List.length_drop]
          omega
        have hrest := ih _ hshort _ rfl
        rw [← hsplit]
        exact found _ _ hne (by rw [hsplit, hlength, hfind]) hrest

/-- A run of characters in front of the text is the same run after the substitution, when every
word found and its replacement end it alike. -/
theorem takeWhile_sub {p : CodePoint → Bool} (hP : Measured P)
    (hword : ∀ word text rest, P (word ++ text) = some word.length →
      (repl ++ rest).takeWhile p = (word ++ text).takeWhile p) (text : PyStr) :
    (sub P repl text).takeWhile p = text.takeWhile p := by
  induction text using sub_induct hP with
  | nil => rw [sub_nil]
  | keep c text hnone ih =>
    rw [sub_keep hnone, List.takeWhile_cons, List.takeWhile_cons, ih]
  | found word text hne hfind _ =>
    rw [sub_found hne hfind]
    exact hword word text _ hfind

/-- A front of the result without the first character of the replacement was there before. -/
theorem front_of_sub (hP : Measured P) {first : CodePoint} {tail : PyStr}
    (hrepl : repl = first :: tail) : ∀ (front text : PyStr), first ∉ front →
      front <+: sub P repl text →
        ∃ rest, text = front ++ rest ∧ sub P repl text = front ++ sub P repl rest
  | [], text, _, _ => ⟨text, rfl, rfl⟩
  | c :: front, text, hfirst, hfront => by
    cases text using sub_induct hP with
    | nil =>
      rw [sub_nil] at hfront
      cases List.prefix_nil.1 hfront
    | keep d text hnone _ =>
      rw [sub_keep hnone] at hfront ⊢
      have hcons := List.cons_prefix_cons.1 hfront
      obtain rfl := hcons.1
      rcases front_of_sub hP hrepl front text (fun h => hfirst (List.mem_cons_of_mem _ h))
        hcons.2 with ⟨rest, rfl, hrest⟩
      exact ⟨rest, rfl, by rw [hrest, List.cons_append]⟩
    | found word text hne hfind _ =>
      rw [sub_found hne hfind, hrepl, List.cons_append] at hfront
      have hcons := List.cons_prefix_cons.1 hfront
      exact absurd (hcons.1 ▸ List.mem_cons_self) hfirst

theorem forall_mem_sub {p : CodePoint → Prop} (hP : Measured P) (hrepl : ∀ c ∈ repl, p c)
    (text : PyStr) (htext : ∀ c ∈ text, p c) : ∀ c ∈ sub P repl text, p c := by
  induction text using sub_induct hP with
  | nil =>
    rw [sub_nil]
    exact htext
  | keep c text hnone ih =>
    rw [sub_keep hnone, List.forall_mem_cons]
    rw [List.forall_mem_cons] at htext
    exact ⟨htext.1, ih htext.2⟩
  | found word text hne hfind ih =>
    rw [sub_found hne hfind, List.forall_mem_append]
    rw [List.forall_mem_append] at htext
    exact ⟨hrepl, ih htext.2⟩

/-- Where no word goes on into `after`, the two parts are substituted separately. -/
theorem sub_append (hP : Measured P) {after : PyStr}
    (hstops : ∀ text, text ≠ [] → P (text ++ after) = P text) (text : PyStr) :
    sub P repl (text ++ after) = sub P repl text ++ sub P repl after := by
  induction text using sub_induct hP with
  | nil => rw [sub_nil, List.nil_append, List.nil_append]
  | keep c text hnone ih =>
    have hnone' : P (c :: (text ++ after)) = none := by
      rw [← List.cons_append, hstops _ (List.cons_ne_nil c text), hnone]
    rw [List.cons_append, sub_keep hnone', sub_keep hnone, ih, List.cons_append]
  | found word text hne hfind ih =>
    have hwhole : word ++ text ≠ [] := fun h => hne (List.append_eq_nil_iff.1 h).1
    have hfind' : P (word ++ (text ++ after)) = some word.length := by
      rw [← List.append_assoc, hstops _ hwhole, hfind]
    rw [List.append_assoc, sub_found hne hfind', sub_found hne hfind, ih, List.append_assoc]

/-! ## Texts without matches -/

def Free (P : Pattern) (text : PyStr) : Prop := ∀ v, v ≠ [] → v <:+ text → P v = none

theorem Free.tail {c : CodePoint} {text : PyStr} (h : Free P (c :: text)) : Free P text :=
  fun v hv hsuffix => h v hv (hsuffix.trans (List.suffix_cons c text))

theorem Free.head {c : CodePoint} {text : PyStr} (h : Free P (c :: text)) :
    P (c :: text) = none :=
  h _ (List.cons_ne_nil c text) List.suffix_rfl

theorem sub_of_free {text : PyStr} (h : Free P text) : sub P repl text = text := by
  induction text with
  | nil => exact sub_nil
  | cons c text ih => rw [sub_keep h.head, ih h.tail]

theorem free_append {front text : PyStr} (hfront : ∀ v, v ≠ [] → v <:+ front → ∀ rest,
    P (v ++ rest) = none) (htext : Free P text) : Free P (front ++ text) := by
  induction front with
  | nil => exact htext
  | cons c front ih =>
    have hrest := ih fun v hv hsuffix => hfront v hv (hsuffix.trans (List.suffix_cons c front))
    intro v hv hsuffix
    rcases List.suffix_cons_iff.1 hsuffix with rfl | hinner
    · exact hfront (c :: front) (List.cons_ne_nil c front) List.suffix_rfl text
    · exact hrest v hv hinner

/-- Nothing is found after the substitution that was not found before: `Q` finds nothing in the
replacement, and behind a kept character nothing new. -/
theorem free_sub (hP : Measured P)
    (hrepl : ∀ v, v ≠ [] → v <:+ repl → ∀ rest, Q (v ++ rest) = none)
    (hkept : ∀ c text, P (c :: text) = none → Q (c :: text) = none →
      Q (c :: sub P repl text) = none) (text : PyStr)
    (hfree : ∀ v, v ≠ [] → v <:+ text → P v = none → Q v = none) : Free Q (sub P repl text) := by
  induction text using sub_induct hP with
  | nil =>
    rw [sub_nil]
    intro v hv hsuffix
    exact absurd (List.suffix_nil.1 hsuffix) hv
  | keep c text hnone ih =>
    have hrest := ih fun v hv hsuffix => hfree v hv (hsuffix.trans (List.suffix_cons c text))
    have hhere := hfree _ (List.cons_ne_nil c text) List.suffix_rfl hnone
    rw [sub_keep hnone]
    intro v hv hsuffix
    rcases List.suffix_cons_iff.1 hsuffix with rfl | hinner
    · exact hkept c text hnone hhere
    · exact hrest v hv hinner
  | found word text hne hfind ih =>
    have hrest := ih fun v hv hsuffix => hfree v hv (hsuffix.trans (List.suffix_append word text))
    rw [sub_found hne hfind]
    exact free_append hrepl hrest

end Walk

/-! ## A literal and a run -/

section LiteralRun

variable {literal : PyStr} {p : CodePoint → Bool} {least : Nat}

theorem literalRun_append (text : PyStr) : literalRun literal p least (literal ++ text) =
    if least ≤ (text.takeWhile p).length then some (literal.length + (text.takeWhile p).length)
    else none := by
  simp [literalRun]

theorem literalRun_unlike {text : PyStr} (h : ¬ literal <+: text) :
    literalRun literal p least text = none := by
  have hfalse : literal.isPrefixOf text = false := by
    rw [← Bool.not_eq_true, List.isPrefixOf_iff_prefix]
    exact h
  simp [literalRun, hfalse]

/-- What is found is the literal with the whole run behind it. -/
theorem literalRun_eq_some {text : PyStr} {n : Nat} :
    literalRun literal p least text = some n ↔ ∃ rest, text = literal ++ rest ∧
      least ≤ (rest.takeWhile p).length ∧ n = literal.length + (rest.takeWhile p).length := by
  constructor
  · intro h
    by_cases hliteral : literal <+: text
    · rcases hliteral with ⟨rest, rfl⟩
      rw [literalRun_append] at h
      split_ifs at h with hleast
      exact ⟨rest, rfl, hleast, (Option.some.inj h).symm⟩
    · rw [literalRun_unlike hliteral] at h
      cases h
  · rintro ⟨rest, rfl, hleast, rfl⟩
    rw [literalRun_append, if_pos hleast]

theorem takeWhile_prefix_of_all {run rest : PyStr} (hrun : ∀ c ∈ run, p c = true)
    (h : run <+: rest) : run <+: rest.takeWhile p := by
  rcases h with ⟨after, rfl⟩
  rw [List.takeWhile_append_of_pos hrun]
  exact List.prefix_append _ _

/-- Something is found where the literal and the shortest run stand. -/
theorem literalRun_eq_none {text : PyStr} :
    literalRun literal p least text = none ↔
      ∀ run, run.length = least → (∀ c ∈ run, p c = true) → ¬ (literal ++ run) <+: text := by
  constructor
  · rintro hnone run hlength hrun ⟨after, rfl⟩
    rw [List.append_assoc, literalRun_append] at hnone
    have hlong := (takeWhile_prefix_of_all hrun (List.prefix_append run after)).length_le
    rw [if_pos (by rw [← hlength]; exact hlong)] at hnone
    cases hnone
  · intro h
    by_cases hliteral : literal <+: text
    · rcases hliteral with ⟨rest, rfl⟩
      rw [literalRun_append, if_neg]
      intro hleast
      refine h ((rest.takeWhile p).take least) (List.length_take_of_le hleast) ?_ ?_
      · intro c hc
        exact List.mem_takeWhile_imp (List.mem_of_mem_take hc)
      · rw [List.prefix_append_right_inj]
        exact (List.take_prefix least _).trans (List.takeWhile_prefix p)
    · exact literalRun_unlike hliteral

theorem literalRun_measured (hliteral : literal ≠ []) : Measured (literalRun literal p least) := by
  intro text n h
  rcases literalRun_eq_some.1 h with ⟨rest, rfl, _, rfl⟩
  have hpos := List.length_pos_iff.2 hliteral
  have hrun := (List.takeWhile_prefix p (l := rest)).length_le
  rw [List.length_append]
  omega

theorem takeWhile_append_stop {before after : PyStr} (hafter : ∀ c ∈ after.head?, p c = false) :
    (before ++ after).takeWhile p = before.takeWhile p := by
  induction before with
  | nil =>
    cases after with
    | nil => rfl
    | cons c after => simp [hafter c rfl]
  | cons c before ih => simp only [List.cons_append, List.takeWhile_cons, ih]

/-- A character that is in neither the literal nor the run ends every match. -/
theorem literalRun_stops {after : PyStr} (hliteral : ∀ c ∈ after.head?, c ∉ literal)
    (hp : ∀ c ∈ after.head?, p c = false) (text : PyStr) :
    literalRun literal p least (text ++ after) = literalRun literal p least text := by
  by_cases hfront : literal <+: text
  · rcases hfront with ⟨rest, rfl⟩
    rw [List.append_assoc, literalRun_append, literalRun_append, takeWhile_append_stop hp]
  · rw [literalRun_unlike hfront, literalRun_unlike]
    intro hlong
    rcases List.prefix_or_prefix_of_prefix hlong (List.prefix_append text after) with h | h
    · exact hfront h
    · rcases h with ⟨rest, rfl⟩
      rw [List.prefix_append_right_inj] at hlong
      cases rest with
      | nil => exact hfront (by rw [List.append_nil])
      | cons c rest =>
        rcases hlong with ⟨tail, rfl⟩
        exact hliteral c rfl (by simp)

end LiteralRun

/-! ## The three patterns -/

theorem address_measured : Measured addressPattern :=
  literalRun_measured (by decide)

def tempStarts : List PyStr :=
  [lit "/private/var/folders/", lit "/private/tmp/", lit "/var/folders/", lit "/tmp/"]

theorem literalRun_cons_append {front literal : PyStr} {p : CodePoint → Bool} {least : Nat}
    (text : PyStr) : literalRun (front ++ literal) p least (front ++ text) =
      (literalRun literal p least text).map (front.length + ·) := by
  by_cases hliteral : literal <+: text
  · rcases hliteral with ⟨rest, rfl⟩
    rw [← List.append_assoc, literalRun_append, literalRun_append]
    split_ifs
    · simp [Nat.add_assoc]
    · rfl
  · rw [literalRun_unlike hliteral, literalRun_unlike]
    · rfl
    · rwa [List.prefix_append_right_inj]

variable {front text : PyStr}

theorem tempDirPattern_eq_some {n : Nat} : tempDirPattern text = some n ↔
    literalRun (lit "/var/folders/") (fun c => !isSpace c) 1 text = some n ∨
      literalRun (lit "/tmp/") (fun c => !isSpace c) 1 text = some n := by
  unfold tempDirPattern
  cases hvar : literalRun (lit "/var/folders/") (fun c => !isSpace c) 1 text with
  | none => simp
  | some m =>
    -- the two literals differ in their second character
    rcases literalRun_eq_some.1 hvar with ⟨rest, rfl, _⟩
    have htmp : literalRun (lit "/tmp/") (fun c => !isSpace c) 1
        (lit "/var/folders/" ++ rest) = none := by
      apply literalRun_unlike
      intro hleads
      have hsecond := List.prefix_or_prefix_of_prefix hleads
        (List.prefix_append (lit "/var/folders/") rest)
      revert hsecond
      decide
    simp [htmp]

/-- A literal that neither starts with another nor is a start of it is not found behind it. -/
theorem literalRun_of_clash {literal front : PyStr} {p : CodePoint → Bool} {least : Nat}
    (hclash : ¬ literal <+: front ∧ ¬ front <+: literal) (text : PyStr) :
    literalRun literal p least (front ++ text) = none := by
  apply literalRun_unlike
  intro hleads
  rcases List.prefix_or_prefix_of_prefix hleads (List.prefix_append front text) with h | h
  · exact hclash.1 h
  · exact hclash.2 h

/-- A temporary path is one of the four starts with a run of characters that are no white space. -/
theorem tempPathPattern_eq_some {n : Nat} : tempPathPattern text = some n ↔
    ∃ start ∈ tempStarts, literalRun start (fun c => !isSpace c) 1 text = some n := by
  have hvar : lit "/private/var/folders/" = lit "/private" ++ lit "/var/folders/" := by decide
  have htmp : lit "/private/tmp/" = lit "/private" ++ lit "/tmp/" := by decide
  by_cases hprivate : lit "/private" <+: text
  · rcases hprivate with ⟨rest, rfl⟩
    have hplain : literalRun (lit "/var/folders/") (fun c => !isSpace c) 1
        (lit "/private" ++ rest) = none := literalRun_of_clash (by decide) rest
    have hplain' : literalRun (lit "/tmp/") (fun c => !isSpace c) 1
        (lit "/private" ++ rest) = none := literalRun_of_clash (by decide) rest
    have hsplit : tempPathPattern (lit "/private" ++ rest) =
        (tempDirPattern rest).map ((lit "/private").length + ·) := by
      simp [tempPathPattern]
    simp only [hsplit, tempStarts, List.exists_mem_cons_iff, List.not_mem_nil, false_and, exists_false,
      or_false, hvar, htmp, literalRun_cons_append, hplain, hplain', reduceCtorEq,
      Option.map_eq_some_iff, tempDirPattern_eq_some]
    constructor
    · rintro ⟨m, hm | hm, rfl⟩
      · exact .inl ⟨m, hm, rfl⟩
      · exact .inr ⟨m, hm, rfl⟩
    · rintro (⟨m, hm, rfl⟩ | ⟨m, hm, rfl⟩)
      · exact ⟨m, .inl hm, rfl⟩
      · exact ⟨m, .inr hm, rfl⟩
  · have hnone : ∀ literal : PyStr, literalRun (lit "/private" ++ literal)
        (fun c => !isSpace c) 1 text = none := by
      intro literal
      exact literalRun_unlike fun h => hprivate ((List.prefix_append _ literal).trans h)
    have hsplit : tempPathPattern text = tempDirPattern text := by
      have hfalse : (lit "/private").isPrefixOf text = false := by
        rw [← Bool.not_eq_true, List.isPrefixOf_iff_prefix]
        exact hprivate
      simp [tempPathPattern, hfalse]
    simp [hsplit, tempStarts, hvar, htmp, hnone, tempDirPattern_eq_some]

theorem tempPathPattern_eq_none : tempPathPattern text = none ↔
    ∀ start ∈ tempStarts, literalRun start (fun c => !isSpace c) 1 text = none := by
  constructor
  · intro hnone start hstart
    cases hfind : literalRun start (fun c => !isSpace c) 1 text with
    | none => rfl
    | some n =>
      have hsome := tempPathPattern_eq_some.2 ⟨start, hstart, hfind⟩
      rw [hnone] at hsome
      cases hsome
  · intro h
    cases hfind : tempPathPattern text with
    | none => rfl
    | some n =>
      rcases tempPathPattern_eq_some.1 hfind with ⟨start, hstart, hsome⟩
      rw [h start hstart] at hsome
      cases hsome

theorem tempPath_measured : Measured tempPathPattern := by
  intro text n h
  rcases tempPathPattern_eq_some.1 h with ⟨start, hstart, hfind⟩
  have hne : start ≠ [] := by
    rintro rfl
    revert hstart
    decide
  exact literalRun_measured hne text n hfind

theorem layout_append : ∀ (classes : List (CodePoint → Bool)) (front rest : PyStr),
    front.length = classes.length → layout classes (front ++ rest) = layout classes front
  | [], [], rest, _ => by simp [layout]
  | p :: classes, c :: front, rest, h => by
    simp only [List.cons_append, layout, layout_append classes front rest (by simpa using h)]

theorem length_of_layout : ∀ (classes : List (CodePoint → Bool)) (text : PyStr),
    layout classes text = true → classes.length ≤ text.length
  | [], _, _ => Nat.zero_le _
  | _ :: _, [], h => by cases h
  | p :: classes, c :: text, h => by
    have hrest : layout classes text = true := by
      simp only [layout, Bool.and_eq_true] at h
      exact h.2
    simpa using length_of_layout classes text hrest

theorem zoneLength_le (text : PyStr) : zoneLength text ≤ text.length := by
  unfold zoneLength
  dsimp only
  split_ifs with hz hcolon hplain
  · exact length_of_layout _ _ hz
  · exact length_of_layout _ _ hcolon
  · exact length_of_layout _ _ hplain
  · exact Nat.zero_le _

theorem timestamp_eq_none :
    timestampPattern text = none ↔ layout dateTimeLayout text = false := by
  unfold timestampPattern
  split_ifs with h
  · simp [h]
  · simpa using h

theorem timestamp_measured : Measured timestampPattern := by
  intro text n h
  unfold timestampPattern at h
  split_ifs at h with hlayout
  dsimp only at h
  cases h
  have hlong := length_of_layout _ _ hlayout
  have hfraction : (literalRun (lit ".") isDecimal 1 (text.drop dateTimeLayout.length)).getD 0 ≤
      (text.drop dateTimeLayout.length).length := by
    cases hfind : literalRun (lit ".") isDecimal 1 (text.drop dateTimeLayout.length) with
    | none => exact Nat.zero_le _
    | some k => exact (literalRun_measured (by decide) _ _ hfind).2
  have hzone := zoneLength_le ((text.drop dateTimeLayout.length).drop
    ((literalRun (lit ".") isDecimal 1 (text.drop dateTimeLayout.length)).getD 0))
  have hpositive : 0 < dateTimeLayout.length := by decide
  rw [List.length_drop] at hfraction hzone
  rw [List.length_drop] at hzone
  omega

/-! ## Searches by their fronts -/

section Fronts

variable {P Q : Pattern} {repl : PyStr} {F : PyStr → Prop}

/-- `F` are the shortest texts in whose front `Q` finds something. -/
def FoundAt (Q : Pattern) (F : PyStr → Prop) : Prop :=
  ∀ text, Q text = none ↔ ∀ front, F front → ¬ front <+: text

/-- A search whose fronts go on without the first character of the replacement sees through it. -/
theorem FoundAt.kept (hQ : FoundAt Q F) (hP : Measured P) {first : CodePoint} {tail : PyStr}
    (hrepl : repl = first :: tail) (hfirst : ∀ front, F front → first ∉ front.tail)
    (c : CodePoint) (text : PyStr) (hnone : Q (c :: text) = none) :
    Q (c :: sub P repl text) = none := by
  rw [hQ] at hnone ⊢
  intro front hfront hleads
  cases front with
  | nil => exact hnone [] hfront List.nil_prefix
  | cons d front =>
    have hcons := List.cons_prefix_cons.1 hleads
    rcases front_of_sub hP hrepl front text (hfirst _ hfront) hcons.2 with ⟨rest, rfl, _⟩
    refine hnone _ hfront (List.cons_prefix_cons.2 ⟨hcons.1, List.prefix_append front rest⟩)

/-- A search that starts with no character of the replacement finds nothing in it. -/
theorem FoundAt.none_in (hQ : FoundAt Q F) (hheads : ∀ front, F front →
    ∃ d rest, front = d :: rest ∧ d ∉ repl) (v : PyStr) (hv : v ≠ []) (hsuffix : v <:+ repl)
    (rest : PyStr) : Q (v ++ rest) = none := by
  rw [hQ]
  intro front hfront hleads
  rcases hheads front hfront with ⟨d, front, rfl, hd⟩
  cases v with
  | nil => exact hv rfl
  | cons c v =>
    have hcons := List.cons_prefix_cons.1 (by simpa using hleads)
    exact hd (hcons.1 ▸ hsuffix.subset List.mem_cons_self)

end Fronts

def AddressFront (front : PyStr) : Prop :=
  ∃ run : PyStr, run.length = 4 ∧ (∀ c ∈ run, isHexDigit c = true) ∧ front = lit "0x" ++ run

theorem address_foundAt : FoundAt addressPattern AddressFront := by
  intro text
  rw [addressPattern, literalRun_eq_none]
  constructor
  · rintro h front ⟨run, hlength, hrun, rfl⟩
    exact h run hlength hrun
  · intro h run hlength hrun
    exact h _ ⟨run, hlength, hrun, rfl⟩

def TempFront (front : PyStr) : Prop :=
  ∃ start ∈ tempStarts, ∃ c, isSpace c = false ∧ front = start ++ [c]

theorem tempPath_foundAt : FoundAt tempPathPattern TempFront := by
  intro text
  rw [tempPathPattern_eq_none]
  constructor
  · rintro h front ⟨start, hstart, c, hc, rfl⟩
    exact literalRun_eq_none.1 (h start hstart) [c] rfl (by simpa using hc)
  · intro h start hstart
    rw [literalRun_eq_none]
    intro run hlength hrun
    rcases List.length_eq_one_iff.1 hlength with ⟨c, rfl⟩
    exact h _ ⟨start, hstart, c, by simpa using hrun, rfl⟩

def TimestampFront (front : PyStr) : Prop :=
  front.length = dateTimeLayout.length ∧ layout dateTimeLayout front = true

theorem timestamp_foundAt : FoundAt timestampPattern TimestampFront := by
  intro text
  rw [timestamp_eq_none]
  constructor
  · rintro h front ⟨hlength, hfront⟩ ⟨rest, rfl⟩
    rw [layout_append _ front rest hlength, hfront] at h
    cases h
  · intro h
    by_contra htrue
    have hlayout : layout dateTimeLayout text = true := Bool.eq_true_of_not_eq_false htrue
    have hlong := length_of_layout _ _ hlayout
    have hlength : (text.take dateTimeLayout.length).length = dateTimeLayout.length :=
      List.length_take_of_le hlong
    refine h (text.take dateTimeLayout.length) ⟨hlength, ?_⟩ (List.take_prefix _ _)
    rw [← List.take_append_drop dateTimeLayout.length text, layout_append _ _ _ hlength] at hlayout
    exact hlayout

/-- A character of a text that fits a layout is in one of the classes. -/
theorem class_of_layout : ∀ (classes : List (CodePoint → Bool)) (front : PyStr),
    front.length = classes.length → layout classes front = true →
      ∀ c ∈ front, ∃ p ∈ classes, p c = true
  | [], [], _, _, c, hc => by cases hc
  | p :: classes, d :: front, hlength, h, c, hc => by
    simp only [layout, Bool.and_eq_true] at h
    rcases List.mem_cons.1 hc with rfl | hc
    · exact ⟨p, List.mem_cons_self, h.1⟩
    · rcases class_of_layout classes front (by simpa using hlength) h.2 c hc with ⟨q, hq, hqc⟩
      exact ⟨q, List.mem_cons_of_mem _ hq, hqc⟩

/-- A character outside all classes stands in no front of a time stamp. -/
theorem not_mem_timestampFront {c : CodePoint} (hc : dateTimeLayout.all (fun p => !p c) = true)
    (h : TimestampFront front) : c ∉ front := by
  intro hmem
  rcases class_of_layout _ front h.1 h.2 c hmem with ⟨p, hp, hpc⟩
  have hfalse := List.all_eq_true.1 hc p hp
  rw [hpc] at hfalse
  cases hfalse

/-! ## Normalizing twice -/

def addrMark : PyStr := lit "0xADDR"

def pathMark : PyStr := lit "<TMPPATH>"

def stampMark : PyStr := lit "<TIMESTAMP>"

theorem normalizeMessage_eq (text : PyStr) : normalizeMessage text =
    sub timestampPattern stampMark (sub tempPathPattern pathMark
      (sub addressPattern addrMark text)) := rfl

def lessThan : CodePoint := codePoint 0x3C

theorem lessThan_not_mem_addressFront (h : AddressFront front) :
    lessThan ∉ front := by
  rcases h with ⟨run, _, hrun, rfl⟩
  intro hmem
  rcases List.mem_append.1 hmem with hliteral | hin
  · revert hliteral
    decide
  · have hhex := hrun _ hin
    revert hhex
    decide

theorem addressFront_head (h : AddressFront front) :
    ∃ rest, front = codePoint 0x30 :: rest := by
  rcases h with ⟨run, _, _, rfl⟩
  exact ⟨lit "x" ++ run, rfl⟩

theorem tempStart_head : ∀ start ∈ tempStarts, start.head? = some (codePoint 0x2F) := by
  decide

theorem tempFront_head (h : TempFront front) :
    ∃ rest, front = codePoint 0x2F :: rest := by
  rcases h with ⟨start, hstart, c, _, rfl⟩
  have hhead := tempStart_head start hstart
  cases start with
  | nil => cases hhead
  | cons d start =>
    cases hhead
    exact ⟨start ++ [c], rfl⟩

theorem timestampFront_head (h : TimestampFront front) :
    ∃ d rest, front = d :: rest ∧ isDecimal d = true := by
  cases front with
  | nil => exact absurd h.1 (by decide)
  | cons d rest =>
    have hlayout := h.2
    simp only [dateTimeLayout, layout, Bool.and_eq_true] at hlayout
    exact ⟨d, rest, rfl, hlayout.1⟩

/-- In `0xADDR` no address is found: three hexadecimal digits are too few. -/
theorem address_none_in_addrMark (v : PyStr) (hv : v ≠ []) (hsuffix : v <:+ addrMark)
    (rest : PyStr) : addressPattern (v ++ rest) = none := by
  by_cases hwhole : v = addrMark
  · have hmark : addrMark = lit "0x" ++ lit "ADDR" := by decide
    have hrun : (lit "ADDR" ++ rest).takeWhile isHexDigit = lit "ADD" := by
      have hsplit : lit "ADDR" ++ rest = lit "ADD" ++ (lit "R" ++ rest) := rfl
      have hhex : (lit "ADD").all isHexDigit = true := by decide
      rw [hsplit, List.takeWhile_append_of_pos (List.all_eq_true.1 hhex)]
      rfl
    rw [hwhole, hmark, List.append_assoc, addressPattern, literalRun_append, hrun]
    rfl
  · -- a shorter end starts with another character than the literal
    have hends : ∀ u ∈ addrMark.tails, u ≠ [] → u ≠ addrMark →
        ¬ lit "0x" <+: u ∧ ¬ u <+: lit "0x" := by
      decide
    exact literalRun_of_clash (hends v ((List.mem_tails _ _).2 hsuffix) hv hwhole) rest

theorem hexRun_sub_address :
    (sub addressPattern addrMark text).takeWhile isHexDigit = text.takeWhile isHexDigit := by
  apply takeWhile_sub address_measured
  intro word after rest hfind
  -- an address starts with `0x`, and so does its mark: the run is the zero
  rcases literalRun_eq_some.1 hfind with ⟨digits, hdigits, _⟩
  rw [hdigits]
  rfl

/-- Behind a character that is kept, marks make no new address. -/
theorem address_kept_address (c : CodePoint) (text : PyStr)
    (hnone : addressPattern (c :: text) = none) :
    addressPattern (c :: sub addressPattern addrMark text) = none := by
  by_contra hsome
  cases hfind : addressPattern (c :: sub addressPattern addrMark text) with
  | none => exact hsome hfind
  | some n =>
    rcases literalRun_eq_some.1 hfind with ⟨digits, hdigits, hleast, _⟩
    have hliteral : lit "0x" = [codePoint 0x30, codePoint 0x78] := by decide
    rw [hliteral] at hdigits
    rcases List.cons.inj hdigits with ⟨rfl, htail⟩
    -- the `x` was there before: a mark starts with a zero
    have hx : [codePoint 0x78] <+: sub addressPattern addrMark text := ⟨digits, htail.symm⟩
    have hmark : addrMark = codePoint 0x30 :: lit "xADDR" := by decide
    rcases front_of_sub address_measured hmark [codePoint 0x78] text (by decide) hx with ⟨rest,
      rfl, hsub⟩
    have hrest : sub addressPattern addrMark rest = digits := by
      rw [hsub] at htail
      exact List.append_cancel_left htail
    have hrun : digits.takeWhile isHexDigit = rest.takeWhile isHexDigit := by
      rw [← hrest]
      exact hexRun_sub_address
    have hnone' : addressPattern (lit "0x" ++ rest) = none := hnone
    rw [addressPattern, literalRun_append, ← hrun, if_pos hleast] at hnone'
    cases hnone'

/-- Behind a character that is kept, marks make no new temporary path. -/
theorem tempPath_kept {P : Pattern} (hP : Measured P) {repl tail : PyStr} {head : CodePoint}
    (hrepl : repl = head :: tail) (hhead : ∀ start ∈ tempStarts, head ∉ start)
    (hword : ∀ c text n, P (c :: text) = some n → isSpace c = false) (c : CodePoint) (text : PyStr)
    (hnone : tempPathPattern (c :: text) = none) :
    tempPathPattern (c :: sub P repl text) = none := by
  rw [tempPath_foundAt] at hnone ⊢
  rintro front ⟨start, hstart, d, hd, rfl⟩ hleads
  cases start with
  | nil => exact absurd hstart (by decide)
  | cons first start =>
    have hcons := List.cons_prefix_cons.1 (by simpa using hleads)
    have hstartFront : start <+: sub P repl text := (List.prefix_append start [d]).trans hcons.2
    rcases front_of_sub hP hrepl start text (fun h => hhead _ hstart
      (List.mem_cons_of_mem _ h)) hstartFront with ⟨rest, rfl, hsub⟩
    have hlast : [d] <+: sub P repl rest := by
      have hboth : start ++ [d] <+: start ++ sub P repl rest := by
        rw [← hsub]
        exact hcons.2
      exact (List.prefix_append_right_inj start).1 hboth
    -- what stood at the place of `d` is no white space either
    have hthere : ∃ e after, rest = e :: after ∧ isSpace e = false := by
      cases rest using sub_induct hP with
      | nil =>
        rw [sub_nil] at hlast
        cases List.prefix_nil.1 hlast
      | keep e after hkeep _ =>
        rw [sub_keep hkeep] at hlast
        have heq := (List.cons_prefix_cons.1 hlast).1
        exact ⟨e, after, rfl, heq ▸ hd⟩
      | found word after hne hfind _ =>
        cases word with
        | nil => exact absurd rfl hne
        | cons e word => exact ⟨e, word ++ after, rfl, hword e _ _ hfind⟩
    rcases hthere with ⟨e, after, rfl, he⟩
    refine hnone _ ⟨first :: start, hstart, e, he, rfl⟩ ?_
    rw [hcons.1]
    exact ⟨after, by simp⟩

theorem address_word_notSpace (c : CodePoint) (text : PyStr) (n : Nat)
    (h : addressPattern (c :: text) = some n) : isSpace c = false := by
  rcases literalRun_eq_some.1 h with ⟨rest, hrest, _⟩
  have hliteral : lit "0x" = codePoint 0x30 :: lit "x" := by decide
  rw [hliteral] at hrest
  rw [(List.cons.inj hrest).1]
  decide

theorem tempPath_word_notSpace (c : CodePoint) (text : PyStr) (n : Nat)
    (h : tempPathPattern (c :: text) = some n) : isSpace c = false := by
  rcases tempPathPattern_eq_some.1 h with ⟨start, hstart, hfind⟩
  rcases literalRun_eq_some.1 hfind with ⟨rest, hrest, _⟩
  have hhead := tempStart_head start hstart
  cases start with
  | nil => cases hhead
  | cons d start =>
    rw [(List.cons.inj hrest).1, Option.some.inj hhead]
    decide

theorem not_isSpace_of_isDecimal {c : CodePoint} (h : isDecimal c = true) : isSpace c = false := by
  have hzeros : decimalZeros.all (fun first => 0x30 ≤ first && (first + 9 < 0x1680 ||
      0x1680 < first && first + 9 < 0x2000 || 0x3000 < first) &&
        (first + 9 < 0x85 || 0xA0 < first)) = true := by
    decide
  rcases List.any_eq_true.1 h with ⟨first, hfirst, hc⟩
  have hclear := List.all_eq_true.1 hzeros first hfirst
  simp only [Bool.and_eq_true, Bool.or_eq_true, decide_eq_true_eq] at hclear hc
  simp only [isSpace, Bool.or_eq_false_iff, Bool.and_eq_false_iff, decide_eq_false_iff_not,
    List.contains_eq_mem, List.mem_cons, List.not_mem_nil, or_false]
  omega

theorem timestamp_word_notSpace (c : CodePoint) (text : PyStr) (n : Nat)
    (h : timestampPattern (c :: text) = some n) : isSpace c = false := by
  apply not_isSpace_of_isDecimal
  by_contra hdecimal
  have hnone : timestampPattern (c :: text) = none := by
    rw [timestamp_eq_none]
    simp [dateTimeLayout, layout, hdecimal]
  rw [hnone] at h
  cases h

theorem pathMark_eq : pathMark = lessThan :: lit "TMPPATH>" := by decide

theorem stampMark_eq : stampMark = lessThan :: lit "TIMESTAMP>" := by decide

theorem marks_heads : codePoint 0x30 ∉ pathMark ∧ codePoint 0x30 ∉ stampMark ∧
    codePoint 0x2F ∉ pathMark ∧ codePoint 0x2F ∉ stampMark := by
  decide

theorem stampMark_noDigit : stampMark.all (fun c => !isDecimal c) = true := by
  decide

theorem free_normalizeMessage (text : PyStr) : Free addressPattern (normalizeMessage text) ∧
    Free tempPathPattern (normalizeMessage text) ∧
    Free timestampPattern (normalizeMessage text) := by
  have haddress : Free addressPattern (sub addressPattern addrMark text) :=
    free_sub address_measured address_none_in_addrMark
      (fun c text hnone _ => address_kept_address c text hnone) text fun _ _ _ h => h
  have haddressPath : Free addressPattern
      (sub tempPathPattern pathMark (sub addressPattern addrMark text)) := by
    apply free_sub tempPath_measured
    · apply address_foundAt.none_in
      intro front hfront
      rcases addressFront_head hfront with ⟨rest, rfl⟩
      exact ⟨_, rest, rfl, marks_heads.1⟩
    · intro c text _ hnone
      exact address_foundAt.kept tempPath_measured pathMark_eq (fun front hfront hmem =>
        lessThan_not_mem_addressFront hfront (List.mem_of_mem_tail hmem)) c text hnone
    · exact fun v hv hsuffix _ => haddress v hv hsuffix
  have htempPath : Free tempPathPattern
      (sub tempPathPattern pathMark (sub addressPattern addrMark text)) := by
    apply free_sub tempPath_measured
    · apply tempPath_foundAt.none_in
      intro front hfront
      rcases tempFront_head hfront with ⟨rest, rfl⟩
      exact ⟨_, rest, rfl, marks_heads.2.2.1⟩
    · intro c text _ hnone
      exact tempPath_kept tempPath_measured pathMark_eq (by decide) tempPath_word_notSpace c text
        hnone
    · exact fun _ _ _ h => h
  rw [normalizeMessage_eq]
  refine ⟨?_, ?_, ?_⟩
  · apply free_sub timestamp_measured
    · apply address_foundAt.none_in
      intro front hfront
      rcases addressFront_head hfront with ⟨rest, rfl⟩
      exact ⟨_, rest, rfl, marks_heads.2.1⟩
    · intro c text _ hnone
      exact address_foundAt.kept timestamp_measured stampMark_eq (fun front hfront hmem =>
        lessThan_not_mem_addressFront hfront (List.mem_of_mem_tail hmem)) c text hnone
    · exact fun v hv hsuffix _ => haddressPath v hv hsuffix
  · apply free_sub timestamp_measured
    · apply tempPath_foundAt.none_in
      intro front hfront
      rcases tempFront_head hfront with ⟨rest, rfl⟩
      exact ⟨_, rest, rfl, marks_heads.2.2.2⟩
    · intro c text _ hnone
      exact tempPath_kept timestamp_measured stampMark_eq (by decide) timestamp_word_notSpace c text
        hnone
    · exact fun v hv hsuffix _ => htempPath v hv hsuffix
  · apply free_sub timestamp_measured
    · apply timestamp_foundAt.none_in
      intro front hfront
      rcases timestampFront_head hfront with ⟨d, rest, rfl, hd⟩
      refine ⟨d, rest, rfl, ?_⟩
      intro hmem
      have hno := List.all_eq_true.1 stampMark_noDigit d hmem
      rw [hd] at hno
      cases hno
    · intro c text _ hnone
      exact timestamp_foundAt.kept timestamp_measured stampMark_eq (fun front hfront hmem =>
        not_mem_timestampFront (by decide) hfront (List.mem_of_mem_tail hmem)) c text hnone
    · exact fun _ _ _ h => h

theorem normalizeMessage_idem (text : PyStr) :
    normalizeMessage (normalizeMessage text) = normalizeMessage text := by
  have hfree := free_normalizeMessage text
  rw [normalizeMessage_eq (normalizeMessage text), sub_of_free hfree.1, sub_of_free hfree.2.1,
    sub_of_free hfree.2.2]

end Tempest
