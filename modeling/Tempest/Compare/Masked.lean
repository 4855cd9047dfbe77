import Tempest.Compare.Substitute

/-!
# Masked — what normalization takes out of a text

`Removed` says what it should take out: addresses, time stamps, and temporary paths where a path
starts.  `Clean` follows the three rules through a text in one walk and names what they do besides:
they find a temporary path inside a longer one, they leave text alone that reads like one of their
own marks, and a time stamp may end in the zero an address starts with.
-/

namespace Tempest

open Python

/-- `word` is what the pattern finds in front of `rest`. -/
def Finds (P : Pattern) (word rest : PyStr) : Prop :=
  word ≠ [] ∧ P (word ++ rest) = some word.length

/-- A path starts here: no character stands before that a path goes on over. -/
def StartsPath (inPath : CodePoint → Bool) (before : Option CodePoint) : Prop :=
  ∀ c ∈ before, inPath c = false

/-- `kept` is left of a text when some of its addresses, temporary paths and time stamps are
removed; `before` is the character in front of the text. -/
inductive Removed (inPath : CodePoint → Bool) : Option CodePoint → PyStr → PyStr → Prop
  | nil (before : Option CodePoint) : Removed inPath before [] []
  | keep (before : Option CodePoint) (c : CodePoint) {text kept : PyStr}
      (h : Removed inPath (some c) text kept) : Removed inPath before (c :: text) (c :: kept)
  | address (before : Option CodePoint) {word text kept : PyStr}
      (hfind : Finds addressPattern word text)
      (h : Removed inPath word.getLast? text kept) : Removed inPath before (word ++ text) kept
  | tempPath {before : Option CodePoint} {word text kept : PyStr}
      (hfind : Finds tempPathPattern word text) (hstart : StartsPath inPath before)
      (h : Removed inPath word.getLast? text kept) : Removed inPath before (word ++ text) kept
  | timestamp (before : Option CodePoint) {word text kept : PyStr}
      (hfind : Finds timestampPattern word text)
      (h : Removed inPath word.getLast? text kept) : Removed inPath before (word ++ text) kept

def marks : List PyStr := [addrMark, pathMark, stampMark]

/-- A text in which every temporary path starts a path, no time stamp takes the zero of an address,
and nothing that is kept reads like a mark. -/
inductive Clean (inPath : CodePoint → Bool) : Option CodePoint → PyStr → Prop
  | nil (before : Option CodePoint) : Clean inPath before []
  | keep (before : Option CodePoint) {c : CodePoint} {text : PyStr}
      (haddress : addressPattern (c :: text) = none)
      (htempPath : tempPathPattern (c :: text) = none)
      (htimestamp : timestampPattern (c :: text) = none)
      (hmark : ∀ mark ∈ marks, ¬ mark <+: c :: text) (h : Clean inPath (some c) text) :
      Clean inPath before (c :: text)
  | address (before : Option CodePoint) {word text : PyStr} (hfind : Finds addressPattern word text)
      (h : Clean inPath word.getLast? text) : Clean inPath before (word ++ text)
  | tempPath {before : Option CodePoint} {word text : PyStr}
      (hfind : Finds tempPathPattern word text) (hstart : StartsPath inPath before)
      (h : Clean inPath word.getLast? text) : Clean inPath before (word ++ text)
  | timestamp (before : Option CodePoint) {word text : PyStr}
      (hfind : Finds timestampPattern word text)
      (hzero : addressPattern ((word ++ text).drop (word.length - 1)) = none)
      (h : Clean inPath word.getLast? text) : Clean inPath before (word ++ text)

/-- Equal normalized texts come from texts that are equal once something was removed from each. -/
def OnlyNamed (inPath : CodePoint → Bool) (s t : PyStr) : Prop :=
  normalizeMessage s = normalizeMessage t →
    ∃ kept, Removed inPath none s kept ∧ Removed inPath none t kept

/-! ## The characters of a time stamp -/

def stampChar (c : CodePoint) : Bool := isDecimal c || (lit "-T :.Z+").contains c

variable {c : CodePoint}

theorem stampChar_of_isDecimal (h : isDecimal c = true) : stampChar c = true := by
  simp [stampChar, h]

theorem stampChar_of_isChar {n : Nat} (hn : stampChar (codePoint n) = true)
    (h : isChar n c = true) : stampChar c = true := by
  have hval : c.val = n := by simpa [isChar] using h
  have hc : codePoint n = c := by
    rw [← hval]
    exact Fin.ext (Nat.mod_eq_of_lt c.isLt)
  rwa [hc] at hn

/-- A layout reads no further than the characters of a time stamp go. -/
theorem layout_takeWhile : ∀ (classes : List (CodePoint → Bool)) (text : PyStr),
    (∀ p ∈ classes, ∀ c, p c = true → stampChar c = true) →
      layout classes (text.takeWhile stampChar) = layout classes text
  | [], _, _ => by simp [layout]
  | _ :: _, [], _ => by simp
  | p :: classes, c :: text, h => by
    have ih := layout_takeWhile classes text fun q hq => h q (List.mem_cons_of_mem p hq)
    cases hc : stampChar c with
    | true => simp only [List.takeWhile_cons, hc, if_true, layout, ih]
    | false =>
      have hp : p c = false := by
        by_contra hp
        have hstamp := h p List.mem_cons_self c (Bool.eq_true_of_not_eq_false hp)
        rw [hc] at hstamp
        cases hstamp
      simp [hc, layout, hp]

theorem takeWhile_takeWhile_of_imp {p q : CodePoint → Bool} (h : ∀ c, p c = true → q c = true) :
    ∀ text : PyStr, (text.takeWhile q).takeWhile p = text.takeWhile p
  | [] => rfl
  | c :: text => by
    cases hq : q c with
    | true =>
      simp only [List.takeWhile_cons, hq, if_true, takeWhile_takeWhile_of_imp h text]
    | false =>
      have hp : p c = false := by
        by_contra hp
        rw [h c (Bool.eq_true_of_not_eq_false hp)] at hq
        cases hq
      simp [hq, hp]

variable {inPath p : CodePoint → Bool}

theorem drop_takeWhile : ∀ (n : Nat) (text : PyStr),
    (∀ c ∈ text.take n, p c = true) → n ≤ text.length →
      (text.takeWhile p).drop n = (text.drop n).takeWhile p
  | 0, _, _, _ => by simp
  | n + 1, [], _, h => by simp at h
  | n + 1, c :: text, hall, h => by
    have hc : p c = true := hall c (by simp)
    have ih := drop_takeWhile n text (fun d hd => hall d (by simp [hd])) (by simpa using h)
    simpa [List.takeWhile_cons, hc] using ih

/-- Every class of a list takes characters of time stamps only. -/
def StampClasses (classes : List (CodePoint → Bool)) : Prop :=
  ∀ p ∈ classes, ∀ c, p c = true → stampChar c = true

theorem stampClasses_cons {classes : List (CodePoint → Bool)}
    (hp : ∀ c, p c = true → stampChar c = true) (h : StampClasses classes) :
    StampClasses (p :: classes) := by
  intro q hq
  rcases List.mem_cons.1 hq with rfl | hq
  · exact hp
  · exact h q hq

theorem stampClasses_dateTime : StampClasses dateTimeLayout := by
  have hd : ∀ c, isDecimal c = true → stampChar c = true := fun c => stampChar_of_isDecimal
  have hdash : ∀ c, isChar 0x2D c = true → stampChar c = true :=
    fun c => stampChar_of_isChar (by decide)
  have hcolon : ∀ c, isChar 0x3A c = true → stampChar c = true :=
    fun c => stampChar_of_isChar (by decide)
  have hsep : ∀ c, (isChar 0x54 c || isChar 0x20 c) = true → stampChar c = true := by
    intro c hc
    rcases Bool.or_eq_true_iff.1 hc with hc | hc
    · exact stampChar_of_isChar (by decide) hc
    · exact stampChar_of_isChar (by decide) hc
  have htwo : ∀ {classes}, StampClasses classes →
      StampClasses (isDecimal :: isDecimal :: classes) :=
    fun h => stampClasses_cons hd (stampClasses_cons hd h)
  have htime : StampClasses [isDecimal, isDecimal, isChar 0x3A, isDecimal, isDecimal, isChar 0x3A,
      isDecimal, isDecimal] :=
    htwo (stampClasses_cons hcolon (htwo (stampClasses_cons hcolon
      (htwo fun p hp => by cases hp))))
  exact htwo (htwo (stampClasses_cons hdash (htwo (stampClasses_cons hdash (htwo
    (stampClasses_cons hsep htime))))))

theorem zoneLength_takeWhile (text : PyStr) :
    zoneLength (text.takeWhile stampChar) = zoneLength text := by
  have hd : ∀ c, isDecimal c = true → stampChar c = true := fun c => stampChar_of_isDecimal
  have hcolon : ∀ c, isChar 0x3A c = true → stampChar c = true :=
    fun c => stampChar_of_isChar (by decide)
  have hsign : ∀ c, (isChar 0x2B c || isChar 0x2D c) = true → stampChar c = true := by
    intro c hc
    rcases Bool.or_eq_true_iff.1 hc with hc | hc
    · exact stampChar_of_isChar (by decide) hc
    · exact stampChar_of_isChar (by decide) hc
  have hnil : StampClasses [] := fun p hp => by cases hp
  have hzulu : StampClasses [isChar 0x5A] :=
    stampClasses_cons (fun c => stampChar_of_isChar (by decide)) hnil
  have htwo : StampClasses [isDecimal, isDecimal] :=
    stampClasses_cons hd (stampClasses_cons hd hnil)
  have hwith : StampClasses [fun c => isChar 0x2B c || isChar 0x2D c, isDecimal, isDecimal,
      isChar 0x3A, isDecimal, isDecimal] :=
    stampClasses_cons hsign (stampClasses_cons hd (stampClasses_cons hd
      (stampClasses_cons hcolon htwo)))
  have hwithout : StampClasses [fun c => isChar 0x2B c || isChar 0x2D c, isDecimal, isDecimal,
      isDecimal, isDecimal] :=
    stampClasses_cons hsign (stampClasses_cons hd (stampClasses_cons hd htwo))
  simp only [zoneLength, layout_takeWhile _ text hzulu, layout_takeWhile _ text hwith,
    layout_takeWhile _ text hwithout]

theorem fraction_takeWhile (text : PyStr) : literalRun (lit ".") isDecimal 1
    (text.takeWhile stampChar) = literalRun (lit ".") isDecimal 1 text := by
  have hdot : lit "." = [codePoint 0x2E] := by decide
  cases text with
  | nil => rfl
  | cons c text =>
    by_cases hc : c = codePoint 0x2E
    · subst hc
      have hstamp : stampChar (codePoint 0x2E) = true := by decide
      have hrun := takeWhile_takeWhile_of_imp (p := isDecimal)
        (fun _ => stampChar_of_isDecimal) text
      have hsplit : ∀ rest : PyStr, codePoint 0x2E :: rest = lit "." ++ rest := by
        intro rest
        rw [hdot]
        rfl
      rw [List.takeWhile_cons_of_pos hstamp, hsplit, hsplit, literalRun_append,
        literalRun_append, hrun]
    · have hclash : ∀ rest : PyStr, ¬ lit "." <+: c :: rest := by
        intro rest hleads
        rw [hdot] at hleads
        exact hc (List.cons_prefix_cons.1 hleads).1.symm
      rw [literalRun_unlike (hclash text)]
      apply literalRun_unlike
      intro hleads
      exact hclash text (hleads.trans (List.takeWhile_prefix _))

variable {text word : PyStr}

theorem fraction_chars {n : Nat} (h : literalRun (lit ".") isDecimal 1 text = some n) :
    ∀ c ∈ text.take n, stampChar c = true := by
  rcases literalRun_eq_some.1 h with ⟨rest, rfl, _, rfl⟩
  intro c hc
  rw [List.take_length_add_append] at hc
  rcases List.mem_append.1 hc with hdot | hrun
  · have hone : c = codePoint 0x2E := by
      have hliteral : lit "." = [codePoint 0x2E] := by decide
      rw [hliteral] at hdot
      exact List.mem_singleton.1 hdot
    rw [hone]
    decide
  · apply stampChar_of_isDecimal
    rw [← List.prefix_iff_eq_take.1 (List.takeWhile_prefix isDecimal)] at hrun
    exact List.mem_takeWhile_imp hrun

/-- What is found at the front of a text is decided by its first characters of time stamps. -/
theorem timestampPattern_takeWhile (text : PyStr) :
    timestampPattern (text.takeWhile stampChar) = timestampPattern text := by
  have hlayout := layout_takeWhile dateTimeLayout text stampClasses_dateTime
  unfold timestampPattern
  rw [hlayout]
  split_ifs with h
  · have hlong := length_of_layout _ _ h
    have hchars : ∀ c ∈ text.take dateTimeLayout.length, stampChar c = true := by
      intro c hc
      have hlength : (text.take dateTimeLayout.length).length = dateTimeLayout.length :=
        List.length_take_of_le hlong
      have hfront : layout dateTimeLayout (text.take dateTimeLayout.length) = true := by
        rw [← layout_append _ _ (text.drop dateTimeLayout.length) hlength,
          List.take_append_drop]
        exact h
      rcases class_of_layout _ _ hlength hfront c hc with ⟨p, hp, hpc⟩
      exact stampClasses_dateTime p hp c hpc
    have hrest := drop_takeWhile dateTimeLayout.length text hchars hlong
    have hfraction := fraction_takeWhile (text.drop dateTimeLayout.length)
    dsimp only
    rw [hrest, hfraction]
    cases hfind : literalRun (lit ".") isDecimal 1 (text.drop dateTimeLayout.length) with
    | none => rw [Option.getD_none, List.drop_zero, List.drop_zero, zoneLength_takeWhile]
    | some n =>
      have hmeasured := literalRun_measured (by decide) _ _ hfind
      rw [Option.getD_some, drop_takeWhile n _ (fraction_chars hfind) hmeasured.2,
        zoneLength_takeWhile]
  · rfl

theorem timestampPattern_congr {text text' : PyStr}
    (h : text.takeWhile stampChar = text'.takeWhile stampChar) :
    timestampPattern text = timestampPattern text' := by
  rw [← timestampPattern_takeWhile text, h, timestampPattern_takeWhile]

/-- A time stamp consists of characters of time stamps. -/
theorem stampChars_of_finds {word rest : PyStr} (h : Finds timestampPattern word rest) :
    ∀ c ∈ word, stampChar c = true := by
  have hfind := h.2
  rw [← timestampPattern_takeWhile] at hfind
  have hlong := (timestamp_measured _ _ hfind).2
  have hleads : word <+: (word ++ rest).takeWhile stampChar := by
    apply List.prefix_of_prefix_length_le (List.prefix_append word rest)
      (List.takeWhile_prefix stampChar) hlong
  exact fun c hc => List.mem_takeWhile_imp (hleads.subset hc)

/-! ## One step of the walk -/

section Steps

variable {P : Pattern} {repl : PyStr}

theorem sub_keep_front {front : PyStr} (text : PyStr)
    (h : ∀ v, v ≠ [] → v <:+ front → P (v ++ text) = none) :
    sub P repl (front ++ text) = front ++ sub P repl text := by
  induction front with
  | nil => rfl
  | cons c front ih =>
    have hhere := h (c :: front) (List.cons_ne_nil c front) List.suffix_rfl
    rw [List.cons_append] at hhere ⊢
    rw [sub_keep hhere, ih fun v hv hsuffix => h v hv (hsuffix.trans (List.suffix_cons c front)),
      List.cons_append]

/-- Behind a text whose characters start nothing, everything is found as before. -/
theorem sub_keep_heads {F : PyStr → Prop} (hP : FoundAt P F) {front : PyStr} (text : PyStr)
    (hheads : ∀ found, F found → ∃ d rest, found = d :: rest ∧ d ∉ front) :
    sub P repl (front ++ text) = front ++ sub P repl text :=
  sub_keep_front text fun v hv hsuffix => hP.none_in hheads v hv hsuffix text

theorem tempHeads_of_not_mem {front : PyStr} (h : codePoint 0x2F ∉ front) :
    ∀ found, TempFront found → ∃ d rest, found = d :: rest ∧ d ∉ front := by
  intro found hfound
  rcases tempFront_head hfound with ⟨rest, rfl⟩
  exact ⟨_, rest, rfl, h⟩

end Steps

theorem stampRun_sub_address (text : PyStr) :
    (sub addressPattern addrMark text).takeWhile stampChar = text.takeWhile stampChar := by
  apply takeWhile_sub address_measured
  intro word after rest hfind
  -- an address and its mark start with `0x`: the run is the zero
  rcases literalRun_eq_some.1 hfind with ⟨digits, hdigits, _⟩
  rw [hdigits]
  rfl

theorem stampRun_sub_tempPath (text : PyStr) :
    (sub tempPathPattern pathMark text).takeWhile stampChar = text.takeWhile stampChar := by
  apply takeWhile_sub tempPath_measured
  intro word after rest hfind
  rcases tempPathPattern_eq_some.1 hfind with ⟨start, hstart, hrun⟩
  rcases literalRun_eq_some.1 hrun with ⟨path, hpath, _⟩
  have hhead := tempStart_head start hstart
  cases start with
  | nil => cases hhead
  | cons d start =>
    cases hhead
    rw [hpath]
    rfl

theorem addrMark_eq : addrMark = codePoint 0x30 :: lit "xADDR" := by decide

theorem normalize_keep (haddress : addressPattern (c :: text) = none)
    (htempPath : tempPathPattern (c :: text) = none) (htimestamp : timestampPattern (c :: text) = none) :
    normalizeMessage (c :: text) = c :: normalizeMessage text := by
  have htempPath' : tempPathPattern (c :: sub addressPattern addrMark text) = none :=
    tempPath_kept address_measured addrMark_eq (by decide) address_word_notSpace c text htempPath
  have hrun : (c :: sub tempPathPattern pathMark
      (sub addressPattern addrMark text)).takeWhile stampChar = (c :: text).takeWhile stampChar := by
    rw [List.takeWhile_cons, List.takeWhile_cons, stampRun_sub_tempPath, stampRun_sub_address]
  have htimestamp' := (timestampPattern_congr hrun).trans htimestamp
  rw [normalizeMessage_eq, sub_keep haddress, sub_keep htempPath', sub_keep htimestamp',
    normalizeMessage_eq]

theorem normalize_timestamp (hfind : Finds timestampPattern word text)
    (hzero : addressPattern ((word ++ text).drop (word.length - 1)) = none) :
    normalizeMessage (word ++ text) = stampMark ++ normalizeMessage text := by
  have hchars := stampChars_of_finds hfind
  have haddress : sub addressPattern addrMark (word ++ text) =
      word ++ sub addressPattern addrMark text := by
    apply sub_keep_front
    intro v hv hsuffix
    by_contra hsome
    -- an `x` is no character of a time stamp, so the zero is the last one of the word
    rcases hsuffix with ⟨front, rfl⟩
    cases v with
    | nil => exact hv rfl
    | cons c v =>
      cases v with
      | nil =>
        have hdrop : (front ++ [c] ++ text).drop ((front ++ [c]).length - 1) = [c] ++ text := by
          rw [List.append_assoc, List.length_append, List.length_singleton,
            Nat.add_sub_cancel, List.drop_left]
        rw [hdrop] at hzero
        exact hsome hzero
      | cons d v =>
        have hx : d ≠ codePoint 0x78 := by
          rintro rfl
          have hstamp := hchars (codePoint 0x78) (by simp)
          revert hstamp
          decide
        apply hsome
        apply literalRun_unlike
        intro hleads
        have hliteral : lit "0x" = [codePoint 0x30, codePoint 0x78] := by decide
        rw [hliteral] at hleads
        have htail := (List.cons_prefix_cons.1 hleads).2
        exact hx (List.cons_prefix_cons.1 htail).1.symm
  have htempPath : ∀ rest, sub tempPathPattern pathMark (word ++ rest) =
      word ++ sub tempPathPattern pathMark rest := by
    intro rest
    apply sub_keep_heads tempPath_foundAt
    apply tempHeads_of_not_mem
    intro hmem
    have hstamp := hchars _ hmem
    revert hstamp
    decide
  have hfind' : timestampPattern (word ++ sub tempPathPattern pathMark
      (sub addressPattern addrMark text)) = some word.length := by
    rw [← hfind.2]
    apply timestampPattern_congr
    rw [List.takeWhile_append_of_pos hchars, List.takeWhile_append_of_pos hchars,
      stampRun_sub_tempPath, stampRun_sub_address]
  rw [normalizeMessage_eq, haddress, htempPath, sub_found hfind.1 hfind', normalizeMessage_eq]

/-- The marks of the first two rules stay: no time stamp is found in them. -/
theorem timestamp_none_in {front : PyStr} (h : front.all (fun c => !isDecimal c) = true)
    (v : PyStr) (hv : v ≠ []) (hsuffix : v <:+ front) (rest : PyStr) :
    timestampPattern (v ++ rest) = none := by
  refine timestamp_foundAt.none_in ?_ v hv hsuffix rest
  intro found hfound
  rcases timestampFront_head hfound with ⟨d, rest, rfl, hd⟩
  refine ⟨d, rest, rfl, ?_⟩
  intro hmem
  have hno := List.all_eq_true.1 h d hmem
  rw [hd] at hno
  cases hno

theorem sub_timestamp_addrMark (text : PyStr) : sub timestampPattern stampMark (addrMark ++ text) =
    addrMark ++ sub timestampPattern stampMark text := by
  have hzero : timestampPattern (codePoint 0x30 :: (lit "xADDR" ++ text)) = none := by
    rw [timestamp_eq_none]
    rfl
  have hrest : sub timestampPattern stampMark (lit "xADDR" ++ text) =
      lit "xADDR" ++ sub timestampPattern stampMark text :=
    sub_keep_front text fun v hv hsuffix => timestamp_none_in (by decide) v hv hsuffix text
  rw [addrMark_eq, List.cons_append, sub_keep hzero, hrest, List.cons_append]

theorem normalize_address (hfind : Finds addressPattern word text) :
    normalizeMessage (word ++ text) = addrMark ++ normalizeMessage text := by
  have htempPath : ∀ rest, sub tempPathPattern pathMark (addrMark ++ rest) =
      addrMark ++ sub tempPathPattern pathMark rest := by
    intro rest
    exact sub_keep_heads tempPath_foundAt rest (tempHeads_of_not_mem (by decide))
  rw [normalizeMessage_eq, sub_found hfind.1 hfind.2, htempPath, sub_timestamp_addrMark,
    normalizeMessage_eq]

theorem head_dropWhile {text rest : PyStr} (h : text = text.takeWhile p ++ rest) :
    ∀ c ∈ rest.head?, p c = false := by
  have hrest : rest = text.dropWhile p := by
    have hsplit := List.takeWhile_append_dropWhile (p := p) (l := text)
    exact List.append_cancel_left (h.symm.trans hsplit.symm)
  intro c hc
  rw [hrest] at hc
  by_contra hp
  have hhead := List.head?_dropWhile_not p text
  rw [Option.mem_def.1 hc] at hhead
  simp [hp] at hhead

/-- A temporary path: its start, the rest of its word, and white space or nothing behind. -/
theorem tempPath_parts (hfind : Finds tempPathPattern word text) :
    ∃ start ∈ tempStarts, ∃ run, word = start ++ run ∧ run ≠ [] ∧
      (∀ c ∈ run, isSpace c = false) ∧ ∀ c ∈ text.head?, isSpace c = true := by
  rcases tempPathPattern_eq_some.1 hfind.2 with ⟨start, hstart, hrun⟩
  rcases literalRun_eq_some.1 hrun with ⟨rest, hrest, hleast, hlength⟩
  have hword : word = start ++ rest.takeWhile (fun c => !isSpace c) := by
    have hleads : start ++ rest.takeWhile (fun c => !isSpace c) <+: word ++ text := by
      rw [hrest, List.prefix_append_right_inj]
      exact List.takeWhile_prefix _
    have hlengths : word.length = (start ++ rest.takeWhile (fun c => !isSpace c)).length := by
      rw [List.length_append, hlength]
    exact (List.prefix_of_prefix_length_le (List.prefix_append word text) hleads
      hlengths.le).eq_of_length hlengths
  refine ⟨start, hstart, rest.takeWhile (fun c => !isSpace c), hword, ?_, ?_, ?_⟩
  · intro hnil
    rw [hnil] at hleast
    cases hleast
  · intro c hc
    simpa using List.mem_takeWhile_imp hc
  · have hsplit : rest = rest.takeWhile (fun c => !isSpace c) ++ text := by
      rw [hword, List.append_assoc] at hrest
      exact (List.append_cancel_left hrest).symm
    intro c hc
    simpa using head_dropWhile hsplit c hc

theorem spaces_end_addresses (hc : isSpace c = true) :
    c ∉ lit "0x" ∧ isHexDigit c = false := by
  constructor
  · have hliteral : (lit "0x").all (fun c => !isSpace c) = true := by decide
    intro hmem
    have hno := List.all_eq_true.1 hliteral c hmem
    rw [hc] at hno
    cases hno
  · by_contra hhex
    have hboth : isHexDigit c = true := Bool.eq_true_of_not_eq_false hhex
    simp only [isHexDigit, Bool.or_eq_true, Bool.and_eq_true, decide_eq_true_eq] at hboth
    simp only [isSpace, Bool.or_eq_true, Bool.and_eq_true, decide_eq_true_eq, List.contains_eq_mem,
      List.mem_cons, List.not_mem_nil, or_false] at hc
    omega

theorem normalize_tempPath (hfind : Finds tempPathPattern word text) :
    normalizeMessage (word ++ text) = pathMark ++ normalizeMessage text := by
  rcases tempPath_parts hfind with ⟨start, hstart, run, rfl, hrun, hplain, hafter⟩
  -- the addresses of the path and of the text behind it are substituted separately
  have hsplit : ∀ front, sub addressPattern addrMark (front ++ text) =
      sub addressPattern addrMark front ++ sub addressPattern addrMark text := by
    refine sub_append address_measured fun front _ => ?_
    exact literalRun_stops (fun c hc => (spaces_end_addresses (hafter c hc)).1)
      (fun c hc => (spaces_end_addresses (hafter c hc)).2) front
  have hstartKept : sub addressPattern addrMark (start ++ run) =
      start ++ sub addressPattern addrMark run := by
    apply sub_keep_heads address_foundAt
    intro found hfound
    rcases addressFront_head hfound with ⟨rest, rfl⟩
    have hclear : ∀ start ∈ tempStarts, codePoint 0x30 ∉ start := by decide
    exact ⟨_, rest, rfl, hclear start hstart⟩
  have hplain' : ∀ c ∈ sub addressPattern addrMark run, isSpace c = false := by
    refine forall_mem_sub (p := fun c => isSpace c = false) address_measured ?_ run hplain
    have hmark : addrMark.all (fun c => !isSpace c) = true := by decide
    intro c hc
    simpa using List.all_eq_true.1 hmark c hc
  have hrun' : sub addressPattern addrMark run ≠ [] := by
    cases run using sub_induct address_measured with
    | nil => exact absurd rfl hrun
    | keep c run hnone _ =>
      rw [sub_keep hnone]
      exact List.cons_ne_nil _ _
    | found word run hne hword _ =>
      rw [sub_found hne hword]
      exact List.append_ne_nil_of_left_ne_nil (by decide) _
  have hafter' : ∀ c ∈ (sub addressPattern addrMark text).head?, (!isSpace c) = false := by
    cases text using sub_induct address_measured with
    | nil =>
      rw [sub_nil]
      intro c hc
      cases hc
    | keep c text hnone _ =>
      rw [sub_keep hnone]
      intro d hd
      cases hd
      simp [hafter c rfl]
    | found word text hne hword _ =>
      cases word with
      | nil => exact absurd rfl hne
      | cons c word =>
        have hspace := hafter c rfl
        rw [address_word_notSpace c _ _ hword] at hspace
        cases hspace
  have hfind' : tempPathPattern ((start ++ sub addressPattern addrMark run) ++
      sub addressPattern addrMark text) =
        some (start ++ sub addressPattern addrMark run).length := by
    rw [tempPathPattern_eq_some]
    refine ⟨start, hstart, ?_⟩
    have hwhole : (sub addressPattern addrMark run).takeWhile (fun c => !isSpace c) =
        sub addressPattern addrMark run := by
      rw [List.takeWhile_eq_self_iff]
      intro c hc
      simp [hplain' c hc]
    have hleast : 1 ≤ (sub addressPattern addrMark run).length := List.length_pos_iff.2 hrun'
    rw [List.append_assoc, literalRun_append, takeWhile_append_stop hafter', hwhole,
      if_pos hleast, List.length_append]
  have hne : start ++ sub addressPattern addrMark run ≠ [] :=
    List.append_ne_nil_of_right_ne_nil _ hrun'
  have hmark : ∀ rest, sub timestampPattern stampMark (pathMark ++ rest) =
      pathMark ++ sub timestampPattern stampMark rest := by
    intro rest
    exact sub_keep_front rest fun v hv hsuffix => timestamp_none_in (by decide) v hv hsuffix rest
  rw [normalizeMessage_eq, hsplit, hstartKept, sub_found hne hfind', hmark, normalizeMessage_eq]

/-! ## The text without its marks -/

def markPattern : Pattern := fun text =>
  (marks.find? fun mark => mark.isPrefixOf text).map List.length

def withoutMarks (text : PyStr) : PyStr := sub markPattern [] text

theorem withoutMarks_mark {mark : PyStr} (hmark : mark ∈ marks) (text : PyStr) :
    withoutMarks (mark ++ text) = withoutMarks text := by
  have hne : mark ≠ [] := by
    rintro rfl
    exact absurd hmark (by decide)
  have hclash : ∀ m ∈ marks, m ≠ mark → m.isPrefixOf (mark ++ text) = false := by
    intro m hm hdiffer
    have hapart : ∀ m ∈ marks, ∀ m' ∈ marks, m ≠ m' → ¬ m <+: m' := by decide
    rw [← Bool.not_eq_true, List.isPrefixOf_iff_prefix]
    intro hleads
    rcases List.prefix_or_prefix_of_prefix hleads (List.prefix_append mark text) with h | h
    · exact hapart m hm mark hmark hdiffer h
    · exact hapart mark hmark m hm hdiffer.symm h
  have hself : mark.isPrefixOf (mark ++ text) = true :=
    List.isPrefixOf_iff_prefix.2 (List.prefix_append mark text)
  have hfind : markPattern (mark ++ text) = some mark.length := by
    have hfound : (marks.find? fun m => m.isPrefixOf (mark ++ text)) = some mark := by
      cases hm : marks.find? fun m => m.isPrefixOf (mark ++ text) with
      | none => exact absurd hself (by simpa using List.find?_eq_none.1 hm mark hmark)
      | some m =>
        by_contra hdiffer
        have hin := List.mem_of_find?_eq_some hm
        have hleads : m.isPrefixOf (mark ++ text) = true := by
          simpa using List.find?_some hm
        rw [hclash m hin fun heq => hdiffer (by rw [heq])] at hleads
        cases hleads
    rw [markPattern, hfound]
    rfl
  rw [withoutMarks, sub_found hne hfind, List.nil_append]
  rfl

theorem withoutMarks_keep (h : ∀ mark ∈ marks, ¬ mark <+: c :: text) :
    withoutMarks (c :: text) = c :: withoutMarks text := by
  have hnone : markPattern (c :: text) = none := by
    rw [markPattern, Option.map_eq_none_iff, List.find?_eq_none]
    intro mark hmark
    rw [List.isPrefixOf_iff_prefix]
    exact h mark hmark
  exact sub_keep hnone

/-- What is kept reads like a mark only if it did so before. -/
theorem mark_front {text mark : PyStr} (hmark : mark ∈ marks)
    (h : mark <+: c :: normalizeMessage text) : mark <+: c :: text := by
  have hclear : ∀ mark ∈ marks, mark ≠ [] ∧ lessThan ∉ mark.tail ∧
      codePoint 0x30 ∉ mark.tail := by
    decide
  have hmarks := hclear mark hmark
  cases mark with
  | nil => exact absurd rfl hmarks.1
  | cons d mark =>
    have hcons := List.cons_prefix_cons.1 h
    have hfront := hcons.2
    rw [normalizeMessage_eq] at hfront
    rcases front_of_sub timestamp_measured stampMark_eq mark _ hmarks.2.1 hfront with
      ⟨rest, hrest, _⟩
    rcases front_of_sub tempPath_measured pathMark_eq mark _ hmarks.2.1 ⟨rest, hrest.symm⟩ with
      ⟨rest', hrest', _⟩
    rcases front_of_sub address_measured addrMark_eq mark _ hmarks.2.2 ⟨rest', hrest'.symm⟩ with
      ⟨rest'', hrest'', _⟩
    exact List.cons_prefix_cons.2 ⟨hcons.1, rest'', hrest''.symm⟩

/-! ## Only what is named -/

variable {before : Option CodePoint}

theorem removed_of_clean (h : Clean inPath before text) :
    Removed inPath before text (withoutMarks (normalizeMessage text)) := by
  induction h with
  | nil before => exact .nil before
  | keep before haddress htempPath htimestamp hmark _ ih =>
    rw [normalize_keep haddress htempPath htimestamp,
      withoutMarks_keep fun mark hin hfront => hmark mark hin (mark_front hin hfront)]
    exact .keep before _ ih
  | address before hfind _ ih =>
    rw [normalize_address hfind, withoutMarks_mark (by decide)]
    exact .address before hfind ih
  | tempPath hfind hstart _ ih =>
    rw [normalize_tempPath hfind, withoutMarks_mark (by decide)]
    exact .tempPath hfind hstart ih
  | timestamp before hfind hzero _ ih =>
    rw [normalize_timestamp hfind hzero, withoutMarks_mark (by decide)]
    exact .timestamp before hfind ih

/-- A path goes on over anything but white space, quotes, brackets and separators. -/
def isPathChar (c : CodePoint) : Bool :=
  !isSpace c && !(lit "\"'()[]<>=,;:|").contains c

def nothingNamed (inPath : CodePoint → Bool) : Option CodePoint → PyStr → Bool
  | _, [] => true
  | before, c :: text =>
    (addressPattern (c :: text)).isNone && (timestampPattern (c :: text)).isNone &&
      ((tempPathPattern (c :: text)).isNone || before.any inPath) &&
      nothingNamed inPath (some c) text

theorem not_finds_of_isNone {P : Pattern} (h : (P (word ++ text)).isNone = true) :
    ¬ Finds P word text := by
  intro hfind
  rw [hfind.2] at h
  cases h

theorem removed_of_nothingNamed {text kept : PyStr} (h : Removed inPath before text kept)
    (hnothing : nothingNamed inPath before text = true) : kept = text := by
  induction h with
  | nil _ => rfl
  | keep before c _ ih =>
    simp only [nothingNamed, Bool.and_eq_true] at hnothing
    rw [ih hnothing.2]
  | @address before word text kept hfind _ _ =>
    cases word with
    | nil => exact absurd rfl hfind.1
    | cons c word =>
      simp only [List.cons_append, nothingNamed, Bool.and_eq_true] at hnothing
      exact absurd hfind (not_finds_of_isNone hnothing.1.1.1)
  | @tempPath before word text kept hfind hstart _ _ =>
    cases word with
    | nil => exact absurd rfl hfind.1
    | cons c word =>
      simp only [List.cons_append, nothingNamed, Bool.and_eq_true, Bool.or_eq_true] at hnothing
      rcases hnothing.1.2 with hnone | hinner
      · exact absurd hfind (not_finds_of_isNone hnone)
      · rcases (Option.any_eq_true _ _).1 hinner with ⟨d, hd, hpath⟩
        rw [hstart d hd] at hpath
        cases hpath
  | @timestamp before word text kept hfind _ _ =>
    cases word with
    | nil => exact absurd rfl hfind.1
    | cons c word =>
      simp only [List.cons_append, nothingNamed, Bool.and_eq_true] at hnothing
      exact absurd hfind (not_finds_of_isNone hnothing.1.1.2)

theorem removed_sublist {text kept : PyStr} (h : Removed inPath before text kept) :
    kept.Sublist text := by
  induction h with
  | nil _ => exact List.nil_sublist []
  | keep _ c _ ih => exact ih.cons_cons c
  | address _ _ _ ih | tempPath _ _ _ ih | timestamp _ _ _ ih =>
    exact ih.trans (List.sublist_append_right _ _)

end Tempest
