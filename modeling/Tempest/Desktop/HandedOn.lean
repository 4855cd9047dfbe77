import Tempest.Desktop.LiveFeed

/-!
# HandedOn — what a subscriber hands to its listeners

A page of the ledger `Fits` between two cursors.  A subscriber that has handed on the ledger up to the
first of them comes to the second with it, or to the end of the stream: `deliver_next` for one page,
`foldl_deliver` for those it has held.
-/

namespace Tempest
namespace LiveFeed

open ChatTurn

/-! ## Coalesced rows -/

theorem merge_sublist (out : Rows) (row : Nat × Frame) :
    ((merge out row).reverse.map Prod.fst).Sublist (out.reverse.map Prod.fst ++ [row.1]) := by
  unfold merge
  split
  · split_ifs
    · -- the number of the run is replaced by the new one
      simp only [List.reverse_cons, List.map_append, List.map_cons, List.map_nil, List.append_assoc]
      exact (List.Sublist.refl _).append ((List.nil_sublist _).append (List.Sublist.refl _))
    · simp
  · simp

/-- Coalesced rows have some of the numbers, in their order. -/
theorem coalesce_sublist (rows : Rows) : ((coalesce rows).map Prod.fst).Sublist (rows.map Prod.fst) := by
  have hfold : ∀ (rows out : Rows), ((rows.foldl merge out).reverse.map Prod.fst).Sublist
      (out.reverse.map Prod.fst ++ rows.map Prod.fst) := by
    intro rows
    induction rows with
    | nil => exact fun out => by simp
    | cons row rows ih =>
      intro out
      have hmerged := (merge_sublist out row).append_right (rows.map Prod.fst)
      rw [List.append_assoc] at hmerged
      exact (ih (merge out row)).trans hmerged
  exact hfold rows []

variable {row : Nat × Frame}

theorem merge_final {out : Rows} (h : isFinal row.2 = true) :
    merge out row = row :: out := by
  obtain ⟨n, frame⟩ := row
  cases frame with
  | final text aborted => simp [merge]
  | delta _ _ _ | event _ => cases h

/-- The final frame is merged with nothing. -/
theorem coalesce_final (rows : Rows) (h : isFinal row.2 = true) :
    coalesce (rows ++ [row]) = coalesce rows ++ [row] := by
  rw [coalesce, List.foldl_append, List.foldl_cons, List.foldl_nil, merge_final h,
    List.reverse_cons, coalesce]

theorem merge_nonfinal {out : Rows} (hout : ∀ r ∈ out, isFinal r.2 = false)
    (hrow : isFinal row.2 = false) : ∀ r ∈ merge out row, isFinal r.2 = false := by
  unfold merge
  split
  · split_ifs
    · exact List.forall_mem_cons.mpr ⟨rfl, (List.forall_mem_cons.mp hout).2⟩
    · exact List.forall_mem_cons.mpr ⟨hrow, hout⟩
  · exact List.forall_mem_cons.mpr ⟨hrow, hout⟩

theorem coalesce_nonfinal {rows : Rows} (h : ∀ row ∈ rows, isFinal row.2 = false) :
    ∀ row ∈ coalesce rows, isFinal row.2 = false := by
  have hfold : ∀ (rows out : Rows), (∀ row ∈ rows, isFinal row.2 = false) →
      (∀ row ∈ out, isFinal row.2 = false) → ∀ row ∈ rows.foldl merge out, isFinal row.2 = false := by
    intro rows
    induction rows with
    | nil => exact fun out _ hout => hout
    | cons row rows ih =>
      intro out hrows hout
      obtain ⟨hrow, hrest⟩ := List.forall_mem_cons.mp hrows
      exact ih _ hrest (merge_nonfinal hout hrow)
  intro row hrow
  exact hfold rows [] h (List.forall_mem_nil _) row (List.mem_reverse.mp hrow)

theorem coalesce_eq_nil {rows : Rows} : coalesce rows = [] ↔ rows = [] := by
  have hlast := coalesce_last rows
  constructor
  · intro hnil
    rw [hnil] at hlast
    exact List.getLast?_eq_none_iff.mp (Option.map_eq_none_iff.mp hlast.symm)
  · intro hnil
    rw [hnil]
    rfl

theorem numbered_map_fst_pairwise (n : Nat) (xs : List Frame) :
    ((numbered n xs).map Prod.fst).Pairwise (· < ·) := by
  induction xs generalizing n with
  | nil => exact .nil
  | cons x xs ih =>
    refine .cons (fun m hm => ?_) (ih (n + 1))
    obtain ⟨row, hrow, rfl⟩ := List.mem_map.mp hm
    exact (mem_numbered hrow).1

theorem mem_of_numbered {n : Nat} {xs : List Frame} (h : row ∈ numbered n xs) :
    row.2 ∈ xs := by
  have hmem : row.2 ∈ (numbered n xs).map Prod.snd := List.mem_map.mpr ⟨row, h, rfl⟩
  rwa [numbered_map_snd] at hmem

/-! ## Pages of the ledger -/

structure Ends (s : Turn) : Prop where
  active : s.status = .active → ∀ frame ∈ s.ledger, isFinal frame = false
  ended : s.status ≠ .active → ∃ frames last, s.ledger = frames ++ [last] ∧ isFinal last = true ∧
    ∀ frame ∈ frames, isFinal frame = false

theorem Ends.pos {s : Turn} (h : Ends s) (hended : s.status ≠ .active) : 0 < s.ledger.length := by
  obtain ⟨frames, last, hledger, -⟩ := h.ended hended
  rw [hledger]
  simp

structure Fits (s : Turn) (a b : Nat) (page : Page) : Prop where
  le : a ≤ b
  within : b ≤ s.ledger.length
  events : page.events = coalesce (numbered (a + 1) ((s.ledger.take b).drop a))
  verdict : page.status ≠ .active → s.status ≠ .active ∧ b = s.ledger.length

namespace Fits

variable {s : Turn} {a b : Nat} {page : Page}

theorem ordered (h : Fits s a b page) : (page.events.map Prod.fst).Pairwise (· < ·) := by
  rw [h.events]
  exact (numbered_map_fst_pairwise _ _).sublist (coalesce_sublist _)

theorem bounds (h : Fits s a b page) {row : Nat × Frame} (hrow : row ∈ page.events) :
    a < row.1 ∧ row.1 ≤ b := by
  have hmem : row.1 ∈ (numbered (a + 1) ((s.ledger.take b).drop a)).map Prod.fst := by
    refine (coalesce_sublist _).subset ?_
    rw [← h.events]
    exact List.mem_map.mpr ⟨row, hrow, rfl⟩
  obtain ⟨row', hrow', heq⟩ := List.mem_map.mp hmem
  have hrange := mem_numbered hrow'
  have hwithin := h.within
  rw [heq, List.length_drop, List.length_take] at hrange
  omega

theorem content (h : Fits s a b page) :
    pieces (page.events.map Prod.snd) = pieces ((s.ledger.take b).drop a) := by
  rw [h.events, coalesce_pieces, numbered_map_snd]

theorem eq_nil_iff (h : Fits s a b page) : page.events = [] ↔ a = b := by
  have hle := h.le
  have hwithin := h.within
  have hrows : numbered (a + 1) ((s.ledger.take b).drop a) = [] ↔ (s.ledger.take b).drop a = [] := by
    cases (s.ledger.take b).drop a <;> simp [numbered]
  rw [h.events, coalesce_eq_nil, hrows, List.drop_eq_nil_iff, List.length_take]
  omega

theorem cursor (h : Fits s a b page) : cursorOf page.events a = b := by
  have hle := h.le
  have hwithin := h.within
  rw [cursorOf, h.events, coalesce_last, numbered_last]
  split_ifs with hnone
  · rw [List.drop_eq_nil_iff, List.length_take] at hnone
    simp only [Option.getD_none]
    omega
  · simp only [List.length_drop, List.length_take, Option.getD_some]
    omega

/-- A page to the end of a turn that has ended carries the final frame, and no other page does. -/
theorem final (h : Fits s a b page) (he : Ends s) :
    (∀ row ∈ page.events, isFinal row.2 = false) ∧ (s.status ≠ .active → a < b → b < s.ledger.length) ∨
      ∃ rows row, page.events = rows ++ [row] ∧ isFinal row.2 = true ∧
        (∀ r ∈ rows, isFinal r.2 = false) ∧ s.status ≠ .active ∧ b = s.ledger.length := by
  have hwithin := h.within
  by_cases hactive : s.status = .active
  · refine .inl ⟨fun row hrow => ?_, fun hended => absurd hactive hended⟩
    rw [h.events] at hrow
    refine coalesce_nonfinal (fun r hr => ?_) row hrow
    exact he.active hactive _ (List.mem_of_mem_take (List.mem_of_mem_drop (mem_of_numbered hr)))
  · obtain ⟨frames, last, hledger, hlast, hframes⟩ := he.ended hactive
    have hlength : s.ledger.length = frames.length + 1 := by rw [hledger]; simp
    have hearly : ∀ row ∈ numbered (a + 1) ((frames.take b).drop a), isFinal row.2 = false := by
      intro row hrow
      exact hframes _ (List.mem_of_mem_take (List.mem_of_mem_drop (mem_of_numbered hrow)))
    by_cases hall : b = s.ledger.length ∧ a < b
    · refine .inr ⟨coalesce (numbered (a + 1) ((frames.take b).drop a)), (b, last), ?_, hlast,
        coalesce_nonfinal hearly, hactive, hall.1⟩
      have hdrop : (s.ledger.take b).drop a = (frames.take b).drop a ++ [last] := by
        rw [hall.1, List.take_length, hlength, hledger, List.take_of_length_le (by omega),
          List.drop_append_of_le_length (by omega)]
      have hnumber : a + 1 + ((frames.take b).drop a).length = b := by
        rw [List.length_drop, List.length_take]
        omega
      rw [h.events, hdrop, numbered_append, hnumber, numbered, numbered, coalesce_final _ hlast]
    · refine .inl ⟨fun row hrow => ?_, fun _ hlt => ?_⟩
      · rw [h.events] at hrow
        by_cases hempty : a = b
        · have hnil : (s.ledger.take b).drop a = [] := by
            rw [List.drop_eq_nil_iff, List.length_take]
            omega
          rw [hnil] at hrow
          cases hrow
        · have hle := h.le
          have htake : s.ledger.take b = frames.take b := by
            rw [hledger, List.take_append_of_le_length (by omega)]
          rw [htake] at hrow
          exact coalesce_nonfinal hearly row hrow
      · omega

end Fits

/-! ## What the listeners were handed -/

theorem cursorOf_cons (row : Nat × Frame) (rows : Rows) (a : Nat) :
    cursorOf (row :: rows) a = cursorOf rows row.1 := by
  cases rows with
  | nil => rfl
  | cons row' rows => simp [cursorOf, List.getLast?_cons]

theorem cursorOf_append (xs ys : Rows) (a : Nat) :
    cursorOf (xs ++ ys) a = cursorOf ys (cursorOf xs a) := by
  induction xs generalizing a with
  | nil => rfl
  | cons x xs ih => rw [List.cons_append, cursorOf_cons, cursorOf_cons, ih]

def Subscriber.took (c : Subscriber) (rows : Rows) : Subscriber :=
  { c with
    delivered := (rows.map Prod.fst).reverse ++ c.delivered
    highWater := cursorOf rows c.highWater
    out := c.out ++ rows }

/-- The listeners were handed the ledger up to the high-water mark. -/
structure Seen (s : Turn) (c : Subscriber) : Prop where
  ordered : (c.out.map Prod.fst).Pairwise (· < ·)
  bound : ∀ row ∈ c.out, row.1 ≤ c.highWater
  delivered : ∀ n, n ∈ c.delivered ↔ n ∈ c.out.map Prod.fst
  highWater : cursorOf c.out 0 = c.highWater
  within : c.highWater ≤ s.ledger.length
  content : pieces (c.out.map Prod.snd) = pieces (s.ledger.take c.highWater)
  complete : c.ending = some .final → s.status ≠ .active ∧ c.highWater = s.ledger.length ∧
    ∃ row ∈ c.out.getLast?, isFinal row.2 = true
  unfailed : c.ending ≠ some .failed

/-- The subscriber has come to the cursor, or the stream has ended with the final frame. -/
inductive Outcome (s : Turn) (c : Subscriber) (b : Nat) : Subscriber → Prop where
  | reached (rows : Rows) : Seen s (c.took rows) → (c.took rows).highWater = b →
      (s.status ≠ .active → b < s.ledger.length) → Outcome s c b (c.took rows)
  | ended (rows : Rows) : Seen s ((c.took rows).detach .final) →
      Outcome s c b ((c.took rows).detach .final)

/-- Only what was handed on, and how it ended, counts. -/
theorem Seen.same {s : Turn} {c c' : Subscriber} (h : Seen s c) (hout : c'.out = c.out)
    (hdelivered : c'.delivered = c.delivered) (hmark : c'.highWater = c.highWater)
    (hending : c'.ending = c.ending) : Seen s c' := by
  refine ⟨?_, ?_, ?_, ?_, ?_, ?_, ?_, ?_⟩
  · exact hout ▸ h.ordered
  · exact hmark ▸ hout ▸ h.bound
  · exact hdelivered ▸ hout ▸ h.delivered
  · exact hmark ▸ hout ▸ h.highWater
  · exact hmark ▸ h.within
  · exact hmark ▸ hout ▸ h.content
  · exact hending ▸ hmark ▸ hout ▸ h.complete
  · exact hending ▸ h.unfailed

section Deliver

variable {s : Turn} {c : Subscriber} {page : Page} {m : Nat}

@[simp] theorem took_nil (c : Subscriber) : c.took [] = c := by
  simp [Subscriber.took, cursorOf]

theorem took_took (c : Subscriber) (xs ys : Rows) : (c.took xs).took ys = c.took (xs ++ ys) := by
  simp only [Subscriber.took, cursorOf_append, List.map_append, List.reverse_append, List.append_assoc]

/-- New frames are handed on one after the other. -/
theorem handOn_append {rows more : Rows} (hordered : (rows.map Prod.fst).Pairwise (· < ·))
    (hhigh : ∀ row ∈ rows, c.highWater < row.1) (hbound : ∀ n ∈ c.delivered, n ≤ c.highWater)
    (hfinal : ∀ row ∈ rows, isFinal row.2 = false) :
    c.handOn (rows ++ more) = (c.took rows).handOn more := by
  induction rows generalizing c with
  | nil => rw [took_nil, List.nil_append]
  | cons row rows ih =>
    rw [List.map_cons, List.pairwise_cons] at hordered
    rw [List.forall_mem_cons] at hhigh hfinal
    have hnew : row.1 ∉ c.delivered := fun hmem => Nat.not_lt.mpr (hbound _ hmem) hhigh.1
    have hmax : max c.highWater row.1 = row.1 := Nat.max_eq_right (Nat.le_of_lt hhigh.1)
    have hone : c.handOn (row :: rows ++ more) = (c.took [row]).handOn (rows ++ more) := by
      rw [List.cons_append, Subscriber.handOn, if_neg hnew]
      simp only [hfinal.1, Bool.false_eq_true, if_false, hmax]
      rfl
    have hlater : ∀ r ∈ rows, (c.took [row]).highWater < r.1 := fun r hr =>
      hordered.1 _ (List.mem_map.mpr ⟨r, hr, rfl⟩)
    have hbelow : ∀ n ∈ (c.took [row]).delivered, n ≤ (c.took [row]).highWater := by
      intro n hn
      rcases List.mem_cons.mp hn with rfl | hold
      · exact Nat.le_refl _
      · exact (hbound n hold).trans (Nat.le_of_lt hhigh.1)
    rw [hone, ih hordered.2 hlater hbelow hfinal.2, took_took, List.singleton_append]

theorem cursorOf_lt {rows : Rows} {a n : Nat} (ha : a < n) (h : ∀ row ∈ rows, row.1 < n) :
    cursorOf rows a < n := by
  induction rows generalizing a with
  | nil => exact ha
  | cons row rows ih =>
    rw [List.forall_mem_cons] at h
    rw [cursorOf_cons]
    exact ih h.1 h.2

/-- A final frame behind them ends the stream. -/
theorem handOn_final {rows : Rows} {row : Nat × Frame}
    (hordered : ((rows ++ [row]).map Prod.fst).Pairwise (· < ·))
    (hhigh : ∀ r ∈ rows ++ [row], c.highWater < r.1) (hbound : ∀ n ∈ c.delivered, n ≤ c.highWater)
    (hearly : ∀ r ∈ rows, isFinal r.2 = false) (hfinal : isFinal row.2 = true) :
    c.handOn (rows ++ [row]) = (c.took (rows ++ [row])).detach .final := by
  rw [List.forall_mem_append] at hhigh
  rw [List.map_append, List.pairwise_append] at hordered
  have hbefore : ∀ r ∈ rows, r.1 < row.1 := fun r hr =>
    hordered.2.2 _ (List.mem_map.mpr ⟨r, hr, rfl⟩) _ (by simp)
  have hlast : c.highWater < row.1 := hhigh.2 row (by simp)
  have hnew : row.1 ∉ (c.took rows).delivered := by
    intro hmem
    rcases List.mem_append.mp hmem with hsame | hold
    · obtain ⟨r, hr, heq⟩ := List.mem_map.mp (List.mem_reverse.mp hsame)
      exact Nat.ne_of_lt (hbefore r hr) heq
    · exact Nat.not_lt.mpr (hbound _ hold) hlast
  have hmax : max (c.took rows).highWater row.1 = row.1 :=
    Nat.max_eq_right (Nat.le_of_lt (cursorOf_lt hlast hbefore))
  rw [handOn_append hordered.1 hhigh.1 hbound hearly, Subscriber.handOn, if_neg hnew]
  simp only [hfinal, if_true, hmax]
  simp only [Subscriber.took, cursorOf_append, List.map_append, List.map_cons,
    List.map_nil, List.reverse_append, List.reverse_cons, List.reverse_nil, List.nil_append,
    List.append_assoc]
  rfl

theorem handOn_delivered {rows : Rows} (h : ∀ row ∈ rows, row.1 ∈ c.delivered) : c.handOn rows = c := by
  induction rows with
  | nil => rfl
  | cons row rows ih =>
    rw [List.forall_mem_cons] at h
    rw [Subscriber.handOn, if_pos h.1, ih h.2]

theorem Outcome.refl {b : Nat} (h : Seen s c) (hmark : c.highWater = b)
    (hlag : s.status ≠ .active → b < s.ledger.length) : Outcome s c b c := by
  have hnone := Outcome.reached (s := s) (c := c) (b := b) []
  rw [took_nil] at hnone
  exact hnone h hmark hlag

theorem bySeq_ordered {rows : Rows} (h : (rows.map Prod.fst).Pairwise (· < ·)) : bySeq rows = rows := by
  apply List.Pairwise.insertionSort_eq
  rw [List.pairwise_map] at h
  exact h.imp fun hlt => Nat.le_of_lt hlt

theorem deliver_closed (h : c.ending.isSome = true) : c.deliver page = c := by
  rw [Subscriber.deliver, if_pos h]

/-- A page with nothing new, and no last word. -/
theorem deliver_nothing (hrows : ∀ row ∈ page.events, row.1 ∈ c.delivered)
    (hword : page.events = [] → page.status = .active) : c.deliver page = c := by
  cases hending : c.ending.isSome with
  | true => exact deliver_closed hending
  | false =>
    have hsorted : ∀ row ∈ bySeq page.events, row.1 ∈ c.delivered := fun row hrow =>
      hrows row ((List.perm_insertionSort _ _).mem_iff.mp hrow)
    have hquiet : ¬(page.status ≠ .active ∧ page.events = []) := fun h => h.1 (hword h.2)
    simp only [Subscriber.deliver, hending, Bool.false_eq_true, if_false,
      handOn_delivered hsorted, hquiet]

theorem Seen.fresh (h : Seen s c) : ∀ n ∈ c.delivered, n ≤ c.highWater := by
  intro n hn
  obtain ⟨row, hrow, rfl⟩ := List.mem_map.mp ((h.delivered n).mp hn)
  exact h.bound row hrow

/-- The next page brings the listeners to its cursor. -/
theorem Seen.took (h : Seen s c) (hopen : c.ending = none) (hfits : Fits s c.highWater m page) :
    Seen s (c.took page.events) where
  ordered := by
    simp only [Subscriber.took, List.map_append]
    refine List.pairwise_append.mpr ⟨h.ordered, hfits.ordered, fun x hx y hy => ?_⟩
    obtain ⟨row, hrow, rfl⟩ := List.mem_map.mp hx
    obtain ⟨row', hrow', rfl⟩ := List.mem_map.mp hy
    exact Nat.lt_of_le_of_lt (h.bound row hrow) (hfits.bounds hrow').1
  bound := by
    intro row hrow
    simp only [Subscriber.took, hfits.cursor]
    rcases List.mem_append.mp hrow with hold | hnew
    · exact (h.bound row hold).trans hfits.le
    · exact (hfits.bounds hnew).2
  delivered := by
    intro n
    simp only [Subscriber.took, List.mem_append, List.mem_reverse, List.map_append, h.delivered n]
    exact Or.comm
  highWater := by
    simp only [Subscriber.took]
    rw [cursorOf_append, h.highWater]
  within := by
    simp only [Subscriber.took, hfits.cursor]
    exact hfits.within
  content := by
    simp only [Subscriber.took, hfits.cursor, List.map_append, pieces_append, h.content, hfits.content]
    have htake : (s.ledger.take m).take c.highWater = s.ledger.take c.highWater := by
      rw [List.take_take, Nat.min_eq_left hfits.le]
    rw [← pieces_append, ← htake, List.take_append_drop]
  complete := fun hfinal => by cases hopen.symm.trans hfinal
  unfailed := fun hfailed => by cases hopen.symm.trans hfailed

/-- A page behind the high-water mark is handed on, and ends the stream if the final frame is in it. -/
theorem deliver_next (h : Seen s c) (he : Ends s) (hopen : c.ending = none)
    (hfits : Fits s c.highWater m page) (hlag : s.status ≠ .active → c.highWater < s.ledger.length) :
    Outcome s c m (c.deliver page) := by
  have hnone : c.ending.isSome = false := by rw [hopen]; rfl
  have hhigh : ∀ row ∈ page.events, c.highWater < row.1 := fun row hrow => (hfits.bounds hrow).1
  have htook := h.took hopen hfits
  have hmark : (c.took page.events).highWater = m := hfits.cursor
  simp only [Subscriber.deliver, hnone, Bool.false_eq_true, if_false, bySeq_ordered hfits.ordered]
  rcases hfits.final he with ⟨hnonfinal, hshort⟩ | ⟨rows, row, hevents, hfinal, hearly, hended, hlast⟩
  · have hhand : c.handOn page.events = c.took page.events := by
      have happend : c.handOn (page.events ++ []) = c.took page.events :=
        handOn_append hfits.ordered hhigh h.fresh hnonfinal
      rwa [List.append_nil] at happend
    have hbehind : s.status ≠ .active → m < s.ledger.length := by
      intro hended
      rcases Nat.lt_or_ge c.highWater m with hlt | hge
      · exact hshort hended hlt
      · exact Nat.lt_of_le_of_lt hge (hlag hended)
    have hquiet : ¬(page.status ≠ .active ∧ page.events = []) := fun hword =>
      Nat.ne_of_lt (hbehind (hfits.verdict hword.1).1) (hfits.verdict hword.1).2
    rw [hhand, if_neg hquiet]
    exact .reached _ htook hmark hbehind
  · have hhand : c.handOn page.events = (c.took page.events).detach .final := by
      have hordered := hfits.ordered
      rw [hevents] at hhigh hordered ⊢
      exact handOn_final hordered hhigh h.fresh hearly hfinal
    have hnews : ¬(page.status ≠ .active ∧ page.events = []) := fun hword => by
      rw [hevents] at hword
      exact List.append_ne_nil_of_right_ne_nil _ (List.cons_ne_nil _ _) hword.2
    rw [hhand, if_neg hnews]
    refine .ended _ ⟨htook.ordered, htook.bound, htook.delivered, htook.highWater, htook.within,
      htook.content, fun _ => ⟨hended, hmark.trans hlast, row, ?_, hfinal⟩, fun hfailed => ?_⟩
    · show row ∈ (c.out ++ page.events).getLast?
      rw [hevents, ← List.append_assoc, List.getLast?_concat]
      exact rfl
    · cases hfailed

end Deliver

/-! ## Pushes on their way -/

def Chain (s : Turn) : Nat → List Push → Nat → Prop
  | a, [], b => a = b
  | a, push :: pushes, b => ∃ m, Fits s a m push.toPage ∧ Chain s m pushes b

def Subscriber.own (c : Subscriber) (pushes : List Push) : List Push :=
  pushes.filter fun push => c.poller = some push.poller

section Chains

variable {s : Turn} {c : Subscriber} {a b : Nat}

theorem chain_append {xs ys : List Push} :
    Chain s a (xs ++ ys) b ↔ ∃ m, Chain s a xs m ∧ Chain s m ys b := by
  induction xs generalizing a with
  | nil => simp [Chain]
  | cons x xs ih =>
    simp only [List.cons_append, Chain, ih]
    constructor
    · rintro ⟨m, hfits, k, hxs, hys⟩
      exact ⟨k, ⟨m, hfits, hxs⟩, hys⟩
    · rintro ⟨k, ⟨m, hfits, hxs⟩, hys⟩
      exact ⟨m, hfits, k, hxs, hys⟩

theorem Chain.le {pushes : List Push} (h : Chain s a pushes b) : a ≤ b := by
  induction pushes generalizing a with
  | nil => exact Nat.le_of_eq h
  | cons push pushes ih =>
    obtain ⟨m, hfits, hrest⟩ := h
    exact hfits.le.trans (ih hrest)

theorem own_append (xs ys : List Push) : c.own (xs ++ ys) = c.own xs ++ c.own ys := List.filter_append ..

theorem own_foreign {push : Push} (h : c.Foreign push) (pushes : List Push) :
    c.own (push :: pushes) = c.own pushes :=
      List.filter_cons_of_neg (by simpa [Subscriber.Foreign] using h)

theorem own_cons {push : Push} (h : c.poller = some push.poller) (pushes : List Push) :
    c.own (push :: pushes) = push :: c.own pushes := List.filter_cons_of_pos (by simpa using h)

theorem foldl_closed {pushes : List Push} {covered : Nat} (h : c.ending.isSome = true) :
    pushes.foldl (fun c' push => c'.deliver (Subscriber.above covered push)) c = c := by
  induction pushes with
  | nil => rfl
  | cons push pushes ih => rw [List.foldl_cons, deliver_closed h, ih]

theorem release_eq {covered : Nat} (h : c.highWater = covered) : c.release =
    c.held.foldl (fun c' push => c'.deliver (Subscriber.above covered push))
      { c with primed := true, held := [] } := h ▸ rfl

/-- What is released behind the page. -/
theorem foldl_deliver {pushes : List Push} {covered : Nat} (h : Seen s c) (he : Ends s)
    (hopen : c.ending = none) (hcovered : covered ≤ c.highWater)
    (hchain : Chain s c.highWater (c.own pushes) b)
    (hforeign : ∀ push ∈ pushes, c.Foreign push →
      push.status = .active ∧ ∀ row ∈ push.events, row.1 ≤ covered)
    (hlag : s.status ≠ .active → c.highWater < s.ledger.length) :
    Outcome s c b (pushes.foldl (fun c' push => c'.deliver (Subscriber.above covered push)) c) := by
  induction pushes generalizing c with
  | nil => exact .refl h hchain (hchain ▸ hlag)
  | cons push pushes ih =>
    obtain ⟨hfirst, hrest⟩ := List.forall_mem_cons.mp hforeign
    rw [List.foldl_cons]
    by_cases hown : c.poller = some push.poller
    case neg =>
      obtain ⟨hactive, hbelow⟩ := hfirst hown
      have hnone : (Subscriber.above covered push).events = [] :=
        List.filter_eq_nil_iff.mpr fun row hrow => by simpa using hbelow row hrow
      have hsame : c.deliver (Subscriber.above covered push) = c := by
        refine deliver_nothing (fun row hrow => ?_) fun _ => hactive
        rw [hnone] at hrow
        cases hrow
      rw [own_foreign hown] at hchain
      rw [hsame]
      exact ih h hopen hcovered hchain hrest hlag
    case pos =>
      rw [own_cons hown] at hchain
      obtain ⟨m, hfits, hlater⟩ := hchain
      have hall : Subscriber.above covered push = push.toPage := by
        have hevents : push.events.filter (fun row => covered < row.1) = push.events :=
          List.filter_eq_self.mpr fun row hrow =>
            decide_eq_true (Nat.lt_of_le_of_lt hcovered (hfits.bounds hrow).1)
        simp only [Subscriber.above, hevents]
      rw [hall]
      have hnext := deliver_next h he hopen hfits hlag
      generalize c.deliver push.toPage = c' at hnext
      cases hnext with
      | ended rows hseen =>
        rw [foldl_closed rfl]
        exact .ended rows hseen
      | reached rows hseen hmark hbehind =>
        have hcovered' : covered ≤ (c.took rows).highWater :=
          hmark ▸ hcovered.trans hfits.le
        have houtcome := ih (c := c.took rows) hseen hopen hcovered' (hmark ▸ hlater) hrest
          (hmark ▸ hbehind)
        generalize pushes.foldl (fun c' push => c'.deliver (Subscriber.above covered push))
          (c.took rows) = c'' at houtcome
        cases houtcome with
        | reached rows' hseen' hmark' hbehind' =>
          rw [took_took] at hseen' hmark' ⊢
          exact .reached _ hseen' hmark' hbehind'
        | ended rows' hseen' =>
          rw [took_took] at hseen' ⊢
          exact .ended _ hseen'

end Chains

end LiveFeed
end Tempest
