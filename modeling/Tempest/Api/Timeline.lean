import Tempest.Api.ChatTurn

/-!
# Timeline — a reader misses nothing (`chatturn.py`)

`told_everything` is about every run of a conversation in which a reader that waits for its generation
is neither overtaken by the next one nor left with a store that lacks frames: whatever it was given is
its generation's timeline up to its cursor, once and in order, and a terminal status comes with all of
it.  Deltas count by their text, letter by letter.
-/

namespace Tempest
namespace ChatTurn

open Python

/-! ## Letters -/

inductive Piece where
  | letter (channel : Channel) (step : PyStr) (c : CodePoint)
  | whole (frame : Frame)
  deriving DecidableEq

def Frame.pieces : Frame → List Piece
  | .delta channel step text => text.map (.letter channel step)
  | frame => [.whole frame]

def pieces (frames : List Frame) : List Piece := frames.flatMap Frame.pieces

@[simp] theorem pieces_append (xs ys : List Frame) : pieces (xs ++ ys) = pieces xs ++ pieces ys :=
  List.flatMap_append

theorem merge_pieces (out : Rows) (row : Nat × Frame) :
    pieces ((merge out row).reverse.map Prod.snd) =
      pieces (out.reverse.map Prod.snd) ++ row.2.pieces := by
  unfold merge
  split
  · next m channel step text rest n channel' step' text' =>
      split_ifs with hsame
      · obtain ⟨rfl, rfl⟩ := hsame
        simp [pieces, Frame.pieces]
      · simp [pieces]
  · simp [pieces]

/-- Coalescing keeps every letter in its place. -/
theorem coalesce_pieces (rows : Rows) :
    pieces ((coalesce rows).map Prod.snd) = pieces (rows.map Prod.snd) := by
  have hfold : ∀ (rows out : Rows), pieces ((rows.foldl merge out).reverse.map Prod.snd) =
      pieces (out.reverse.map Prod.snd) ++ pieces (rows.map Prod.snd) := by
    intro rows
    induction rows with
    | nil => exact fun out => by simp [pieces]
    | cons row rows ih =>
      intro out
      calc pieces (((row :: rows).foldl merge out).reverse.map Prod.snd)
          = pieces ((merge out row).reverse.map Prod.snd) ++ pieces (rows.map Prod.snd) :=
            ih (merge out row)
        _ = pieces (out.reverse.map Prod.snd) ++ pieces ((row :: rows).map Prod.snd) := by
            rw [merge_pieces]
            simp [pieces]
  exact (hfold rows []).trans (by simp [pieces])

theorem merge_head (out : Rows) (row : Nat × Frame) :
    (merge out row).head?.map Prod.fst = some row.1 := by
  unfold merge
  split
  · split_ifs <;> rfl
  · rfl

/-- The last of the coalesced frames has the last sequence number. -/
theorem coalesce_last (rows : Rows) :
    (coalesce rows).getLast?.map Prod.fst = rows.getLast?.map Prod.fst := by
  rcases rows.eq_nil_or_concat with rfl | ⟨before, row, rfl⟩
  · rfl
  · simp [coalesce, List.concat_eq_append, List.foldl_append, merge_head]

/-! ## Rows -/

theorem numbered_append (n : Nat) (xs ys : List Frame) :
    numbered n (xs ++ ys) = numbered n xs ++ numbered (n + xs.length) ys := by
  induction xs generalizing n with
  | nil => rfl
  | cons x xs ih =>
    have hshift : n + 1 + xs.length = n + (xs.length + 1) := by omega
    simp [numbered, ih, hshift]

@[simp] theorem numbered_map_snd (n : Nat) (xs : List Frame) : (numbered n xs).map Prod.snd = xs := by
  induction xs generalizing n with
  | nil => rfl
  | cons x xs ih => simp [numbered, ih]

theorem mem_numbered {n : Nat} {xs : List Frame} {row : Nat × Frame} (h : row ∈ numbered n xs) :
    n ≤ row.1 ∧ row.1 < n + xs.length := by
  induction xs generalizing n with
  | nil => cases h
  | cons x xs ih =>
    rcases List.mem_cons.1 h with rfl | hlater
    · simp
    · have hrange := ih hlater
      simp only [List.length_cons]
      omega

theorem numbered_last (n : Nat) (xs : List Frame) :
    (numbered n xs).getLast?.map Prod.fst = if xs = [] then none else some (n + xs.length - 1) := by
  induction xs generalizing n with
  | nil => rfl
  | cons x xs ih =>
    cases xs with
    | nil => simp [numbered]
    | cons y ys =>
      have hrest := ih (n + 1)
      simp only [numbered, List.getLast?_cons_cons, List.length_cons, reduceCtorEq,
        if_false] at hrest ⊢
      rw [hrest]
      congr 1
      omega

/-- Rows with the next sequence numbers go behind the ones that are there. -/
theorem putRows_numbered (before new : List Frame) :
    putRows (numbered 1 before) (numbered (before.length + 1) new) = numbered 1 (before ++ new) := by
  induction new generalizing before with
  | nil => simp [putRows, numbered]
  | cons f new ih =>
    have hfresh : ((numbered 1 before).any fun r => r.1 = before.length + 1) = false := by
      rw [List.any_eq_false]
      intro row hrow
      have hrange := mem_numbered hrow
      simp only [decide_eq_true_eq]
      omega
    have hput : putRow (numbered 1 before) (before.length + 1, f) = numbered 1 (before ++ [f]) := by
      rw [putRow, hfresh, numbered_append, Nat.add_comm 1]
      rfl
    have hnext := ih (before ++ [f])
    simp only [List.length_append, List.length_singleton, List.append_assoc,
      List.singleton_append] at hnext
    simp only [putRows, numbered, List.foldl_cons, hput]
    exact hnext

theorem putRow_numbered (n : Nat) (xs : List Frame) (f : Frame) :
    putRow (numbered n xs) (n + xs.length, f) = numbered n (xs ++ [f]) := by
  have hfresh : ((numbered n xs).any fun r => r.1 = n + xs.length) = false := by
    rw [List.any_eq_false]
    intro row hrow
    have hrange := mem_numbered hrow
    simp only [decide_eq_true_eq]
    omega
  rw [putRow, hfresh, numbered_append]
  rfl

/-- The store reads the rows back as they are. -/
theorem bySeq_numbered (n : Nat) (xs : List Frame) : bySeq (numbered n xs) = numbered n xs := by
  apply List.Pairwise.insertionSort_eq
  induction xs generalizing n with
  | nil => exact .nil
  | cons x xs ih =>
    refine .cons (fun row hrow => ?_) (ih (n + 1))
    exact (Nat.le_succ n).trans (mem_numbered hrow).1

theorem filter_numbered (n c : Nat) (xs : List Frame) (h : n ≤ c + 1) :
    (numbered n xs).filter (fun row => c < row.1) = numbered (c + 1) (xs.drop (c + 1 - n)) := by
  induction xs generalizing n with
  | nil => simp [numbered]
  | cons x xs ih =>
    rcases Nat.lt_or_ge c n with hlt | hge
    · obtain rfl : n = c + 1 := by omega
      have hall : (numbered (c + 1) (x :: xs)).filter (fun row => c < row.1) =
          numbered (c + 1) (x :: xs) := by
        rw [List.filter_eq_self]
        intro row hrow
        have hrange := mem_numbered hrow
        simp only [decide_eq_true_eq]
        omega
      rw [hall, Nat.sub_self, List.drop_zero]
    · have hskip : ¬ c < n := by omega
      have hdrop : c + 1 - n = (c + 1 - (n + 1)) + 1 := by omega
      rw [numbered, List.filter_cons, if_neg (by simpa using hskip), ih (n + 1) (by omega), hdrop,
        List.drop_succ_cons]

theorem max_numbered (xs : List Frame) : ((numbered 1 xs).map Prod.fst).foldl max 0 = xs.length := by
  have hfold : ∀ (xs : List Frame) (n m : Nat), m ≤ n →
      ((numbered (n + 1) xs).map Prod.fst).foldl max m = if xs = [] then m else n + xs.length := by
    intro xs
    induction xs with
    | nil => exact fun n m _ => rfl
    | cons x xs ih =>
      intro n m hle
      have hmax : max m (n + 1) = n + 1 := by omega
      simp only [numbered, List.map_cons, List.foldl_cons, hmax, ih (n + 1) (n + 1) le_rfl,
        reduceCtorEq, if_false, List.length_cons]
      split_ifs with hnone
      · simp [hnone]
      · omega
  rw [hfold xs 0 0 le_rfl]
  split_ifs with hnone
  · simp [hnone]
  · exact Nat.zero_add _

namespace Chat

/-! ## The condition -/

/-- The reader has not been told a terminal status yet. -/
def Waiting (s : Chat) : Prop := s.reader.attached.isSome ∧ s.reader.told = none

def Stored (s : Chat) (g : Nat) : Prop :=
  s.turn.map Prod.fst = some g ∧ s.rows = numbered 1 (s.ledger g)

def Durable (s : Chat) : Prop :=
  match s.registry with
  | some g => s.Stored g
  | none => True

/-- A reader attaches to a generation that still has its frames.  While it waits no other generation
is reserved, the opening commit does not fail, and the memory is only given up for a store that has
everything. -/
def Admits (s : Chat) : Action → Prop
  | .attach =>
    match s.registry, s.turn with
    | none, some (g, _) => s.Stored g
    | _, _ => True
  | .reserve _ _ | .openFail => ¬ s.Waiting
  | .restart | .evict => s.Waiting → s.Durable
  | _ => True

/-! ## The invariant -/

def WorkerInv (s : Chat) : Worker → Prop
  | .idle =>
    ∀ g, s.registry = some g → (s.jobs g).status ≠ .active ∧ (s.jobs g).frames = s.ledger g
  | .opening =>
    ∃ g, s.registry = some g ∧ (s.jobs g).status = .active ∧ (s.jobs g).frames = s.ledger g ∧
      (s.jobs g).pending = numbered 1 (s.ledger g)
  | .running =>
    ∃ g flushed left, s.registry = some g ∧ (s.jobs g).status = .active ∧
      (s.jobs g).frames = s.ledger g ∧ s.ledger g = flushed ++ left ∧
      s.turn = some (g, .active) ∧ s.rows = numbered 1 flushed ∧
      (s.jobs g).pending = numbered (flushed.length + 1) left
  | .publishing tail status =>
    ∃ g, s.registry = some g ∧ (s.jobs g).status = .active ∧
      s.ledger g = (s.jobs g).frames ++ tail ∧ s.turn = some (g, status) ∧ status ≠ .active ∧
      s.rows = numbered 1 (s.ledger g)

def PollInv (s : Chat) (g : Nat) : Poll → Prop
  | .idle => True
  | .job g' =>
    g' = g ∧ (s.jobs g).frames <+: s.ledger g ∧ s.reader.cursor ≤ (s.jobs g).frames.length ∧
      ((s.jobs g).status ≠ .active → (s.jobs g).frames = s.ledger g)
  | .missing => s.registry = none
  | .dead g' => s.registry = none ∧ g' = g ∧ s.turn = some (g, .active)
  | .checked => s.registry = none ∧ ∃ status, s.turn = some (g, status) ∧ status ≠ .active
  | .status status => s.registry = none ∧ s.turn = some (g, status) ∧ status ≠ .active

/-- A reader has its generation up to its cursor; while it waits, the generation is in memory or
complete in the store; once it was told a terminal status, it has everything. -/
def ReaderInv (s : Chat) (g : Nat) : Option Status → Prop
  | none =>
    (s.registry = some g ∧ s.reader.cursor ≤ (s.jobs g).frames.length ∨
      s.registry = none ∧ s.Stored g) ∧ s.PollInv g s.reader.poll
  | some _ =>
    s.reader.cursor = (s.ledger g).length ∧ (s.registry = some g → s.worker = .idle) ∧
      s.reader.poll = .idle

structure Inv (s : Chat) : Prop where
  live : ∀ g, s.registry = some g → g < s.started
  worker : s.WorkerInv s.worker
  unattached : s.reader.attached = none → s.reader.told = none ∧ s.reader.poll = .idle
  turned : ∀ g status, s.turn = some (g, status) → g < s.started
  fresh : ∀ g, s.started ≤ g → s.ledger g = []
  attached : ∀ g, s.reader.attached = some g → g < s.started ∧
    pieces s.reader.events = pieces ((s.ledger g).take s.reader.cursor) ∧
    s.reader.cursor ≤ (s.ledger g).length ∧ s.ReaderInv g s.reader.told

/-! ## The worker -/

/-- A step of the thread of `g` only adds to what its generation has. -/
structure Extends (s s' : Chat) (g : Nat) : Prop where
  reader : s'.reader = s.reader
  started : s'.started = s.started
  registry : s'.registry = s.registry
  others : ∀ i ≠ g, s'.ledger i = s.ledger i
  ledger : s.ledger g <+: s'.ledger g
  frames : (s.jobs g).frames <+: (s'.jobs g).frames
  within : (s'.jobs g).frames <+: s'.ledger g
  terminal : (s'.jobs g).status ≠ .active → (s'.jobs g).frames = s'.ledger g
  turn : s'.turn = s.turn ∨ ∃ status, s'.turn = some (g, status)
  worker : s'.WorkerInv s'.worker

theorem take_of_extends {xs ys : List Frame} {n : Nat} (h : xs <+: ys) (hle : n ≤ xs.length) :
    ys.take n = xs.take n := by
  obtain ⟨more, rfl⟩ := h
  exact List.take_append_of_le_length hle

variable {g : Nat} {s s' : Chat}

theorem Inv.of_extends (h : s.Inv) (hlive : s.registry = some g) (hbusy : s.worker ≠ .idle)
    (hext : Extends s s' g) : s'.Inv := by
  have hgen := h.live g hlive
  refine ⟨?_, hext.worker, ?_, ?_, ?_, ?_⟩
  · intro i hi
    rw [hext.registry] at hi
    rw [hext.started]
    exact h.live i hi
  · intro hnone
    rw [hext.reader] at hnone ⊢
    exact h.unattached hnone
  · intro i status hi
    rw [hext.started]
    rcases hext.turn with hsame | ⟨status', hnew⟩
    · exact h.turned i status (hsame ▸ hi)
    · obtain ⟨rfl, -⟩ := Prod.mk.inj (Option.some.inj (hnew.symm.trans hi))
      exact hgen
  · intro i hi
    rw [hext.started] at hi
    rw [hext.others i (by omega)]
    exact h.fresh i hi
  · intro i hi
    rw [hext.reader] at hi ⊢
    rcases h.attached i hi with ⟨hstarted, hpieces, hcursor, hreader⟩
    have hgrown : s.ledger i <+: s'.ledger i := by
      by_cases hig : i = g
      · exact hig ▸ hext.ledger
      · rw [hext.others i hig]
    refine ⟨hext.started.symm ▸ hstarted, ?_, hcursor.trans hgrown.length_le, ?_⟩
    · rw [take_of_extends hgrown hcursor]
      exact hpieces
    · cases htold : s.reader.told with
      | some status =>
        rw [htold] at hreader
        rcases hreader with ⟨hall, hidle, hpoll⟩
        -- the live generation is another one
        have hother : i ≠ g := fun hig => hbusy (hidle (hig ▸ hlive))
        refine ⟨?_, fun hreg => ?_, hext.reader ▸ hpoll⟩
        · rw [hext.reader, hext.others i hother]
          exact hall
        · rw [hext.registry, hlive] at hreg
          exact absurd (Option.some.inj hreg).symm hother
      | none =>
        rw [htold] at hreader
        rcases hreader with ⟨hpresent | ⟨hgone, _⟩, hpoll⟩
        · obtain rfl := Option.some.inj (hlive.symm.trans hpresent.1)
          have hcursor' := hpresent.2.trans hext.frames.length_le
          refine ⟨Or.inl ⟨hext.registry.trans hlive, hext.reader.symm ▸ hcursor'⟩, ?_⟩
          rw [hext.reader]
          cases hat : s.reader.poll with
          | idle => trivial
          | job i =>
            rw [hat] at hpoll
            exact ⟨hpoll.1, hext.within, hext.reader.symm ▸ hcursor', hext.terminal⟩
          | missing =>
            rw [hat] at hpoll
            cases hlive.symm.trans hpoll
          | dead i =>
            rw [hat] at hpoll
            cases hlive.symm.trans hpoll.1
          | checked =>
            rw [hat] at hpoll
            cases hlive.symm.trans hpoll.1
          | status status =>
            rw [hat] at hpoll
            cases hlive.symm.trans hpoll.1
        · cases hlive.symm.trans hgone

theorem openCommit_extends (hlive : s.registry = some g) (hworker : s.WorkerInv .opening) :
    Extends s (s.openCommit g) g := by
  obtain ⟨_, hsame, hactive, hframes, hpending⟩ := hworker
  obtain rfl := Option.some.inj (hlive.symm.trans hsame)
  have hjob : (s.openCommit g).jobs g = { s.jobs g with pending := [] } := if_pos rfl
  refine ⟨rfl, rfl, rfl, fun _ _ => rfl, List.prefix_rfl, ?_, ?_, ?_, Or.inr ⟨.active, rfl⟩, ?_⟩
  · rw [hjob]
  · rw [hjob]
    exact hframes ▸ List.prefix_rfl
  · intro _
    rw [hjob]
    exact hframes
  · refine ⟨g, s.ledger g, [], hlive, ?_, ?_, (List.append_nil _).symm, rfl, ?_, ?_⟩
    · rw [hjob]
      exact hactive
    · rw [hjob]
      exact hframes
    · have hput := putRows_numbered [] (s.ledger g)
      exact (congrArg (putRows []) hpending).trans hput
    · rw [hjob]
      rfl

theorem append_extends (hlive : s.registry = some g) (hworker : s.WorkerInv .running)
    (hrunning : s.worker = .running) (frame : Frame) : Extends s (s.append g frame) g := by
  obtain ⟨_, flushed, left, hsame, hactive, hframes, hledger, hturn, hrows, hpending⟩ := hworker
  obtain rfl := Option.some.inj (hlive.symm.trans hsame)
  have hjob : (s.append g frame).jobs g = { s.jobs g with
      frames := (s.jobs g).frames ++ [frame]
      pending := putRow (s.jobs g).pending ((s.jobs g).frames.length + 1, frame) } := if_pos rfl
  have hnew : (s.append g frame).ledger g = s.ledger g ++ [frame] := if_pos rfl
  have hput : putRow (s.jobs g).pending ((s.jobs g).frames.length + 1, frame) =
      numbered (flushed.length + 1) (left ++ [frame]) := by
    have hseq : (s.jobs g).frames.length + 1 = flushed.length + 1 + left.length := by
      rw [hframes, hledger, List.length_append]
      omega
    rw [hseq, hpending]
    exact putRow_numbered _ _ _
  refine ⟨rfl, rfl, rfl, fun i hi => if_neg hi, ?_, ?_, ?_, ?_, Or.inl rfl, ?_⟩
  · rw [hnew]
    exact List.prefix_append _ _
  · rw [hjob]
    exact List.prefix_append _ _
  · rw [hjob, hnew, hframes]
  · intro _
    rw [hjob, hnew, hframes]
  · have hstill : (s.append g frame).worker = .running := hrunning
    rw [hstill]
    refine ⟨g, flushed, left ++ [frame], hlive, ?_, ?_, ?_, hturn, hrows, ?_⟩
    · rw [hjob]
      exact hactive
    · rw [hjob, hnew, hframes]
    · rw [hnew, hledger, List.append_assoc]
    · rw [hjob]
      exact hput

theorem flushed_rows {flushed left : List Frame} (hrows : s.rows = numbered 1 flushed)
    (hpending : (s.jobs g).pending = numbered (flushed.length + 1) left) :
    putRows s.rows (s.jobs g).pending = numbered 1 (flushed ++ left) := by
  rw [hrows, hpending]
  exact putRows_numbered _ _

theorem flush_extends (hlive : s.registry = some g) (hworker : s.WorkerInv .running)
    (hrunning : s.worker = .running) : Extends s (s.flush g) g := by
  obtain ⟨_, flushed, left, hsame, hactive, hframes, hledger, hturn, hrows, hpending⟩ := hworker
  obtain rfl := Option.some.inj (hlive.symm.trans hsame)
  have hjob : (s.flush g).jobs g = { s.jobs g with pending := [] } := if_pos rfl
  refine ⟨rfl, rfl, rfl, fun _ _ => rfl, List.prefix_rfl, ?_, ?_, ?_, Or.inl rfl, ?_⟩
  · rw [hjob]
  · rw [hjob]
    exact hframes ▸ List.prefix_rfl
  · intro _
    rw [hjob]
    exact hframes
  · have hstill : (s.flush g).worker = .running := hrunning
    rw [hstill]
    refine ⟨g, flushed ++ left, [], hlive, ?_, ?_, ?_, hturn, flushed_rows hrows hpending, ?_⟩
    · rw [hjob]
      exact hactive
    · rw [hjob]
      exact hframes
    · exact hledger.trans (List.append_nil _).symm
    · rw [hjob]
      rfl

theorem finish_extends (hlive : s.registry = some g) (hworker : s.WorkerInv .running)
    (tail : List Frame) {status : Status} (hstatus : status ≠ .active) :
    Extends s (s.finish g tail status) g := by
  obtain ⟨_, flushed, left, hsame, hactive, hframes, hledger, hturn, hrows, hpending⟩ := hworker
  obtain rfl := Option.some.inj (hlive.symm.trans hsame)
  have hjob : (s.finish g tail status).jobs g = { s.jobs g with pending := [] } := if_pos rfl
  have hnew : (s.finish g tail status).ledger g = s.ledger g ++ tail := if_pos rfl
  have hput : (s.finish g tail status).rows = numbered 1 (s.ledger g ++ tail) := by
    calc (s.finish g tail status).rows
        = putRows (putRows s.rows (s.jobs g).pending)
            (numbered ((s.jobs g).frames.length + 1) tail) := rfl
      _ = putRows (numbered 1 (s.ledger g)) (numbered ((s.ledger g).length + 1) tail) := by
          rw [flushed_rows hrows hpending, ← hledger, hframes]
      _ = numbered 1 (s.ledger g ++ tail) := putRows_numbered _ _
  refine ⟨rfl, rfl, rfl, fun i hi => if_neg hi, ?_, ?_, ?_, ?_, Or.inr ⟨status, rfl⟩, ?_⟩
  · rw [hnew]
    exact List.prefix_append _ _
  · rw [hjob]
  · rw [hjob, hnew, hframes]
    exact List.prefix_append _ _
  · intro hdone
    rw [hjob] at hdone
    exact absurd hactive hdone
  · refine ⟨g, hlive, ?_, ?_, rfl, hstatus, ?_⟩
    · rw [hjob]
      exact hactive
    · rw [hjob, hnew, hframes]
    · rw [hnew]
      exact hput

theorem publish_extends {tail : List Frame} {status : Status} (hlive : s.registry = some g)
    (hworker : s.WorkerInv (.publishing tail status)) : Extends s (s.publish g tail status) g := by
  obtain ⟨_, hsame, hactive, hledger, hturn, hstatus, hrows⟩ := hworker
  obtain rfl := Option.some.inj (hlive.symm.trans hsame)
  have hjob : (s.publish g tail status).jobs g = { s.jobs g with
      frames := (s.jobs g).frames ++ tail
      status := status } := if_pos rfl
  refine ⟨rfl, rfl, rfl, fun _ _ => rfl, List.prefix_rfl, ?_, ?_, ?_, Or.inl rfl, ?_⟩
  · rw [hjob]
    exact List.prefix_append _ _
  · rw [hjob]
    exact hledger ▸ List.prefix_rfl
  · intro _
    rw [hjob]
    exact hledger.symm
  · intro i hi
    obtain rfl := Option.some.inj (hlive.symm.trans hi)
    rw [hjob]
    exact ⟨hstatus, hledger.symm⟩

theorem finishFail_extends (hlive : s.registry = some g) (hworker : s.WorkerInv .running)
    (last : Frame) : Extends s (s.finishFail g last) g := by
  obtain ⟨_, flushed, left, hsame, hactive, hframes, _⟩ := hworker
  obtain rfl := Option.some.inj (hlive.symm.trans hsame)
  have hjob : (s.finishFail g last).jobs g = { s.jobs g with
      frames := (s.jobs g).frames ++ [last]
      status := .error } := if_pos rfl
  have hnew : (s.finishFail g last).ledger g = s.ledger g ++ [last] := if_pos rfl
  refine ⟨rfl, rfl, rfl, fun i hi => if_neg hi, ?_, ?_, ?_, ?_, Or.inl rfl, ?_⟩
  · rw [hnew]
    exact List.prefix_append _ _
  · rw [hjob]
    exact List.prefix_append _ _
  · rw [hjob, hnew, hframes]
  · intro _
    rw [hjob, hnew, hframes]
  · intro i hi
    obtain rfl := Option.some.inj (hlive.symm.trans hi)
    refine ⟨?_, ?_⟩
    · rw [hjob]
      exact fun hactive => (by cases hactive)
    · rw [hjob, hnew, hframes]

/-! ## The registry -/

theorem inv_start : start.Inv where
  live := fun _ hlive => (by cases hlive)
  worker := fun _ hlive => (by cases hlive)
  unattached := fun _ => ⟨rfl, rfl⟩
  turned := fun _ _ hturn => (by cases hturn)
  fresh := fun _ _ => rfl
  attached := fun _ hattached => (by cases hattached)

/-- Without a live job there is no thread. -/
theorem idle_of_none (h : s.Inv) (hnone : s.registry = none) : s.worker = .idle := by
  have hworker := h.worker
  cases hat : s.worker with
  | idle => rfl
  | opening =>
    rw [hat] at hworker
    obtain ⟨g, hlive, _⟩ := hworker
    cases hnone.symm.trans hlive
  | running =>
    rw [hat] at hworker
    obtain ⟨g, _, _, hlive, _⟩ := hworker
    cases hnone.symm.trans hlive
  | publishing tail status =>
    rw [hat] at hworker
    obtain ⟨g, hlive, _⟩ := hworker
    cases hnone.symm.trans hlive

/-- The live job has the beginning of its generation, a settled one all of it. -/
theorem live_frames (h : s.Inv) (hlive : s.registry = some g) :
    (s.jobs g).frames <+: s.ledger g ∧
      ((s.jobs g).status ≠ .active → (s.jobs g).frames = s.ledger g ∧ s.worker = .idle) := by
  have hworker := h.worker
  cases hat : s.worker with
  | idle =>
    rw [hat] at hworker
    have hall := (hworker g hlive).2
    exact ⟨hall ▸ List.prefix_rfl, fun _ => ⟨hall, rfl⟩⟩
  | opening =>
    rw [hat] at hworker
    obtain ⟨_, hsame, hactive, hall, _⟩ := hworker
    obtain rfl := Option.some.inj (hlive.symm.trans hsame)
    exact ⟨hall ▸ List.prefix_rfl, fun hdone => absurd hactive hdone⟩
  | running =>
    rw [hat] at hworker
    obtain ⟨_, _, _, hsame, hactive, hall, _⟩ := hworker
    obtain rfl := Option.some.inj (hlive.symm.trans hsame)
    exact ⟨hall ▸ List.prefix_rfl, fun hdone => absurd hactive hdone⟩
  | publishing tail status =>
    rw [hat] at hworker
    obtain ⟨_, hsame, hactive, hall, _⟩ := hworker
    obtain rfl := Option.some.inj (hlive.symm.trans hsame)
    exact ⟨hall ▸ List.prefix_append _ _, fun hdone => absurd hactive hdone⟩

theorem reserve_inv {created runStep : Frame} (h : s.Inv) (hok : ¬ s.Waiting)
    (hstep : s.reserve created runStep = some s') : s'.Inv := by
  unfold reserve at hstep
  split_ifs at hstep
  cases hstep
  have hledger : s.ledger s.started = [] := h.fresh _ le_rfl
  refine ⟨?_, ?_, h.unattached, ?_, ?_, ?_⟩
  · intro g hg
    cases hg
    exact Nat.lt_succ_self _
  · refine ⟨s.started, rfl, ?_, ?_, ?_⟩
    · simp [setJob, record]
    · simp [setJob, record, hledger]
    · simp [setJob, record, hledger]
  · exact fun g status hturn => (h.turned g status hturn).trans (Nat.lt_succ_self _)
  · intro g hg
    have hother : g ≠ s.started := by
      have : s.started + 1 ≤ g := hg
      omega
    have hempty := h.fresh g ((Nat.le_succ _).trans hg)
    simpa [setJob, record, hother] using hempty
  · intro g hg
    rcases h.attached g hg with ⟨hstarted, hpieces, hcursor, hreader⟩
    have hother : g ≠ s.started := hstarted.ne
    have hsame : (if g = s.started then s.ledger g ++ [created, runStep] else s.ledger g) =
        s.ledger g := if_neg hother
    cases htold : s.reader.told with
    | none => exact absurd ⟨Option.isSome_of_eq_some hg, htold⟩ hok
    | some status =>
      rw [htold] at hreader
      rcases hreader with ⟨hall, _, hpoll⟩
      refine ⟨hstarted.trans (Nat.lt_succ_self _), ?_, ?_, ?_⟩
      · simpa [setJob, record, hother] using hpieces
      · simpa [setJob, record, hother] using hcursor
      · have htold' : s.reader.told = some status := htold
        simp only [setJob, record, htold']
        refine ⟨?_, fun hlive => ?_, hpoll⟩
        · simpa [setJob, record, hother] using hall
        · exact absurd (Option.some.inj hlive).symm hother

/-- The memory is given up: nobody waits, or the store has everything. -/
theorem forget_inv (h : s.Inv) (hok : s.Waiting → s.Durable) (hregistry : s'.registry = none)
    (hworker : s'.worker = .idle)
    (hsame : s'.started = s.started ∧ s'.turn = s.turn ∧ s'.rows = s.rows ∧ s'.ledger = s.ledger ∧
      s'.jobs = s.jobs ∧ s'.reader.attached = s.reader.attached ∧
        s'.reader.cursor = s.reader.cursor ∧ s'.reader.events = s.reader.events ∧
          s'.reader.told = s.reader.told)
    (hpoll : s'.reader.poll = .idle ∨ s'.reader.poll = s.reader.poll ∧ s.registry.isSome) : s'.Inv := by
  obtain ⟨hstarted, hturn, hrows, hledger, hjobs, hattached, hcursor, hevents, htold⟩ := hsame
  refine ⟨?_, ?_, ?_, ?_, ?_, ?_⟩
  · intro g hg
    cases hregistry.symm.trans hg
  · rw [hworker]
    intro g hg
    cases hregistry.symm.trans hg
  · intro hnone
    rw [hattached] at hnone
    have hidle := h.unattached hnone
    refine ⟨htold.trans hidle.1, ?_⟩
    rcases hpoll with hpoll | ⟨hpoll, _⟩
    · exact hpoll
    · exact hpoll.trans hidle.2
  · rw [hstarted, hturn]
    exact h.turned
  · rw [hstarted, hledger]
    exact h.fresh
  · intro g hg
    rw [hattached] at hg
    rcases h.attached g hg with ⟨hlt, hpieces, hle, hreader⟩
    rw [hstarted, hledger, hcursor, hevents, htold]
    refine ⟨hlt, hpieces, hle, ?_⟩
    cases hat : s.reader.told with
    | some status =>
      rw [hat] at hreader
      rcases hreader with ⟨hall, _, hidle⟩
      refine ⟨by rw [hcursor, hledger]; exact hall, fun hlive => ?_, ?_⟩
      · cases hregistry.symm.trans hlive
      · rcases hpoll with hpoll | ⟨hpoll, _⟩
        · exact hpoll
        · exact hpoll.trans hidle
    | none =>
      rw [hat] at hreader
      have hstored : s.Stored g := by
        rcases hreader.1 with ⟨hlive, _⟩ | ⟨_, hstored⟩
        · have hdurable := hok ⟨Option.isSome_of_eq_some hg, hat⟩
          unfold Durable at hdurable
          rwa [hlive] at hdurable
        · exact hstored
      have hstored' : s'.Stored g := by
        unfold Stored
        rw [hturn, hrows, hledger]
        exact hstored
      refine ⟨Or.inr ⟨hregistry, hstored'⟩, ?_⟩
      rcases hpoll with hpoll | ⟨hpoll, hsome⟩
      · rw [hpoll]
        trivial
      · -- a poll that found the job still has it
        obtain ⟨live, hlive⟩ := Option.isSome_iff_exists.1 hsome
        rw [hpoll]
        have hinv := hreader.2
        cases hat' : s.reader.poll with
        | idle => trivial
        | job i =>
          rw [hat'] at hinv
          unfold PollInv
          rw [hjobs, hledger, hcursor]
          exact hinv
        | missing =>
          rw [hat'] at hinv
          cases hlive.symm.trans hinv
        | dead i =>
          rw [hat'] at hinv
          cases hlive.symm.trans hinv.1
        | checked =>
          rw [hat'] at hinv
          cases hlive.symm.trans hinv.1
        | status status =>
          rw [hat'] at hinv
          cases hlive.symm.trans hinv.1

/-! ## The reader -/

theorem attach_inv (h : s.Inv) (hok : s.Admits .attach) (hcurrent : s.current = some g) :
    { s with reader := { attached := some g } }.Inv := by
  refine ⟨h.live, h.worker, fun hnone => (by cases hnone), h.turned, h.fresh, ?_⟩
  intro i hi
  cases hi
  unfold current at hcurrent
  cases hlive : s.registry with
  | some live =>
    rw [hlive] at hcurrent
    cases hcurrent
    exact ⟨h.live _ hlive, rfl, Nat.zero_le _, Or.inl ⟨rfl, Nat.zero_le _⟩, trivial⟩
  | none =>
    rw [hlive] at hcurrent
    obtain ⟨⟨_, status⟩, hturn, rfl⟩ := Option.map_eq_some_iff.1 hcurrent
    unfold Admits at hok
    simp only [hlive, hturn] at hok
    exact ⟨h.turned _ status hturn, rfl, Nat.zero_le _, Or.inr ⟨rfl, hok⟩, trivial⟩

/-- A poll that is answered from the frames `xs` leads to the end of them. -/
theorem deliver_spec (s : Chat) {xs : List Frame} (status : Status) (hxs : xs <+: s.ledger g)
    (hcursor : s.reader.cursor ≤ xs.length)
    (hpieces : pieces s.reader.events = pieces ((s.ledger g).take s.reader.cursor)) :
    let s' := s.deliver (numbered (s.reader.cursor + 1) (xs.drop s.reader.cursor)) status
    s'.reader.cursor = xs.length ∧
      pieces s'.reader.events = pieces ((s.ledger g).take xs.length) := by
  intro s'
  have hlast := numbered_last (s.reader.cursor + 1) (xs.drop s.reader.cursor)
  have hend : s'.reader.cursor = xs.length := by
    calc s'.reader.cursor
        = ((coalesce (numbered (s.reader.cursor + 1) (xs.drop s.reader.cursor))).getLast?.map
            Prod.fst).getD s.reader.cursor := rfl
      _ = xs.length := by
          rw [coalesce_last, hlast]
          split_ifs with hnone
          · have hge := List.drop_eq_nil_iff.1 hnone
            simp only [Option.getD_none]
            omega
          · have hlt : s.reader.cursor < xs.length := by
              by_contra hge
              exact hnone (List.drop_eq_nil_iff.2 (not_lt.1 hge))
            simp only [Option.getD_some, List.length_drop]
            omega
  refine ⟨hend, ?_⟩
  have htake : (s.ledger g).take s.reader.cursor = xs.take s.reader.cursor :=
    take_of_extends hxs hcursor
  calc pieces s'.reader.events
      = pieces s.reader.events ++ pieces ((coalesce (numbered (s.reader.cursor + 1)
          (xs.drop s.reader.cursor))).map Prod.snd) := pieces_append _ _
    _ = pieces (xs.take s.reader.cursor) ++ pieces (xs.drop s.reader.cursor) := by
        rw [coalesce_pieces, numbered_map_snd, hpieces, htake]
    _ = pieces xs := by rw [← pieces_append, List.take_append_drop]
    _ = pieces ((s.ledger g).take xs.length) := congrArg pieces (List.prefix_iff_eq_take.1 hxs)

/-- What a reader attached to `g` is told while it has all the frames `xs` that it was answered from. -/
theorem deliver_inv {xs : List Frame} {status : Status} (h : s.Inv)
    (hattached : s.reader.attached = some g) (hxs : xs <+: s.ledger g)
    (hcursor : s.reader.cursor ≤ xs.length)
    (hterminal : status ≠ .active → xs = s.ledger g ∧ (s.registry = some g → s.worker = .idle))
    (hpresent : s.registry = some g ∧ xs.length ≤ (s.jobs g).frames.length ∨ s.registry = none ∧
      s.Stored g) :
    (s.deliver (numbered (s.reader.cursor + 1) (xs.drop s.reader.cursor)) status).Inv := by
  rcases h.attached g hattached with ⟨hlt, hpieces, _, _⟩
  rcases deliver_spec s status hxs hcursor hpieces with ⟨hend, hall⟩
  refine ⟨h.live, h.worker, ?_, h.turned, h.fresh, ?_⟩
  · intro hnone
    cases hattached.symm.trans hnone
  · intro i hi
    obtain rfl := Option.some.inj (hattached.symm.trans hi)
    refine ⟨hlt, ?_, ?_, ?_⟩
    · rw [hend]
      exact hall
    · rw [hend]
      exact hxs.length_le
    · by_cases hactive : status = .active
      · have hnone : (s.deliver (numbered (s.reader.cursor + 1) (xs.drop s.reader.cursor))
            status).reader.told = none := if_pos hactive
        rw [hnone]
        refine ⟨?_, trivial⟩
        rcases hpresent with ⟨hlive, hle⟩ | hstored
        · exact Or.inl ⟨hlive, by rw [hend]; exact hle⟩
        · exact Or.inr hstored
      · have hsome : (s.deliver (numbered (s.reader.cursor + 1) (xs.drop s.reader.cursor))
            status).reader.told = some status := if_neg hactive
        rcases hterminal hactive with ⟨heq, hidle⟩
        rw [hsome]
        exact ⟨by rw [hend, heq]; rfl, hidle, rfl⟩

/-- A poll that goes on to another access. -/
theorem goto_inv (h : s.Inv) (hattached : s.reader.attached = some g) (htold : s.reader.told = none)
    {poll : Poll} (hpoll : s.PollInv g poll) : (s.goto poll).Inv := by
  refine ⟨h.live, h.worker, ?_, h.turned, h.fresh, ?_⟩
  · intro hnone
    cases hattached.symm.trans hnone
  · intro i hi
    obtain rfl := Option.some.inj (hattached.symm.trans hi)
    rcases h.attached _ hattached with ⟨hlt, hpieces, hcursor, hreader⟩
    rw [htold] at hreader
    refine ⟨hlt, hpieces, hcursor, ?_⟩
    have htold' : (s.goto poll).reader.told = none := htold
    rw [htold']
    refine ⟨hreader.1, ?_⟩
    cases poll <;> exact hpoll

/-- The aborted final frame closes the timeline of a process that died. -/
theorem reconcile_inv (h : s.Inv) (hattached : s.reader.attached = some g)
    (htold : s.reader.told = none) (hnone : s.registry = none) (hstored : s.Stored g) :
    ((s.reconcile g).goto .checked).Inv := by
  rcases h.attached g hattached with ⟨hlt, hpieces, hcursor, _⟩
  have hidle := idle_of_none h hnone
  let final := Frame.final (messageText (bySeq s.rows)) true
  have hledger : (s.reconcile g).ledger g = s.ledger g ++ [final] := if_pos rfl
  have hrows : (s.reconcile g).rows = numbered 1 (s.ledger g ++ [final]) := by
    have hput := putRow_numbered 1 (s.ledger g) final
    have hmax := max_numbered (s.ledger g)
    calc (s.reconcile g).rows
        = putRow s.rows (1 + (s.rows.map Prod.fst).foldl max 0, final) := rfl
      _ = numbered 1 (s.ledger g ++ [final]) := by rw [hstored.2, hmax, hput]
  refine ⟨?_, ?_, ?_, ?_, ?_, ?_⟩
  · intro i hi
    cases hnone.symm.trans hi
  · have hstill : ((s.reconcile g).goto .checked).worker = .idle := hidle
    rw [hstill]
    intro i hi
    cases hnone.symm.trans hi
  · intro hno
    cases hattached.symm.trans hno
  · intro i status hi
    obtain ⟨rfl, -⟩ := Prod.mk.inj (Option.some.inj hi)
    exact hlt
  · intro i hi
    have hother : i ≠ g := (hlt.trans_le hi).ne'
    exact (if_neg hother).trans (h.fresh i hi)
  · intro i hi
    obtain rfl := Option.some.inj (hattached.symm.trans hi)
    have hgrown : s.ledger g <+: (s.reconcile g).ledger g := by
      rw [hledger]
      exact List.prefix_append _ _
    refine ⟨hlt, ?_, hcursor.trans hgrown.length_le, ?_⟩
    · exact hpieces.trans (congrArg pieces (take_of_extends hgrown hcursor).symm)
    · have htold' : ((s.reconcile g).goto .checked).reader.told = none := htold
      rw [htold']
      refine ⟨Or.inr ⟨hnone, rfl, ?_⟩, hnone, .aborted, rfl, fun hactive => (by cases hactive)⟩
      exact hrows.trans (congrArg (numbered 1) hledger.symm)

theorem poll_inv (h : s.Inv) (hstep : s.poll = some s') : s'.Inv := by
  unfold poll at hstep
  cases hattached : s.reader.attached with
  | none =>
    -- nobody polls
    have hidle := (h.unattached hattached).2
    simp [hidle, hattached] at hstep
  | some g =>
    rcases h.attached g hattached with ⟨_, _, _, hreader⟩
    cases htold : s.reader.told with
    | some status =>
      rw [htold] at hreader
      simp [hreader.2.2, htold] at hstep
    | none =>
      rw [htold] at hreader
      rcases hreader with ⟨hpresent, hpoll⟩
      cases hat : s.reader.poll with
      | idle =>
        simp only [hat, hattached, htold, Option.isSome_some, and_self, if_true] at hstep
        rcases hpresent with ⟨hlive, hcursor⟩ | ⟨hnone, _⟩
        · simp only [hlive, Option.some.injEq] at hstep
          subst hstep
          rcases live_frames h hlive with ⟨hwithin, hsettled⟩
          exact goto_inv h hattached htold
            ⟨rfl, hwithin, hcursor, fun hdone => (hsettled hdone).1⟩
        · simp only [hnone, Option.some.injEq] at hstep
          subst hstep
          exact goto_inv h hattached htold hnone
      | job i =>
        rw [hat] at hpoll
        obtain ⟨rfl, hwithin, hcursor, hall⟩ := hpoll
        simp only [hat, Option.some.injEq] at hstep
        subst hstep
        refine deliver_inv h hattached hwithin hcursor ?_ ?_
        · exact fun hdone => ⟨hall hdone, fun hlive => ((live_frames h hlive).2 hdone).2⟩
        · rcases hpresent with ⟨hlive, _⟩ | hstored
          · exact Or.inl ⟨hlive, le_rfl⟩
          · exact Or.inr hstored
      | missing =>
        rw [hat] at hpoll
        have hnone : s.registry = none := hpoll
        have hstored : s.Stored g := by
          rcases hpresent with ⟨hlive, _⟩ | ⟨_, hstored⟩
          · cases hnone.symm.trans hlive
          · exact hstored
        obtain ⟨⟨_, status⟩, hturn, rfl⟩ := Option.map_eq_some_iff.1 hstored.1
        simp only [hat, hturn] at hstep
        cases status with
        | active =>
          cases hstep
          exact goto_inv h hattached htold ⟨hnone, rfl, hturn⟩
        | complete | aborted | error =>
          cases hstep
          exact goto_inv h hattached htold
            ⟨hnone, _, hturn, fun hactive => (by cases hactive)⟩
      | dead i =>
        rw [hat] at hpoll
        obtain ⟨hnone, rfl, _⟩ := hpoll
        simp only [hat, hnone, Option.some.injEq] at hstep
        subst hstep
        rcases hpresent with ⟨hlive, _⟩ | ⟨_, hstored⟩
        · cases hnone.symm.trans hlive
        · exact reconcile_inv h hattached htold hnone hstored
      | checked =>
        rw [hat] at hpoll
        obtain ⟨hnone, status, hturn, hterminal⟩ := hpoll
        simp only [hat, hturn, Option.some.injEq] at hstep
        subst hstep
        exact goto_inv h hattached htold ⟨hnone, hturn, hterminal⟩
      | status status =>
        rw [hat] at hpoll
        obtain ⟨hnone, hturn, hterminal⟩ := hpoll
        have hstored : s.Stored g := by
          rcases hpresent with ⟨hlive, _⟩ | ⟨_, hstored⟩
          · cases hnone.symm.trans hlive
          · exact hstored
        have hcursor := (h.attached g hattached).2.2.1
        have hread : (bySeq s.rows).filter (fun row => s.reader.cursor < row.1) =
            numbered (s.reader.cursor + 1) ((s.ledger g).drop s.reader.cursor) := by
          rw [hstored.2, bySeq_numbered, filter_numbered 1 _ _ (by omega)]
          rfl
        simp only [hat, hread, Option.some.injEq] at hstep
        subst hstep
        refine deliver_inv h hattached List.prefix_rfl hcursor ?_ (Or.inr ⟨hnone, hstored⟩)
        exact fun _ => ⟨rfl, fun hlive => (by cases hnone.symm.trans hlive)⟩

/-! ## Runs -/

theorem work_inv {action : Action} (h : s.Inv) (hok : s.Admits action) (hlive : s.registry = some g)
    (hstep : s.work g action = some s') : s'.Inv := by
  have hworker := h.worker
  cases action with
  | openCommit =>
    simp only [work] at hstep
    split_ifs at hstep with hat
    cases hstep
    rw [hat] at hworker
    exact h.of_extends hlive (by simp [hat]) (openCommit_extends hlive hworker)
  | openFail =>
    simp only [work] at hstep
    split_ifs at hstep with hat
    cases hstep
    exact forget_inv h (fun hwaiting => absurd hwaiting hok) rfl rfl
      ⟨rfl, rfl, rfl, rfl, rfl, rfl, rfl, rfl, rfl⟩ (Or.inr ⟨rfl, by simp [hlive]⟩)
  | append frame =>
    simp only [work] at hstep
    split_ifs at hstep with hat
    cases hstep
    rw [hat] at hworker
    exact h.of_extends hlive (by simp [hat]) (append_extends hlive hworker hat frame)
  | flush =>
    simp only [work] at hstep
    split_ifs at hstep with hat
    cases hstep
    rw [hat] at hworker
    exact h.of_extends hlive (by simp [hat]) (flush_extends hlive hworker hat)
  | flushFail =>
    simp only [work] at hstep
    split_ifs at hstep with hat
    cases hstep
    exact h
  | finish extra last status =>
    simp only [work] at hstep
    split_ifs at hstep with hat
    cases hstep
    rw [hat.1] at hworker
    exact h.of_extends hlive (by simp [hat.1]) (finish_extends hlive hworker _ hat.2)
  | publish =>
    simp only [work] at hstep
    cases hat : s.worker with
    | publishing tail status =>
      simp only [hat, Option.some.injEq] at hstep
      subst hstep
      rw [hat] at hworker
      exact h.of_extends hlive (by simp [hat]) (publish_extends hlive hworker)
    | idle | opening | running => simp [hat] at hstep
  | finishFail last =>
    simp only [work] at hstep
    split_ifs at hstep with hat
    cases hstep
    rw [hat] at hworker
    exact h.of_extends hlive (by simp [hat]) (finishFail_extends hlive hworker last)
  | evict =>
    simp only [work] at hstep
    split_ifs at hstep with hdone
    cases hstep
    exact forget_inv h hok rfl ((live_frames h hlive).2 hdone).2
      ⟨rfl, rfl, rfl, rfl, rfl, rfl, rfl, rfl, rfl⟩ (Or.inr ⟨rfl, by simp [hlive]⟩)
  | reserve _ _ | restart | attach | poll | pollFail => cases hstep

theorem live_work {action : Action} (h : s.Inv) (hok : s.Admits action)
    (hstep : (match s.registry with | some g => s.work g action | none => none) = some s') : s'.Inv := by
  cases hlive : s.registry with
  | none => simp [hlive] at hstep
  | some g =>
    rw [hlive] at hstep
    exact work_inv h hok hlive hstep

theorem step_inv {action : Action} (h : s.Inv) (hok : s.Admits action)
    (hstep : s.step action = some s') : s'.Inv := by
  cases action with
  | reserve created runStep => exact reserve_inv h hok hstep
  | restart =>
    cases hstep
    exact forget_inv h hok rfl rfl ⟨rfl, rfl, rfl, rfl, rfl, rfl, rfl, rfl, rfl⟩ (Or.inl rfl)
  | attach =>
    simp only [step] at hstep
    cases hattached : s.reader.attached with
    | some g => simp [hattached] at hstep
    | none =>
      cases hcurrent : s.current with
      | none => simp [hattached, hcurrent] at hstep
      | some g =>
        simp only [hattached, hcurrent, Option.some.injEq] at hstep
        subst hstep
        exact attach_inv h hok hcurrent
  | poll => exact poll_inv h hstep
  | pollFail =>
    simp only [step] at hstep
    cases hat : s.reader.poll with
    | dead i =>
      simp only [hat, Option.some.injEq] at hstep
      subst hstep
      cases hattached : s.reader.attached with
      | none => cases hat.symm.trans (h.unattached hattached).2
      | some g =>
        have hreader := (h.attached g hattached).2.2.2
        cases htold : s.reader.told with
        | none => exact goto_inv h hattached htold trivial
        | some status =>
          rw [htold] at hreader
          cases hat.symm.trans hreader.2.2
    | idle | job _ | missing | checked | status _ => simp [hat] at hstep
  | openCommit | openFail | append _ | flush | flushFail | finish _ _ _ | publish | finishFail _
  | evict => exact live_work h hok hstep

end Chat

/-- A reader was given its generation's timeline up to its cursor, once and in order and nothing else;
with a terminal status it was given all of it. -/
theorem told_everything {s : Chat} {g : Nat}
    (h : Reachable Chat.step Chat.Admits (· = Chat.start) s)
    (hattached : s.reader.attached = some g) :
    pieces s.reader.events = pieces ((s.ledger g).take s.reader.cursor) ∧
      s.reader.cursor ≤ (s.ledger g).length ∧
      (s.reader.told.isSome → pieces s.reader.events = pieces (s.ledger g)) := by
  have hinv : s.Inv := h.invariant (fun _ hstart => hstart ▸ Chat.inv_start)
    (fun _ _ _ hinv hok hstep => Chat.step_inv hinv hok hstep)
  rcases hinv.attached g hattached with ⟨_, hpieces, hcursor, hreader⟩
  refine ⟨hpieces, hcursor, fun htold => ?_⟩
  obtain ⟨status, hstatus⟩ := Option.isSome_iff_exists.1 htold
  rw [hstatus] at hreader
  rw [hpieces, hreader.1, List.take_length]

/-! ## Two runs -/

instance decidableStored (s : Chat) (g : Nat) : Decidable (s.Stored g) :=
  inferInstanceAs (Decidable (_ ∧ _))

instance decidableDurable (s : Chat) : Decidable s.Durable :=
  match h : s.registry with
  | some g => decidable_of_iff (s.Stored g) (by simp [Chat.Durable, h])
  | none => .isTrue (by simp [Chat.Durable, h])

instance decidableWaiting (s : Chat) : Decidable s.Waiting := inferInstanceAs (Decidable (_ ∧ _))

instance decidableAdmits (s : Chat) : (action : Action) → Decidable (s.Admits action)
  | .attach =>
    match h : s.registry, h' : s.turn with
    | none, some (g, _) => decidable_of_iff (s.Stored g) (by simp [Chat.Admits, h, h'])
    | none, none | some _, _ => .isTrue (by simp [Chat.Admits, h, h'])
  | .reserve _ _ | .openFail => inferInstanceAs (Decidable (¬ s.Waiting))
  | .restart | .evict => inferInstanceAs (Decidable (s.Waiting → s.Durable))
  | .openCommit | .append _ | .flush | .flushFail | .finish _ _ _ | .publish | .finishFail _ | .poll
  | .pollFail => .isTrue trivial

def createdFrame : Frame := .event (lit "created")

def runStepFrame : Frame := .event (lit "on_run_step")

def textFrame (text : String) : Frame := .delta .message (lit "step") (lit text)

/-- The process dies with everything flushed, and the reader closes the turn. -/
def diedRun : List Action :=
  [.reserve createdFrame runStepFrame, .openCommit, .attach, .append (textFrame "he"), .poll, .poll,
    .append (textFrame "l"), .append (textFrame "lo"), .flush, .restart, .poll, .poll, .poll, .poll,
    .poll]

theorem told_everything_died :
    ∃ s : Chat, (s.reader.attached = some 0 ∧ s.reader.told = some .aborted ∧
        s.reader.events = [createdFrame, runStepFrame, textFrame "he", textFrame "llo",
          .final (lit "hello") true]) ∧
      pieces s.reader.events = pieces ((s.ledger 0).take s.reader.cursor) ∧
        s.reader.cursor ≤ (s.ledger 0).length ∧
        (s.reader.told.isSome → pieces s.reader.events = pieces (s.ledger 0)) := by
  obtain ⟨s, hs, htest⟩ := Reachable.exists_of_foldlM diedRun
    (fun s => s.reader.attached = some 0 ∧ s.reader.told = some .aborted ∧
        s.reader.events = [createdFrame, runStepFrame, textFrame "he", textFrame "llo",
          .final (lit "hello") true])
    (.start rfl : Reachable Chat.step Chat.Admits (· = Chat.start) Chat.start) (by decide)
  have hfacts := of_decide_eq_true htest
  exact ⟨s, hfacts, told_everything hs hfacts.1⟩

/-- The turn ends and the next one starts before the reader polls again. -/
def overtakenRun : List Action :=
  [.reserve createdFrame runStepFrame, .openCommit, .attach, .poll, .poll, .append (textFrame "one"),
    .finish [] (.final (lit "one") false) .complete, .publish, .reserve createdFrame runStepFrame,
    .openCommit, .append (textFrame "two"), .finish [] (.final (lit "two") false) .complete, .publish,
    .poll, .poll]

/-- The reader is told that its generation is complete, with the frames of the next one. -/
theorem overtaken_reader :
    ∃ s : Chat, Reachable Chat.step (fun _ _ => True) (· = Chat.start) s ∧
      s.reader.attached = some 0 ∧ s.reader.told = some .complete ∧
      s.reader.events = [createdFrame, runStepFrame, textFrame "two", .final (lit "two") false] ∧
      s.ledger 0 = [createdFrame, runStepFrame, textFrame "one", .final (lit "one") false] ∧
      pieces s.reader.events ≠ pieces (s.ledger 0) := by
  obtain ⟨s, hs, htest⟩ := Reachable.exists_of_foldlM overtakenRun
    (fun s => s.reader.attached = some 0 ∧ s.reader.told = some .complete ∧
      s.reader.events = [createdFrame, runStepFrame, textFrame "two", .final (lit "two") false] ∧
      s.ledger 0 = [createdFrame, runStepFrame, textFrame "one", .final (lit "one") false] ∧
      pieces s.reader.events ≠ pieces (s.ledger 0))
    (.start rfl : Reachable Chat.step (fun _ _ => True) (· = Chat.start) Chat.start)
    (by decide)
  exact ⟨s, hs, of_decide_eq_true htest⟩

end ChatTurn
end Tempest
