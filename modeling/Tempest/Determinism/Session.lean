import Tempest.Model

/-!
# Session — recording a target and replaying it (`determinism/_shims.py`)

A target is what it asks of the shims and what it does with the answers.  A row holds its payload as
`_decode` gives it back.  `run_numbered` says how the rows of a ledger are numbered, and `replay_run`
that a recording replays as it went.
-/

namespace Tempest
namespace Shims

open Python

inductive Mode where
  | record
  | replay

/-- The surface and the call. -/
abbrev Key := PyStr × PyStr

structure Session where
  mode : Mode
  queues : Key → List Payload
  cursors : Key → Nat := fun _ => 0
  ledger : Cassette := []
  misses : List PyStr := []

/-- The rows of one key. -/
def rowsOf (key : Key) (cassette : Cassette) : Cassette :=
  cassette.filter fun row => (row.surface, row.call) = key

/-- `__post_init__`. -/
def Session.ofCassette (mode : Mode) (cassette : Cassette) : Session where
  mode := mode
  queues := fun key =>
    match mode with
    | .record => []
    | .replay => (rowsOf key cassette).map CassetteRow.payload

/-- What a target sees instead of an answer. -/
inductive Raised (ε : Type) where
  | live (error : ε)
  | cassetteMiss (message : PyStr)

variable {ε ρ : Type}

/-- An entry under the next ordinal of its key. -/
def Session.append (s : Session) (key : Key) (payload : Payload) : Session :=
  { s with
    cursors := Function.update s.cursors key (s.cursors key + 1)
    ledger := s.ledger ++ [⟨key.1, key.2, s.cursors key, payload⟩] }

/-- A live call that raises leaves no entry. -/
def Session.interact (s : Session) (key : Key) (live : Except ε Payload) :
    Except (Raised ε) Payload × Session :=
  match s.mode with
  | .record =>
    match live with
    | .error e => (.error (.live e), s)
    | .ok value => (.ok value, s.append key value)
  | .replay =>
    match (s.queues key)[s.cursors key]? with
    | some value => (.ok value, s.append key value)
    | none =>
      let name := key.1 ++ lit " " ++ key.2
      let cursor := natText (s.cursors key)
      (.error (.cassetteMiss (name ++ lit ": head requested ordinal " ++ cursor ++
          lit " but base recorded only " ++ natText (s.queues key).length ++
          lit " interaction(s)")),
        { s with misses := s.misses ++ [name ++ lit " (ordinal " ++ cursor ++ lit ")"] })

/-- What a target does next.  The payload of an entry it opens is the one it is closed with. -/
inductive Target (ε ρ : Type) where
  | done (outcome : ρ)
  | interact (key : Key) (next : Except ε Payload → Target ε ρ)
  | openEntry (key : Key) (payload : Payload) (next : Target ε ρ)

/-- The `n`-th interaction of the target finds the live world as `live n`. -/
def run (live : Nat → Except ε Payload) : Target (Raised ε) ρ → Nat → Session → ρ × Session
  | .done outcome, _, s => (outcome, s)
  | .interact key next, n, s =>
    let asked := s.interact key (live n)
    run live (next asked.1) (n + 1) asked.2
  | .openEntry key payload next, n, s => run live next n (s.append key payload)

/-! ## Ordinals -/

def Session.Numbered (s : Session) : Prop :=
  ∀ key, (rowsOf key s.ledger).map CassetteRow.ordinal = List.range (s.cursors key)

theorem Session.Numbered.append {s : Session} (h : s.Numbered) (own : Key) (payload : Payload) :
    (s.append own payload).Numbered := by
  intro key
  have hold := h key
  by_cases hkey : own = key
  · subst hkey
    simpa [Session.append, rowsOf, List.range_succ] using hold
  · have hother : key ≠ own := fun hsame => hkey hsame.symm
    simpa [Session.append, rowsOf, hkey, Function.update_of_ne hother] using hold

/-- A run keeps what every entry and every miss keep. -/
theorem run_keeps (P : Session → Prop) (hentry : ∀ s key payload, P s → P (s.append key payload))
    (hmiss : ∀ s misses, P s → P { s with misses := misses }) (live : Nat → Except ε Payload)
    (t : Target (Raised ε) ρ) (n : Nat) {s : Session} (h : P s) : P (run live t n s).2 := by
  induction t generalizing n s with
  | done outcome => exact h
  | openEntry key payload next ih => exact ih n (hentry s key payload h)
  | interact key next ih =>
    refine ih _ (n + 1) ?_
    unfold Session.interact
    split
    · cases live n with
      | error e => exact h
      | ok value => exact hentry s key value h
    · split
      · exact hentry s key _ h
      · exact hmiss s _ h

/-- In either mode the rows of a key are numbered from 0 on, in the order of the ledger. -/
theorem run_numbered (live : Nat → Except ε Payload) (t : Target (Raised ε) ρ) (mode : Mode)
    (cassette : Cassette) (key : Key) :
    let rows := rowsOf key (run live t 0 (.ofCassette mode cassette)).2.ledger
    rows.map CassetteRow.ordinal = List.range rows.length := by
  have hstart : (Session.ofCassette mode cassette).Numbered := fun _ => rfl
  have h := run_keeps Session.Numbered (fun _ own payload h => h.append own payload) (fun _ _ h => h)
    live t 0 hstart key
  calc
    _ = List.range _ := h
    _ = _ := congrArg List.range (by simpa using (congrArg List.length h).symm)

/-! ## A recording is replayed -/

theorem replay_from (answers : Nat → Payload) (live : Nat → Except ε Payload)
    (t : Target (Raised ε) ρ) (n : Nat) {s final : Session} {outcome : ρ} {queues : Key → List Payload}
    (h : s.Numbered) (hmode : s.mode = .record)
    (hrun : run (fun n => .ok (answers n)) t n s = (outcome, final))
    (hqueues : ∀ key, queues key = (rowsOf key final.ledger).map CassetteRow.payload) :
    run live t n { s with mode := .replay, queues := queues } =
      (outcome, { final with mode := .replay, queues := queues }) := by
  induction t generalizing n s with
  | done outcome =>
    cases hrun
    rfl
  | openEntry key payload next ih => exact ih n (h.append key payload) hmode hrun
  | interact key next ih =>
    have hanswer : s.interact (ε := ε) key (.ok (answers n)) =
        (.ok (answers n), s.append key (answers n)) := by
      unfold Session.interact
      rw [hmode]
    have hlater : run (fun n => .ok (answers n)) (next (.ok (answers n))) (n + 1) (s.append key (answers n)) =
        (outcome, final) := by simpa only [run, hanswer] using hrun
    -- the row stands where the cursor of its key points
    have hvalue : (queues key)[s.cursors key]? = some (answers n) := by
      obtain ⟨rest, hledger⟩ := run_keeps (fun later => (s.append key (answers n)).ledger <+: later.ledger)
        (fun _ _ _ h => h.trans (List.prefix_append _ _)) (fun _ _ h => h)
        (fun n => .ok (answers n)) (next (.ok (answers n))) (n + 1) List.prefix_rfl
      rw [hlater] at hledger
      have hcursor : (rowsOf key s.ledger).length = s.cursors key := by
        simpa using congrArg List.length (h key)
      rw [hqueues, ← hledger, ← hcursor]
      simp [rowsOf, Session.append]
    have hsame : Session.interact { s with mode := .replay, queues := queues } key (live n) =
        (.ok (answers n), { s.append key (answers n) with mode := .replay, queues := queues }) := by
      simp only [Session.interact, hvalue]
      rfl
    simp only [run, hsame]
    exact ih _ (n + 1) (h.append key (answers n)) hmode hlater

/-- A target none of whose live calls raised sees the same answers again, whatever the live world has
become, ends alike and leaves the same session: the same ledger, and no call missed. -/
theorem replay_run (answers : Nat → Payload) (live : Nat → Except ε Payload)
    (t : Target (Raised ε) ρ) :
    let recorded := run (fun n => .ok (answers n)) t 0 (.ofCassette .record [])
    let replay := Session.ofCassette .replay recorded.2.ledger
    run live t 0 replay =
      (recorded.1, { recorded.2 with mode := .replay, queues := replay.queues }) :=
  replay_from answers live t 0 (fun _ => rfl) rfl rfl fun _ => rfl

end Shims
end Tempest
