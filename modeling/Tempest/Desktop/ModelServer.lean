import Tempest.Process.Custody
import Tempest.Process.Reachable

/-!
# ModelServer — the local model server of the shell (`modelserver.rs`)

The `start` that has the start lock by its steps, calls of `stop` and `status` by theirs, the children,
and the port, which any process may take.  A `start` spawns one child at most, so that a child has the
number of its start.

`one_server` is about the runs in which a child is spawned while no call is still ending another one, a
`stop` comes while no start is on the way to its child and nobody else is ending one, only the child
answers on the port, and it does not exit between its answer and the return of `start`.
-/

namespace Tempest
namespace ModelServer

inductive Owner where
  | child (c : Nat)
  | foreign
  deriving DecidableEq

/-- `Running`.  `readyBy` is `ready`, with the process that answered. -/
structure Running where
  child : Nat
  modelPath : String
  readyBy : Option Owner
  deriving DecidableEq

/-- What comes after a `stop` of `start` itself: the second one, the look at the port, or the error. -/
inductive Next where
  | again | probe | fail
  deriving DecidableEq

inductive Phase where
  | idle
  /-- At `status()`. -/
  | asking (m : String)
  | stopping (m : String) (next : Next)
  | abandoning (m : String) (c : Nat) (next : Next)
  /-- At `port_answers()`. -/
  | probing (m : String)
  | spawning (m : String)
  | publishing (m : String) (c : Nat)
  | waiting (m : String) (c : Nat)
  /-- `responds_ready()` was true. -/
  | answered (m : String) (c : Nat) (peer : Owner)
  | polling (m : String) (c : Nat)
  deriving DecidableEq

def Phase.isOpen : Phase → Bool
  | .asking _ | .probing _ | .spawning _ => true
  | .stopping _ next | .abandoning _ _ next => next ≠ .fail
  | .idle | .publishing _ _ | .waiting _ _ | .answered _ _ _ | .polling _ _ => false

/-- The child of the start is not in the slot yet. -/
def Phase.isUnpublished : Phase → Bool
  | .publishing _ _ => true
  | phase => phase.isOpen

def Phase.child : Phase → Option Nat
  | .abandoning _ c _ | .publishing _ c => some c
  | _ => none

/-- Where a call of `stop` or `status` is.  A `stop` has the number of the last start before it. -/
inductive Call where
  | new
  | abandoning (c : Nat) (since : Nat)
  | returned (since : Nat)
  /-- `status` has seen that the child is dead. -/
  | reaping
  | sweeping (c : Nat)
  | answered
  deriving DecidableEq

def Call.child : Call → Option Nat
  | .abandoning c _ | .sweeping c => some c
  | .new | .returned _ | .reaping | .answered => none

/-- An `Ok` of `start`: the model, the child, who answered the readiness check and whether the child is
alive. -/
structure Announcement where
  modelPath : String
  child : Nat
  answeredBy : Option Owner
  alive : Bool
  deriving DecidableEq

/-- No step reads the models that the children were spawned for and what was announced. -/
structure Host where
  slot : Option Running
  start : Phase
  gen : Nat
  calls : Nat → Call
  alive : Finset Nat
  port : Option Owner
  spawned : List (Nat × String)
  announced : List Announcement

inductive Action where
  | begin (m : String) (found : Bool)
  | ask
  | halt
  | finish
  | probe
  | spawn (succeeds : Bool)
  | publish
  | respond (ready : Bool)
  | adopt
  | poll (timeUp : Bool)
  | stop (i : Nat)
  | stopped (i : Nat)
  | status (i : Nat)
  | reap (i : Nat)
  | swept (i : Nat)
  | exit (c : Nat)
  | bind (c : Nat)
  | squat
  | leave

namespace Host

def setCall (s : Host) (i : Nat) (call : Call) : Host :=
  { s with calls := fun k => if k = i then call else s.calls k }

def kill (s : Host) (c : Nat) : Host :=
  { s with
    alive := s.alive.erase c
    port := if s.port = some (.child c) then none else s.port }

/-! ## `start` -/

/-- The lock is taken; `found` is whether the model and a runner are on disk. -/
def begin (s : Host) (m : String) (found : Bool) : Option Host :=
  match s.start with
  | .idle => some { s with start := if found then .asking m else .idle, gen := s.gen + 1 }
  | _ => none

/-- `status()`, and the return where the model is served already. -/
def ask (s : Host) : Option Host :=
  match s.start with
  | .asking m =>
    match s.slot with
    | none => some { s with start := .stopping m .probe }
    | some r =>
      if r.child ∈ s.alive then
        if r.readyBy.isSome = true ∧ r.modelPath = m then
          some { s with
            start := .idle
            announced := s.announced ++ [⟨m, r.child, r.readyBy, true⟩] }
        else some { s with start := .stopping m .probe }
      else some { s with start := .stopping m .again }
  | _ => none

def after (m : String) : Next → Phase
  | .again => .stopping m .probe
  | .probe => .probing m
  | .fail => .idle

/-- `stop()` takes what is in the slot. -/
def halt (s : Host) : Option Host :=
  match s.start with
  | .stopping m next =>
    match s.slot with
    | some r => some { s with slot := none, start := .abandoning m r.child next }
    | none => some { s with start := after m next }
  | _ => none

/-- `abandon` is over. -/
def finish (s : Host) : Option Host :=
  match s.start with
  | .abandoning m c next => some { s.kill c with start := after m next }
  | _ => none

/-- `port_answers()`. -/
def probe (s : Host) : Option Host :=
  match s.start with
  | .probing m => some { s with start := if s.port = none then .spawning m else .idle }
  | _ => none

def spawn (s : Host) (succeeds : Bool) : Option Host :=
  match s.start with
  | .spawning m =>
    if succeeds then
      some { s with
        start := .publishing m s.gen
        alive := insert s.gen s.alive
        spawned := s.spawned ++ [(s.gen, m)] }
    else some { s with start := .idle }
  | _ => none

def publish (s : Host) : Option Host :=
  match s.start with
  | .publishing m c => some { s with start := .waiting m c, slot := some ⟨c, m, none⟩ }
  | _ => none

/-- `responds_ready()`. -/
def respond (s : Host) (ready : Bool) : Option Host :=
  match s.start with
  | .waiting m c =>
    if ready then s.port.map fun peer => { s with start := .answered m c peer }
    else some { s with start := .polling m c }
  | _ => none

/-- `current.ready = true`, where the slot has a child. -/
def adopt (s : Host) : Option Host :=
  match s.start with
  | .answered m c peer =>
    match s.slot with
    | some r =>
      some { s with
        start := .idle
        slot := some { r with readyBy := some peer }
        announced := s.announced ++ [⟨m, c, some peer, c ∈ s.alive⟩] }
    | none => some { s with start := .idle }
  | _ => none

def poll (s : Host) (timeUp : Bool) : Option Host :=
  match s.start with
  | .polling m c =>
    match s.slot with
    | some r =>
      if r.child ∉ s.alive ∨ timeUp = true then some { s with start := .stopping m .fail }
      else some { s with start := .waiting m c }
    | none => some { s with start := .idle }
  | _ => none

/-! ## `stop` and `status` -/

def stop (s : Host) (i : Nat) : Option Host :=
  match s.calls i with
  | .new =>
    match s.slot with
    | some r => some { s.setCall i (.abandoning r.child s.gen) with slot := none }
    | none => some (s.setCall i (.returned s.gen))
  | _ => none

def stopped (s : Host) (i : Nat) : Option Host :=
  match s.calls i with
  | .abandoning c since => some ((s.kill c).setCall i (.returned since))
  | _ => none

def status (s : Host) (i : Nat) : Option Host :=
  match s.calls i with
  | .new =>
    match s.slot with
    | some r => some (s.setCall i (if r.child ∈ s.alive then .answered else .reaping))
    | none => some (s.setCall i .answered)
  | _ => none

/-- The `stop()` of `status`. -/
def reap (s : Host) (i : Nat) : Option Host :=
  match s.calls i with
  | .reaping =>
    match s.slot with
    | some r => some { s.setCall i (.sweeping r.child) with slot := none }
    | none => some (s.setCall i .answered)
  | _ => none

def swept (s : Host) (i : Nat) : Option Host :=
  match s.calls i with
  | .sweeping c => some ((s.kill c).setCall i .answered)
  | _ => none

def step (s : Host) : Action → Option Host
  | .begin m found => s.begin m found
  | .ask => s.ask
  | .halt => s.halt
  | .finish => s.finish
  | .probe => s.probe
  | .spawn succeeds => s.spawn succeeds
  | .publish => s.publish
  | .respond ready => s.respond ready
  | .adopt => s.adopt
  | .poll timeUp => s.poll timeUp
  | .stop i => s.stop i
  | .stopped i => s.stopped i
  | .status i => s.status i
  | .reap i => s.reap i
  | .swept i => s.swept i
  | .exit c => some (s.kill c)
  | .bind c => if c ∈ s.alive ∧ s.port = none then some { s with port := some (.child c) } else none
  | .squat => if s.port = none then some { s with port := some .foreign } else none
  | .leave => if s.port = some .foreign then some { s with port := none } else none

/-- Nothing was started; a foreign process may have the port. -/
def Fresh (s : Host) : Prop :=
  s.slot = none ∧ s.start = .idle ∧ (∀ i, s.calls i = .new) ∧ s.alive = ∅ ∧
    (∀ c, s.port ≠ some (.child c)) ∧ s.announced = []

/-! ## The property -/

/-- One child, none of an earlier start after `stop`, and an announced child that answered itself. -/
structure OneServer (s : Host) : Prop where
  single : ∀ c ∈ s.alive, ∀ c' ∈ s.alive, c = c'
  swept : ∀ i since, s.calls i = .returned since → ∀ c ∈ s.alive, since < c
  announced : ∀ a ∈ s.announced,
    (a.child, a.modelPath) ∈ s.spawned ∧ a.alive = true ∧ a.answeredBy = some (.child a.child)

inductive Holder where
  | slot
  | start
  | call (i : Nat)
  deriving DecidableEq

def held (s : Host) : Holder → Option Nat
  | .slot => s.slot.map Running.child
  | .start => s.start.child
  | .call i => (s.calls i).child

def Orderly (s : Host) : Action → Prop
  | .spawn succeeds => succeeds = true → ∀ i c, (s.calls i).child = some c → c ∉ s.alive
  | .stop _ => s.start.isOpen = false ∧ ∀ x c, x ≠ .slot → s.held x = some c → c ∉ s.alive
  | .respond ready => ready = true → s.port ≠ some .foreign
  | .exit c => ∀ m peer, s.start = .answered m c peer → s.slot = none
  | _ => True

/-! ## The invariant -/

structure SlotInv (s : Host) (r : Running) : Prop where
  spawned : (r.child, r.modelPath) ∈ s.spawned
  ready : ∀ peer, r.readyBy = some peer → peer = .child r.child
  known : r.child ≤ s.gen
  older : s.start.isUnpublished = true → r.child < s.gen
  apart : ∀ i, (s.calls i).child ≠ some r.child

structure Started (s : Host) (m : String) (c : Nat) : Prop where
  spawned : (c, m) ∈ s.spawned
  only : s.alive ⊆ {c}
  slot : ∀ r, s.slot = some r → r.child = c

@[grind =]
def StartInv (s : Host) : Phase → Prop
  | .abandoning _ _ _ | .probing _ | .spawning _ => s.slot = none
  | .publishing m c => s.Started m c ∧ s.slot = none ∧ c = s.gen
  | .waiting m c | .polling m c => s.Started m c
  | .answered m c peer =>
    s.Started m c ∧ peer = .child c ∧ ∀ r, s.slot = some r → c ∈ s.alive
  | .idle | .asking _ | .stopping _ _ => True

def CallInv (s : Host) : Call → Prop
  | .abandoning c since =>
    (c ≤ s.gen ∧ (s.start.isUnpublished = true → c < s.gen)) ∧
      (since ≤ s.gen ∧ (s.start.isOpen = true → since < s.gen)) ∧
        ∀ c' ∈ s.alive, since < c' ∨ c' = c
  | .returned since =>
    (since ≤ s.gen ∧ (s.start.isOpen = true → since < s.gen)) ∧ ∀ c' ∈ s.alive, since < c'
  | .sweeping c => c ≤ s.gen ∧ (s.start.isUnpublished = true → c < s.gen)
  | .new | .reaping | .answered => True

def Told (s : Host) (a : Announcement) : Prop :=
  (a.child, a.modelPath) ∈ s.spawned ∧ a.alive = true ∧ a.answeredBy = some (.child a.child)

structure Inv (s : Host) : Prop where
  custody : Custody s.held s.alive
  port : ∀ c, s.port = some (.child c) → c ∈ s.alive
  slot : ∀ r, s.slot = some r → s.SlotInv r
  start : s.StartInv s.start
  calls : ∀ i, s.CallInv (s.calls i)
  announced : ∀ a ∈ s.announced, s.Told a

variable {s s' : Host} {i c : Nat} {m : String} {phase : Phase}

theorem Inv.oneServer (h : s.Inv) : s.OneServer where
  single := h.custody.single
  swept := by
    intro i since hreturned
    have hinv := h.calls i
    rw [hreturned] at hinv
    exact hinv.2
  announced := h.announced

theorem Fresh.inv (h : s.Fresh) : s.Inv := by
  obtain ⟨hslot, hstart, hcalls, halive, hport, hannounced⟩ := h
  refine ⟨?_, ?_, ?_, ?_, ?_, ?_⟩
  · rw [halive]
    exact Custody.of_empty
  · exact fun c hc => absurd hc (hport c)
  · intro r hr
    rw [hslot] at hr
    cases hr
  · rw [hstart]
    trivial
  · intro i
    rw [hcalls i]
    trivial
  · intro a ha
    rw [hannounced] at ha
    cases ha

theorem unpublished_of_open (h : phase.isOpen = true) : phase.isUnpublished = true := by
  cases phase <;> first | exact h | cases h

/-- What a call relies on: starts are numbered upwards, and a child that is new is the open start's. -/
theorem CallInv.mono {call : Call} (h : s.CallInv call) (hgen : s.gen ≤ s'.gen)
    (hopen : s'.start.isOpen = true → s.start.isOpen = true ∨ s.gen < s'.gen)
    (hunpublished : s'.start.isUnpublished = true → s.start.isUnpublished = true ∨ s.gen < s'.gen)
    (halive : ∀ c ∈ s'.alive, c ∈ s.alive ∨ s.start.isOpen = true ∧ c = s.gen) : s'.CallInv call := by
  have hchild : ∀ {c : Nat}, c ≤ s.gen ∧ (s.start.isUnpublished = true → c < s.gen) →
      c ≤ s'.gen ∧ (s'.start.isUnpublished = true → c < s'.gen) := by
    intro c hc
    refine ⟨hc.1.trans hgen, fun hun => ?_⟩
    rcases hunpublished hun with hbefore | hlater
    · exact (hc.2 hbefore).trans_le hgen
    · exact hc.1.trans_lt hlater
  have hsince : ∀ {n : Nat}, n ≤ s.gen ∧ (s.start.isOpen = true → n < s.gen) →
      n ≤ s'.gen ∧ (s'.start.isOpen = true → n < s'.gen) := by
    intro n hn
    refine ⟨hn.1.trans hgen, fun ho => ?_⟩
    rcases hopen ho with hbefore | hlater
    · exact (hn.2 hbefore).trans_le hgen
    · exact hn.1.trans_lt hlater
  cases call with
  | abandoning c since =>
    refine ⟨hchild h.1, hsince h.2.1, fun c' hc' => ?_⟩
    rcases halive c' hc' with hold | ⟨ho, rfl⟩
    · exact h.2.2 c' hold
    · exact Or.inl (h.2.1.2 ho)
  | returned since =>
    refine ⟨hsince h.1, fun c' hc' => ?_⟩
    rcases halive c' hc' with hold | ⟨ho, rfl⟩
    · exact h.2 c' hold
    · exact h.1.2 ho
  | sweeping c => exact hchild h
  | new | reaping | answered => trivial

/-- The slot is emptied and children end, and the one that has answered does not while it is there. -/
theorem StartInv.mono (h : s.StartInv phase) (hslot : ∀ r, s'.slot = some r → s.slot = some r)
    (hsub : s'.alive ⊆ s.alive) (hgen : s'.gen = s.gen) (hspawned : s'.spawned = s.spawned)
    (hanswered : ∀ m c peer r, phase = .answered m c peer → s'.slot = some r → c ∈ s.alive →
      c ∈ s'.alive) : s'.StartInv phase := by
  have hempty : s.slot = none → s'.slot = none := by
    intro hs
    cases hs' : s'.slot with
    | none => rfl
    | some r =>
      rw [hslot r hs'] at hs
      cases hs
  have hstarted : ∀ {m : String} {c : Nat}, s.Started m c → s'.Started m c := by
    intro m c hm
    exact ⟨hspawned ▸ hm.spawned, hsub.trans hm.only, fun r hr => hm.slot r (hslot r hr)⟩
  cases phase
  case abandoning m c next => exact hempty h
  case probing m => exact hempty h
  case spawning m => exact hempty h
  case publishing m c => exact ⟨hstarted h.1, hempty h.2.1, h.2.2.trans hgen.symm⟩
  case waiting m c => exact hstarted h
  case polling m c => exact hstarted h
  case answered m c peer =>
    refine ⟨hstarted h.1, h.2.1, fun r hr => ?_⟩
    exact hanswered m c peer r rfl hr (h.2.2 r (hslot r hr))
  all_goals trivial

/-- The child in the slot is the same, whatever the port and the announcements. -/
theorem SlotInv.same {r : Running} (h : s.SlotInv r) (hstart : s'.start = s.start)
    (hgen : s'.gen = s.gen) (hcalls : s'.calls = s.calls) (hspawned : s'.spawned = s.spawned) :
    s'.SlotInv r where
  spawned := hspawned ▸ h.spawned
  ready := h.ready
  known := hgen ▸ h.known
  older := by
    rw [hstart, hgen]
    exact h.older
  apart := hcalls ▸ h.apart

/-! ## Steps of the start -/

/-- The start goes on, and neither the children nor the slot change. -/
theorem Inv.goto (h : s.Inv) (phase : Phase)
    (hchild : ∀ p ∈ s.alive, s.start.child = some p → phase.child = some p)
    (hstart : ({ s with start := phase } : Host).StartInv phase)
    (hopen : phase.isOpen = true → s.start.isOpen = true)
    (hunpublished : phase.isUnpublished = true → s.start.isUnpublished = true) :
    ({ s with start := phase } : Host).Inv where
  custody := by
    refine h.custody.pass (Finset.Subset.refl _) fun x p hp hx => ⟨x, ?_⟩
    cases x with
    | slot => exact hx
    | start => exact hchild p hp hx
    | call i => exact hx
  port := h.port
  slot := fun r hr => ⟨(h.slot r hr).spawned, (h.slot r hr).ready, (h.slot r hr).known,
    fun hun => (h.slot r hr).older (hunpublished hun), (h.slot r hr).apart⟩
  start := hstart
  calls := fun i => (h.calls i).mono le_rfl (fun ho => Or.inl (hopen ho))
    (fun hun => Or.inl (hunpublished hun)) fun _ hc => Or.inl hc
  announced := h.announced

theorem Inv.killed (h : s.Inv)
    (hanswered : ∀ m c' peer r, s.start = .answered m c' peer → s.slot = some r → c' ≠ c) :
    (s.kill c).Inv where
  custody := by
    refine h.custody.pass (Finset.erase_subset c s.alive) fun x p _ hx => ⟨x, ?_⟩
    cases x <;> exact hx
  port := by
    intro c' hc'
    have hport : (if s.port = some (.child c) then none else s.port) = some (.child c') := hc'
    split_ifs at hport with hown
    refine Finset.mem_erase.2 ⟨?_, h.port c' hport⟩
    rintro rfl
    exact hown hport
  slot := fun r hr => (h.slot r hr).same rfl rfl rfl rfl
  start := by
    refine h.start.mono (fun _ hr => hr) (Finset.erase_subset c s.alive) rfl rfl ?_
    exact fun m c' peer r hs hr hmem => Finset.mem_erase.2 ⟨hanswered m c' peer r hs hr, hmem⟩
  calls := fun i => (h.calls i).mono le_rfl Or.inl Or.inl
    fun _ hc => Or.inl (Finset.mem_of_mem_erase hc)
  announced := h.announced

theorem begin_inv {found : Bool} (h : s.Inv) (hstep : s.begin m found = some s') : s'.Inv := by
  unfold begin at hstep
  split at hstep
  case h_1 hstart =>
    cases hstep
    refine ⟨?_, h.port, ?_, ?_, ?_, h.announced⟩
    · refine h.custody.pass (Finset.Subset.refl _) fun x p _ hx => ⟨x, ?_⟩
      cases x with
      | slot => exact hx
      | start =>
        have hnone : s.start.child = some p := hx
        rw [hstart] at hnone
        cases hnone
      | call i => exact hx
    · intro r hr
      have hslot := h.slot r hr
      exact ⟨hslot.spawned, hslot.ready, Nat.le_succ_of_le hslot.known,
        fun _ => Nat.lt_succ_of_le hslot.known, hslot.apart⟩
    · cases found <;> trivial
    · exact fun i => (h.calls i).mono (Nat.le_succ _) (fun _ => Or.inr (Nat.lt_succ_self _))
        (fun _ => Or.inr (Nat.lt_succ_self _)) fun _ hc => Or.inl hc
  case h_2 => cases hstep

theorem Inv.tell (h : s.Inv) {a : Announcement} (ha : s.Told a) :
    ({ s with announced := s.announced ++ [a] } : Host).Inv where
  custody := h.custody.pass (Finset.Subset.refl _) fun x _ _ hx => ⟨x, by cases x <;> exact hx⟩
  port := h.port
  slot := fun r hr => (h.slot r hr).same rfl rfl rfl rfl
  start := h.start.mono (fun _ hr => hr) (Finset.Subset.refl _) rfl rfl fun _ _ _ _ _ _ hc => hc
  calls := fun i => (h.calls i).mono le_rfl Or.inl Or.inl fun _ hc => Or.inl hc
  announced := by
    intro b hb
    rcases List.mem_append.1 hb with hold | hnew
    · exact h.announced b hold
    · exact List.mem_singleton.1 hnew ▸ ha

theorem unheld (phase : Phase) (h : s.start.child = none) :
    ∀ p ∈ s.alive, s.start.child = some p → phase.child = some p :=
  fun p _ hp => by cases h.symm.trans hp

theorem ask_inv (h : s.Inv) (hstep : s.ask = some s') : s'.Inv := by
  unfold ask at hstep
  split at hstep
  case h_1 m hstart =>
    have hnone {phase : Phase} := unheld phase (show s.start.child = none by rw [hstart]; rfl)
    have hopen : s.start.isOpen = true := by rw [hstart]; rfl
    have hunpublished := unpublished_of_open hopen
    split at hstep
    case h_1 =>
      cases hstep
      exact h.goto (.stopping m .probe) hnone trivial (fun _ => hopen) fun _ => hunpublished
    case h_2 r hslot =>
      by_cases halive : r.child ∈ s.alive
      · rw [if_pos halive] at hstep
        by_cases hserved : r.readyBy.isSome = true ∧ r.modelPath = m
        · rw [if_pos hserved] at hstep
          cases hstep
          have hmoved := h.goto .idle hnone trivial (fun ho => by cases ho) fun hun => by cases hun
          obtain ⟨peer, hpeer⟩ := Option.isSome_iff_exists.1 hserved.1
          have hslotInv := h.slot r hslot
          refine hmoved.tell ⟨hserved.2 ▸ hslotInv.spawned, rfl, ?_⟩
          exact hpeer.trans (congrArg some (hslotInv.ready peer hpeer))
        · rw [if_neg hserved] at hstep
          cases hstep
          exact h.goto (.stopping m .probe) hnone trivial (fun _ => hopen) fun _ => hunpublished
      · rw [if_neg halive] at hstep
        cases hstep
        exact h.goto (.stopping m .again) hnone trivial (fun _ => hopen) fun _ => hunpublished
  case h_2 => cases hstep

/-- Where the start goes after its `stop`. -/
theorem after_open {next : Next} (h : (after m next).isOpen = true) : next ≠ .fail := by
  rintro rfl
  cases h

theorem after_unpublished {next : Next} (h : (after m next).isUnpublished = true) : next ≠ .fail := by
  rintro rfl
  cases h

theorem halt_inv (h : s.Inv) (hstep : s.halt = some s') : s'.Inv := by
  unfold halt at hstep
  split at hstep
  case h_1 m next hstart =>
    split at hstep
    case h_1 r hslot =>
      cases hstep
      refine ⟨?_, h.port, fun _ hr => (by cases hr), rfl, ?_, h.announced⟩
      · refine h.custody.pass (Finset.Subset.refl _) fun x p _ hx => ?_
        cases x with
        | slot =>
          have hp : s.slot.map Running.child = some p := hx
          rw [hslot] at hp
          exact ⟨.start, hp⟩
        | start =>
          have hnone : s.start.child = some p := hx
          rw [hstart] at hnone
          cases hnone
        | call i => exact ⟨.call i, hx⟩
      · refine fun i => (h.calls i).mono le_rfl (fun ho => Or.inl ?_) (fun hun => Or.inl ?_)
          fun _ hc => Or.inl hc
        · rw [hstart]
          exact ho
        · rw [hstart]
          exact hun
    case h_2 hslot =>
      cases hstep
      refine h.goto (after m next) ?_ ?_ ?_ ?_
      · intro p _ hp
        rw [hstart] at hp
        cases hp
      · cases next
        case probe => exact hslot
        all_goals trivial
      · intro ho
        rw [hstart]
        exact decide_eq_true (after_open ho)
      · intro hun
        rw [hstart]
        exact decide_eq_true (after_unpublished hun)
  case h_2 => cases hstep

theorem finish_inv (h : s.Inv) (hstep : s.finish = some s') : s'.Inv := by
  unfold finish at hstep
  split at hstep
  case h_1 m c next hstart =>
    cases hstep
    have hkilled : (s.kill c).Inv := by
      refine h.killed fun m' c' peer r hs => ?_
      rw [hstart] at hs
      cases hs
    have hsame : (s.kill c).start = .abandoning m c next := hstart
    refine hkilled.goto (after m next) ?_ ?_ ?_ ?_
    · intro p hp hchild
      rw [hsame] at hchild
      cases hchild
      exact absurd hp (Finset.notMem_erase _ _)
    · have hslot : s.slot = none := by simpa [StartInv, hstart] using h.start
      cases next
      case probe => exact hslot
      all_goals trivial
    · intro ho
      rw [hsame]
      exact decide_eq_true (after_open ho)
    · intro hun
      rw [hsame]
      exact decide_eq_true (after_unpublished hun)
  case h_2 => cases hstep

theorem probe_inv (h : s.Inv) (hstep : s.probe = some s') : s'.Inv := by
  unfold probe at hstep
  split at hstep
  case h_1 m hstart =>
    have hslot : s.slot = none := by simpa [StartInv, hstart] using h.start
    have hnone {phase : Phase} := unheld phase (show s.start.child = none by rw [hstart]; rfl)
    have hopen : s.start.isOpen = true := by rw [hstart]; rfl
    by_cases hport : s.port = none
    · rw [if_pos hport] at hstep
      cases hstep
      exact h.goto (.spawning m) hnone hslot (fun _ => hopen) fun _ => unpublished_of_open hopen
    · rw [if_neg hport] at hstep
      cases hstep
      exact h.goto .idle hnone trivial (fun ho => by cases ho) fun hun => by cases hun
  case h_2 => cases hstep

theorem spawn_inv {succeeds : Bool} (h : s.Inv) (hok : s.Orderly (.spawn succeeds))
    (hstep : s.spawn succeeds = some s') : s'.Inv := by
  unfold spawn at hstep
  split at hstep
  case h_1 m hstart =>
    have hslot : s.slot = none := by simpa [StartInv, hstart] using h.start
    have hopen : s.start.isOpen = true := by rw [hstart]; rfl
    cases succeeds with
    | true =>
      cases hstep
      have hempty : s.alive = ∅ := by
        refine h.custody.empty fun x c hx => ?_
        cases x with
        | slot =>
          have hc : s.slot.map Running.child = some c := hx
          rw [hslot] at hc
          cases hc
        | start =>
          have hc : s.start.child = some c := hx
          rw [hstart] at hc
          cases hc
        | call i => exact hok rfl i c hx
      have hsub : insert s.gen s.alive ⊆ {s.gen} := by rw [hempty]; exact Finset.Subset.refl _
      refine ⟨?_, ?_, ?_, ?_, ?_, ?_⟩
      · have hheld : ({ s with start := .publishing m s.gen } : Host).held .start = some s.gen := rfl
        have hspawned : Custody ({ s with start := .publishing m s.gen } : Host).held
            (insert s.gen s.alive) := Custody.spawn hempty hheld
        exact hspawned
      · exact fun c hc => Finset.mem_insert_of_mem (h.port c hc)
      · intro r hr
        have hr' : s.slot = some r := hr
        rw [hslot] at hr'
        cases hr'
      · refine ⟨⟨List.mem_append_right _ List.mem_cons_self, hsub, ?_⟩, hslot, rfl⟩
        intro r hr
        have hr' : s.slot = some r := hr
        rw [hslot] at hr'
        cases hr'
      · refine fun i => (h.calls i).mono le_rfl (fun ho => by cases ho)
          (fun _ => Or.inl (unpublished_of_open hopen)) fun c hc => ?_
        rcases Finset.mem_insert.1 hc with rfl | hold
        · exact Or.inr ⟨hopen, rfl⟩
        · exact Or.inl hold
      · intro a ha
        exact ⟨List.mem_append_left _ (h.announced a ha).1, (h.announced a ha).2⟩
    | false =>
      cases hstep
      refine h.goto .idle ?_ trivial (fun ho => by cases ho) fun hun => by cases hun
      intro p _ hp
      rw [hstart] at hp
      cases hp
  case h_2 => cases hstep

theorem publish_inv (h : s.Inv) (hstep : s.publish = some s') : s'.Inv := by
  unfold publish at hstep
  split at hstep
  case h_1 m c hstart =>
    cases hstep
    have hinv : s.Started m c ∧ s.slot = none ∧ c = s.gen := by
      simpa [StartInv, hstart] using h.start
    obtain ⟨hstarted, hslot, rfl⟩ := hinv
    have hunpublished : s.start.isUnpublished = true := by rw [hstart]; rfl
    refine ⟨?_, h.port, ?_, ?_, ?_, h.announced⟩
    · refine h.custody.pass (Finset.Subset.refl _) fun x p _ hx => ?_
      cases x with
      | slot =>
        have hp : s.slot.map Running.child = some p := hx
        rw [hslot] at hp
        cases hp
      | start =>
        have hp : s.start.child = some p := hx
        rw [hstart] at hp
        exact ⟨.slot, hp⟩
      | call i => exact ⟨.call i, hx⟩
    · intro r hr
      cases hr
      refine ⟨hstarted.1, fun peer hpeer => (by cases hpeer), le_rfl, fun hun => (by cases hun), ?_⟩
      -- a call that has a child has it from before this start
      intro i hi
      have hcall := h.calls i
      cases hc : s.calls i with
      | abandoning c since =>
        rw [hc] at hcall
        have hi' : (s.calls i).child = some s.gen := hi
        rw [hc] at hi'
        exact absurd (Option.some.inj hi') (hcall.1.2 hunpublished).ne
      | sweeping c =>
        rw [hc] at hcall
        have hi' : (s.calls i).child = some s.gen := hi
        rw [hc] at hi'
        exact absurd (Option.some.inj hi') (hcall.2 hunpublished).ne
      | _ =>
        have hi' : (s.calls i).child = some s.gen := hi
        rw [hc] at hi'
        cases hi'
    · exact ⟨hstarted.1, hstarted.2, fun r hr => Option.some.inj hr ▸ rfl⟩
    · exact fun i => (h.calls i).mono le_rfl (fun ho => by cases ho) (fun hun => by cases hun)
        fun _ hc => Or.inl hc
  case h_2 => cases hstep

/-- The one who answers is the only child. -/
theorem respond_inv {ready : Bool} (h : s.Inv) (hok : s.Orderly (.respond ready))
    (hstep : s.respond ready = some s') : s'.Inv := by
  unfold respond at hstep
  split at hstep
  case h_1 m c hstart =>
    have hinv : s.Started m c := by simpa [StartInv, hstart] using h.start
    have hnone {phase : Phase} := unheld phase (show s.start.child = none by rw [hstart]; rfl)
    cases ready with
    | true =>
      rw [if_pos rfl] at hstep
      obtain ⟨peer, hport, rfl⟩ := Option.map_eq_some_iff.1 hstep
      have hpeer : peer = .child c ∧ c ∈ s.alive := by
        cases peer with
        | foreign => exact absurd hport (hok rfl)
        | child c' =>
          have halive := h.port c' hport
          obtain rfl := Finset.mem_singleton.1 (hinv.only halive)
          exact ⟨rfl, halive⟩
      exact h.goto (.answered m c peer) hnone
        ⟨⟨hinv.spawned, hinv.only, hinv.slot⟩, hpeer.1, fun _ _ => hpeer.2⟩
        (fun ho => by cases ho) fun hun => by cases hun
    | false =>
      cases hstep
      exact h.goto (.polling m c) hnone ⟨hinv.spawned, hinv.only, hinv.slot⟩
        (fun ho => by cases ho) fun hun => by cases hun
  case h_2 => cases hstep

theorem adopt_inv (h : s.Inv) (hstep : s.adopt = some s') : s'.Inv := by
  unfold adopt at hstep
  split at hstep
  case h_1 m c peer hstart =>
    have hinv : s.Started m c ∧ peer = .child c ∧ ∀ r, s.slot = some r → c ∈ s.alive := by
      simpa [StartInv, hstart] using h.start
    obtain ⟨hstarted, hpeer, halive⟩ := hinv
    have hmoved : ({ s with start := .idle } : Host).Inv := by
      refine h.goto .idle ?_ trivial (fun ho => by cases ho) fun hun => by cases hun
      intro p _ hp
      rw [hstart] at hp
      cases hp
    split at hstep
    case h_1 r hslot =>
      cases hstep
      have hr := h.slot r hslot
      have hchild := hstarted.slot r hslot
      have hready :
          ({ s with start := .idle, slot := some { r with readyBy := some peer } } : Host).Inv := by
        refine ⟨?_, h.port, ?_, trivial, ?_, h.announced⟩
        · refine hmoved.custody.pass (Finset.Subset.refl _) fun x p _ hx => ⟨x, ?_⟩
          cases x with
          | slot =>
            have hp : s.slot.map Running.child = some p := hx
            rw [hslot] at hp
            exact hp
          | start | call _ => exact hx
        · intro r' hr'
          cases hr'
          refine ⟨hr.spawned, fun peer' hpeer' => ?_, hr.known, fun hun => (by cases hun), hr.apart⟩
          cases hpeer'
          exact hpeer.trans (congrArg Owner.child hchild.symm)
        · exact fun i => (hmoved.calls i).mono le_rfl Or.inl Or.inl fun _ hc => Or.inl hc
      refine hready.tell ⟨hstarted.spawned, decide_eq_true (halive r hslot), ?_⟩
      exact congrArg some hpeer
    case h_2 =>
      cases hstep
      exact hmoved
  case h_2 => cases hstep

theorem poll_inv {timeUp : Bool} (h : s.Inv) (hstep : s.poll timeUp = some s') : s'.Inv := by
  unfold poll at hstep
  split at hstep
  case h_1 m c hstart =>
    have hinv : s.Started m c := by simpa [StartInv, hstart] using h.start
    have hnone {phase : Phase} := unheld phase (show s.start.child = none by rw [hstart]; rfl)
    split at hstep
    case h_1 r hslot =>
      by_cases hover : r.child ∉ s.alive ∨ timeUp = true
      · rw [if_pos hover] at hstep
        cases hstep
        exact h.goto (.stopping m .fail) hnone trivial (fun ho => by cases ho) fun hun => by cases hun
      · rw [if_neg hover] at hstep
        cases hstep
        exact h.goto (.waiting m c) hnone ⟨hinv.spawned, hinv.only, hinv.slot⟩
          (fun ho => by cases ho) fun hun => by cases hun
    case h_2 =>
      cases hstep
      exact h.goto .idle hnone trivial (fun ho => by cases ho) fun hun => by cases hun
  case h_2 => cases hstep

/-! ## Steps of the calls -/

@[simp] theorem setCall_self (s : Host) (i : Nat) (call : Call) :
    (s.setCall i call).calls i = call := if_pos rfl

theorem setCall_other {k : Nat} {call : Call} (hk : k ≠ i) :
    (s.setCall i call).calls k = s.calls k := if_neg hk

/-- A call goes on, and the slot stays or is empty. -/
theorem Inv.call (h : s.Inv) (i : Nat) (call : Call) {slot : Option Running}
    (hslot : slot = s.slot ∨ slot = none)
    (hcustody : ∀ p ∈ s.alive, s.slot.map Running.child = some p ∨ (s.calls i).child = some p →
      slot.map Running.child = some p ∨ call.child = some p)
    (hapart : ∀ r, slot = some r → call.child ≠ some r.child) (hinv : s.CallInv call) :
    ({ s.setCall i call with slot := slot } : Host).Inv where
  custody := by
    refine h.custody.pass (Finset.Subset.refl _) fun x p hp hx => ?_
    have hkept : s.slot.map Running.child = some p ∨ (s.calls i).child = some p →
        ∃ y, ({ s.setCall i call with slot := slot } : Host).held y = some p := by
      intro hbefore
      rcases hcustody p hp hbefore with hs | hc
      · exact ⟨.slot, hs⟩
      · exact ⟨.call i, (congrArg Call.child (setCall_self s i call)).trans hc⟩
    cases x with
    | slot => exact hkept (Or.inl hx)
    | start => exact ⟨.start, hx⟩
    | call k =>
      by_cases hk : k = i
      · exact hkept (Or.inr (hk ▸ hx))
      · exact ⟨.call k, (congrArg Call.child (setCall_other hk)).trans hx⟩
  port := h.port
  slot := by
    intro r hr
    have hr' : slot = some r := hr
    have hold : s.slot = some r := by
      rcases hslot with hsame | hnone
      · exact hsame ▸ hr'
      · rw [hnone] at hr'
        cases hr'
    have hbefore := h.slot r hold
    refine ⟨hbefore.spawned, hbefore.ready, hbefore.known, hbefore.older, fun k => ?_⟩
    show ((s.setCall i call).calls k).child ≠ some r.child
    by_cases hk : k = i
    · rw [hk, setCall_self]
      exact hapart r hr'
    · rw [setCall_other hk]
      exact hbefore.apart k
  start := by
    refine h.start.mono (fun r hr => ?_) (Finset.Subset.refl _) rfl rfl fun _ _ _ _ _ _ hc => hc
    have hr' : slot = some r := hr
    rcases hslot with hsame | hnone
    · exact hsame ▸ hr'
    · rw [hnone] at hr'
      cases hr'
  calls := by
    intro k
    show Host.CallInv _ ((s.setCall i call).calls k)
    have hmono : ∀ {c : Call}, s.CallInv c →
        ({ s.setCall i call with slot := slot } : Host).CallInv c :=
      fun hc => hc.mono le_rfl Or.inl Or.inl fun _ hmem => Or.inl hmem
    by_cases hk : k = i
    · rw [hk, setCall_self]
      exact hmono hinv
    · rw [setCall_other hk]
      exact hmono (h.calls k)
  announced := h.announced

/-- A call without a child goes on, and the slot stays. -/
theorem Inv.goOn (h : s.Inv) (i : Nat) (call : Call) (hbefore : (s.calls i).child = none)
    (hafter : call.child = none) (hinv : s.CallInv call) : (s.setCall i call).Inv := by
  refine h.call i call (Or.inl rfl) (fun p _ hp => ?_) (fun r _ => ?_) hinv
  · rw [hbefore] at hp
    exact Or.inl (hp.resolve_right fun hc => by cases hc)
  · rw [hafter]
    exact fun hc => by cases hc

theorem Inv.callKilled (h : s.Inv) (i : Nat) (call : Call) (hbefore : (s.calls i).child = some c)
    (hafter : call.child = none) (hinv : (s.kill c).CallInv call) :
    ((s.kill c).setCall i call).Inv := by
  have hkilled : (s.kill c).Inv := by
    refine h.killed fun m c' peer r hs hr => ?_
    have hstart := h.start
    rw [hs] at hstart
    -- the child of the start is in the slot, and not the call's
    rintro rfl
    exact (h.slot r hr).apart i (hbefore.trans (congrArg some (hstart.1.slot r hr).symm))
  refine hkilled.call i call (Or.inl rfl) (fun p hp hheld => ?_) (fun r _ => ?_) hinv
  · refine Or.inl (hheld.resolve_right fun hc => ?_)
    obtain rfl := Option.some.inj (hbefore.symm.trans hc)
    exact Finset.notMem_erase _ _ hp
  · rw [hafter]
    exact fun hc => by cases hc

theorem stop_inv (h : s.Inv) (hok : s.Orderly (.stop i)) (hstep : s.stop i = some s') : s'.Inv := by
  unfold stop at hstep
  split at hstep
  case h_1 hi =>
    obtain ⟨hopen, hfree⟩ := hok
    have hnotOpen : s.start.isOpen = true → s.gen < s.gen := by
      intro ho
      rw [hopen] at ho
      cases ho
    have hinSlot : ∀ c ∈ s.alive, s.slot.map Running.child = some c := by
      intro c hc
      obtain ⟨x, hx⟩ := h.custody.owned c hc
      by_cases hslot : x = .slot
      · subst hslot
        exact hx
      · exact absurd hc (hfree x c hslot hx)
    split at hstep
    case h_1 r hslot =>
      cases hstep
      have hr := h.slot r hslot
      refine h.call i (.abandoning r.child s.gen) (Or.inr rfl) (fun p _ hp => Or.inr ?_)
        (fun r' hr' => by cases hr') ⟨⟨hr.known, hr.older⟩, ⟨le_rfl, hnotOpen⟩, fun c hc => Or.inr ?_⟩
      · rw [hslot, hi] at hp
        exact hp.resolve_right fun hc => by cases hc
      · have hc' := hinSlot c hc
        rw [hslot] at hc'
        exact (Option.some.inj hc').symm
    case h_2 hslot =>
      cases hstep
      refine h.goOn i (.returned s.gen) (by rw [hi]; rfl) rfl ⟨⟨le_rfl, hnotOpen⟩, fun c hc => ?_⟩
      have hc' := hinSlot c hc
      rw [hslot] at hc'
      cases hc'
  case h_2 => cases hstep

theorem stopped_inv (h : s.Inv) (hstep : s.stopped i = some s') : s'.Inv := by
  unfold stopped at hstep
  split at hstep
  case h_1 c since hi =>
    cases hstep
    have hinv := h.calls i
    rw [hi] at hinv
    refine h.callKilled i (.returned since) (by rw [hi]; rfl) rfl ⟨hinv.2.1, fun c' hc' => ?_⟩
    obtain ⟨hne, hmem⟩ := Finset.mem_erase.1 hc'
    exact (hinv.2.2 c' hmem).resolve_right hne
  case h_2 => cases hstep

theorem status_inv (h : s.Inv) (hstep : s.status i = some s') : s'.Inv := by
  unfold status at hstep
  split at hstep
  case h_1 hi =>
    split at hstep
    case h_1 r hslot =>
      cases hstep
      by_cases halive : r.child ∈ s.alive
      · rw [if_pos halive]
        exact h.goOn i .answered (by rw [hi]; rfl) rfl trivial
      · rw [if_neg halive]
        exact h.goOn i .reaping (by rw [hi]; rfl) rfl trivial
    case h_2 =>
      cases hstep
      exact h.goOn i .answered (by rw [hi]; rfl) rfl trivial
  case h_2 => cases hstep

theorem reap_inv (h : s.Inv) (hstep : s.reap i = some s') : s'.Inv := by
  unfold reap at hstep
  split at hstep
  case h_1 hi =>
    split at hstep
    case h_1 r hslot =>
      cases hstep
      have hr := h.slot r hslot
      refine h.call i (.sweeping r.child) (Or.inr rfl) (fun p _ hp => Or.inr ?_)
        (fun r' hr' => by cases hr') ⟨hr.known, hr.older⟩
      rw [hslot, hi] at hp
      exact hp.resolve_right fun hc => by cases hc
    case h_2 =>
      cases hstep
      exact h.goOn i .answered (by rw [hi]; rfl) rfl trivial
  case h_2 => cases hstep

theorem swept_inv (h : s.Inv) (hstep : s.swept i = some s') : s'.Inv := by
  unfold swept at hstep
  split at hstep
  case h_1 c hi =>
    cases hstep
    exact h.callKilled i .answered (by rw [hi]; rfl) rfl trivial
  case h_2 => cases hstep

theorem Inv.listen (h : s.Inv) {port : Option Owner}
    (hport : ∀ c, port = some (.child c) → c ∈ s.alive) : ({ s with port := port } : Host).Inv where
  custody := h.custody.pass (Finset.Subset.refl _) fun x _ _ hx => ⟨x, by cases x <;> exact hx⟩
  port := hport
  slot := fun r hr => (h.slot r hr).same rfl rfl rfl rfl
  start := h.start.mono (fun _ hr => hr) (Finset.Subset.refl _) rfl rfl fun _ _ _ _ _ _ hc => hc
  calls := fun i => (h.calls i).mono le_rfl Or.inl Or.inl fun _ hc => Or.inl hc
  announced := h.announced

theorem step_inv {a : Action} (h : s.Inv) (hok : s.Orderly a) (hstep : s.step a = some s') :
    s'.Inv := by
  cases a with
  | begin m found => exact begin_inv h hstep
  | ask => exact ask_inv h hstep
  | halt => exact halt_inv h hstep
  | finish => exact finish_inv h hstep
  | probe => exact probe_inv h hstep
  | spawn succeeds => exact spawn_inv h hok hstep
  | publish => exact publish_inv h hstep
  | respond ready => exact respond_inv h hok hstep
  | adopt => exact adopt_inv h hstep
  | poll timeUp => exact poll_inv h hstep
  | stop i => exact stop_inv h hok hstep
  | stopped i => exact stopped_inv h hstep
  | status i => exact status_inv h hstep
  | reap i => exact reap_inv h hstep
  | swept i => exact swept_inv h hstep
  | exit c =>
    cases hstep
    refine h.killed fun m c' peer r hs hr => ?_
    rintro rfl
    rw [hok m peer hs] at hr
    cases hr
  | bind c =>
    have hbind : (if c ∈ s.alive ∧ s.port = none then some { s with port := some (.child c) }
      else none) = some s' := hstep
    split_ifs at hbind with hguard
    cases hbind
    exact h.listen fun c' hc' => Owner.child.inj (Option.some.inj hc') ▸ hguard.1
  | squat =>
    have hsquat : (if s.port = none then some { s with port := some .foreign } else none) = some s' :=
      hstep
    split_ifs at hsquat
    cases hsquat
    exact h.listen fun c' hc' => by cases hc'
  | leave =>
    have hleave : (if s.port = some .foreign then some { s with port := none } else none) = some s' :=
      hstep
    split_ifs at hleave
    cases hleave
    exact h.listen fun c' hc' => by cases hc'

end Host

/-- In every run in which children are spawned and stopped one after the other and only the child answers
on the port, there is one child at most, none of an earlier start is left after a `stop`, and a start
that returns `Ok` has the child that answered. -/
theorem one_server {s : Host} (h : Reachable Host.step Host.Orderly Host.Fresh s) : s.OneServer :=
  (h.invariant (fun _ hfresh => hfresh.inv)
    fun _ _ _ hinv hok hstep => Host.step_inv hinv hok hstep).oneServer

def fresh : Host where
  slot := none
  start := .idle
  gen := 0
  calls := fun _ => .new
  alive := ∅
  port := none
  spawned := []
  announced := []

theorem fresh_isFresh : fresh.Fresh :=
  ⟨rfl, rfl, fun _ => rfl, rfl, (fun _ hc => by cases hc), rfl⟩

theorem one_server_served :
    ∃ s : Host, s.announced = [⟨"m.gguf", 1, some (.child 1), true⟩] ∧ s.calls 0 = .returned 1 ∧
      s.OneServer := by
  have hfresh : Reachable Host.step Host.Orderly Host.Fresh fresh := .start fresh_isFresh
  have hasked := hfresh.of_always [.begin "m.gguf" true, .ask, .halt, .probe]
    (by simp [Host.Orderly]) rfl
  have hspawned := hasked.step (a := .spawn true) (by
    intro _ i c hc
    cases hc) rfl
  have hbound := hspawned.of_always [.publish, .bind 1] (by simp [Host.Orderly]) rfl
  have hanswered := hbound.step (a := .respond true) (by
    intro _ hport
    cases hport) rfl
  have hserved := hanswered.of_always [.adopt] (by simp [Host.Orderly]) rfl
  have hstopped := hserved.step (a := .stop 0) (by
    refine ⟨rfl, fun x c hx hheld => ?_⟩
    cases x with
    | slot => exact absurd rfl hx
    | start => cases hheld
    | call i => cases hheld) rfl
  exact ⟨_, rfl, rfl, one_server (hstopped.of_always [.stopped 0] (by simp [Host.Orderly]) rfl)⟩

/-! ## Races -/

/-- Another process takes the port between the look at it and the child's bind. -/
def squatted : List Action :=
  [.begin "m.gguf" true, .ask, .halt, .probe, .spawn true, .publish, .squat, .exit 1, .respond true,
    .adopt]

/-- `stop` comes between the spawn and the slot. -/
def stoppedEarly : List Action :=
  [.begin "m.gguf" true, .ask, .halt, .probe, .spawn true, .stop 0, .publish]

/-- A start is announced that another process has answered for, and a `stop` leaves a child. -/
theorem answered_by_squatter :
    (∃ s, Reachable Host.step (fun _ _ => True) Host.Fresh s ∧ s.alive = ∅ ∧
        s.announced = [⟨"m.gguf", 1, some .foreign, false⟩] ∧ ¬ s.OneServer) ∧
      ∃ s, Reachable Host.step (fun _ _ => True) Host.Fresh s ∧ s.calls 0 = .returned 1 ∧
        1 ∈ s.alive ∧ ¬ s.OneServer := by
  have hfresh : Reachable Host.step (fun _ _ => True) Host.Fresh fresh := .start fresh_isFresh
  refine ⟨?_, ?_⟩
  · obtain ⟨s, hs, htest⟩ := hfresh.exists_of_foldlM squatted
      (fun s => s.alive = ∅ ∧ s.announced = [⟨"m.gguf", 1, some .foreign, false⟩]) (by decide)
    obtain ⟨halive, hannounced⟩ := of_decide_eq_true htest
    refine ⟨s, hs, halive, hannounced, fun hone => ?_⟩
    have htold := hone.announced _ (hannounced ▸ List.mem_cons_self)
    exact absurd htold.2.1 (by decide)
  · obtain ⟨s, hs, htest⟩ := hfresh.exists_of_foldlM stoppedEarly
      (fun s => s.calls 0 = .returned 1 ∧ 1 ∈ s.alive) (by decide)
    obtain ⟨hreturned, halive⟩ := of_decide_eq_true htest
    refine ⟨s, hs, hreturned, halive, fun hone => ?_⟩
    exact absurd (hone.swept 0 1 hreturned 1 halive) (Nat.lt_irrefl 1)

end ModelServer
end Tempest
