import Tempest.Api.ChatTurn

/-!
# Reconcile — turns that a dead process left behind (`chatturn.py`, `_job_or_reconcile`)

A read that finds no job looks at the row of the turn, and settles a row that still claims to be active
from the events in the store.  Finding no job, reading the row and settling it are three steps, and any
number of reads take them at once, while turns are started, run, committed and evicted and while the
process dies.  `Conversation` is a chat with these reads and with the response messages in the store.
-/

namespace Tempest
namespace Reconcile

open Python ChatTurn

/-! ## Reads and messages -/

/-- A response message, as `_finish` and `_reconcile_dead` store it. -/
structure Message where
  text : PyStr
  error : Bool
  unfinished : Bool
  deriving DecidableEq

/-- Where a `_job_or_reconcile` is: it found no job, or it read a row that claims to be active. -/
inductive Look where
  | idle
  | missing
  | dead (g : Nat)
  deriving DecidableEq

/-- A turn that `_reconcile_dead` rewrote: whether the process that ran it was the one still there, and
whether a terminal state of it had been committed. -/
structure Rewrite where
  generation : Nat
  alive : Bool
  settled : Bool
  deriving DecidableEq

/-- The chat, its messages by generation and the reads.  No step reads the process a generation ran in,
the events it flushed, the terminal states committed by workers, and the rewrites. -/
structure Conversation where
  chat : Chat
  messages : Nat → Option Message
  looks : Nat → Look
  process : Nat
  ranIn : Nat → Nat
  flushed : Nat → Rows
  commits : List (Nat × Status × Message)
  rewrites : List Rewrite

inductive Action where
  | reserve (created runStep : Frame)
  | openCommit
  | openFail
  | append (frame : Frame)
  | flush
  | flushFail
  | finish (extra : List Frame) (text : PyStr) (aborted error : Bool)
  | publish
  | finishFail (last : Frame)
  | evict
  | restart
  | look (r : Nat)
  | lookFail (r : Nat)
  deriving DecidableEq

namespace Conversation

def setMessage (s : Conversation) (g : Nat) (message : Message) : Conversation :=
  { s with messages := fun i => if i = g then some message else s.messages i }

def setLook (s : Conversation) (r : Nat) (look : Look) : Conversation :=
  { s with looks := fun i => if i = r then look else s.looks i }

def settled (s : Conversation) (g : Nat) : Bool :=
  (s.commits.any fun c => c.1 = g) || s.rewrites.any fun w => w.generation = g

/-! ## Steps -/

def reserve (s : Conversation) (created runStep : Frame) : Option Conversation :=
  (s.chat.reserve created runStep).map fun chat =>
    { s with
      chat := chat
      ranIn := fun i => if i = s.chat.started then s.process else s.ranIn i }

def work (s : Conversation) (action : ChatTurn.Action) : Option Conversation :=
  (s.chat.step action).map fun chat => { s with chat := chat }

def store (s : Conversation) (action : ChatTurn.Action) : Option Conversation :=
  (s.work action).map fun t =>
    { t with
      flushed := fun i =>
        if s.chat.registry = some i then putRows (s.flushed i) (s.chat.jobs i).pending
        else s.flushed i }

def finalStatus (aborted error : Bool) : Status :=
  if aborted then .aborted else if error then .error else .complete

/-- `_finish`, up to its commit. -/
def finish (s : Conversation) (extra : List Frame) (text : PyStr) (aborted error : Bool) :
    Option Conversation := do
  let g ← s.chat.registry
  let status := finalStatus aborted error
  let message : Message := ⟨text, error, aborted⟩
  let t ← s.work (.finish extra (.final text aborted) status)
  return { t.setMessage g message with commits := s.commits ++ [(g, status, message)] }

def restart (s : Conversation) : Option Conversation :=
  (s.work .restart).map fun t => { t with looks := fun _ => .idle, process := s.process + 1 }

/-- `_reconcile_dead`. -/
def reconcile (s : Conversation) (g : Nat) : Conversation :=
  { s.setMessage g ⟨Chat.messageText (bySeq s.chat.rows), false, true⟩ with
    chat := s.chat.reconcile g
    rewrites := s.rewrites ++ [⟨g, decide (s.ranIn g = s.process), s.settled g⟩] }

/-- The next access of a `_job_or_reconcile`. -/
def look (s : Conversation) (r : Nat) : Conversation :=
  match s.looks r with
  | .idle =>
    match s.chat.registry with
    | some _ => s
    | none => s.setLook r .missing
  | .missing =>
    match s.chat.turn with
    | some (g, .active) => s.setLook r (.dead g)
    | _ => s.setLook r .idle
  | .dead g =>
    match s.chat.registry with
    | some _ => s.setLook r .idle
    -- the row that is settled is the one that was read, outside the lock
    | none => (s.reconcile g).setLook r .idle

def step (s : Conversation) : Action → Option Conversation
  | .reserve created runStep => s.reserve created runStep
  | .openCommit => s.store .openCommit
  | .openFail => s.work .openFail
  | .append frame => s.work (.append frame)
  | .flush => s.store .flush
  | .flushFail => s.work .flushFail
  | .finish extra text aborted error => s.finish extra text aborted error
  | .publish => s.work .publish
  | .finishFail last => s.work (.finishFail last)
  | .evict => s.work .evict
  | .restart => s.restart
  | .look r => some (s.look r)
  | .lookFail r => some (s.setLook r .idle)

def start : Conversation where
  chat := Chat.start
  messages := fun _ => none
  looks := fun _ => .idle
  process := 0
  ranIn := fun _ => 0
  flushed := fun _ => []
  commits := []
  rewrites := []

/-! ## What reconciling keeps -/

def Gone (s : Conversation) (g : Nat) : Prop := s.ranIn g < s.process

/-- Only turns of dead processes without a terminal state were rewritten, a committed turn has its
status and message, and what a dead process flushed of an answer is in the message or still in the
store. -/
structure Sound (s : Conversation) : Prop where
  dead : ∀ w ∈ s.rewrites, w.alive = false ∧ w.settled = false
  committed : ∀ c ∈ s.commits, s.messages c.1 = some c.2.2 ∧
    ∀ status, s.chat.turn = some (c.1, status) → status = c.2.1
  saved : ∀ g, s.Gone g → s.flushed g ≠ [] → (∀ c ∈ s.commits, c.1 ≠ g) →
    (s.chat.turn = some (g, .active) ∧ s.chat.rows = s.flushed g) ∨
      ∃ m, s.messages g = some m ∧ m.text = Chat.messageText (bySeq (s.flushed g))

def Claims (s : Conversation) : Prop := ∃ g, s.chat.turn = some (g, .active)

/-- A turn is started and a job evicted when the row does not claim to be active, and a row is settled
while it still stands as it was read. -/
def Admits (s : Conversation) : Action → Prop
  | .reserve _ _ | .evict => ¬ s.Claims
  | .look r => ∀ g, s.looks r = .dead g → s.chat.registry = none → s.chat.turn = some (g, .active)
  | _ => True

/-! ## The invariant -/

def WorkerInv (s : Conversation) (g : Nat) : Worker → Prop
  | .opening => ¬ s.Claims ∧ s.flushed g = [] ∧ s.settled g = false
  | .running => s.chat.turn = some (g, .active)
  | _ => True

structure Inv (s : Conversation) : Prop where
  active : ∀ g, s.chat.turn = some (g, .active) →
    s.settled g = false ∧ s.chat.rows = s.flushed g ∧ (s.chat.registry = some g ∨ s.Gone g)
  worker : ∀ g, s.chat.registry = some g → s.WorkerInv g s.chat.worker
  fresh : ∀ g, s.chat.started ≤ g → s.flushed g = [] ∧ s.settled g = false
  turn : ∀ g status, s.chat.turn = some (g, status) → g < s.chat.started
  registry : ∀ g, s.chat.registry = some g → g < s.chat.started
  process : ∀ g, s.ranIn g ≤ s.process
  unsettled : ∀ g, s.flushed g ≠ [] → s.settled g = false → s.chat.turn = some (g, .active)
  rewritten : ∀ w ∈ s.rewrites, (w.alive = false ∧ w.settled = false) ∧
    ∃ m, s.messages w.generation = some m ∧
      m.text = Chat.messageText (bySeq (s.flushed w.generation))
  committed : ∀ c ∈ s.commits, s.messages c.1 = some c.2.2 ∧
    ∀ status, s.chat.turn = some (c.1, status) → status = c.2.1

variable {s s' : Conversation}

theorem settled_eq_true {g : Nat} :
    s.settled g = true ↔ (∃ c ∈ s.commits, c.1 = g) ∨ ∃ w ∈ s.rewrites, w.generation = g := by
  simp [settled]

theorem settled_of_commit {c : Nat × Status × Message} (h : c ∈ s.commits) :
    s.settled c.1 = true :=
  settled_eq_true.2 (Or.inl ⟨c, h, rfl⟩)

theorem settled_of_rewrite {w : Rewrite} (h : w ∈ s.rewrites) : s.settled w.generation = true :=
  settled_eq_true.2 (Or.inr ⟨w, h, rfl⟩)

theorem Inv.sound (h : s.Inv) : s.Sound where
  dead w hw := (h.rewritten w hw).1
  committed := h.committed
  saved g _ hflushed hnone := by
    cases hsettled : s.settled g with
    | false =>
      have hturn := h.unsettled g hflushed hsettled
      exact Or.inl ⟨hturn, (h.active g hturn).2.1⟩
    | true =>
      rcases settled_eq_true.1 hsettled with ⟨c, hc, hgen⟩ | ⟨w, hw, hgen⟩
      · exact absurd hgen (hnone c hc)
      · exact Or.inr (hgen ▸ (h.rewritten w hw).2)

theorem inv_start : start.Inv where
  active _ hturn := by cases hturn
  worker _ hlive := by cases hlive
  fresh _ _ := ⟨rfl, rfl⟩
  turn _ _ hturn := by cases hturn
  registry _ hlive := by cases hlive
  process _ := Nat.le_refl 0
  unsettled _ hflushed := absurd rfl hflushed
  rewritten _ hw := by cases hw
  committed _ hc := by cases hc

/-! ## Steps that leave the store alone -/

/-- A step that leaves the row, the events, the messages and the logs alone. -/
structure Quiet (s s' : Conversation) : Prop where
  turn : s'.chat.turn = s.chat.turn
  rows : s'.chat.rows = s.chat.rows
  messages : s'.messages = s.messages
  flushed : s'.flushed = s.flushed
  commits : s'.commits = s.commits
  rewrites : s'.rewrites = s.rewrites

theorem Quiet.settled (h : Quiet s s') (g : Nat) : s'.settled g = s.settled g := by
  rw [Conversation.settled, Conversation.settled, h.commits, h.rewrites]

theorem Quiet.claims (h : Quiet s s') : s'.Claims ↔ s.Claims := by
  rw [Claims, Claims, h.turn]

/-- What is left to show of such a step. -/
theorem Inv.of_quiet (h : s.Inv) (hquiet : Quiet s s')
    (hactive : ∀ g, s.chat.turn = some (g, .active) →
      s.chat.registry = some g ∨ s.Gone g → s'.chat.registry = some g ∨ s'.Gone g)
    (hworker : ∀ g, s'.chat.registry = some g → s'.WorkerInv g s'.chat.worker)
    (hstarted : s.chat.started ≤ s'.chat.started)
    (hregistry : ∀ g, s'.chat.registry = some g → g < s'.chat.started)
    (hprocess : ∀ g, s'.ranIn g ≤ s'.process) : s'.Inv where
  active g hturn := by
    rw [hquiet.turn] at hturn
    obtain ⟨hsettled, hrows, hlive⟩ := h.active g hturn
    rw [hquiet.settled, hquiet.rows, hquiet.flushed]
    exact ⟨hsettled, hrows, hactive g hturn hlive⟩
  worker := hworker
  fresh g hg := by
    rw [hquiet.settled, hquiet.flushed]
    exact h.fresh g (Nat.le_trans hstarted hg)
  turn g status hturn := Nat.lt_of_lt_of_le (h.turn g status (hquiet.turn ▸ hturn)) hstarted
  registry := hregistry
  process := hprocess
  unsettled g hflushed hsettled := by
    rw [hquiet.flushed] at hflushed
    rw [hquiet.settled] at hsettled
    rw [hquiet.turn]
    exact h.unsettled g hflushed hsettled
  rewritten w hw := by
    rw [hquiet.rewrites] at hw
    rw [hquiet.messages, hquiet.flushed]
    exact h.rewritten w hw
  committed c hc := by
    rw [hquiet.commits] at hc
    rw [hquiet.messages, hquiet.turn]
    exact h.committed c hc

theorem WorkerInv.of_quiet {g : Nat} (hquiet : Quiet s s')
    (h : s.WorkerInv g s.chat.worker)
    (hworker : s'.chat.worker = s.chat.worker ∨ s'.chat.worker = .idle) :
    s'.WorkerInv g s'.chat.worker := by
  rcases hworker with hsame | hidle
  · rw [hsame]
    cases hw : s.chat.worker with
    | opening =>
      rw [hw] at h
      obtain ⟨hclaims, hflushed, hsettled⟩ := h
      refine ⟨fun hc => hclaims (hquiet.claims.1 hc), ?_, ?_⟩
      · rw [hquiet.flushed, hflushed]
      · rw [hquiet.settled, hsettled]
    | running =>
      rw [hw] at h
      exact hquiet.turn.trans h
    | idle | publishing _ _ => trivial
  · rw [hidle]
    trivial

/-- A step of the worker that touches its job only. -/
theorem Inv.of_job {chat : Chat} (h : s.Inv) (hturn : chat.turn = s.chat.turn)
    (hrows : chat.rows = s.chat.rows) (hregistry : chat.registry = s.chat.registry)
    (hstarted : chat.started = s.chat.started)
    (hworker : chat.worker = s.chat.worker ∨ chat.worker = .idle) :
    Inv { s with chat := chat } := by
  have hquiet : Quiet s { s with chat := chat } := ⟨hturn, hrows, rfl, rfl, rfl, rfl⟩
  refine h.of_quiet hquiet (fun g _ hlive => hregistry ▸ hlive) (fun g hlive => ?_)
    (Nat.le_of_eq hstarted.symm) (fun g hlive => ?_) h.process
  · have hbefore : s.chat.registry = some g := hregistry ▸ hlive
    exact WorkerInv.of_quiet hquiet (h.worker g hbefore) hworker
  · have hbefore : s.chat.registry = some g := hregistry ▸ hlive
    exact hstarted ▸ h.registry g hbefore

/-! ## Turns that start and end -/

/-- What `work` did is a step of the chat. -/
theorem work_eq_some {action : ChatTurn.Action} (h : s.work action = some s') :
    ∃ chat, s.chat.step action = some chat ∧ s' = { s with chat := chat } := by
  obtain ⟨chat, hchat, hs⟩ := Option.map_eq_some_iff.1 h
  exact ⟨chat, hchat, hs.symm⟩

theorem work_live {action : ChatTurn.Action}
    (hworks : ∀ t : Chat, t.step action = match t.registry with
      | some g => t.work g action
      | none => none)
    (h : s.work action = some s') :
    ∃ g chat, s.chat.registry = some g ∧ s.chat.work g action = some chat ∧
      s' = { s with chat := chat } := by
  obtain ⟨chat, hchat, hs⟩ := work_eq_some h
  rw [hworks] at hchat
  cases hlive : s.chat.registry with
  | none => simp [hlive] at hchat
  | some g => exact ⟨g, chat, rfl, by simpa [hlive] using hchat, hs⟩

theorem reserve_inv {created runStep : Frame} (h : s.Inv) (hok : ¬ s.Claims)
    (hstep : s.reserve created runStep = some s') : s'.Inv := by
  obtain ⟨chat, hchat, rfl⟩ := Option.map_eq_some_iff.1 hstep
  rw [Chat.reserve] at hchat
  split at hchat
  · cases hchat
  cases hchat
  refine h.of_quiet ⟨rfl, rfl, rfl, rfl, rfl, rfl⟩ (fun g hturn _ => absurd ⟨g, hturn⟩ hok)
    (fun g hlive => ?_) (Nat.le_succ _) (fun g hlive => ?_) (fun g => ?_)
  · cases hlive
    obtain ⟨hflushed, hsettled⟩ := h.fresh s.chat.started (Nat.le_refl _)
    exact ⟨hok, hflushed, hsettled⟩
  · cases hlive
    exact Nat.lt_succ_self _
  · change (if g = s.chat.started then s.process else s.ranIn g) ≤ s.process
    split
    · exact Nat.le_refl _
    · exact h.process g

theorem openFail_inv (h : s.Inv) (hstep : s.work .openFail = some s') : s'.Inv := by
  obtain ⟨g, chat, hlive, hchat, rfl⟩ := work_live (fun _ => rfl) hstep
  simp only [Chat.work] at hchat
  split at hchat
  · rename_i hopening
    cases hchat
    have hworker := h.worker g hlive
    rw [hopening] at hworker
    exact h.of_quiet ⟨rfl, rfl, rfl, rfl, rfl, rfl⟩
      (fun g' hturn _ => absurd ⟨g', hturn⟩ hworker.1) (fun _ hnone => by cases hnone)
      (Nat.le_refl _) (fun _ hnone => by cases hnone) h.process
  · cases hchat

theorem evict_inv (h : s.Inv) (hok : ¬ s.Claims) (hstep : s.work .evict = some s') : s'.Inv := by
  obtain ⟨g, chat, hlive, hchat, rfl⟩ := work_live (fun _ => rfl) hstep
  simp only [Chat.work] at hchat
  split at hchat
  · cases hchat
    exact h.of_quiet ⟨rfl, rfl, rfl, rfl, rfl, rfl⟩
      (fun g' hturn _ => absurd ⟨g', hturn⟩ hok) (fun _ hnone => by cases hnone)
      (Nat.le_refl _) (fun _ hnone => by cases hnone) h.process
  · cases hchat

/-- After the process died every generation is gone. -/
theorem restart_inv (h : s.Inv) (hstep : s.restart = some s') : s'.Inv := by
  obtain ⟨t, ht, rfl⟩ := Option.map_eq_some_iff.1 hstep
  obtain ⟨chat, hchat, rfl⟩ := work_eq_some ht
  cases hchat
  exact h.of_quiet ⟨rfl, rfl, rfl, rfl, rfl, rfl⟩
    (fun g _ _ => Or.inr (Nat.lt_succ_of_le (h.process g))) (fun _ hnone => by cases hnone)
    (Nat.le_refl _) (fun _ hnone => by cases hnone) fun g => Nat.le_succ_of_le (h.process g)

/-! ## The worker -/

/-- These steps touch neither store and leave the registry alone. -/
theorem job_inv {action : ChatTurn.Action} (h : s.Inv) (hstep : s.work action = some s')
    (hjob : action = .flushFail ∨ action = .publish ∨ (∃ frame, action = .append frame) ∨
      ∃ last, action = .finishFail last) : s'.Inv := by
  rcases hjob with rfl | rfl | ⟨frame, rfl⟩ | ⟨last, rfl⟩
  all_goals
    obtain ⟨g, chat, hlive, hchat, rfl⟩ := work_live (fun _ => rfl) hstep
    simp only [Chat.work] at hchat
    split at hchat <;> cases hchat
  · exact h.of_job rfl rfl rfl rfl (Or.inl rfl)
  · exact h.of_job rfl rfl rfl rfl (Or.inr rfl)
  · exact h.of_job rfl rfl rfl rfl (Or.inl rfl)
  · exact h.of_job rfl rfl rfl rfl (Or.inr rfl)

/-! ## Steps that write to the store -/

structure Stores (s s' : Conversation) (g : Nat) : Prop where
  live : s.chat.registry = some g
  turn : s'.chat.turn = some (g, .active)
  rows : s'.chat.rows = s'.flushed g
  others : ∀ i, i ≠ g → s'.flushed i = s.flushed i
  registry : s'.chat.registry = some g
  started : s'.chat.started = s.chat.started
  worker : s'.chat.worker = .running
  messages : s'.messages = s.messages
  process : s'.process = s.process
  ranIn : s'.ranIn = s.ranIn
  commits : s'.commits = s.commits
  rewrites : s'.rewrites = s.rewrites

/-- No row but that of the generation claimed to be active, and it is not settled. -/
theorem Inv.of_stores {g : Nat} (h : s.Inv) (hstores : Stores s s' g)
    (hsettled : s.settled g = false) (hclaims : ∀ i, s.chat.turn = some (i, .active) → i = g) :
    s'.Inv := by
  have hsame : ∀ i, s'.settled i = s.settled i := by
    intro i
    rw [settled, settled, hstores.commits, hstores.rewrites]
  have hunsettled : ∀ i, s.settled i = true → i ≠ g := by
    intro i hi hig
    rw [hig, hsettled] at hi
    cases hi
  constructor
  case active =>
    intro i hturn
    obtain rfl : g = i := by simpa [hstores.turn] using hturn
    exact ⟨(hsame g).trans hsettled, hstores.rows, Or.inl hstores.registry⟩
  case worker =>
    intro i hlive
    obtain rfl : g = i := by simpa [hstores.registry] using hlive
    rw [hstores.worker]
    exact hstores.turn
  case fresh =>
    intro i hi
    rw [hstores.started] at hi
    have hlt := h.registry g hstores.live
    have hig : i ≠ g := by omega
    rw [hstores.others i hig, hsame]
    exact h.fresh i hi
  case turn =>
    intro i status hturn
    rw [hstores.turn] at hturn
    cases hturn
    rw [hstores.started]
    exact h.registry g hstores.live
  case registry =>
    intro i hlive
    obtain rfl : g = i := by simpa [hstores.registry] using hlive
    rw [hstores.started]
    exact h.registry g hstores.live
  case process =>
    rw [hstores.process, hstores.ranIn]
    exact h.process
  case unsettled =>
    intro i hflushed hi
    by_cases hig : i = g
    · rw [hig, hstores.turn]
    · rw [hstores.others i hig] at hflushed
      exact absurd (hclaims i (h.unsettled i hflushed (hsame i ▸ hi))) hig
  case rewritten =>
    intro w hw
    rw [hstores.rewrites] at hw
    rw [hstores.messages, hstores.others _ (hunsettled _ (settled_of_rewrite hw))]
    exact h.rewritten w hw
  case committed =>
    intro c hc
    rw [hstores.commits] at hc
    rw [hstores.messages]
    refine ⟨(h.committed c hc).1, fun status hturn => ?_⟩
    rw [hstores.turn] at hturn
    cases hturn
    exact absurd rfl (hunsettled _ (settled_of_commit hc))

theorem openCommit_inv (h : s.Inv) (hstep : s.store .openCommit = some s') : s'.Inv := by
  obtain ⟨t, ht, rfl⟩ := Option.map_eq_some_iff.1 hstep
  obtain ⟨g, chat, hlive, hchat, rfl⟩ := work_live (fun _ => rfl) ht
  simp only [Chat.work] at hchat
  split at hchat
  · rename_i hopening
    cases hchat
    have hworker := h.worker g hlive
    rw [hopening] at hworker
    obtain ⟨hclaims, hflushed, hsettled⟩ := hworker
    refine h.of_stores (g := g) ?_ hsettled fun i hturn => absurd ⟨i, hturn⟩ hclaims
    constructor <;> try rfl
    case live => exact hlive
    case rows => simp [Chat.openCommit, hlive, hflushed]
    case others =>
      intro i hig
      have hne : ¬ g = i := fun heq => hig heq.symm
      simp [hlive, hne]
    case registry => exact hlive
  · cases hchat

theorem flush_inv (h : s.Inv) (hstep : s.store .flush = some s') : s'.Inv := by
  obtain ⟨t, ht, rfl⟩ := Option.map_eq_some_iff.1 hstep
  obtain ⟨g, chat, hlive, hchat, rfl⟩ := work_live (fun _ => rfl) ht
  simp only [Chat.work] at hchat
  split at hchat
  · rename_i hrunning
    cases hchat
    have hworker := h.worker g hlive
    rw [hrunning] at hworker
    have hturn : s.chat.turn = some (g, .active) := hworker
    obtain ⟨hsettled, hrows, -⟩ := h.active g hturn
    refine h.of_stores (g := g) ?_ hsettled fun i hi => ?_
    · constructor <;> try rfl
      case live => exact hlive
      case turn => exact hturn
      case rows => simp [Chat.flush, hlive, hrows]
      case others =>
        intro i hig
        have hne : ¬ g = i := fun heq => hig heq.symm
        simp [hlive, hne]
      case registry => exact hlive
      case worker => exact hrunning
    · rw [hturn] at hi
      cases hi
      rfl
  · cases hchat

/-- A terminal state of the turn is committed with its message: by the worker, or by a rewrite of a turn
that is dead and not settled, with the text of the events it flushed. -/
structure Settles (s s' : Conversation) (g : Nat) (status : Status) (message : Message)
    (added : List (Nat × Status × Message)) (rewrote : List Rewrite) : Prop where
  before : s.chat.turn = some (g, .active)
  turn : s'.chat.turn = some (g, status)
  terminal : status ≠ .active
  messages : s'.messages = (s.setMessage g message).messages
  flushed : s'.flushed = s.flushed
  registry : s'.chat.registry = s.chat.registry
  started : s'.chat.started = s.chat.started
  worker : ∀ i, s'.chat.registry = some i → s'.WorkerInv i s'.chat.worker
  process : s'.process = s.process
  ranIn : s'.ranIn = s.ranIn
  commits : s'.commits = s.commits ++ added
  rewrites : s'.rewrites = s.rewrites ++ rewrote
  commit : ∀ c ∈ added, c = (g, status, message)
  rewrite : ∀ w ∈ rewrote, w.generation = g ∧ w.alive = false ∧ w.settled = false ∧
    message.text = Chat.messageText (bySeq (s.flushed g))
  settled : s'.settled g = true

theorem setMessage_self (g : Nat) (message : Message) :
    (s.setMessage g message).messages g = some message := by
  simp [setMessage]

theorem setMessage_other {g i : Nat} (message : Message) (h : i ≠ g) :
    (s.setMessage g message).messages i = s.messages i := by
  simp [setMessage, h]

section Settling

variable {g : Nat} {status : Status} {message : Message} {added : List (Nat × Status × Message)}
  {rewrote : List Rewrite}

theorem Settles.settled_other (h : Settles s s' g status message added rewrote) {i : Nat}
    (hig : i ≠ g) : s'.settled i = s.settled i := by
  have hcommits : (added.any fun c => c.1 = i) = false := by
    refine List.any_eq_false.2 fun c hc => ?_
    rw [h.commit c hc]
    simpa using fun heq : g = i => hig heq.symm
  have hrewrites : (rewrote.any fun w => w.generation = i) = false := by
    refine List.any_eq_false.2 fun w hw => ?_
    rw [(h.rewrite w hw).1]
    simpa using fun heq : g = i => hig heq.symm
  rw [Conversation.settled, Conversation.settled, h.commits, h.rewrites, List.any_append,
    List.any_append, hcommits, hrewrites, Bool.or_false, Bool.or_false]

theorem Inv.of_settles (h : s.Inv) (hsettles : Settles s s' g status message added rewrote) :
    s'.Inv := by
  obtain ⟨hunsettled, -, -⟩ := h.active g hsettles.before
  have hlt : g < s.chat.started := h.turn g .active hsettles.before
  have hother : ∀ i, s.settled i = true → i ≠ g := by
    intro i hi hig
    rw [hig, hunsettled] at hi
    cases hi
  constructor
  case active =>
    intro i hturn
    rw [hsettles.turn] at hturn
    cases hturn
    exact absurd rfl hsettles.terminal
  case worker => exact hsettles.worker
  case fresh =>
    intro i hi
    rw [hsettles.started] at hi
    have hig : i ≠ g := by omega
    rw [hsettles.flushed, hsettles.settled_other hig]
    exact h.fresh i hi
  case turn =>
    intro i st hturn
    rw [hsettles.turn] at hturn
    cases hturn
    rw [hsettles.started]
    exact hlt
  case registry =>
    intro i hlive
    rw [hsettles.registry] at hlive
    rw [hsettles.started]
    exact h.registry i hlive
  case process =>
    rw [hsettles.process, hsettles.ranIn]
    exact h.process
  case unsettled =>
    intro i hflushed hi
    rw [hsettles.flushed] at hflushed
    by_cases hig : i = g
    · rw [hig, hsettles.settled] at hi
      cases hi
    · have hturn := h.unsettled i hflushed (hsettles.settled_other hig ▸ hi)
      rw [hsettles.before] at hturn
      cases hturn
      exact absurd rfl hig
  case rewritten =>
    intro w hw
    rw [hsettles.rewrites] at hw
    rw [hsettles.messages, hsettles.flushed]
    rcases List.mem_append.1 hw with hold | hnew
    · rw [setMessage_other message (hother _ (settled_of_rewrite hold))]
      exact h.rewritten w hold
    · obtain ⟨hgen, halive, hsettled, htext⟩ := hsettles.rewrite w hnew
      rw [hgen]
      exact ⟨⟨halive, hsettled⟩, message, setMessage_self g message, htext⟩
  case committed =>
    intro c hc
    rw [hsettles.commits] at hc
    rw [hsettles.messages, hsettles.turn]
    rcases List.mem_append.1 hc with hold | hnew
    · have hcg := hother _ (settled_of_commit hold)
      rw [setMessage_other message hcg]
      refine ⟨(h.committed c hold).1, fun st hturn => ?_⟩
      cases hturn
      exact absurd rfl hcg
    · rw [hsettles.commit c hnew]
      refine ⟨setMessage_self g message, fun st hturn => ?_⟩
      cases hturn
      rfl

end Settling

theorem finalStatus_terminal (aborted error : Bool) : finalStatus aborted error ≠ .active := by
  cases aborted <;> cases error <;> decide

theorem finish_inv {extra : List Frame} {text : PyStr} {aborted error : Bool} (h : s.Inv)
    (hstep : s.finish extra text aborted error = some s') : s'.Inv := by
  simp only [Conversation.finish, Option.bind_eq_bind, Option.bind_eq_some_iff] at hstep
  obtain ⟨g, hg, t, ht, hs⟩ := hstep
  cases hs
  obtain ⟨g', chat, hlive, hchat, rfl⟩ := work_live (fun _ => rfl) ht
  obtain rfl : g' = g := by simpa [hlive] using hg
  simp only [Chat.work] at hchat
  split at hchat
  · rename_i hrunning
    cases hchat
    have hworker := h.worker g' hlive
    rw [hrunning.1] at hworker
    have hturn : s.chat.turn = some (g', .active) := hworker
    refine h.of_settles (?_ : Settles s _ g' (finalStatus aborted error) ⟨text, error, aborted⟩
      [(g', finalStatus aborted error, ⟨text, error, aborted⟩)] [])
    constructor <;> try rfl
    case before => exact hturn
    case terminal => exact finalStatus_terminal aborted error
    case worker => exact fun _ _ => trivial
    case rewrites => exact (List.append_nil _).symm
    case commit => exact fun c hc => List.mem_singleton.1 hc
    case rewrite => exact fun _ hw => absurd hw List.not_mem_nil
    case settled =>
      exact settled_eq_true.2 (Or.inl ⟨_, List.mem_append_right _ (List.mem_singleton_self _), rfl⟩)
  · cases hchat

/-- A row that still claims to be active, without a job, is that of a dead process. -/
theorem reconcile_inv {g : Nat} (h : s.Inv) (hnone : s.chat.registry = none)
    (hturn : s.chat.turn = some (g, .active)) : (s.reconcile g).Inv := by
  obtain ⟨hunsettled, hrows, hlive⟩ := h.active g hturn
  have hgone : s.Gone g := by
    rcases hlive with hlive | hgone
    · rw [hnone] at hlive
      cases hlive
    · exact hgone
  have halive : decide (s.ranIn g = s.process) = false := decide_eq_false (Nat.ne_of_lt hgone)
  refine h.of_settles (?_ : Settles s _ g .aborted
    ⟨Chat.messageText (bySeq s.chat.rows), false, true⟩ []
    [⟨g, decide (s.ranIn g = s.process), s.settled g⟩])
  constructor <;> try rfl
  case before => exact hturn
  case terminal => decide
  case worker =>
    intro i hi
    rw [show (s.reconcile g).chat.registry = s.chat.registry from rfl, hnone] at hi
    cases hi
  case commits => exact (List.append_nil _).symm
  case commit => exact fun _ hc => absurd hc List.not_mem_nil
  case rewrite =>
    intro w hw
    rw [List.mem_singleton.1 hw]
    exact ⟨rfl, halive, hunsettled, by rw [hrows]⟩
  case settled =>
    exact settled_eq_true.2 (Or.inr ⟨_, List.mem_append_right _ (List.mem_singleton_self _), rfl⟩)

/-! ## Every run -/

theorem setLook_inv {r : Nat} {look : Look} (h : s.Inv) : (s.setLook r look).Inv :=
  h.of_quiet ⟨rfl, rfl, rfl, rfl, rfl, rfl⟩ (fun _ _ hlive => hlive)
    (fun g hlive => WorkerInv.of_quiet (s := s) ⟨rfl, rfl, rfl, rfl, rfl, rfl⟩ (h.worker g hlive)
      (Or.inl rfl))
    (Nat.le_refl _) h.registry h.process

theorem look_inv {r : Nat} (h : s.Inv)
    (hok : ∀ g, s.looks r = .dead g → s.chat.registry = none → s.chat.turn = some (g, .active)) :
    (s.look r).Inv := by
  rw [look]
  cases hlook : s.looks r with
  | idle =>
    cases s.chat.registry with
    | some g => exact h
    | none => exact setLook_inv h
  | missing =>
    dsimp only
    split
    · exact setLook_inv h
    · exact setLook_inv h
  | dead g =>
    cases hlive : s.chat.registry with
    | some live => exact setLook_inv h
    | none => exact setLook_inv (reconcile_inv h hlive (hok g hlook hlive))

theorem step_inv {action : Action} (h : s.Inv) (hok : s.Admits action)
    (hstep : s.step action = some s') : s'.Inv := by
  cases action with
  | reserve created runStep => exact reserve_inv h hok hstep
  | openCommit => exact openCommit_inv h hstep
  | openFail => exact openFail_inv h hstep
  | append frame => exact job_inv h hstep (by simp)
  | flush => exact flush_inv h hstep
  | flushFail => exact job_inv h hstep (by simp)
  | finish extra text aborted error => exact finish_inv h hstep
  | publish => exact job_inv h hstep (by simp)
  | finishFail last => exact job_inv h hstep (by simp)
  | evict => exact evict_inv h hok hstep
  | restart => exact restart_inv h hstep
  | look r =>
    cases hstep
    exact look_inv h hok
  | lookFail r =>
    cases hstep
    exact setLook_inv h

end Conversation

/-- Reconciling touches the dead only and loses no text, whatever the order of starts, progress,
flushes, commits, evictions, deaths and reads. -/
theorem touches_the_dead {s : Conversation}
    (h : Reachable Conversation.step Conversation.Admits (· = Conversation.start) s) : s.Sound :=
  (h.invariant (fun _ hstart => hstart ▸ Conversation.inv_start)
    fun _ _ _ hinv hok hstep => Conversation.step_inv hinv hok hstep).sound

/-! ## A read that overlaps a turn -/

namespace Conversation

instance decidableClaims (s : Conversation) : Decidable s.Claims :=
  decidable_of_iff (s.chat.turn.any fun t => t.2 = .active) (by
    rw [Option.any_eq_true, Claims]
    exact ⟨fun ⟨t, ht, hactive⟩ => ⟨t.1, ht.trans (by rw [← of_decide_eq_true hactive])⟩,
      fun ⟨g, hg⟩ => ⟨(g, .active), hg, rfl⟩⟩)

/-- The row that a read is about to settle still stands. -/
def stands (s : Conversation) : Look → Bool
  | .dead g => s.chat.registry.isSome || s.chat.turn = some (g, .active)
  | _ => true

theorem stands_iff (s : Conversation) (r : Nat) : s.stands (s.looks r) = true ↔ s.Admits (.look r) := by
  rw [Admits]
  cases s.looks r with
  | dead g =>
    cases hlive : s.chat.registry with
    | some live => simp [stands, hlive]
    | none => simp [stands, hlive]
  | idle | missing => simp [stands]

instance decidableAdmits (s : Conversation) : (a : Action) → Decidable (s.Admits a)
  | .reserve _ _ | .evict => inferInstanceAs (Decidable (¬ s.Claims))
  | .look r => decidable_of_iff _ (s.stands_iff r)
  | .openCommit | .openFail | .append _ | .flush | .flushFail | .finish _ _ _ _ | .publish
  | .finishFail _ | .restart | .lookFail _ => isTrue trivial

end Conversation

def createdFrame : Frame := .event (lit "created")

def runStepFrame : Frame := .event (lit "on_run_step")

def deltaFrame (text : String) : Frame := .delta .message (lit "step") (lit text)

/-- The process dies in the middle of an answer, and the next turn starts after a read. -/
def diedRun : List Action :=
  [.reserve createdFrame runStepFrame, .openCommit, .append (deltaFrame "half"), .flush, .restart,
    .look 0, .look 0, .look 0, .reserve createdFrame runStepFrame, .openCommit]

theorem touches_the_dead_died :
    ∃ s : Conversation, s.process = 1 ∧ s.chat.turn = some (1, .active) ∧
      s.messages 0 = some ⟨lit "half", false, true⟩ ∧ s.Sound := by
  obtain ⟨s, hs, htest⟩ := Reachable.exists_of_foldlM diedRun
    (fun s => s.process = 1 ∧ s.chat.turn = some (1, .active) ∧
      s.messages 0 = some ⟨lit "half", false, true⟩)
    (.start rfl : Reachable Conversation.step Conversation.Admits (· = Conversation.start)
      Conversation.start)
    (by decide)
  obtain ⟨hprocess, hturn, hmessage⟩ := of_decide_eq_true htest
  exact ⟨s, hprocess, hturn, hmessage, touches_the_dead hs⟩

/-- A read finds no job, then a turn starts; the read takes its row for that of a dead one and settles
it after the turn completed and was evicted. -/
def overlappedRun : List Action :=
  [.look 0, .reserve createdFrame runStepFrame, .openCommit, .look 0, .append (deltaFrame "done"),
    .finish [] (lit "done") false false, .publish, .evict, .look 0]

theorem settled_is_rewritten :
    ∃ s : Conversation,
      Reachable Conversation.step (fun _ _ => True) (· = Conversation.start) s ∧
      s.commits = [(0, .complete, ⟨lit "done", false, false⟩)] ∧ s.process = 0 ∧
      s.chat.turn = some (0, .aborted) ∧ ¬ s.Sound := by
  obtain ⟨s, hs, htest⟩ := Reachable.exists_of_foldlM overlappedRun
    (fun s => s.commits = [(0, .complete, ⟨lit "done", false, false⟩)] ∧ s.process = 0 ∧
      s.chat.turn = some (0, .aborted))
    (.start rfl : Reachable Conversation.step (fun _ _ => True) (· = Conversation.start)
      Conversation.start)
    (by decide)
  obtain ⟨hcommits, hprocess, hturn⟩ := of_decide_eq_true htest
  refine ⟨s, hs, hcommits, hprocess, hturn, fun hsound => ?_⟩
  have hcommit : (0, Status.complete, (⟨lit "done", false, false⟩ : Message)) ∈ s.commits :=
    hcommits ▸ List.mem_singleton_self _
  exact absurd ((hsound.committed _ hcommit).2 .aborted hturn) (by decide)

/-- The process dies in the middle of an answer, and the next thing is a new turn. -/
def retiredRun : List Action :=
  [.reserve createdFrame runStepFrame, .openCommit, .append (deltaFrame "half"), .flush, .restart,
    .reserve createdFrame runStepFrame, .openCommit]

theorem unread_is_lost :
    ∃ s : Conversation,
      Reachable Conversation.step (fun _ _ => True) (· = Conversation.start) s ∧
      (3, deltaFrame "half") ∈ s.flushed 0 ∧ s.messages 0 = none ∧ ¬ s.Sound := by
  obtain ⟨s, hs, htest⟩ := Reachable.exists_of_foldlM retiredRun
    (fun s => s.ranIn 0 < s.process ∧ (3, deltaFrame "half") ∈ s.flushed 0 ∧
      s.messages 0 = none ∧ s.chat.turn = some (1, .active) ∧ s.commits = [])
    (.start rfl : Reachable Conversation.step (fun _ _ => True) (· = Conversation.start)
      Conversation.start)
    (by decide)
  obtain ⟨hgone, hflushed, hmessage, hturn, hcommits⟩ := of_decide_eq_true htest
  refine ⟨s, hs, hflushed, hmessage, fun hsound => ?_⟩
  have hsaved := hsound.saved 0 hgone (List.ne_nil_of_mem hflushed)
    fun c hc => absurd (hcommits ▸ hc) List.not_mem_nil
  simp [hturn, hmessage] at hsaved

/-- A turn that completed while it was being read is rewritten, and the opening commit deletes the answer
of a turn that no read has reconciled. -/
theorem rewritten_and_lost :
    (∃ s : Conversation,
      Reachable Conversation.step (fun _ _ => True) (· = Conversation.start) s ∧
      s.commits = [(0, .complete, ⟨lit "done", false, false⟩)] ∧ s.process = 0 ∧
      s.chat.turn = some (0, .aborted) ∧ ¬ s.Sound) ∧
    ∃ s : Conversation,
      Reachable Conversation.step (fun _ _ => True) (· = Conversation.start) s ∧
      (3, deltaFrame "half") ∈ s.flushed 0 ∧ s.messages 0 = none ∧ ¬ s.Sound :=
  ⟨settled_is_rewritten, unread_is_lost⟩

end Reconcile
end Tempest
