import Tempest.Process.Reachable
import Tempest.Python.Text

/-!
# ChatTurn — the timeline of one conversation (`chatturn.py`)

A conversation runs one generation after the other under one stream id.  The frames of the live
generation stand in the memory of the process and are flushed to the store in batches; a reader polls
`events_after` with the last sequence number it was given, and is served from the job in memory or,
once that is gone, from the store.  `Chat` is all of it, with a reader of which every access to the
registry and to the store is a step.
-/

namespace Tempest
namespace ChatTurn

open Python

/-! ## Frames -/

inductive Channel where
  | message
  | reasoning
  deriving DecidableEq

inductive Frame where
  | delta (channel : Channel) (step text : PyStr)
  | final (text : PyStr) (aborted : Bool)
  | event (body : PyStr)
  deriving DecidableEq

abbrev Rows := List (Nat × Frame)

def numbered : Nat → List Frame → Rows
  | _, [] => []
  | n, f :: fs => (n, f) :: numbered (n + 1) fs

/-- One turn of `_coalesce_deltas`, over what is out so far, the last one first. -/
def merge (out : Rows) (row : Nat × Frame) : Rows :=
  match out, row with
  | (_, .delta channel step text) :: rest, (n, .delta channel' step' text') =>
    if channel = channel' ∧ step = step' then (n, .delta channel step (text ++ text')) :: rest
    else row :: out
  | _, _ => row :: out

/-- `_coalesce_deltas`. -/
def coalesce (rows : Rows) : Rows := (rows.foldl merge []).reverse

/-! ## The store -/

/-- `INSERT … ON CONFLICT DO UPDATE`, by the sequence number in the key. -/
def putRow (rows : Rows) (row : Nat × Frame) : Rows :=
  if rows.any fun r => r.1 = row.1 then rows.map fun r => if r.1 = row.1 then row else r
  else rows ++ [row]

def putRows (rows new : Rows) : Rows := new.foldl putRow rows

/-- `find_equal(…, order_by="seq")`. -/
def bySeq (rows : Rows) : Rows := rows.insertionSort fun a b => a.1 ≤ b.1

inductive Status where
  | active
  | complete
  | aborted
  | error
  deriving DecidableEq

/-! ## Jobs and readers -/

structure Job where
  frames : List Frame := []
  pending : Rows := []
  status : Status := .active
  deriving DecidableEq

/-- Where the thread of the live generation is; while it is `publishing` the terminal commit is
in the store and not yet in memory. -/
inductive Worker where
  | idle
  | opening
  | running
  | publishing (tail : List Frame) (status : Status)
  deriving DecidableEq

/-- Where a poll is: it has a job, it has found none, it has read a turn that claims to be active, it
is about to read the turn again, it has its status and is about to read the events. -/
inductive Poll where
  | idle
  | job (g : Nat)
  | missing
  | dead (g : Nat)
  | checked
  | status (status : Status)
  deriving DecidableEq

/-- A reader: the generation it attached to, the last sequence number and all the frames it was given,
and the terminal status it was told. -/
structure Reader where
  attached : Option Nat := none
  cursor : Nat := 0
  events : List Frame := []
  told : Option Status := none
  poll : Poll := .idle
  deriving DecidableEq

/-- The objects of the jobs by generation, the job in the registry, how many generations there were,
and the store with the row of the turn and its events.  `ledger` is what a generation ever had, in
memory or in the store; no step reads it. -/
structure Chat where
  jobs : Nat → Job
  registry : Option Nat
  started : Nat
  worker : Worker
  turn : Option (Nat × Status)
  rows : Rows
  ledger : Nat → List Frame
  reader : Reader

inductive Action where
  | reserve (created runStep : Frame)
  | openCommit
  | openFail
  | append (frame : Frame)
  | flush
  | flushFail
  | finish (extra : List Frame) (last : Frame) (status : Status)
  | publish
  | finishFail (last : Frame)
  | evict
  | restart
  | attach
  | poll
  | pollFail
  deriving DecidableEq

namespace Chat

def setJob (s : Chat) (g : Nat) (job : Job) : Chat :=
  { s with jobs := fun i => if i = g then job else s.jobs i }

def record (s : Chat) (g : Nat) (frames : List Frame) : Chat :=
  { s with ledger := fun i => if i = g then s.ledger i ++ frames else s.ledger i }

/-! ## `start_turn` -/

def reserve (s : Chat) (created runStep : Frame) : Option Chat :=
  if s.registry.any fun g => (s.jobs g).status = .active then none
  else
    let frames := [created, runStep]
    some { (s.setJob s.started ⟨frames, numbered 1 frames, .active⟩).record s.started frames with
      registry := some s.started
      started := s.started + 1
      worker := .opening }

/-- The opening commit retires the events of the generation before. -/
def openCommit (s : Chat) (g : Nat) : Chat :=
  { s.setJob g { s.jobs g with pending := [] } with
    turn := some (g, .active)
    rows := putRows [] (s.jobs g).pending
    worker := .running }

/-! ## The worker -/

def append (s : Chat) (g : Nat) (frame : Frame) : Chat :=
  let job := s.jobs g
  (s.setJob g { job with
    frames := job.frames ++ [frame]
    pending := putRow job.pending (job.frames.length + 1, frame) }).record g [frame]

/-- `_flush_if_due`; a flush that fails puts its batch back. -/
def flush (s : Chat) (g : Nat) : Chat :=
  { s.setJob g { s.jobs g with pending := [] } with rows := putRows s.rows (s.jobs g).pending }

/-- The terminal commit of `_finish`. -/
def finish (s : Chat) (g : Nat) (tail : List Frame) (status : Status) : Chat :=
  let job := s.jobs g
  { (s.setJob g { job with pending := [] }).record g tail with
    turn := some (g, status)
    rows := putRows (putRows s.rows job.pending) (numbered (job.frames.length + 1) tail)
    worker := .publishing tail status }

def publish (s : Chat) (g : Nat) (tail : List Frame) (status : Status) : Chat :=
  let job := s.jobs g
  { s.setJob g { job with frames := job.frames ++ tail, status := status } with worker := .idle }

/-- The terminal commit fails: an error terminal in memory only. -/
def finishFail (s : Chat) (g : Nat) (last : Frame) : Chat :=
  let job := s.jobs g
  { (s.setJob g { job with frames := job.frames ++ [last], status := .error }).record g [last] with
    worker := .idle }

/-! ## Polls -/

def deliver (s : Chat) (rows : Rows) (status : Status) : Chat :=
  let out := coalesce rows
  { s with reader := { s.reader with
      events := s.reader.events ++ out.map Prod.snd
      cursor := (out.getLast?.map Prod.fst).getD s.reader.cursor
      told := if status = .active then none else some status
      poll := .idle } }

def goto (s : Chat) (poll : Poll) : Chat := { s with reader := { s.reader with poll := poll } }

def messageText (rows : Rows) : PyStr :=
  rows.flatMap fun row =>
    match row.2 with
    | .delta .message _ text => text
    | _ => []

/-- `_reconcile_dead`. -/
def reconcile (s : Chat) (g : Nat) : Chat :=
  let final := Frame.final (messageText (bySeq s.rows)) true
  let seq := 1 + (s.rows.map Prod.fst).foldl max 0
  { s.record g [final] with
    turn := some (g, .aborted)
    rows := putRow s.rows (seq, final) }

/-- The next access of a poll of `events_after`. -/
def poll (s : Chat) : Option Chat :=
  match s.reader.poll with
  | .idle =>
    if s.reader.attached.isSome ∧ s.reader.told = none then
      match s.registry with
      | some g => some (s.goto (.job g))
      | none => some (s.goto .missing)
    else none
  | .job g =>
    let job := s.jobs g
    some (s.deliver (numbered (s.reader.cursor + 1) (job.frames.drop s.reader.cursor)) job.status)
  | .missing =>
    match s.turn with
    | some (g, .active) => some (s.goto (.dead g))
    | _ => some (s.goto .checked)
  | .dead g =>
    match s.registry with
    | some live => some (s.goto (.job live))
    | none => some ((s.reconcile g).goto .checked)
  | .checked =>
    match s.turn with
    | some (_, status) => some (s.goto (.status status))
    -- the status is `unknown`, there are no events
    | none => some (s.goto .idle)
  | .status status =>
    some (s.deliver ((bySeq s.rows).filter fun row => s.reader.cursor < row.1) status)

/-- The generation that a reader of the stream gets to see. -/
def current (s : Chat) : Option Nat :=
  match s.registry with
  | some g => some g
  | none => s.turn.map Prod.fst

/-! ## Steps -/

@[grind =]
def work (s : Chat) (g : Nat) : Action → Option Chat
  | .openCommit => if s.worker = .opening then some (s.openCommit g) else none
  | .openFail =>
    if s.worker = .opening then some { s with registry := none, worker := .idle } else none
  | .append frame => if s.worker = .running then some (s.append g frame) else none
  | .flush => if s.worker = .running then some (s.flush g) else none
  | .flushFail => if s.worker = .running then some s else none
  | .finish extra last status =>
    if s.worker = .running ∧ status ≠ .active then some (s.finish g (extra ++ [last]) status)
    else none
  | .publish =>
    match s.worker with
    | .publishing tail status => some (s.publish g tail status)
    | _ => none
  | .finishFail last => if s.worker = .running then some (s.finishFail g last) else none
  | .evict =>
    if (s.jobs g).status ≠ .active then some { s with registry := none } else none
  | _ => none

def step (s : Chat) : Action → Option Chat
  | .reserve created runStep => s.reserve created runStep
  | .restart => some ({ s with registry := none, worker := .idle }.goto .idle)
  | .attach =>
    match s.reader.attached, s.current with
    | none, some g => some { s with reader := { attached := some g } }
    | _, _ => none
  | .poll => s.poll
  -- only what a reader writes can fail, and it starts its poll again
  | .pollFail =>
    match s.reader.poll with
    | .dead _ => some (s.goto .idle)
    | _ => none
  | action =>
    match s.registry with
    | some g => s.work g action
    | none => none

def start : Chat where
  jobs := fun _ => {}
  registry := none
  started := 0
  worker := .idle
  turn := none
  rows := []
  ledger := fun _ => []
  reader := {}

end Chat

end ChatTurn
end Tempest
