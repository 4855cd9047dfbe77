import Tempest.Api.Timeline

/-!
# LiveFeed — the frames of a turn on their way to the webview

The webview subscribes to a stream, asks the host for a replay, and the host answers with a page of the
engine's ledger and starts a poller behind it (`commands.rs`, `agent_chat.rs`).  A poller pushes what the
ledger gets to every subscriber; it stands down when a later replay has claimed the stream, which it
sees only before it pushes.  A subscriber (`TempestSSE.ts`) holds the pushes back until it has its page.

`Feed` is one turn of one stream, with any number of subscribers.  Every access to the engine, to the
table of the pollers and to the webview is a step.
-/

namespace Tempest
namespace LiveFeed

open ChatTurn

/-! ## Pages and pushes -/

/-- `TurnEventsOut`: what the engine answers. -/
structure Page where
  status : Status
  events : Rows
  deriving DecidableEq

/-- `AgentStreamEvent`.  Which poller has emitted it no subscriber can see. -/
structure Push extends Page where
  poller : Nat
  deriving DecidableEq

/-- The last sequence number, or the cursor the rows were asked for with. -/
def cursorOf (rows : Rows) (after : Nat) : Nat := (rows.getLast?.map Prod.fst).getD after

/-- `final === true`. -/
def isFinal : Frame → Bool
  | .final _ _ => true
  | .delta _ _ _ | .event _ => false

/-! ## A subscriber -/

/-- How far `attach` is, and the replay it has asked for: the host reads the page, claims the stream and
answers, or the engine does not. -/
inductive Attach where
  | idle
  | connecting
  | asking
  | read (after : Nat) (page : Page)
  | answered (page : Option Page)
  | done
  deriving DecidableEq

inductive Ending where
  | final
  | aborted
  | failed
  deriving DecidableEq

/-- A `TempestSSE`, with the pushes on their way to it, the frames that its listeners were handed and the
poller that its replay has started; no step decides by the last two. -/
structure Subscriber where
  attach : Attach := .idle
  primed : Bool := false
  held : List Push := []
  delivered : List Nat := []
  highWater : Nat := 0
  ending : Option Ending := none
  inbox : List Push := []
  out : Rows := []
  poller : Option Nat := none
  deriving DecidableEq

namespace Subscriber

/-- `detach`: nothing reaches a closed subscriber. -/
def detach (c : Subscriber) (ending : Ending) : Subscriber :=
  { c with ending := some ending, held := [], inbox := [] }

/-- The loop of `deliver`, over frames in order. -/
def handOn (c : Subscriber) : Rows → Subscriber
  | [] => c
  | (seq, frame) :: rows =>
    if seq ∈ c.delivered then c.handOn rows
    else
      let c := { c with
        delivered := seq :: c.delivered
        highWater := max c.highWater seq
        out := c.out ++ [(seq, frame)] }
      if isFinal frame then c.detach .final else c.handOn rows

def fail (c : Subscriber) : Subscriber := if c.ending.isSome then c else c.detach .failed

def deliver (c : Subscriber) (page : Page) : Subscriber :=
  if c.ending.isSome then c
  else
    let c := c.handOn (bySeq page.events)
    -- the last word of a poller is no news to a stream that has ended
    if page.status ≠ .active ∧ page.events = [] then c.fail else c

def receive (c : Subscriber) (push : Push) : Subscriber :=
  if c.primed then c.deliver push.toPage else { c with held := c.held ++ [push] }

def above (covered : Nat) (push : Push) : Page :=
  { push.toPage with events := push.events.filter fun row => covered < row.1 }

def release (c : Subscriber) : Subscriber :=
  c.held.foldl (fun c' push => c'.deliver (above c.highWater push)) { c with primed := true, held := [] }

/-- The end of `attach`, with the page or without. -/
def settle (c : Subscriber) : Option Page → Subscriber
  | some page => if c.ending.isSome then c else (c.deliver page).release
  | none => c.release.fail

def listening (c : Subscriber) : Bool :=
  c.ending.isNone &&
    match c.attach with
    | .idle | .connecting => false
    | .asking | .read _ _ | .answered _ | .done => true

end Subscriber

/-! ## A poller -/

inductive Poller where
  | gone
  | checking (after : Nat)
  | calling (after : Nat)
  | holding (after : Nat) (page : Page)
  | emitting (after : Nat) (page : Page)
  | leaving
  deriving DecidableEq

/-! ## Steps -/

structure Turn where
  ledger : List Frame
  status : Status

/-- The poller in `POLLERS`, the next generation, and the pollers by their generations. -/
structure Host extends Turn where
  live : Option Nat
  minted : Nat
  pollers : Nat → Poller

structure Feed extends Host where
  subscribers : List Subscriber

/-- A subscriber is named by its place, a poller by its generation. -/
inductive Action where
  | append (frame : Frame)
  | finish (extra : List Frame) (text : Python.PyStr) (aborted : Bool) (status : Status)
  /-- The engine dies with so many frames in its store, and ends the turn when it is back. -/
  | restart (kept : Nat)
  | construct
  | stream (k : Nat)
  | listen (k : Nat)
  | read (k : Nat)
  | refuse (k : Nat)
  | claim (k : Nat)
  | settle (k : Nat)
  | receive (k : Nat)
  | close (k : Nat)
  | check (g : Nat)
  | call (g : Nat)
  | miss (g : Nat)
  | giveUp (g : Nat)
  | recheck (g : Nat)
  | emit (g : Nat)
  | leave (g : Nat)
  deriving DecidableEq

/-- `listChatTurnEvents`. -/
def Turn.page (s : Turn) (after : Nat) : Page :=
  ⟨s.status, coalesce (numbered (after + 1) (s.ledger.drop after))⟩

namespace Feed

def setPoller (s : Feed) (g : Nat) (poller : Poller) : Feed :=
  { s with pollers := fun i => if i = g then poller else s.pollers i }

def setSubscriber (s : Feed) (k : Nat) (c : Subscriber) : Feed :=
  { s with subscribers := s.subscribers.set k c }

/-- `_reconcile_dead`, over what the store has kept. -/
def restart (s : Feed) (kept : Nat) : Feed :=
  let frames := s.ledger.take kept
  { s with
    ledger := frames ++ [.final (Chat.messageText (numbered 1 frames)) true]
    status := .aborted }

/-- `follow_stream_from`, behind the page that was read. -/
def claim (s : Feed) (k : Nat) (c : Subscriber) (after : Nat) (page : Page) : Feed :=
  { (s.setSubscriber k { c with attach := .answered (some page), poller := some s.minted }).setPoller
      s.minted (.checking (cursorOf page.events after)) with
    live := some s.minted
    minted := s.minted + 1 }

/-- `push.emit(&app)`. -/
def broadcast (s : Feed) (push : Push) : Feed :=
  { s with subscribers := s.subscribers.map fun c =>
      if c.listening then { c with inbox := c.inbox ++ [push] } else c }

def serve (s : Feed) : Action → Option Feed
  | .append frame =>
    if s.status = .active ∧ isFinal frame = false then
      some { s with ledger := s.ledger ++ [frame] }
    else none
  | .finish extra text aborted status =>
    if s.status = .active ∧ status ≠ .active ∧ extra.all (fun frame => !isFinal frame) then
      some { s with ledger := s.ledger ++ extra ++ [.final text aborted], status := status }
    else none
  -- the store has the final frame of a turn together with its status
  | .restart kept =>
    if kept ≤ s.ledger.length ∧ (s.status = .active ∨ kept < s.ledger.length) then
      some (s.restart kept)
    else none
  | _ => none

def attend (s : Feed) (k : Nat) (c : Subscriber) : Action → Option Feed
  | .stream _ =>
    if c.attach = .idle ∧ c.ending = none then
      some (s.setSubscriber k { c with attach := .connecting })
    else none
  | .listen _ =>
    if c.attach = .connecting then
      some (s.setSubscriber k { c with attach := if c.ending.isSome then .done else .asking })
    else none
  | .read _ =>
    if c.attach = .asking then
      some (s.setSubscriber k { c with attach := .read c.highWater (s.page c.highWater) })
    else none
  | .refuse _ =>
    if c.attach = .asking then some (s.setSubscriber k { c with attach := .answered none }) else none
  | .claim _ =>
    match c.attach with
    | .read after page => some (s.claim k c after page)
    | _ => none
  | .settle _ =>
    match c.attach with
    | .answered page => some (s.setSubscriber k ({ c with attach := .done }.settle page))
    | _ => none
  | .receive _ =>
    match c.inbox with
    | push :: inbox => some (s.setSubscriber k ({ c with inbox := inbox }.receive push))
    | [] => none
  | .close _ => if c.ending.isSome then none else some (s.setSubscriber k (c.detach .aborted))
  | _ => none

def drain (s : Feed) (g : Nat) (poller : Poller) : Action → Option Feed
  | .check _ =>
    match poller with
    | .checking after => some (s.setPoller g (if s.live = some g then .calling after else .gone))
    | _ => none
  | .call _ =>
    match poller with
    | .calling after =>
      some (s.setPoller g (.holding (cursorOf (s.page after).events after) (s.page after)))
    | _ => none
  | .miss _ =>
    match poller with
    | .calling after => some (s.setPoller g (.checking after))
    | _ => none
  | .giveUp _ =>
    match poller with
    | .calling after =>
      some (s.setPoller g (if s.live = some g then .emitting after ⟨.error, []⟩ else .gone))
    | _ => none
  | .recheck _ =>
    match poller with
    | .holding after page =>
      if page.events = [] ∧ page.status = .active then some (s.setPoller g (.checking after))
      else some (s.setPoller g (if s.live = some g then .emitting after page else .gone))
    | _ => none
  | .emit _ =>
    match poller with
    | .emitting after page =>
      some ((s.broadcast ⟨page, g⟩).setPoller g
        (if page.status ≠ .active ∧ page.events = [] then .leaving else .checking after))
    | _ => none
  | .leave _ =>
    match poller with
    | .leaving =>
      some { s.setPoller g .gone with live := if s.live = some g then none else s.live }
    | _ => none
  | _ => none

def step (s : Feed) (action : Action) : Option Feed :=
  match action with
  | .append _ | .finish _ _ _ _ | .restart _ => s.serve action
  | .construct => some { s with subscribers := s.subscribers ++ [{}] }
  | .stream k | .listen k | .read k | .refuse k | .claim k | .settle k | .receive k | .close k =>
    match s.subscribers[k]? with
    | some c => s.attend k c action
    | none => none
  | .check g | .call g | .miss g | .giveUp g | .recheck g | .emit g | .leave g =>
    s.drain g (s.pollers g) action

structure Opened (s : Feed) : Prop where
  ledger : s.ledger = []
  status : s.status = .active
  subscribers : s.subscribers = []
  pollers : ∀ g, s.minted ≤ g → s.pollers g = .gone

/-- Nothing will reach the subscriber any more. -/
structure AtRest (s : Feed) (c : Subscriber) : Prop where
  attach : c.attach = .done
  inbox : c.inbox = []
  pollers : ∀ g, s.pollers g = .gone

/-- The listeners were handed the ledger once and in order, up to the last number they were given; and
if nothing else comes, with the final frame at its end.  Deltas count by their text. -/
structure Faithful (s : Feed) (c : Subscriber) : Prop where
  ordered : (c.out.map Prod.fst).Pairwise (· < ·)
  content : pieces (c.out.map Prod.snd) = pieces (s.ledger.take (cursorOf c.out 0))
  complete : c.ending = some .final → s.status ≠ .active ∧ cursorOf c.out 0 = s.ledger.length ∧
    ∃ row ∈ c.out.getLast?, isFinal row.2 = true
  unfailed : c.ending ≠ some .failed
  awaited : s.AtRest c → c.ending.isSome

end Feed

/-! ## The condition -/

/-- The push comes from another poller than the one that the subscriber's replay has started. -/
def Subscriber.Foreign (c : Subscriber) (push : Push) : Prop := c.poller ≠ some push.poller

def Subscriber.Spent (c : Subscriber) (push : Push) : Prop :=
  (push.events = [] → push.status = .active) ∧ ∀ row ∈ push.events, row.1 ∈ c.delivered

def Push.Covered (push : Push) (page : Page) : Prop :=
  push.status = .active ∧ ∀ row ∈ push.events, row.1 ≤ cursorOf page.events 0

/-- The page is there and, where it does not end the stream, above whatever other pollers have pushed. -/
def Subscriber.Settles (c : Subscriber) : Prop :=
  match c.attach with
  | .answered (some page) =>
    page.events.any (fun row => isFinal row.2) ∨ ∀ push ∈ c.held, c.Foreign push → push.Covered page
  | .answered none => False
  | _ => True

/-- What was read is within the first frames of the ledger. -/
def Attach.below (kept : Nat) : Attach → Bool
  | .read _ page | .answered (some page) => page.events.all fun row => row.1 ≤ kept
  | _ => true

/-- So is what was read for the pushes; a poller that leaves has read everything. -/
def Poller.below (kept : Nat) : Poller → Bool
  | .checking after | .calling after | .holding after _ | .emitting after _ => after ≤ kept
  | .gone | .leaving => false

/-- An open subscriber hears from its own poller only, as far as it is news to it, and hears from it
until the end: no replay claims the stream, and the engine is not given up, while it listens.  The engine
loses no frame that was read for a subscriber, and answers the replays. -/
def Feed.Admits (s : Feed) : Action → Prop
  | .claim _ => ∀ c ∈ s.subscribers, c.ending = none → c.poller = none
  | .settle k => ∀ c ∈ s.subscribers[k]?, c.ending = none → c.Settles
  | .receive k => ∀ c ∈ s.subscribers[k]?, c.primed = true → ∀ push ∈ c.inbox.head?, c.Foreign push →
      c.Spent push
  | .giveUp g => ∀ c ∈ s.subscribers, c.ending = none → c.poller ≠ some g
  | .restart kept => ∀ c ∈ s.subscribers, c.highWater ≤ kept ∧
      (c.ending = none → c.attach.below kept = true ∧ ∀ g ∈ c.poller, (s.pollers g).below kept = true)
  | _ => True

end LiveFeed
end Tempest
