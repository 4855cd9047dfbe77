import Tempest.Api.Runs

/-!
# Sync — imports and the pushes of peers (`routers/runs.py`, `sync.py`, `routers/sync.py`)

The server looks for the digest of an import in one step and commits its run in another.  A client asks
for the presence of each of its bundles and posts what is missing; its connection may fail at any moment,
also when the server has the bundle and is not through with it.
-/

namespace Tempest
namespace Sync

open Python Runs

/-- An import: its body is received, no row had its digest, or it is answered, by 200 or by an error. -/
inductive Import where
  | idle
  | received (data : Bytes)
  | checked (data : Bytes)
  | answered (data : Bytes) (ok : Bool)

/-- What `_wire_payload` gives: the stripped bytes, `KeyError`, or another exception. -/
inductive Wire where
  | bytes (data : Bytes)
  | missing
  | raises

structure Push where
  selected : List PyStr
  todo : List PyStr
  pushed : Nat := 0
  skipped : Nat := 0
  failed : Nat := 0

def Push.candidates (p : Push) : Nat := p.selected.length

def Push.remaining (p : Push) : Nat := p.candidates - p.pushed - p.skipped - p.failed

inductive Client where
  | idle
  | next (p : Push)
  | asking (p : Push) (wire : Bytes)
  | absent (p : Push) (wire : Bytes)
  | waiting (p : Push) (wire : Bytes) (request : Nat)
  | interrupted (p : Push)
  | ended (p : Push)

/-- The committed rows, the digests with a blob on disk, the requests, and the clients.  `received` is
every body that came in whole. -/
structure World where
  runs : List Run
  held : List PyStr
  requests : Nat → Import
  received : List Bytes
  clients : Nat → Client

inductive Action where
  | receive (r : Nat) (data : Bytes)
  | check (r : Nat)
  | commit (r : Nat) (victims : List PyStr)
  | lose (digest : PyStr)
  | push (c : Nat) (digests : List PyStr)
  | strip (c : Nat)
  | ask (c : Nat)
  | post (c r : Nat)
  | answer (c : Nat)
  | interrupt (c : Nat)
  deriving DecidableEq

namespace World

def setRequest (s : World) (r : Nat) (request : Import) : World :=
  { s with requests := fun i => if i = r then request else s.requests i }

def setClient (s : World) (c : Nat) (client : Client) : World :=
  { s with clients := fun i => if i = c then client else s.clients i }

def hasRow (s : World) (digest : PyStr) : Bool := s.runs.any fun row => row.bundleDigest = some digest

/-! ## The server -/

section Server

-- `parse_bundle_zip`, where it returns, and the checksum
variable (parse : Bytes → Option Upload.RunBundle) (hexdigest : Bytes → PyStr)

/-- `await file.read()`. -/
def receive (s : World) (r : Nat) (data : Bytes) : Option World :=
  match s.requests r with
  | .idle => some { s.setRequest r (.received data) with received := s.received ++ [data] }
  | _ => none

/-- The query for the digest; a row that has it is the answer, and its blob is put again. -/
def check (s : World) (r : Nat) : Option World :=
  match s.requests r with
  | .received data =>
    if s.hasRow (hexdigest data) then
      some { s.setRequest r (.answered data true) with held := s.held ++ [hexdigest data] }
    else some (s.setRequest r (.checked data))
  | _ => none

def acceptable (data : Bytes) : Option Upload.RunBundle :=
  (parse data).filter fun bundle =>
    match checkIngest (Runs.World.importedRow bundle) bundle with
    | .ok () => true
    | .error _ => false

/-- The run is created and ingested, the rows of the budget's victims are deleted. -/
def commit (s : World) (r : Nat) (victims : List PyStr) : Option World :=
  match s.requests r with
  | .checked data =>
    match acceptable parse data with
    | none => some (s.setRequest r (.answered data false))
    | some bundle =>
      some { s.setRequest r (.answered data true) with
        runs := (s.runs.filter fun row => row.bundleDigest.all (· ∉ victims)) ++
          [(Runs.World.importedRow bundle).ingest (hexdigest data) bundle]
        held := s.held ++ [hexdigest data] }
  | _ => none

/-! ## The client -/

-- the payload that a client has for a digest of its store
variable (wireOf : Nat → PyStr → Wire)

/-- `push_all` selects the digests of its rows, each once. -/
def push (s : World) (c : Nat) (digests : List PyStr) : Option World :=
  match s.clients c with
  | .idle | .interrupted _ | .ended _ =>
    some (s.setClient c (.next { selected := digests.eraseDups, todo := digests.eraseDups }))
  | _ => none

def strip (s : World) (c : Nat) : Option World :=
  match s.clients c with
  | .next p =>
    match p.todo with
    | [] => some (s.setClient c (.ended p))
    | digest :: todo =>
      match wireOf c digest with
      | .bytes wire => some (s.setClient c (.asking { p with todo := todo } wire))
      | .missing => some (s.setClient c (.next { p with todo := todo, failed := p.failed + 1 }))
      | .raises => some (s.setClient c (.interrupted p))
  | _ => none

/-- `check_bundle_presence`: a committed row, and the blob on disk. -/
def ask (s : World) (c : Nat) : Option World :=
  match s.clients c with
  | .asking p wire =>
    if s.hasRow (hexdigest wire) && decide (hexdigest wire ∈ s.held) then
      some (s.setClient c (.next { p with skipped := p.skipped + 1 }))
    else some (s.setClient c (.absent p wire))
  | _ => none

def post (s : World) (c r : Nat) : Option World :=
  match s.clients c with
  | .absent p wire => (s.receive r wire).map fun s' => s'.setClient c (.waiting p wire r)
  | _ => none

def answer (s : World) (c : Nat) : Option World :=
  match s.clients c with
  | .waiting p _ r =>
    match s.requests r with
    | .answered _ true => some (s.setClient c (.next { p with pushed := p.pushed + 1 }))
    | .answered _ false => some (s.setClient c (.next { p with failed := p.failed + 1 }))
    | _ => none
  | _ => none

/-- The network fails: what the server does with the request is not touched. -/
def interrupt (s : World) (c : Nat) : Option World :=
  match s.clients c with
  | .asking p _ | .absent p _ | .waiting p _ _ => some (s.setClient c (.interrupted p))
  | _ => none

def step (s : World) : Action → Option World
  | .receive r data => s.receive r data
  | .check r => s.check hexdigest r
  | .commit r victims => s.commit parse hexdigest r victims
  | .lose digest => some { s with held := s.held.filter (· ≠ digest) }
  | .push c digests => s.push c digests
  | .strip c => s.strip wireOf c
  | .ask c => s.ask hexdigest c
  | .post c r => s.post c r
  | .answer c => s.answer c
  | .interrupt c => s.interrupt c

end Server

def empty : World where
  runs := []
  held := []
  requests := fun _ => .idle
  received := []
  clients := fun _ => .idle

/-! ## One run for every bundle -/

section Converged

variable (parse : Bytes → Option Upload.RunBundle) (hexdigest : Bytes → PyStr)
  (wireOf : Nat → PyStr → Wire)

def Quiet (s : World) : Prop :=
  ∀ r, s.requests r = .idle ∨ ∃ data ok, s.requests r = .answered data ok

def Synced (s : World) (c : Nat) (digest : PyStr) : Prop :=
  ∃ wire, wireOf c digest = .bytes wire ∧
    ∃ row ∈ s.runs, row.bundleDigest = some (hexdigest wire)

/-- One run for each digest, with the content of a bundle that was received; each bundle that was
received has its run when no import is on its way; and a push that ends without a failure has counted
every digest it selected, and the server has its run. -/
structure Converged (s : World) : Prop where
  once : (s.runs.map Run.bundleDigest).Nodup
  sourced : ∀ row ∈ s.runs, ∃ data ∈ s.received, ∃ bundle, OfBundle parse hexdigest row data bundle
  complete : s.Quiet → ∀ data ∈ s.received, (acceptable parse data).isSome = true →
    ∃ row ∈ s.runs, row.bundleDigest = some (hexdigest data)
  synced : ∀ c p, s.clients c = .ended p → p.failed = 0 →
    p.remaining = 0 ∧ ∀ digest ∈ p.selected, s.Synced hexdigest wireOf c digest

/-- An import commits when no row has got its digest since it looked, and nothing is pruned. -/
def Admits (s : World) : Action → Prop
  | .commit r victims => ∀ data, s.requests r = .checked data →
      s.hasRow (hexdigest data) = false ∧ ∀ row ∈ s.runs, ∀ digest ∈ victims,
        row.bundleDigest ≠ some digest
  | _ => True

/-! ## The invariant -/

def body : Import → Option Bytes
  | .idle => none
  | .received data | .checked data | .answered data _ => some data

/-- The counters of a push count the digests it is through with; without a failure the server has their
runs. -/
structure Counted (s : World) (c : Nat) (p : Push) (done : List PyStr) : Prop where
  count : p.pushed + p.skipped + p.failed = done.length
  synced : p.failed = 0 → ∀ digest ∈ done, s.Synced hexdigest wireOf c digest

def At (s : World) (c : Nat) (p : Push) (wire : Bytes) : Prop :=
  ∃ done digest, p.selected = done ++ digest :: p.todo ∧ wireOf c digest = .bytes wire ∧
    s.Counted hexdigest wireOf c p done

def ClientInv (s : World) (c : Nat) : Client → Prop
  | .next p => ∃ done, p.selected = done ++ p.todo ∧ s.Counted hexdigest wireOf c p done
  | .asking p wire | .absent p wire => s.At hexdigest wireOf c p wire
  | .waiting p wire r => s.At hexdigest wireOf c p wire ∧ body (s.requests r) = some wire
  | .ended p => s.Counted hexdigest wireOf c p p.selected
  | _ => True

structure Inv (s : World) : Prop where
  once : (s.runs.map Run.bundleDigest).Nodup
  sourced : ∀ row ∈ s.runs, ∃ data ∈ s.received, ∃ bundle, OfBundle parse hexdigest row data bundle
  bodies : ∀ r data, body (s.requests r) = some data → data ∈ s.received
  pending : ∀ data ∈ s.received, (acceptable parse data).isSome = true →
    s.hasRow (hexdigest data) = true ∨
      ∃ r, s.requests r = .received data ∨ s.requests r = .checked data
  answered : ∀ r data, s.requests r = .answered data true → s.hasRow (hexdigest data) = true
  clients : ∀ c, s.ClientInv hexdigest wireOf c (s.clients c)

structure Grows (s s' : World) : Prop where
  runs : ∀ row ∈ s.runs, row ∈ s'.runs
  bodies : ∀ r data, body (s.requests r) = some data → body (s'.requests r) = some data

variable {parse hexdigest wireOf} {s s' : World} {c r : Nat} {p : Push} {wire data : Bytes}
  {done : List PyStr} {client : Client}

variable {digest : PyStr}

theorem hasRow_iff :
    s.hasRow digest = true ↔ ∃ row ∈ s.runs, row.bundleDigest = some digest := by
  rw [hasRow, List.any_eq_true]
  exact exists_congr fun row => and_congr_right fun _ => decide_eq_true_iff

theorem Grows.hasRow (h : Grows s s') (hrow : s.hasRow digest = true) :
    s'.hasRow digest = true := by
  obtain ⟨row, hmem, hdigest⟩ := hasRow_iff.1 hrow
  exact hasRow_iff.2 ⟨row, h.runs row hmem, hdigest⟩

theorem Grows.synced (h : Grows s s') (hsynced : s.Synced hexdigest wireOf c digest) :
    s'.Synced hexdigest wireOf c digest := by
  obtain ⟨wire, hwire, row, hmem, hdigest⟩ := hsynced
  exact ⟨wire, hwire, row, h.runs row hmem, hdigest⟩

theorem Grows.counted (h : Grows s s') (hcounted : s.Counted hexdigest wireOf c p done) :
    s'.Counted hexdigest wireOf c p done :=
  ⟨hcounted.count, fun hfailed digest hdigest => h.synced (hcounted.synced hfailed digest hdigest)⟩

theorem Grows.at (h : Grows s s') (hat : s.At hexdigest wireOf c p wire) :
    s'.At hexdigest wireOf c p wire := by
  obtain ⟨done, digest, hselected, hwire, hcounted⟩ := hat
  exact ⟨done, digest, hselected, hwire, h.counted hcounted⟩

/-- What is known of a client is not lost by what others do. -/
theorem Grows.clientInv (h : Grows s s') (hclient : s.ClientInv hexdigest wireOf c client) :
    s'.ClientInv hexdigest wireOf c client := by
  cases client with
  | idle => trivial
  | next p =>
    obtain ⟨done, hselected, hcounted⟩ := hclient
    exact ⟨done, hselected, h.counted hcounted⟩
  | asking _ _ | absent _ _ => exact h.at hclient
  | waiting p wire r => exact ⟨h.at hclient.1, h.bodies r wire hclient.2⟩
  | interrupted p => trivial
  | ended p => exact h.counted hclient

/-! ## Steps -/

/-- A client moves, and nothing else. -/
theorem Inv.goto (h : s.Inv parse hexdigest wireOf) (hclient : s.ClientInv hexdigest wireOf c client) :
    (s.setClient c client).Inv parse hexdigest wireOf where
  once := h.once
  sourced := h.sourced
  bodies := h.bodies
  pending := h.pending
  answered := h.answered
  clients c' := by
    have hgrows : Grows s (s.setClient c client) := ⟨fun _ h => h, fun _ _ h => h⟩
    change (s.setClient c client).ClientInv hexdigest wireOf c' (if c' = c then client else s.clients c')
    split
    · rename_i heq
      exact heq ▸ hgrows.clientInv hclient
    · exact hgrows.clientInv (h.clients c')

theorem push_inv {digests : List PyStr} (h : s.Inv parse hexdigest wireOf)
    (hstep : s.push c digests = some s') : s'.Inv parse hexdigest wireOf := by
  unfold push at hstep
  have hstart : s.ClientInv hexdigest wireOf c
      (.next { selected := digests.eraseDups, todo := digests.eraseDups }) :=
    ⟨[], rfl, rfl, fun _ digest hdigest => (by cases hdigest)⟩
  split at hstep
  · cases hstep
    exact h.goto hstart
  · cases hstep
    exact h.goto hstart
  · cases hstep
    exact h.goto hstart
  · cases hstep

theorem strip_inv (h : s.Inv parse hexdigest wireOf) (hstep : s.strip wireOf c = some s') :
    s'.Inv parse hexdigest wireOf := by
  have hbefore := h.clients c
  unfold strip at hstep
  split at hstep
  · rename_i p hclient
    rw [hclient] at hbefore
    obtain ⟨done, hselected, hcounted⟩ := hbefore
    split at hstep
    · -- the end of the loop
      rename_i htodo
      cases hstep
      rw [htodo, List.append_nil] at hselected
      refine h.goto ?_
      change s.Counted hexdigest wireOf c p p.selected
      rw [hselected]
      exact hcounted
    · rename_i digest todo htodo
      rw [htodo] at hselected
      split at hstep
      · rename_i wire hwire
        cases hstep
        exact h.goto ⟨done, digest, hselected, hwire, hcounted.count, hcounted.synced⟩
      · cases hstep
        refine h.goto ⟨done ++ [digest], by simpa using hselected, ?_, fun hfailed => ?_⟩
        · rw [List.length_append, List.length_singleton, ← hcounted.count]
          rfl
        · exact absurd hfailed (Nat.succ_ne_zero _)
      · cases hstep
        exact h.goto trivial
  · cases hstep

/-- A digest whose run the server has is counted. -/
theorem At.counted (hat : s.At hexdigest wireOf c p wire) (hrow : s.hasRow (hexdigest wire) = true)
    {p' : Push} (hselected' : p'.selected = p.selected) (htodo : p'.todo = p.todo)
    (hcount : p'.pushed + p'.skipped + p'.failed = p.pushed + p.skipped + p.failed + 1)
    (hfailed : p'.failed = p.failed) : s.ClientInv hexdigest wireOf c (.next p') := by
  obtain ⟨done, digest, hselected, hwire, hcounted⟩ := hat
  refine ⟨done ++ [digest], ?_, ?_, fun hzero other hother => ?_⟩
  · rw [hselected', htodo, hselected]
    simp
  · rw [hcount, hcounted.count, List.length_append, List.length_singleton]
  · rcases List.mem_append.1 hother with hold | hnew
    · exact hcounted.synced (hfailed ▸ hzero) other hold
    · rw [List.mem_singleton.1 hnew]
      exact ⟨wire, hwire, hasRow_iff.1 hrow⟩

theorem ask_inv (h : s.Inv parse hexdigest wireOf) (hstep : s.ask hexdigest c = some s') :
    s'.Inv parse hexdigest wireOf := by
  have hbefore := h.clients c
  unfold ask at hstep
  split at hstep
  · rename_i p wire hclient
    rw [hclient] at hbefore
    split at hstep
    · rename_i hpresent
      cases hstep
      rw [Bool.and_eq_true] at hpresent
      exact h.goto (At.counted hbefore hpresent.1 rfl rfl (by simp only; omega) rfl)
    · cases hstep
      exact h.goto hbefore
  · cases hstep

theorem answer_inv (h : s.Inv parse hexdigest wireOf) (hstep : s.answer c = some s') :
    s'.Inv parse hexdigest wireOf := by
  have hbefore := h.clients c
  unfold answer at hstep
  split at hstep
  · rename_i p wire r hclient
    rw [hclient] at hbefore
    obtain ⟨hat, hbody⟩ := hbefore
    split at hstep
    · rename_i data hanswered
      cases hstep
      have hrow := h.answered r data hanswered
      rw [hanswered] at hbody
      obtain rfl : data = wire := Option.some.inj hbody
      exact h.goto (At.counted hat hrow rfl rfl (by simp only; omega) rfl)
    · -- the server refused the bundle
      cases hstep
      obtain ⟨done, digest, hselected, -, hcounted⟩ := hat
      refine h.goto ⟨done ++ [digest], by simpa using hselected, ?_, fun hfailed => ?_⟩
      · rw [List.length_append, List.length_singleton, ← hcounted.count]
        rfl
      · exact absurd hfailed (Nat.succ_ne_zero _)
    · cases hstep
  · cases hstep

theorem interrupt_inv (h : s.Inv parse hexdigest wireOf) (hstep : s.interrupt c = some s') :
    s'.Inv parse hexdigest wireOf := by
  unfold interrupt at hstep
  split at hstep
  · cases hstep
    exact h.goto trivial
  · cases hstep
    exact h.goto trivial
  · cases hstep
    exact h.goto trivial
  · cases hstep

theorem requests_setRequest {request : Import} {i : Nat} :
    (s.setRequest r request).requests i = if i = r then request else s.requests i := rfl

/-- A request whose body is kept moves on; rows may be added. -/
theorem grows_of_request {request : Import} (hruns : ∀ row ∈ s.runs, row ∈ s'.runs)
    (hrequests : s'.requests = (s.setRequest r request).requests)
    (hbody : ∀ data, body (s.requests r) = some data → body request = some data) : Grows s s' where
  runs := hruns
  bodies i data h := by
    rw [hrequests, requests_setRequest]
    split
    · rename_i heq
      exact hbody data (heq ▸ h)
    · exact h

theorem receive_inv (h : s.Inv parse hexdigest wireOf) (hstep : s.receive r data = some s') :
    s'.Inv parse hexdigest wireOf := by
  unfold receive at hstep
  split at hstep
  · rename_i hidle
    cases hstep
    have hgrows : Grows s { s.setRequest r (.received data) with received := s.received ++ [data] } :=
      grows_of_request (fun _ h => h) rfl fun data' hbody => by
        rw [hidle] at hbody
        cases hbody
    constructor
    case once => exact h.once
    case sourced =>
      intro row hrow
      obtain ⟨data', hdata', hbundle⟩ := h.sourced row hrow
      exact ⟨data', List.mem_append_left _ hdata', hbundle⟩
    case bodies =>
      intro i data' hbody
      change body (if i = r then Import.received data else s.requests i) = some data' at hbody
      split at hbody
      · exact List.mem_append_right _ (List.mem_singleton.2 (Option.some.inj hbody).symm)
      · exact List.mem_append_left _ (h.bodies i data' hbody)
    case pending =>
      intro data' hdata' hacceptable
      rcases List.mem_append.1 hdata' with hold | hnew
      · rcases h.pending data' hold hacceptable with hrow | ⟨i, hi⟩
        · exact Or.inl hrow
        · refine Or.inr ⟨i, ?_⟩
          change (if i = r then Import.received data else s.requests i) = _ ∨
            (if i = r then Import.received data else s.requests i) = _
          rw [if_neg]
          · exact hi
          · rintro rfl
            rw [hidle] at hi
            rcases hi with hi | hi <;> cases hi
      · rw [List.mem_singleton.1 hnew]
        exact Or.inr ⟨r, Or.inl (if_pos rfl)⟩
    case answered =>
      intro i data' hanswered
      change (if i = r then Import.received data else s.requests i) = _ at hanswered
      split at hanswered
      · cases hanswered
      · exact h.answered i data' hanswered
    case clients => exact fun c => hgrows.clientInv (h.clients c)
  · cases hstep

/-- A request that has its body moves on: to a check that found nothing, or to an answer. -/
theorem request_inv {request : Import} (h : s.Inv parse hexdigest wireOf)
    (hrequests : s'.requests = (s.setRequest r request).requests)
    (hreceived : s'.received = s.received) (hclients : s'.clients = s.clients)
    (hruns : ∀ row ∈ s.runs, row ∈ s'.runs) (honce : (s'.runs.map Run.bundleDigest).Nodup)
    (hsourced : ∀ row ∈ s'.runs, ∃ data ∈ s.received, ∃ bundle, OfBundle parse hexdigest row data bundle)
    (hbefore : body (s.requests r) = some data) (hafter : body request = some data)
    (hdone : request = .checked data ∨
      ((acceptable parse data).isSome = true → s'.hasRow (hexdigest data) = true))
    (hanswer : request = .answered data true → s'.hasRow (hexdigest data) = true) :
    s'.Inv parse hexdigest wireOf := by
  have hgrows : Grows s s' := grows_of_request hruns hrequests fun data' hbody => by
    rw [hbefore] at hbody
    rw [← Option.some.inj hbody]
    exact hafter
  constructor
  case once => exact honce
  case sourced =>
    rw [hreceived]
    exact hsourced
  case bodies =>
    intro i data' hbody
    rw [hreceived]
    rw [hrequests, requests_setRequest] at hbody
    split at hbody
    · rw [hafter] at hbody
      rw [← Option.some.inj hbody]
      exact h.bodies r data hbefore
    · exact h.bodies i data' hbody
  case pending =>
    intro data' hdata' hacceptable
    rw [hreceived] at hdata'
    rcases h.pending data' hdata' hacceptable with hrow | ⟨i, hi⟩
    · exact Or.inl (hgrows.hasRow hrow)
    · by_cases heq : i = r
      · -- the request itself was on its way
        have hsame : data' = data := by
          rw [heq] at hi
          rcases hi with hi | hi
          · rw [hi] at hbefore
            exact Option.some.inj hbefore
          · rw [hi] at hbefore
            exact Option.some.inj hbefore
        rw [hsame] at hacceptable ⊢
        rcases hdone with hchecked | hdone
        · refine Or.inr ⟨r, Or.inr ?_⟩
          rw [hrequests, requests_setRequest, if_pos rfl, hchecked]
        · exact Or.inl (hdone hacceptable)
      · refine Or.inr ⟨i, ?_⟩
        rw [hrequests, requests_setRequest, if_neg heq]
        exact hi
  case answered =>
    intro i data' hanswered
    rw [hrequests, requests_setRequest] at hanswered
    split at hanswered
    · rw [hanswered] at hafter
      obtain rfl : data' = data := Option.some.inj hafter
      exact hanswer hanswered
    · exact hgrows.hasRow (h.answered i data' hanswered)
  case clients =>
    rw [hclients]
    exact fun c => hgrows.clientInv (h.clients c)

theorem check_inv (h : s.Inv parse hexdigest wireOf) (hstep : s.check hexdigest r = some s') :
    s'.Inv parse hexdigest wireOf := by
  unfold check at hstep
  split at hstep
  · rename_i data hrequest
    have hbefore : body (s.requests r) = some data := by rw [hrequest]; rfl
    split at hstep
    · rename_i hrow
      cases hstep
      exact request_inv h rfl rfl rfl (fun _ h => h) h.once h.sourced hbefore rfl (Or.inr fun _ => hrow)
        fun _ => hrow
    · cases hstep
      exact request_inv h rfl rfl rfl (fun _ h => h) h.once h.sourced hbefore rfl (Or.inl rfl)
        fun hanswer => (by cases hanswer)
  · cases hstep

theorem acceptable_eq_some {bundle : Upload.RunBundle} (h : acceptable parse data = some bundle) :
    parse data = some bundle := (Option.filter_eq_some_iff.1 h).1

theorem ofBundle_imported {bundle : Upload.RunBundle} (h : parse data = some bundle) :
    OfBundle parse hexdigest ((Runs.World.importedRow bundle).ingest
      (hexdigest data) bundle) data bundle where
  parsed := h
  digest := rfl
  manifest := rfl
  targets := rfl
  events e he := by
    rcases List.mem_append.1 he with hold | hnew
    · rw [List.mem_singleton.1 hold]
      trivial
    · rw [List.mem_singleton.1 hnew]
      exact ⟨rfl, rfl, rfl⟩

/-- The first import of a digest commits its run. -/
theorem commit_inv {victims : List PyStr} (h : s.Inv parse hexdigest wireOf)
    (hok : s.Admits hexdigest (.commit r victims))
    (hstep : s.commit parse hexdigest r victims = some s') : s'.Inv parse hexdigest wireOf := by
  unfold commit at hstep
  split at hstep
  · rename_i data hrequest
    obtain ⟨hfresh, hvictims⟩ := hok data hrequest
    have hbefore : body (s.requests r) = some data := by rw [hrequest]; rfl
    split at hstep
    · rename_i hnone
      cases hstep
      refine request_inv h rfl rfl rfl (fun _ h =>
        h) h.once h.sourced hbefore rfl (Or.inr fun hsome => ?_)
        fun hanswer => (by cases hanswer)
      rw [hnone] at hsome
      cases hsome
    · rename_i bundle hbundle
      cases hstep
      have hkept : (s.runs.filter fun row => row.bundleDigest.all (· ∉ victims)) = s.runs := by
        rw [List.filter_eq_self]
        intro row hrow
        rw [Option.all_eq_true]
        intro digest hdigest
        exact decide_eq_true fun hmem => hvictims row hrow digest hmem hdigest
      have hnew : ∀ row ∈ s.runs, row.bundleDigest ≠ some (hexdigest data) := by
        intro row hrow hdigest
        rw [hasRow_iff.2 ⟨row, hrow, hdigest⟩] at hfresh
        cases hfresh
      have hlast : ∀ runs : List Run,
          (runs ++ [(Runs.World.importedRow bundle).ingest (hexdigest data) bundle]).any
            (fun row => row.bundleDigest = some (hexdigest data)) = true := by
        intro runs
        rw [List.any_append, List.any_cons]
        simp [Run.ingest]
      refine request_inv h rfl rfl rfl ?_ ?_ ?_ hbefore rfl (Or.inr fun _ => hlast _) fun _ => hlast _
      · intro row hrow
        rw [hkept]
        exact List.mem_append_left _ hrow
      · rw [hkept, List.map_append, List.nodup_append]
        refine ⟨h.once, List.nodup_singleton _, ?_⟩
        rintro digest hdigest other hother rfl
        obtain ⟨row, hrow, rfl⟩ := List.mem_map.1 hdigest
        exact hnew row hrow (List.mem_singleton.1 hother)
      · intro row hrow
        rw [hkept] at hrow
        rcases List.mem_append.1 hrow with hold | hlast
        · exact h.sourced row hold
        · rw [List.mem_singleton.1 hlast]
          exact ⟨data, h.bodies r data hbefore, bundle, ofBundle_imported (acceptable_eq_some hbundle)⟩
  · cases hstep

theorem receive_eq_some (hstep : s.receive r data = some s') :
    s.requests r = .idle ∧
      s' = { s.setRequest r (.received data) with received := s.received ++ [data] } := by
  unfold receive at hstep
  split at hstep
  · rename_i hidle
    exact ⟨hidle, (Option.some.inj hstep).symm⟩
  · cases hstep

theorem post_inv (h : s.Inv parse hexdigest wireOf) (hstep : s.post c r = some s') :
    s'.Inv parse hexdigest wireOf := by
  have hbefore := h.clients c
  unfold post at hstep
  split at hstep
  · rename_i p wire hclient
    rw [hclient] at hbefore
    obtain ⟨s₁, hreceive, rfl⟩ := Option.map_eq_some_iff.1 hstep
    refine (receive_inv h hreceive).goto ?_
    obtain ⟨hidle, rfl⟩ := receive_eq_some hreceive
    have hgrows : Grows s { s.setRequest r (.received wire) with received := s.received ++ [wire] } :=
      grows_of_request (fun _ h => h) rfl fun data' hbody => by
        rw [hidle] at hbody
        cases hbody
    refine ⟨hgrows.at hbefore, ?_⟩
    change body (if r = r then Import.received wire else s.requests r) = some wire
    rw [if_pos rfl]
    rfl
  · cases hstep

/-- A blob that is lost is put again by the next import of its bytes. -/
theorem lose_inv (h : s.Inv parse hexdigest wireOf) :
    Inv parse hexdigest wireOf { s with held := s.held.filter (· ≠ digest) } where
  once := h.once
  sourced := h.sourced
  bodies := h.bodies
  pending := h.pending
  answered := h.answered
  clients c := by
    have hgrows : Grows s { s with held := s.held.filter (· ≠ digest) } := ⟨fun _ h => h, fun _ _ h => h⟩
    exact hgrows.clientInv (h.clients c)

theorem step_inv {action : Action} (h : s.Inv parse hexdigest wireOf) (hok : s.Admits hexdigest action)
    (hstep : s.step parse hexdigest wireOf action = some s') : s'.Inv parse hexdigest wireOf := by
  cases action with
  | receive r data => exact receive_inv h hstep
  | check r => exact check_inv h hstep
  | commit r victims => exact commit_inv h hok hstep
  | lose digest =>
    cases hstep
    exact lose_inv h
  | push c digests => exact push_inv h hstep
  | strip c => exact strip_inv h hstep
  | ask c => exact ask_inv h hstep
  | post c r => exact post_inv h hstep
  | answer c => exact answer_inv h hstep
  | interrupt c => exact interrupt_inv h hstep

theorem inv_empty : empty.Inv parse hexdigest wireOf where
  once := List.nodup_nil
  sourced row hrow := by cases hrow
  bodies r data h := by cases h
  pending data h := by cases h
  answered r data h := by cases h
  clients c := trivial

theorem Inv.converged (h : s.Inv parse hexdigest wireOf) : s.Converged parse hexdigest wireOf where
  once := h.once
  sourced := h.sourced
  complete hquiet data hdata hacceptable := by
    rcases h.pending data hdata hacceptable with hrow | ⟨r, hr⟩
    · exact hasRow_iff.1 hrow
    · rcases hquiet r with hidle | ⟨data', ok, hanswered⟩
      · rw [hidle] at hr
        rcases hr with hr | hr <;> cases hr
      · rw [hanswered] at hr
        rcases hr with hr | hr <;> cases hr
  synced c p hended hfailed := by
    have hclient := h.clients c
    rw [hended] at hclient
    refine ⟨?_, hclient.synced hfailed⟩
    have hcount := hclient.count
    rw [Push.remaining, Push.candidates]
    omega

end Converged

end World

/-- However imports and pushes interleave and whenever a connection fails, the server has one run for each
bundle that came in, and a push without a failure has all its bundles there. -/
theorem imports_converge {parse : Bytes → Option Upload.RunBundle} {hexdigest : Bytes → PyStr}
    {wireOf : Nat → PyStr → Wire} {s : World}
    (h : Reachable (World.step parse hexdigest wireOf) (World.Admits hexdigest) (· = World.empty) s) :
    s.Converged parse hexdigest wireOf :=
  (h.invariant (fun _ hstart => hstart ▸ World.inv_empty)
    fun _ _ _ hinv hok hstep => World.step_inv hinv hok hstep).converged

/-! ## A push that is cut off -/

/-- The payload of the only bundle of a store. -/
def shopWire (_ : Nat) (digest : PyStr) : Wire :=
  if digest = shopDigest [0x50] then .bytes [0x50] else .missing

def pushRun (c r : Nat) : List Action :=
  [.push c [shopDigest [0x50]], .strip c, .ask c, .post c r, .check r]

theorem imports_converge_pushed :
    ∃ s : World, s.runs.length = 1 ∧ (∃ p, s.clients 0 = .ended p ∧ p.pushed = 1) ∧
      s.Converged shopBundle shopDigest shopWire := by
  have hempty : Reachable (World.step shopBundle shopDigest shopWire) (World.Admits shopDigest)
      (· = World.empty) World.empty := .start rfl
  have hchecked := hempty.of_always (pushRun 0 0) (by simp [pushRun, World.Admits]) rfl
  have hcommitted := hchecked.step (a := .commit 0 []) (by
    rintro data -
    exact ⟨rfl, fun row hrow => (by cases hrow)⟩) rfl
  have hended := hcommitted.of_always [.answer 0, .strip 0] (by simp [World.Admits]) rfl
  exact ⟨_, rfl, ⟨_, rfl, rfl⟩, imports_converge hended⟩

/-- The connection fails while the server has looked and not committed, and the push is made again. -/
def cutOffRun : List Action :=
  pushRun 0 0 ++ ([.interrupt 0] : List Action) ++ pushRun 0 1 ++
    ([.commit 0 [], .commit 1 []] : List Action)

theorem imported_twice :
    ∃ s : World, Reachable (World.step shopBundle shopDigest shopWire) (fun _ _ => True)
        (· = World.empty) s ∧
      s.runs.map Run.bundleDigest = [some (shopDigest [0x50]), some (shopDigest [0x50])] ∧
      ¬ s.Converged shopBundle shopDigest shopWire := by
  obtain ⟨s, hs, htest⟩ := Reachable.exists_of_foldlM cutOffRun
    (fun s => s.runs.map Run.bundleDigest = [some (shopDigest [0x50]), some (shopDigest [0x50])])
    (.start rfl : Reachable (World.step shopBundle shopDigest shopWire) (fun _ _ => True)
      (· = World.empty) World.empty)
    (by decide)
  have hdigests := of_decide_eq_true htest
  refine ⟨s, hs, hdigests, fun hconverged => ?_⟩
  have honce := hconverged.once
  rw [hdigests] at honce
  simp at honce

end Sync
end Tempest
