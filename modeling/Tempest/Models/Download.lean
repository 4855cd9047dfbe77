import Tempest.Process.Reachable
import Tempest.Targets.Diff

/-!
# Download — fetching a catalogue model (`models/download.py`)

`download_entry` as the steps between which the process may be killed: every access to a file, the
request, every read of the body and every block of the checksum.  The server answers what it likes,
and a file that is open for writing has bytes that are not on the disk yet.

`installs_verified` is about every state that any number of attempts can reach: a file at the
installed path has the recorded checksum, the partial stays within the recorded size, and a body is
appended to it only where the server's range begins at its end.
-/

namespace Tempest
namespace Download

open Python

/-- `CatalogEntry`, as far as a download reads it. -/
structure CatalogEntry where
  sizeBytes : Nat
  sha256 : PyStr

/-- A response by its status and its `Content-Range`, which is empty where there is none. -/
structure Response where
  status : Nat
  contentRange : PyStr
  deriving DecidableEq

/-- `_CHUNK`. -/
def chunkBytes : Nat := 1024 * 1024

/-! ## The range of a response -/

/-- What `bytes\s+(\d+)-` matches at the beginning of a text, as its number. -/
def rangeHere (s : PyStr) : Option Nat :=
  if startsWith (lit "bytes") s then
    let blank := s.drop (lit "bytes").length
    let number := blank.dropWhile isSpace
    let digits := number.takeWhile fun c => (digitOf c).isSome
    match number.drop digits.length with
    | c :: _ => if blank ≠ number ∧ c = codePoint 0x2D then readNat digits else none
    | [] => none
  else none

/-- `_CONTENT_RANGE.search(header)`, as the number it finds. -/
def rangeStart : PyStr → Option Nat
  | [] => none
  | c :: s => rangeHere (c :: s) <|> rangeStart s

example : rangeStart (lit "bytes 100-638/639") = some 100 := by decide

/-! ## An attempt -/

/-- Why an attempt ended without the model. -/
inductive Stop where
  | stray | noRange | wrongRange | shorter | httpError | incomplete | mismatch
  | cancelled | raised
  deriving DecidableEq

/-- The open partial: the bytes counted so far, those of them that are still buffered, and the chunk
that is about to be written. -/
structure Handle where
  haveBytes : Nat
  buffer : Bytes
  chunk : Bytes
  deriving DecidableEq

inductive Phase where
  | ended (stop : Option Stop)
  | isStray
  | makeDir
  | measure
  | discard
  | request (haveBytes : Nat)
  | respond (haveBytes : Nat)
  | openPartial (haveBytes : Nat) (response : Response)
  | loop (h : Handle)
  | read (h : Handle)
  | write (h : Handle)
  | finish (h : Handle)
  | close (h : Handle) (stop : Option Stop)
  | verify (fed : Bytes)
  | reject
  | promote
  deriving DecidableEq

/-- The two paths, the attempt, its cancel flag, and whether an attempt has opened the partial for
writing yet. -/
structure State where
  final : Option Bytes
  part : Option Bytes
  phase : Phase
  cancel : Bool
  wrote : Bool
  deriving DecidableEq

/-- What happens next.  `fails n` is a step that raises, a write with `n` bytes of the chunk taken. -/
inductive Action where
  | start
  | goesOn
  | fails (n : Nat)
  | responds (response : Response)
  | httpError (code : Nat)
  | receives (body : Bytes)
  | flush (n : Nat)
  | cancel
  | kill
  deriving DecidableEq

def fileBytes (file : Option Bytes) : Nat := (file.map List.length).getD 0

namespace State

def goto (s : State) (phase : Phase) : State := { s with phase := phase }

def stop (s : State) (why : Stop) : State := s.goto (.ended (some why))

/-- `partial.stat().st_size if partial.exists() else 0`. -/
def partBytes (s : State) : Nat := fileBytes s.part

def written (s : State) (bytes : Bytes) : State := { s with part := s.part.map (· ++ bytes) }

end State

/-- `mode == "ab"`. -/
def appends (haveBytes : Nat) (response : Response) : Bool := response.status = 206 && haveBytes ≠ 0

variable (hexdigest : Bytes → PyStr) (entry : CatalogEntry)

/-- `_require_range_starts_at`, and what stands around it. -/
def accept (haveBytes : Nat) (response : Response) : Except Stop Nat :=
  if response.status ≠ 206 then .ok 0
  else if haveBytes = 0 then .ok 0
  else
    match rangeStart response.contentRange with
    | none => .error .noRange
    | some start => if start = haveBytes then .ok haveBytes else .error .wrongRange

/-- The next step of an attempt, when nothing outside it intervenes. -/
@[grind =]
def advance (s : State) : Phase → Option State
  | .isStray =>
    match s.final with
    | some file =>
      -- an empty file has no bytes that could be stray
      some (if file.length = entry.sizeBytes ∨ file.length = 0 then s.goto (.ended none)
        else s.stop .stray)
    | none => some (s.goto .makeDir)
  | .makeDir => some (s.goto .measure)
  | .measure =>
    some (s.goto (if s.partBytes > entry.sizeBytes then .discard else .request s.partBytes))
  | .discard => some { s.goto (.request 0) with part := none }
  | .request haveBytes => some (if s.cancel then s.stop .cancelled else s.goto (.respond haveBytes))
  | .openPartial haveBytes response =>
    some { s.goto (.loop ⟨haveBytes, [], []⟩) with
      part := some (if appends haveBytes response then s.part.getD [] else [])
      wrote := true }
  | .loop h =>
    some (s.goto
      (if h.haveBytes < entry.sizeBytes then
        if s.cancel then .close h (some .cancelled) else .read h
      else .finish h))
  | .write h =>
    some (s.goto (.loop ⟨h.haveBytes + h.chunk.length, h.buffer ++ h.chunk, []⟩))
  | .finish h => some (s.goto (.close h (if s.cancel then some .cancelled else none)))
  | .close h stop =>
    let closed := s.written h.buffer
    some (closed.goto
      (match stop with
      | some why => .ended (some why)
      | none => if h.haveBytes ≠ entry.sizeBytes then .ended (some .incomplete) else .verify []))
  | .verify fed =>
    let block := ((s.part.getD []).drop fed.length).take chunkBytes
    some (s.goto
      (if block ≠ [] then .verify (fed ++ block)
      else if hexdigest fed = entry.sha256 then .promote else .reject))
  | .reject => some { s.stop .mismatch with part := none }
  | .promote => some { s.goto (.ended none) with final := s.part, part := none }
  | .ended _ | .respond _ | .read _ => none

/-- A step that raises: it leaves the handle, if there is one, to be closed, and is a cancel where
the flag is set (`_watching`). -/
def raises (s : State) (n : Nat) : Phase → Option State
  | .ended _ => none
  | .loop h | .read h | .finish h =>
    some (s.goto (.close h (some (if s.cancel then .cancelled else .raised))))
  | .write h =>
    some (s.goto (.close { h with buffer := h.buffer ++ h.chunk.take n }
      (some (if s.cancel then .cancelled else .raised))))
  | _ => some (s.stop .raised)

def Phase.flushed (n : Nat) : Phase → Option (Bytes × Phase)
  | .loop h => some (h.buffer.take n, .loop { h with buffer := h.buffer.drop n })
  | .read h => some (h.buffer.take n, .read { h with buffer := h.buffer.drop n })
  | .finish h => some (h.buffer.take n, .finish { h with buffer := h.buffer.drop n })
  | .write h => some (h.buffer.take n, .write { h with buffer := h.buffer.drop n })
  | .close h stop => some (h.buffer.take n, .close { h with buffer := h.buffer.drop n } stop)
  | _ => none

def State.step (s : State) : Action → Option State
  | .start =>
    match s.phase with
    | .ended _ => some { s.goto .isStray with cancel := false }
    | _ => none
  | .goesOn => advance hexdigest entry s s.phase
  | .fails n => raises s n s.phase
  | .responds response =>
    match s.phase with
    | .respond haveBytes =>
      match accept haveBytes response with
      | .ok haveBytes => some (s.goto (.openPartial haveBytes response))
      | .error why => some (s.stop why)
    | _ => none
  | .httpError code =>
    match s.phase with
    | .respond haveBytes =>
      if haveBytes ≠ 0 ∧ code = 416 then
        some (if haveBytes ≠ entry.sizeBytes then s.stop .shorter else s.goto (.verify []))
      else some (s.stop .httpError)
    | _ => none
  | .receives body =>
    match s.phase with
    | .read h =>
      -- `response.read` returns no more than it is asked for
      let chunk := body.take (min chunkBytes (entry.sizeBytes - h.haveBytes))
      some (s.goto (if chunk = [] then .finish h else .write { h with chunk := chunk }))
    | _ => none
  | .flush n => (s.phase.flushed n).map fun r => (s.written r.1).goto r.2
  | .cancel => some { s with cancel := true }
  | .kill => some (s.goto (.ended (some .raised)))

/-! ## What a download is trusted for -/

/-- No attempt is running, nothing is installed, and whatever an earlier one left may be there. -/
structure State.Start (s : State) : Prop where
  resting : ∃ stop, s.phase = .ended stop
  absent : s.final = none
  fresh : s.wrote = false

/-- What is installed is the recorded file, the partial is no longer than it once an attempt has
written, and where the partial is about to be appended to, the server sends the bytes behind it. -/
structure State.Trusted (s : State) : Prop where
  installed : ∀ file, s.final = some file → hexdigest file = entry.sha256
  bounded : s.wrote = true → s.partBytes ≤ entry.sizeBytes
  spliced : ∀ haveBytes response, s.phase = .openPartial haveBytes response →
    appends haveBytes response = true →
      response.status = 206 ∧ rangeStart response.contentRange = some s.partBytes

/-! ## The invariant -/

structure Handle.Fits (part : Option Bytes) (h : Handle) : Prop where
  there : part.isSome
  counted : fileBytes part + h.buffer.length = h.haveBytes
  room : h.haveBytes + h.chunk.length ≤ entry.sizeBytes

def Phase.Sound (part : Option Bytes) : Phase → Prop
  | .request haveBytes | .respond haveBytes =>
    fileBytes part = haveBytes ∧ haveBytes ≤ entry.sizeBytes
  | .openPartial haveBytes response =>
    if appends haveBytes response then
      fileBytes part = haveBytes ∧ haveBytes ≤ entry.sizeBytes ∧
        rangeStart response.contentRange = some haveBytes
    else haveBytes = 0
  | .loop h | .read h | .write h | .finish h => h.Fits entry part
  | .close h _ => part.isSome ∧ fileBytes part + h.buffer.length ≤ entry.sizeBytes
  | .verify fed => ∃ file, part = some file ∧ fed <+: file
  | .promote => ∃ file, part = some file ∧ hexdigest file = entry.sha256
  | .ended _ | .isStray | .makeDir | .measure | .discard | .reject => True

structure State.Inv (s : State) : Prop where
  installed : ∀ file, s.final = some file → hexdigest file = entry.sha256
  bounded : s.wrote = true → s.partBytes ≤ entry.sizeBytes
  sound : s.phase.Sound hexdigest entry s.part

section Steps

variable {hexdigest : Bytes → PyStr} {entry : CatalogEntry} {s s' : State} {part : Option Bytes}

theorem fileBytes_append (hpart : part.isSome) (bytes : Bytes) :
    fileBytes (part.map (· ++ bytes)) = fileBytes part + bytes.length := by
  obtain ⟨file, rfl⟩ := Option.isSome_iff_exists.1 hpart
  exact List.length_append

theorem exists_file (h : fileBytes part ≠ 0) : ∃ file, part = some file := by
  cases part with
  | none => exact absurd rfl h
  | some file => exact ⟨file, rfl⟩

/-- A step that leaves the files alone has to say where it goes only. -/
theorem State.Inv.goto (h : s.Inv hexdigest entry) {phase : Phase}
    (hsound : phase.Sound hexdigest entry s.part) : (s.goto phase).Inv hexdigest entry :=
  ⟨h.installed, h.bounded, hsound⟩

/-- Buffered bytes that fit reach the disk. -/
theorem State.Inv.written (h : s.Inv hexdigest entry) {bytes : Bytes} {phase : Phase}
    (hroom : fileBytes (s.part.map (· ++ bytes)) ≤ entry.sizeBytes)
    (hsound : phase.Sound hexdigest entry (s.part.map (· ++ bytes))) :
    ((s.written bytes).goto phase).Inv hexdigest entry :=
  ⟨h.installed, fun _ => hroom, hsound⟩

theorem inv_openPartial (h : s.Inv hexdigest entry) {haveBytes : Nat} {response : Response}
    (hphase : s.phase = .openPartial haveBytes response)
    (hs : advance hexdigest entry s s.phase = some s') : s'.Inv hexdigest entry := by
  have hsound := h.sound
  rw [hphase] at hs hsound
  rw [advance, Option.some.injEq] at hs
  subst hs
  rw [Phase.Sound] at hsound
  by_cases happends : appends haveBytes response = true
  · rw [if_pos happends] at hsound
    obtain ⟨hcount, hroom, -⟩ := hsound
    -- there is a file, because it is not empty
    have hne : haveBytes ≠ 0 := by
      simp only [appends, Bool.and_eq_true, decide_eq_true_eq] at happends
      exact happends.2
    obtain ⟨file, hfile⟩ := exists_file (hcount ▸ hne)
    have hpart : some (if appends haveBytes response then s.part.getD [] else []) = s.part := by
      rw [if_pos happends, hfile, Option.getD_some]
    refine ⟨h.installed, fun _ => ?_, ?_⟩
    · exact (congrArg fileBytes hpart).trans_le (hcount.trans_le hroom)
    · refine ⟨rfl, ?_, hroom⟩
      exact (congrArg fileBytes hpart).trans hcount
  · rw [if_neg happends] at hsound
    subst hsound
    have hpart : some (if appends 0 response then s.part.getD [] else []) = some [] := by
      rw [if_neg happends]
    refine ⟨h.installed, fun _ => ?_, ⟨rfl, ?_, Nat.zero_le _⟩⟩
    · exact (congrArg fileBytes hpart).trans_le (Nat.zero_le _)
    · exact congrArg fileBytes hpart

/-- The blocks that have been read are all of the file when there is no next one. -/
theorem prefix_of_block {fed file : Bytes} (hfed : fed <+: file) :
    fed ++ (file.drop fed.length).take chunkBytes <+: file ∧
      ((file.drop fed.length).take chunkBytes = [] → fed = file) := by
  obtain ⟨rest, rfl⟩ := hfed
  rw [List.drop_left]
  refine ⟨(List.prefix_append_right_inj fed).2 (List.take_prefix _ _), fun hnone => ?_⟩
  cases rest with
  | nil => exact (List.append_nil fed).symm
  | cons b rest => simp [chunkBytes] at hnone

theorem inv_verify (h : s.Inv hexdigest entry) {fed : Bytes} (hphase : s.phase = .verify fed)
    (hs : advance hexdigest entry s s.phase = some s') : s'.Inv hexdigest entry := by
  have hsound := h.sound
  rw [hphase] at hs hsound
  rw [advance, Option.some.injEq] at hs
  subst hs
  obtain ⟨file, hfile, hfed⟩ := hsound
  obtain ⟨hmore, hall⟩ := prefix_of_block hfed
  rw [hfile, Option.getD_some]
  split_ifs with hblock hdigest
  · exact h.goto ⟨file, hfile, hmore⟩
  · exact h.goto ⟨file, hfile, hall (not_not.1 hblock) ▸ hdigest⟩
  · exact h.goto trivial

theorem Handle.Fits.closes {handle : Handle} (h : handle.Fits entry part) {taken : Bytes}
    (htaken : taken.length ≤ handle.chunk.length) :
    fileBytes part + (handle.buffer ++ taken).length ≤ entry.sizeBytes := by
  have hcounted := h.counted
  have hroom := h.room
  rw [List.length_append]
  omega

theorem inv_advance (h : s.Inv hexdigest entry) (hs : advance hexdigest entry s s.phase = some s') :
    s'.Inv hexdigest entry := by
  have hsound := h.sound
  cases hphase : s.phase with
  | ended _ | respond _ | read _ => simp [advance, hphase] at hs
  | openPartial haveBytes response => exact inv_openPartial h hphase hs
  | verify fed => exact inv_verify h hphase hs
  | isStray =>
    rw [hphase, advance] at hs
    split at hs
    · cases hs
      split_ifs
      · exact h.goto trivial
      · exact h.goto trivial
    · cases hs
      exact h.goto trivial
  | makeDir =>
    rw [hphase, advance, Option.some.injEq] at hs
    exact hs ▸ h.goto trivial
  | measure =>
    rw [hphase, advance, Option.some.injEq] at hs
    subst hs
    split_ifs with hlong
    · exact h.goto trivial
    · exact h.goto ⟨rfl, not_lt.1 hlong⟩
  | discard =>
    rw [hphase, advance, Option.some.injEq] at hs
    subst hs
    exact ⟨h.installed, fun _ => Nat.zero_le _, rfl, Nat.zero_le _⟩
  | request haveBytes =>
    rw [hphase] at hs hsound
    rw [advance, Option.some.injEq] at hs
    subst hs
    split_ifs
    · exact h.goto trivial
    · exact h.goto hsound
  | loop handle =>
    rw [hphase] at hs hsound
    rw [advance, Option.some.injEq] at hs
    subst hs
    split_ifs
    · exact h.goto ⟨hsound.there, by simpa using hsound.closes (List.nil_sublist _).length_le⟩
    · exact h.goto hsound
    · exact h.goto hsound
  | write handle =>
    rw [hphase] at hs hsound
    rw [advance, Option.some.injEq] at hs
    subst hs
    refine h.goto ⟨hsound.there, ?_, hsound.room⟩
    rw [List.length_append, ← Nat.add_assoc, hsound.counted]
  | finish handle =>
    rw [hphase] at hs hsound
    rw [advance, Option.some.injEq] at hs
    subst hs
    exact h.goto ⟨hsound.there, by simpa using hsound.closes (List.nil_sublist _).length_le⟩
  | close handle stop =>
    rw [hphase] at hs hsound
    cases hs
    obtain ⟨hthere, hroom⟩ := hsound
    refine h.written ((fileBytes_append hthere _).trans_le hroom) ?_
    cases stop with
    | some why => exact trivial
    | none =>
      obtain ⟨file, hfile⟩ := Option.isSome_iff_exists.1 hthere
      split_ifs
      · exact trivial
      · exact ⟨file ++ handle.buffer, by rw [hfile]; rfl, List.nil_prefix⟩
  | reject =>
    rw [hphase, advance, Option.some.injEq] at hs
    subst hs
    exact ⟨h.installed, fun _ => Nat.zero_le _, trivial⟩
  | promote =>
    rw [hphase] at hs hsound
    rw [advance, Option.some.injEq] at hs
    subst hs
    obtain ⟨file, hfile, hdigest⟩ := hsound
    refine ⟨fun installed hinstalled => ?_, fun _ => Nat.zero_le _, trivial⟩
    obtain rfl : file = installed := Option.some.inj (hfile.symm.trans hinstalled)
    exact hdigest

theorem inv_raises (h : s.Inv hexdigest entry) {n : Nat} (hs : raises s n s.phase = some s') :
    s'.Inv hexdigest entry := by
  have hsound := h.sound
  cases hphase : s.phase with
  | ended stop => simp [raises, hphase] at hs
  | loop handle | read handle | finish handle =>
    rw [hphase] at hs hsound
    cases hs
    exact h.goto ⟨hsound.there, by simpa using hsound.closes (List.nil_sublist _).length_le⟩
  | write handle =>
    rw [hphase] at hs hsound
    cases hs
    exact h.goto ⟨hsound.there, hsound.closes (List.take_sublist n _).length_le⟩
  | _ =>
    rw [hphase] at hs
    cases hs
    exact h.goto trivial

/-- The first buffered bytes move to the disk. -/
theorem Handle.Fits.flush {handle : Handle} (h : handle.Fits entry part) (n : Nat) :
    Handle.Fits entry (part.map (· ++ handle.buffer.take n))
      { handle with buffer := handle.buffer.drop n } where
  there := by simpa using h.there
  counted := by
    rw [fileBytes_append h.there, Nat.add_assoc, ← List.length_append, List.take_append_drop]
    exact h.counted
  room := h.room

theorem inv_flush (h : s.Inv hexdigest entry) {n : Nat} {bytes : Bytes} {phase : Phase}
    (hs : s.phase.flushed n = some (bytes, phase)) :
    ((s.written bytes).goto phase).Inv hexdigest entry := by
  have hsound := h.sound
  cases hphase : s.phase with
  | loop handle | read handle | write handle | finish handle =>
    rw [hphase] at hs hsound
    obtain ⟨rfl, rfl⟩ := Prod.mk.inj (Option.some.inj hs)
    have hfits := hsound.flush n
    refine h.written ?_ hfits
    have hcounted := hfits.counted
    have hroom := hfits.room
    omega
  | close handle stop =>
    rw [hphase] at hs hsound
    obtain ⟨rfl, rfl⟩ := Prod.mk.inj (Option.some.inj hs)
    obtain ⟨hthere, hroom⟩ := hsound
    have hmoved : fileBytes (s.part.map (· ++ handle.buffer.take n)) + (handle.buffer.drop n).length =
        fileBytes s.part + handle.buffer.length := by
      rw [fileBytes_append hthere, Nat.add_assoc, ← List.length_append, List.take_append_drop]
    exact h.written ((Nat.le_add_right _ _).trans (hmoved.trans_le hroom))
      ⟨by simpa using hthere, hmoved.trans_le hroom⟩
  | _ => simp [Phase.flushed, hphase] at hs

/-- A response that is appended is a 206 whose range begins at the end of the partial. -/
theorem accept_eq_ok {haveBytes got : Nat} {response : Response}
    (h : accept haveBytes response = .ok got) :
    got = haveBytes ∧ appends got response = true ∧
        rangeStart response.contentRange = some haveBytes ∨ got = 0 := by
  rw [accept] at h
  split_ifs at h with hstatus hempty
  · exact .inr (Except.ok.inj h).symm
  · exact .inr (Except.ok.inj h).symm
  · cases hstart : rangeStart response.contentRange with
    | none => simp [hstart] at h
    | some start =>
      simp only [hstart] at h
      split_ifs at h with hsame
      cases h
      exact .inl ⟨rfl, by simp [appends, not_not.1 hstatus, hempty], congrArg some hsame⟩

theorem inv_responds (h : s.Inv hexdigest entry) {haveBytes : Nat} {response : Response}
    (hphase : s.phase = .respond haveBytes) {got : Nat} (hgot : accept haveBytes response = .ok got) :
    (s.goto (.openPartial got response)).Inv hexdigest entry := by
  have hsound := h.sound
  rw [hphase] at hsound
  obtain ⟨hcount, hroom⟩ := hsound
  refine h.goto ?_
  rw [Phase.Sound]
  rcases accept_eq_ok hgot with ⟨rfl, happends, hstart⟩ | rfl
  · rw [if_pos happends]
    exact ⟨hcount, hroom, hstart⟩
  · rw [if_neg (by simp [appends])]

/-- The whole partial is hashed where the server has nothing past it. -/
theorem inv_httpError (h : s.Inv hexdigest entry) {haveBytes : Nat} (hne : haveBytes ≠ 0)
    (hphase : s.phase = .respond haveBytes) : (s.goto (.verify [])).Inv hexdigest entry := by
  have hsound := h.sound
  rw [hphase] at hsound
  obtain ⟨file, hfile⟩ := exists_file (hsound.1 ▸ hne)
  exact h.goto ⟨file, hfile, List.nil_prefix⟩

theorem inv_receives (h : s.Inv hexdigest entry) {handle : Handle} (hphase : s.phase = .read handle)
    (body : Bytes) :
    (s.goto (.write { handle with
      chunk := body.take (min chunkBytes (entry.sizeBytes - handle.haveBytes)) })).Inv
        hexdigest entry := by
  have hsound := h.sound
  rw [hphase] at hsound
  refine h.goto ⟨hsound.there, hsound.counted, ?_⟩
  have hroom : handle.haveBytes ≤ entry.sizeBytes := (Nat.le_add_right _ _).trans hsound.room
  have htaken : (body.take (min chunkBytes (entry.sizeBytes - handle.haveBytes))).length ≤
      entry.sizeBytes - handle.haveBytes :=
    (List.length_take_le _ _).trans (Nat.min_le_right _ _)
  calc
    handle.haveBytes + _ ≤ handle.haveBytes + (entry.sizeBytes - handle.haveBytes) :=
      Nat.add_le_add_left htaken _
    _ = entry.sizeBytes := Nat.add_sub_cancel' hroom

theorem inv_step {a : Action} (h : s.Inv hexdigest entry) (hs : s.step hexdigest entry a = some s') :
    s'.Inv hexdigest entry := by
  cases a with
  | start =>
    rw [State.step] at hs
    split at hs
    · cases hs
      exact ⟨h.installed, h.bounded, trivial⟩
    · cases hs
  | goesOn => exact inv_advance h hs
  | fails n => exact inv_raises h hs
  | responds response =>
    rw [State.step] at hs
    split at hs
    · next haveBytes hphase =>
        split at hs
        · next got hgot =>
            cases hs
            exact inv_responds h hphase hgot
        · cases hs
          exact h.goto trivial
    · cases hs
  | httpError code =>
    rw [State.step] at hs
    split at hs
    · next haveBytes hphase =>
        split_ifs at hs with hcode hshort
        · cases hs
          exact h.goto trivial
        · cases hs
          exact inv_httpError h hcode.1 hphase
        · cases hs
          exact h.goto trivial
    · cases hs
  | receives body =>
    rw [State.step] at hs
    split at hs
    · next handle hphase =>
        cases hs
        split_ifs
        · have hsound := h.sound
          rw [hphase] at hsound
          exact h.goto hsound
        · exact inv_receives h hphase body
    · cases hs
  | flush n =>
    obtain ⟨⟨bytes, phase⟩, hflushed, rfl⟩ := Option.map_eq_some_iff.1 hs
    exact inv_flush h hflushed
  | cancel =>
    cases hs
    exact ⟨h.installed, h.bounded, h.sound⟩
  | kill =>
    cases hs
    exact h.goto trivial

theorem inv_start (h : s.Start) : s.Inv hexdigest entry where
  installed := fun file hfile => by rw [h.absent] at hfile; cases hfile
  bounded := fun hwrote => by rw [h.fresh] at hwrote; cases hwrote
  sound := by
    obtain ⟨stop, hphase⟩ := h.resting
    rw [hphase]
    trivial

theorem State.Inv.trusted (h : s.Inv hexdigest entry) : s.Trusted hexdigest entry where
  installed := h.installed
  bounded := h.bounded
  spliced := by
    intro haveBytes response hphase happends
    have hsound := h.sound
    rw [hphase, Phase.Sound, if_pos happends] at hsound
    obtain ⟨hcount, -, hstart⟩ := hsound
    refine ⟨?_, hstart.trans (congrArg some hcount.symm)⟩
    simp only [appends, Bool.and_eq_true, decide_eq_true_eq] at happends
    exact happends.1

end Steps

/-- Whatever the server answers and wherever the process is killed, only the recorded file is ever
installed. -/
theorem installs_verified {s : State}
    (h : Reachable (State.step hexdigest entry) (fun _ _ => True) State.Start s) :
    s.Trusted hexdigest entry := by
  have hstart : ∀ s, State.Start s → s.Inv hexdigest entry := fun s hs => inv_start hs
  have hstep : ∀ (s : State) (a : Action) (s' : State), s.Inv hexdigest entry → True →
      s.step hexdigest entry a = some s' → s'.Inv hexdigest entry :=
    fun s a s' hinv _ hs => inv_step hinv hs
  exact (Reachable.invariant hstart hstep h).trusted

/-! ## A resumed download -/

def plainDigest (file : Bytes) : PyStr := file.map fun b => codePoint b.val

def smallEntry : CatalogEntry := ⟨3, plainDigest [1, 2, 3]⟩

/-- A download that is resumed behind its first byte, and one kill on the way. -/
def resumed : List Action :=
  [.start, .goesOn, .goesOn, .goesOn, .goesOn, .responds ⟨206, lit "bytes 1-2/3"⟩, .goesOn, .goesOn,
    .receives [2, 3], .goesOn, .flush 1, .kill,
    .start, .goesOn, .goesOn, .goesOn, .goesOn, .responds ⟨206, lit "bytes 2-2/3"⟩, .goesOn, .goesOn,
    .receives [3, 4], .goesOn, .goesOn, .goesOn, .goesOn, .goesOn, .goesOn, .goesOn]

def leftBehind : State := ⟨none, some [1], .ended none, false, false⟩

theorem leftBehind_start : leftBehind.Start := ⟨⟨none, rfl⟩, rfl, rfl⟩

theorem installs_verified_resumed :
    ∃ s, Reachable (State.step plainDigest smallEntry) (fun _ _ => True) State.Start s ∧
      s.final = some [1, 2, 3] ∧ s.Trusted plainDigest smallEntry := by
  let test (s : State) : Bool := s.final = some [1, 2, 3]
  have hrun : ∃ s, Reachable (State.step plainDigest smallEntry) (fun _ _ => True) State.Start s ∧
      test s :=
    Reachable.exists_of_foldlM resumed test (.start leftBehind_start) (by decide)
  obtain ⟨s, hs, hfinal⟩ := hrun
  exact ⟨s, hs, of_decide_eq_true hfinal, installs_verified plainDigest smallEntry hs⟩

end Download
end Tempest
