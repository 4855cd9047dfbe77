import Tempest.Api.Timeline
import Tempest.Python.Dict
import Tempest.Python.Json

/-!
# Content — the stored message and the streamed one (`chatturn.py`, `agentturn.py`)

A turn streams deltas and content parts, each under an index, and stores a message whose content is a
list of parts.  The content is put together from what the worker collected beside the stream, or, where
the process died, from the flushed events.  `Turn` has the events of a plain chat or of an agent and how
they end, and `streamed` is the fold of the frames that a client keeps.
-/

namespace Tempest
namespace Content

open Python

/-! ## Parts and frames -/

structure ToolCall where
  name : PyStr
  args : Json
  id : PyStr
  output : PyStr := []
  progress : Bool := false

/-- A content part; a call that is open holds its place. -/
inductive Part where
  | text (value : PyStr)
  | think (value : PyStr)
  | toolCall (call : Option ToolCall)
  | activityLabel (label : PyStr) (toolCallIds : Option (List PyStr))
  | steer (text : PyStr) (createdAt : Int)
  | error (message remedy : PyStr)

def Part.isError : Part → Bool
  | .error _ _ => true
  | _ => false

inductive Frame where
  | messageDelta (text : PyStr)
  | thinkStep
  | reasoningDelta (text : PyStr)
  | runStep (index : Nat) (call : ToolCall)
  | runStepCompleted (index : Nat) (call : ToolCall)
  | part (index : Nat) (part : Part)
  | event (name : PyStr)

def reasoningIndex : Nat := 1

/-! ## The fold of the stream -/

/-- One frame on the content slot `k`. -/
@[grind =]
def absorb (k : Nat) (slot : Option Part) : Frame → Option Part
  | .messageDelta text =>
    if k = 0 then
      match slot with
      | some (.text value) => some (.text (value ++ text))
      | _ => some (.text text)
    else slot
  | .thinkStep => if k = reasoningIndex then some (.think []) else slot
  | .reasoningDelta text =>
    if k = reasoningIndex then
      match slot with
      | some (.think value) => some (.think (value ++ text))
      | _ => some (.think text)
    else slot
  | .runStep index call | .runStepCompleted index call =>
    if k = index then some (.toolCall (some call)) else slot
  | .part index part => if k = index then some part else slot
  | .event _ => slot

/-- The part that was streamed under the index `k`. -/
def streamed (frames : List Frame) (k : Nat) : Option Part := frames.foldl (absorb k) none

/-- The content list of `_finish`. -/
def assemble (text : PyStr) (extraParts : List Part) (error : Option (PyStr × PyStr)) : List Part :=
  (if text = [] then [] else [.text text]) ++ extraParts ++
    (error.map fun e => Part.error e.1 e.2).toList

/-! ## Plain chat -/

inductive Chunk where
  | text (text : PyStr)
  | reasoning (text : PyStr)
  | usage

inductive Ending where
  | complete
  | aborted
  | failed (message remedy : PyStr)

def Ending.error : Ending → Option (PyStr × PyStr)
  | .failed message remedy => some (message, remedy)
  | _ => none

def opening : List Frame := [.event (lit "created"), .event (lit "on_run_step")]

structure ChatState where
  frames : List Frame := opening
  collected : List PyStr := []
  thinking : List PyStr := []

namespace ChatState

def say (s : ChatState) (text : PyStr) : ChatState :=
  { s with collected := s.collected ++ [text], frames := s.frames ++ [.messageDelta text] }

/-- `think`: the first thinking chunk opens the step. -/
def think (s : ChatState) (text : PyStr) : ChatState :=
  { s with
    frames := s.frames ++ (if s.thinking = [] then [.thinkStep] else []) ++ [.reasoningDelta text]
    thinking := s.thinking ++ [text] }

def chunk (s : ChatState) : Chunk → ChatState
  | .text text => s.say text
  | .reasoning text => s.think text
  | .usage => s

def note (s : ChatState) : PyStr :=
  if s.thinking ≠ [] then
    lit ("The model used its whole reply budget thinking and never reached an answer. Its thinking is " ++
      "below. Ask again, or raise the reply length in Settings.")
  else
    lit ("The model returned an empty reply — no text and no error. Ask again, or try a different " ++
      "model.")

def settle (s : ChatState) : Ending → ChatState
  | .complete => if s.collected = [] then s.say s.note else s
  | _ => s

def extraParts (s : ChatState) : List Part :=
  if s.thinking = [] then [] else [.think s.thinking.flatten]

end ChatState

/-- `_run_turn`, up to `_finish`. -/
def runTurn (chunks : List Chunk) (ending : Ending) : ChatState :=
  (chunks.foldl ChatState.chunk {}).settle ending

/-! ## Agents -/

/-- An event of the agent, and a follow-up that is applied. -/
inductive Event where
  | narration (text : PyStr)
  | toolCallStarted (name : PyStr) (args : Json) (callId : PyStr)
  | toolCallFinished (callId detail : PyStr)
  | turnUsage (gauge : Bool)
  | proving
  | stopped (costCap : Bool) (reason : PyStr)
  | parked
  | steer (text : PyStr) (createdAt : Int)

/-- `_ACTIVITY_LABELS.get(name, "Working")`. -/
def activityLabel (name : PyStr) : PyStr :=
  if name = lit "read_file" ∨ name = lit "list_dir" then lit "Reading the repository"
  else if name = lit "search_text" then lit "Searching the repository"
  else if name = lit "write_file" then lit "Editing in the shadow worktree"
  else if name = lit "run_command" then lit "Running commands"
  else if name = lit "prove" then lit "Proving the change"
  else if name = lit "ask_user" then lit "Waiting on you"
  else lit "Working"

def stopNote (costCap : Bool) (reason : PyStr) : PyStr :=
  if costCap then
    lit "I stopped early: the cost cap was reached (" ++ reason ++
      lit ("). What I had already staged was still proved — raise the cap or start a new turn to " ++
        "continue.")
  else
    lit "I stopped early: the model became unavailable (" ++ reason ++
      lit ("). What I had already staged was still proved — try again once the provider answers.")

/-- What the worker of an agent's turn keeps: `opened` has the index of a started call. -/
structure AgentState where
  frames : List Frame := opening
  collected : List PyStr := []
  extraParts : List Part := []
  nextIndex : Nat := 1
  opened : Dict PyStr (Nat × ToolCall) := Dict.empty
  label : PyStr := []
  ids : List PyStr := []

namespace AgentState

/-- `allocate`, with the frame that publishes the part. -/
def allocate (s : AgentState) (part : Part) : AgentState :=
  { s with
    nextIndex := s.nextIndex + 1
    extraParts := s.extraParts ++ [part]
    frames := s.frames ++ [.part s.nextIndex part] }

def closeBatch (s : AgentState) : AgentState :=
  if s.label = [] then s
  else { s.allocate (.activityLabel s.label (some s.ids)) with label := [], ids := [] }

def noteCall (s : AgentState) (label callId : PyStr) : AgentState :=
  let s := if s.label ≠ [] ∧ label ≠ s.label then s.closeBatch else s
  { s with label := label, ids := s.ids ++ [callId] }

def narrate (s : AgentState) (text : PyStr) : AgentState :=
  let chunk := if s.collected = [] then text else lit "\n\n" ++ text
  { s with collected := s.collected ++ [chunk], frames := s.frames ++ [.messageDelta chunk] }

/-- A slot is reserved for a call, to be filled when it is finished. -/
def openCall (s : AgentState) (call : ToolCall) : AgentState :=
  { s with
    nextIndex := s.nextIndex + 1
    opened := s.opened.set call.id (s.nextIndex, call)
    extraParts := s.extraParts ++ [.toolCall none]
    frames := s.frames ++ [.runStep s.nextIndex call] }

def finishCall (s : AgentState) (callId detail : PyStr) : AgentState :=
  match s.opened.get? callId with
  | none => s
  | some (index, call) =>
    let done := { call with output := detail, progress := true }
    { s with
      opened := s.opened.filterKeys (· ≠ callId)
      extraParts := s.extraParts.set (index - 1) (.toolCall (some done))
      frames := s.frames ++ [.runStepCompleted index done] }

def say (s : AgentState) (frames : List Frame) : AgentState := { s with frames := s.frames ++ frames }

/-- `emit`, and the parts of `steer_source`. -/
def emit (s : AgentState) : Event → AgentState
  | .narration text => s.narrate text
  | .toolCallStarted name args callId =>
    (s.noteCall (activityLabel name) callId).openCall { name := name, args := args, id := callId }
  | .toolCallFinished callId detail => s.finishCall callId detail
  | .turnUsage gauge =>
    s.say (.event (lit "on_token_usage") :: if gauge then [.event (lit "on_context_usage")] else [])
  | .proving => s.closeBatch.allocate (.activityLabel (lit "Proving the change") none)
  | .stopped costCap reason => s.narrate (stopNote costCap reason)
  | .parked => s.say [.event (lit "on_pending_action")]
  | .steer text createdAt => s.allocate (.steer text createdAt)

/-- The slots of the calls that were started and never came back. -/
def fill (parts : List Part) (opened : List (PyStr × Nat × ToolCall)) : List Part :=
  opened.foldl (fun parts item => parts.set (item.2.1 - 1) (.toolCall (some item.2.2))) parts

end AgentState

/-- `run_agent_turn`, up to `_finish`. -/
def runAgentTurn (events : List Event) : AgentState :=
  let s := (events.foldl AgentState.emit {}).closeBatch
  { s with extraParts := AgentState.fill s.extraParts s.opened.items }

/-! ## Turns -/

/-- What a turn was given: `cap` is the note that `_record_spend` returns when it is refused a charge. -/
inductive Turn where
  | chat (chunks : List Chunk) (ending : Ending) (cap : Option PyStr)
  | agent (events : List Event) (ending : Ending)

/-- The terminal commit was made, or the process died with that many frames published and that many of
them flushed. -/
inductive Outcome where
  | committed
  | died (published flushed : Nat)

def Chunk.isUsage : Chunk → Bool
  | .usage => true
  | _ => false

def ChatState.charge (s : ChatState) (chunks : List Chunk) (cap : Option PyStr) : ChatState :=
  if chunks.any Chunk.isUsage then
    match cap with
    | some note => s.say note
    | none => s
  else s

/-- The frames of the terminal commit after the note of the charge. -/
def receipts (chunks : List Chunk) : List Frame :=
  (if chunks.any Chunk.isUsage then [.event (lit "on_token_usage")] else []) ++ [.event (lit "final")]

namespace Turn

def frames : Turn → List Frame
  | .chat chunks ending _ => (runTurn chunks ending).frames
  | .agent events _ => (runAgentTurn events).frames

def sent : Turn → Outcome → List Frame
  | .chat chunks ending cap, .committed =>
    ((runTurn chunks ending).charge chunks cap).frames ++ receipts chunks
  | .agent events _, .committed => (runAgentTurn events).frames ++ receipts []
  | turn, .died published _ => turn.frames.take published

end Turn

def Frame.wire : Frame → ChatTurn.Frame
  | .messageDelta text => .delta .message (lit "step_0") text
  | .reasoningDelta text => .delta .reasoning (lit "step_1") text
  | .thinkStep | .runStep _ _ => .event (lit "on_run_step")
  | .runStepCompleted _ _ => .event (lit "on_run_step_completed")
  | .part _ (.steer _ _) => .event (lit "on_steer_applied")
  | .part _ _ => .event (lit "on_activity_label")
  | .event name => .event name

/-- The content list of `_reconcile_dead`, from the flushed frames. -/
def reconciled (flushed : List Frame) : List Part :=
  assemble (ChatTurn.Chat.messageText (ChatTurn.bySeq (ChatTurn.numbered 1 (flushed.map Frame.wire))))
    [] none

def Turn.stored : Turn → Outcome → List Part
  | .chat chunks ending cap, .committed =>
    let s := (runTurn chunks ending).charge chunks cap
    assemble s.collected.flatten s.extraParts ending.error
  | .agent events ending, .committed =>
    let s := runAgentTurn events
    assemble s.collected.flatten s.extraParts ending.error
  | turn, .died published flushed => reconciled ((turn.frames.take published).take flushed)

/-- The content has at every index the part that was streamed under it, and nothing else but the error
of the turn. -/
structure Mirrors (content : List Part) (frames : List Frame) : Prop where
  kept : ∀ k part, streamed frames k = some part → content[k]? = some part
  only : ∀ k part, content[k]? = some part → part.isError = false → streamed frames k = some part

/-! ## What has to be streamed -/

def Frame.delta? : Frame → Option PyStr
  | .messageDelta text => some text
  | _ => none

/-- A frame that is about a content slot beside the text. -/
def Frame.isPart : Frame → Bool
  | .messageDelta _ | .event _ => false
  | _ => true

def Frame.isSilent : Frame → Bool
  | .event _ => true
  | _ => false

/-- Some message delta has text, or the stream has no content at all. -/
def Spoken (frames : List Frame) : Prop :=
  (∃ f ∈ frames, ∃ text, f.delta? = some text ∧ text ≠ []) ∨ ∀ f ∈ frames, f.isSilent = true

def distinctCalls : List PyStr → List Event → Bool
  | _, [] => true
  | opened, .toolCallStarted _ _ callId :: events =>
    callId ∉ opened && distinctCalls (callId :: opened) events
  | opened, .toolCallFinished callId _ :: events =>
    distinctCalls (opened.filter (· ≠ callId)) events
  | opened, _ :: events => distinctCalls opened events

def Turn.callsDistinct : Turn → Bool
  | .chat _ _ _ => true
  | .agent events _ => distinctCalls [] events

/-- Where the terminal commit was made: the text is not empty unless there is nothing, and the calls are
apart.  Where the process died: text is all there is, and none of it was still to be flushed. -/
def Turn.Told (turn : Turn) : Outcome → Prop
  | .committed => Spoken (turn.sent .committed) ∧ turn.callsDistinct = true
  | .died published flushed =>
    Spoken (turn.sent (.died published flushed)) ∧
    (∀ f ∈ turn.sent (.died published flushed), f.isPart = false) ∧
    ∀ f ∈ (turn.sent (.died published flushed)).drop flushed, ∀ text, f.delta? = some text → text = []

/-! ## Folding frames -/

def Frame.slot : Frame → Option Nat
  | .messageDelta _ => some 0
  | .thinkStep | .reasoningDelta _ => some reasoningIndex
  | .runStep index _ | .runStepCompleted index _ | .part index _ => some index
  | .event _ => none

def textPart (texts : List PyStr) : Option Part :=
  if texts = [] then none else some (.text texts.flatten)

def thinkPart (texts : List PyStr) : Option Part :=
  if texts = [] then none else some (.think texts.flatten)

def texts (frames : List Frame) : List PyStr := frames.filterMap Frame.delta?

@[simp] theorem texts_append (xs ys : List Frame) : texts (xs ++ ys) = texts xs ++ texts ys :=
  List.filterMap_append

@[simp] theorem texts_cons (f : Frame) (fs : List Frame) :
    texts (f :: fs) = f.delta?.toList ++ texts fs := by
  cases h : f.delta? with
  | none | some _ => simp [texts, h]

@[simp] theorem texts_nil : texts [] = [] := rfl

theorem streamed_append (xs ys : List Frame) (k : Nat) :
    streamed (xs ++ ys) k = ys.foldl (absorb k) (streamed xs k) := by
  rw [streamed, List.foldl_append, ← streamed]

theorem streamed_snoc (frames : List Frame) (f : Frame) (k : Nat) :
    streamed (frames ++ [f]) k = absorb k (streamed frames k) f :=
  streamed_append frames [f] k

theorem absorb_other {k : Nat} {slot : Option Part} {f : Frame} (h : f.slot ≠ some k) :
    absorb k slot f = slot := by
  cases f with
  | messageDelta text =>
    have hk : k ≠ 0 := fun hk => h (by rw [hk]; rfl)
    exact if_neg hk
  | thinkStep | reasoningDelta _ =>
    have hk : k ≠ reasoningIndex := fun hk => h (by rw [hk]; rfl)
    exact if_neg hk
  | runStep index _ | runStepCompleted index _ | part index _ =>
    have hk : k ≠ index := fun hk => h (by rw [hk]; rfl)
    exact if_neg hk
  | event name => rfl

theorem streamed_other {k : Nat} {frames new : List Frame} (h : ∀ f ∈ new, f.slot ≠ some k) :
    streamed (frames ++ new) k = streamed frames k := by
  rw [streamed_append]
  induction new generalizing frames with
  | nil => rfl
  | cons f fs ih =>
    rw [List.foldl_cons, absorb_other (h f List.mem_cons_self)]
    exact ih fun f' hf' => h f' (List.mem_cons_of_mem f hf')

theorem absorb_isSome {k : Nat} {slot : Option Part} (f : Frame)
    (h : slot.isSome = true ∨ f.slot = some k) : (absorb k slot f).isSome = true := by
  by_cases hslot : f.slot = some k
  · cases f with
    | messageDelta text =>
      obtain rfl : 0 = k := Option.some.inj hslot
      simp only [absorb, if_true]
      split <;> rfl
    | reasoningDelta text =>
      obtain rfl : reasoningIndex = k := Option.some.inj hslot
      simp only [absorb, if_true]
      split <;> rfl
    | thinkStep =>
      obtain rfl : reasoningIndex = k := Option.some.inj hslot
      rfl
    | runStep index _ | runStepCompleted index _ | part index _ =>
      obtain rfl : index = k := Option.some.inj hslot
      exact congrArg Option.isSome (if_pos rfl)
    | event name => cases hslot
  · rw [absorb_other hslot]
    exact h.resolve_right hslot

theorem streamed_isSome {k : Nat} {frames : List Frame} {f : Frame} (hf : f ∈ frames)
    (hslot : f.slot = some k) : (streamed frames k).isSome = true := by
  obtain ⟨before, after, rfl⟩ := List.append_of_mem hf
  have hkept : ∀ (fs : List Frame) (slot : Option Part), slot.isSome = true →
      (fs.foldl (absorb k) slot).isSome = true := by
    intro fs
    induction fs with
    | nil => exact fun _ h => h
    | cons g gs ih => exact fun slot h => ih _ (absorb_isSome g (Or.inl h))
  rw [streamed_append, List.foldl_cons]
  exact hkept after _ (absorb_isSome f (Or.inr hslot))

theorem absorb_textPart (xs : List PyStr) (text : PyStr) :
    absorb 0 (textPart xs) (.messageDelta text) = textPart (xs ++ [text]) := by
  by_cases h : xs = []
  · simp [absorb, textPart, h]
  · simp [absorb, textPart, h]

theorem absorb_thinkPart (xs : List PyStr) (text : PyStr) :
    absorb reasoningIndex (thinkPart xs) (.reasoningDelta text) = thinkPart (xs ++ [text]) := by
  by_cases h : xs = []
  · simp [absorb, thinkPart, h]
  · simp [absorb, thinkPart, h]

/-- Deltas and events alone make the text part and no other. -/
theorem streamed_texts {frames : List Frame} (h : ∀ f ∈ frames, f.isPart = false) :
    streamed frames 0 = textPart (texts frames) ∧ ∀ k, streamed frames (k + 1) = none := by
  induction frames using List.reverseRecOn with
  | nil => exact ⟨rfl, fun _ => rfl⟩
  | append_singleton frames f ih =>
    obtain ⟨hzero, hsucc⟩ := ih fun g hg => h g (List.mem_append_left _ hg)
    have hf := h f (List.mem_append_right _ (List.mem_singleton_self f))
    cases f with
    | messageDelta text =>
      refine ⟨?_, fun k => ?_⟩
      · rw [streamed_snoc, hzero, absorb_textPart]
        simp [Frame.delta?]
      · rw [streamed_snoc, hsucc, absorb_other]
        simp [Frame.slot]
    | event name =>
      refine ⟨?_, fun k => ?_⟩
      · rw [streamed_snoc, hzero]
        simp [absorb, Frame.delta?]
      · rw [streamed_snoc, hsucc]
        rfl
    | thinkStep => cases hf
    | reasoningDelta text => cases hf
    | runStep index call => cases hf
    | runStepCompleted index call => cases hf
    | part index part => cases hf

theorem spoken_iff {frames : List Frame} :
    Spoken frames ↔ (texts frames).flatten ≠ [] ∨ ∀ f ∈ frames, f.isSilent = true := by
  have hdelta : (∃ f ∈ frames, ∃ text, f.delta? = some text ∧ text ≠ []) ↔
      (texts frames).flatten ≠ [] := by
    rw [ne_eq, List.flatten_eq_nil_iff]
    simp only [texts, List.mem_filterMap]
    push Not
    exact ⟨fun ⟨f, hf, text, htext, hne⟩ => ⟨text, ⟨f, hf, htext⟩, hne⟩,
      fun ⟨text, ⟨f, hf, htext⟩, hne⟩ => ⟨f, hf, text, htext, hne⟩⟩
  rw [Spoken, hdelta]

/-! ## Content and stream -/

def Part.isBeside : Part → Bool
  | .text _ | .error _ _ => false
  | _ => true

theorem not_error_of_beside {part : Part} (h : part.isBeside = true) : part.isError = false := by
  cases part with
  | error message remedy => cases h
  | text _ | think _ | toolCall _ | activityLabel _ _ | steer _ _ => rfl

theorem textPart_eq_some {xs : List PyStr} {part : Part} (h : textPart xs = some part) :
    part = .text xs.flatten := by
  rw [textPart] at h
  split at h
  · cases h
  · exact (Option.some.inj h).symm

structure Collects (frames : List Frame) (collected : List PyStr) (extraParts : List Part) : Prop where
  text : streamed frames 0 = textPart collected
  texts : texts frames = collected
  silent : (∀ f ∈ frames, f.isSilent = true) ↔ collected = [] ∧ extraParts = []
  beside : ∀ part ∈ extraParts, part.isBeside = true

section Mirroring

variable {frames : List Frame} {collected : List PyStr} {extraParts : List Part}

theorem Collects.spoken (h : Collects frames collected extraParts) :
    Spoken frames ↔ collected.flatten ≠ [] ∨ collected = [] ∧ extraParts = [] := by
  rw [spoken_iff, h.texts, h.silent]

theorem assemble_of_text {text : PyStr} (error : Option (PyStr × PyStr)) (h : text ≠ []) :
    assemble text extraParts error =
      .text text :: (extraParts ++ (error.map fun e => Part.error e.1 e.2).toList) := by
  simp [assemble, h]

theorem assemble_of_no_text (error : Option (PyStr × PyStr)) :
    assemble [] extraParts error =
      extraParts ++ (error.map fun e => Part.error e.1 e.2).toList := by
  simp [assemble]

theorem error_of_behind {error : Option (PyStr × PyStr)} {i : Nat} {part : Part}
    (h : (extraParts ++ (error.map fun e => Part.error e.1 e.2).toList)[i]? = some part)
    (hi : extraParts.length ≤ i) : part.isError = true := by
  rw [List.getElem?_append_right hi] at h
  have hmem := List.mem_of_getElem? h
  rw [Option.mem_toList, Option.map_eq_some_iff] at hmem
  obtain ⟨e, -, rfl⟩ := hmem
  rfl

/-- Without text the parts move up by one. -/
theorem Collects.spoken_of_mirrors (h : Collects frames collected extraParts)
    {error : Option (PyStr × PyStr)}
    (hmirrors : Mirrors (assemble collected.flatten extraParts error) frames) : Spoken frames := by
  rw [h.spoken]
  by_cases htext : collected.flatten = []
  · right
    rw [htext, assemble_of_no_text] at hmirrors
    have hparts : extraParts = [] := by
      cases hextra : extraParts with
      | nil => rfl
      | cons part rest =>
        have hbeside := h.beside part (hextra ▸ List.mem_cons_self)
        have hfirst : (extraParts ++ (error.map fun e => Part.error e.1 e.2).toList)[0]? =
            some part := by simp [hextra]
        have hzero := hmirrors.only 0 part hfirst (not_error_of_beside hbeside)
        rw [h.text] at hzero
        rw [textPart_eq_some hzero] at hbeside
        cases hbeside
    refine ⟨?_, hparts⟩
    by_contra hsome
    have hzero : streamed frames 0 = some (.text []) := by
      rw [h.text, textPart, if_neg hsome, htext]
    have hfirst := hmirrors.kept 0 _ hzero
    rw [hparts] at hfirst
    have herror := @error_of_behind [] _ _ _ hfirst (Nat.le_refl 0)
    cases herror
  · exact Or.inl htext

/-- Where every part stands at its index, some text is all it takes. -/
theorem Collects.mirrors (h : Collects frames collected extraParts)
    (hslots : ∀ i, streamed frames (i + 1) = extraParts[i]?) (error : Option (PyStr × PyStr))
    (hspoken : Spoken frames) : Mirrors (assemble collected.flatten extraParts error) frames := by
  rcases h.spoken.1 hspoken with htext | ⟨hcollected, hparts⟩
  · have hsome : collected ≠ [] := fun hnil => htext (by rw [hnil]; rfl)
    have hzero : streamed frames 0 = some (.text collected.flatten) := by
      rw [h.text, textPart, if_neg hsome]
    rw [assemble_of_text error htext]
    constructor
    case kept =>
      intro k part hk
      cases k with
      | zero => exact hzero.symm.trans hk
      | succ i =>
        rw [hslots] at hk
        rw [List.getElem?_cons_succ, List.getElem?_append_left (List.getElem?_eq_some_iff.1 hk).1]
        exact hk
    case only =>
      intro k part hk hpart
      cases k with
      | zero => exact hzero.trans hk
      | succ i =>
        rw [List.getElem?_cons_succ] at hk
        by_cases hi : i < extraParts.length
        · rw [List.getElem?_append_left hi] at hk
          exact (hslots i).trans hk
        · rw [error_of_behind hk (Nat.le_of_not_lt hi)] at hpart
          cases hpart
  · subst hcollected hparts
    constructor
    case kept =>
      intro k part hk
      cases k with
      | zero => rw [h.text] at hk; cases hk
      | succ i => rw [hslots] at hk; cases hk
    case only =>
      intro k part hk hpart
      rw [List.flatten_nil, assemble_of_no_text] at hk
      rw [@error_of_behind [] _ _ _ hk (Nat.zero_le k)] at hpart
      cases hpart

/-- A slot that was reserved and not filled is another part than the call that was streamed. -/
theorem Collects.not_mirrors (h : Collects frames collected extraParts) {i : Nat} {call : ToolCall}
    (hslot : extraParts[i]? = some (.toolCall none))
    (hcall : streamed frames (i + 1) = some (.toolCall (some call))) (error : Option (PyStr × PyStr)) :
    ¬ Mirrors (assemble collected.flatten extraParts error) frames := by
  intro hmirrors
  have hi := (List.getElem?_eq_some_iff.1 hslot).1
  rcases h.spoken.1 (h.spoken_of_mirrors hmirrors) with htext | ⟨-, hparts⟩
  · have hkept := hmirrors.kept (i + 1) _ hcall
    rw [assemble_of_text error htext, List.getElem?_cons_succ, List.getElem?_append_left hi,
      hslot] at hkept
    cases hkept
  · rw [hparts] at hi
    exact absurd hi (Nat.not_lt_zero i)

/-- Frames of no slot may follow. -/
theorem Collects.silent_tail (h : Collects frames collected extraParts) {more : List Frame}
    (hmore : ∀ f ∈ more, f.isSilent = true) : Collects (frames ++ more) collected extraParts := by
  have hnone : ∀ f ∈ more, f.slot = none ∧ f.delta? = none := by
    intro f hf
    cases f with
    | event name => exact ⟨rfl, rfl⟩
    | messageDelta _ | thinkStep | reasoningDelta _ | runStep _ _ | runStepCompleted _ _
        | part _ _ => cases hmore _ hf
  have htexts : Content.texts more = [] :=
    List.filterMap_eq_nil_iff.2 fun f hf => (hnone f hf).2
  constructor
  case text =>
    have hother : ∀ f ∈ more, f.slot ≠ some 0 := by
      intro f hf hslot
      rw [(hnone f hf).1] at hslot
      cases hslot
    exact (streamed_other hother).trans h.text
  case texts => rw [texts_append, htexts, List.append_nil, h.texts]
  case silent =>
    rw [← h.silent]
    exact ⟨fun hall f hf => hall f (List.mem_append_left _ hf),
      fun hall f hf => (List.mem_append.1 hf).elim (hall f) (hmore f)⟩
  case beside => exact h.beside

end Mirroring

end Content
end Tempest
