import Tempest.Api.Content

/-!
# Mirrored — when the stored message is the streamed one (`chatturn.py`, `agentturn.py`)

One invariant for the worker of a plain chat and one for that of an agent say what stands in each slot
of the stream while it runs; `mirrors_iff` puts them together with the reconciled turns.
-/

namespace Tempest
namespace Content

open Python

/-! ## Plain chat mirrors its stream -/

namespace ChatState

structure Inv (s : ChatState) : Prop where
  collects : Collects s.frames s.collected s.extraParts
  think : streamed s.frames 1 = thinkPart s.thinking
  beyond : ∀ k, streamed s.frames (k + 2) = none
  slots : ∀ f ∈ s.frames, f.isPart = true → ∀ k, f.slot = some k → 1 ≤ k

variable {s : ChatState}

theorem Inv.slots_eq (h : s.Inv) (i : Nat) :
    streamed s.frames (i + 1) = s.extraParts[i]? := by
  cases i with
  | zero =>
    rw [h.think, thinkPart, extraParts]
    split <;> rfl
  | succ i =>
    rw [h.beyond, extraParts]
    split <;> rfl

theorem inv_opening : ({} : ChatState).Inv where
  collects := ⟨rfl, rfl, by decide, fun _ hpart => absurd hpart List.not_mem_nil⟩
  think := rfl
  beyond _ := rfl
  slots := by
    intro f hf hpart
    rcases List.mem_pair.1 hf with rfl | rfl
    · cases hpart
    · cases hpart

theorem say_inv (text : PyStr) (h : s.Inv) : (s.say text).Inv where
  collects := by
    constructor
    case text =>
      change streamed (s.frames ++ [Frame.messageDelta text]) 0 = textPart (s.collected ++ [text])
      rw [streamed_snoc, h.collects.text, absorb_textPart]
    case texts => simp [say, h.collects.texts, Frame.delta?]
    case silent =>
      refine ⟨fun hall => ?_, fun hnone => ?_⟩
      · have hlast := hall (.messageDelta text) (List.mem_append_right _ (List.mem_singleton_self _))
        cases hlast
      · exact absurd hnone.1 (List.append_ne_nil_of_right_ne_nil _ (List.cons_ne_nil _ _))
    case beside => exact h.collects.beside
  think := by
    change streamed (s.frames ++ [Frame.messageDelta text]) 1 = thinkPart s.thinking
    rw [streamed_snoc, absorb_other (by simp [Frame.slot]), h.think]
  beyond k := by
    change streamed (s.frames ++ [Frame.messageDelta text]) (k + 2) = none
    rw [streamed_snoc, absorb_other (by simp [Frame.slot]), h.beyond]
  slots := by
    intro f hf hpart
    rcases List.mem_append.1 hf with hold | hnew
    · exact h.slots f hold hpart
    · rw [List.mem_singleton.1 hnew] at hpart
      cases hpart

/-- The first chunk opens the step, and every chunk goes to its slot. -/
theorem think_inv (text : PyStr) (h : s.Inv) : (s.think text).Inv := by
  have hthink : streamed (s.think text).frames 1 = thinkPart (s.thinking ++ [text]) := by
    change streamed (s.frames ++ (if s.thinking = [] then [Frame.thinkStep] else []) ++
      [Frame.reasoningDelta text]) 1 = _
    rw [streamed_snoc]
    by_cases hnone : s.thinking = []
    · -- the step opens an empty part
      rw [if_pos hnone, streamed_snoc, hnone]
      simp [absorb, reasoningIndex, thinkPart]
    · rw [if_neg hnone, List.append_nil, h.think, ← absorb_thinkPart]
      rfl
  have hnew : ∀ f ∈ (if s.thinking = [] then [Frame.thinkStep] else []) ++ [Frame.reasoningDelta text],
      f.slot = some reasoningIndex ∧ f.delta? = none := by
    intro f hf
    rcases List.mem_append.1 hf with hstep | hdelta
    · split at hstep
      · rw [List.mem_singleton.1 hstep]
        exact ⟨rfl, rfl⟩
      · cases hstep
    · rw [List.mem_singleton.1 hdelta]
      exact ⟨rfl, rfl⟩
  have hframes : (s.think text).frames = s.frames ++
      ((if s.thinking = [] then [Frame.thinkStep] else []) ++ [Frame.reasoningDelta text]) :=
    List.append_assoc _ _ _
  have hparts : (s.think text).extraParts ≠ [] := by simp [extraParts, ChatState.think]
  have hother : ∀ k, k ≠ 1 → streamed (s.think text).frames k = streamed s.frames k := by
    intro k hk
    rw [hframes]
    refine streamed_other fun f hf hslot => hk ?_
    rw [(hnew f hf).1] at hslot
    exact (Option.some.inj hslot).symm
  constructor
  case collects =>
    constructor
    case text => exact (hother 0 (by decide)).trans h.collects.text
    case texts =>
      have hnone : Content.texts ((if s.thinking = [] then [Frame.thinkStep] else []) ++
          [Frame.reasoningDelta text]) = [] :=
        List.filterMap_eq_nil_iff.2 fun f hf => (hnew f hf).2
      rw [hframes, texts_append, hnone, List.append_nil]
      exact h.collects.texts
    case silent =>
      refine ⟨fun hall => ?_, fun hnone => absurd hnone.2 hparts⟩
      have hlast := hall (.reasoningDelta text) (List.mem_append_right _ (List.mem_singleton_self _))
      cases hlast
    case beside =>
      intro part hpart
      rw [extraParts] at hpart
      split at hpart
      · cases hpart
      · rw [List.mem_singleton.1 hpart]
        rfl
  case think => exact hthink
  case beyond => exact fun k => (hother (k + 2) (by omega)).trans (h.beyond k)
  case slots =>
    intro f hf hpart
    rw [hframes] at hf
    rcases List.mem_append.1 hf with hold | hf'
    · exact h.slots f hold hpart
    · intro k hk
      rw [(hnew f hf').1] at hk
      exact Nat.le_of_eq (Option.some.inj hk)

theorem chunk_inv (c : Chunk) (h : s.Inv) : (s.chunk c).Inv := by
  cases c with
  | text text => exact say_inv text h
  | reasoning text => exact think_inv text h
  | usage => exact h

theorem settle_inv (ending : Ending) (h : s.Inv) : (s.settle ending).Inv := by
  cases ending with
  | complete =>
    rw [settle]
    split
    · exact say_inv s.note h
    · exact h
  | aborted | failed _ _ => exact h

theorem charge_inv (chunks : List Chunk) (cap : Option PyStr) (h : s.Inv) :
    (s.charge chunks cap).Inv := by
  simp only [charge]
  split
  · cases cap with
    | some note => exact say_inv note h
    | none => exact h
  · exact h

end ChatState

theorem runTurn_inv (chunks : List Chunk) (ending : Ending) : (runTurn chunks ending).Inv := by
  refine ChatState.settle_inv ending ?_
  induction chunks using List.reverseRecOn with
  | nil => exact ChatState.inv_opening
  | append_singleton chunks c ih =>
    rw [List.foldl_append]
    exact ChatState.chunk_inv c ih

/-! ## An agent mirrors its stream -/

namespace AgentState

variable {s : AgentState}

structure Holds (s : AgentState) (index : Nat) (call : ToolCall) (i : Nat) : Prop where
  index : index = i + 1
  reserved : s.extraParts[i]? = some (.toolCall none)
  streamed : streamed s.frames (i + 1) = some (.toolCall (some call))

structure Inv (s : AgentState) : Prop where
  collects : Collects s.frames s.collected s.extraParts
  next : s.nextIndex = s.extraParts.length + 1
  filled : ∀ i part, s.extraParts[i]? = some part → part ≠ .toolCall none →
    streamed s.frames (i + 1) = some part
  reserved : ∀ i, s.extraParts[i]? = some (.toolCall none) →
    ∃ call, streamed s.frames (i + 1) = some (.toolCall (some call))
  beyond : ∀ i, s.extraParts.length ≤ i → streamed s.frames (i + 1) = none
  opened : ∀ id index call, s.opened.get? id = some (index, call) → ∃ i, s.Holds index call i
  apart : ∀ id id' index call call', s.opened.get? id = some (index, call) →
    s.opened.get? id' = some (index, call') → id = id'
  slots : ∀ f ∈ s.frames, f.isPart = true → ∀ k, f.slot = some k → 1 ≤ k

/-- A reserved slot that no open call will fill. -/
def Orphan (s : AgentState) (i : Nat) : Prop :=
  s.extraParts[i]? = some (.toolCall none) ∧ ∀ id call, s.opened.get? id ≠ some (i + 1, call)

theorem inv_opening : ({} : AgentState).Inv where
  collects := ⟨rfl, rfl, by decide, fun _ hpart => absurd hpart List.not_mem_nil⟩
  next := rfl
  filled _ _ hpart := by cases hpart
  reserved _ hpart := by cases hpart
  beyond _ _ := rfl
  opened _ _ _ hopened := by cases hopened
  apart _ _ _ _ _ hopened := by cases hopened
  slots := by
    intro f hf hpart
    rcases List.mem_pair.1 hf with rfl | rfl
    · cases hpart
    · cases hpart

/-- A step that adds frames about no slot but the text, and leaves the parts and the calls alone. -/
theorem Inv.of_text {s' : AgentState} (h : s.Inv) (new : List Frame)
    (hframes : s'.frames = s.frames ++ new) (hnew : ∀ f ∈ new, f.isPart = false)
    (hcollects : Collects s'.frames s'.collected s'.extraParts)
    (hparts : s'.extraParts = s.extraParts) (hnext : s'.nextIndex = s.nextIndex)
    (hopened : s'.opened = s.opened) : s'.Inv := by
  have hslot : ∀ i, streamed s'.frames (i + 1) = streamed s.frames (i + 1) := by
    intro i
    rw [hframes]
    refine streamed_other fun f hf hslot => ?_
    have hpart := hnew f hf
    cases f with
    | messageDelta _ | event _ => cases hslot
    | thinkStep | reasoningDelta _ | runStep _ _ | runStepCompleted _ _ | part _ _ => cases hpart
  constructor
  case collects => exact hcollects
  case next => rw [hnext, hparts, h.next]
  case filled => rw [hparts]; exact fun i part hi hne => (hslot i).trans (h.filled i part hi hne)
  case reserved =>
    rw [hparts]
    intro i hi
    obtain ⟨call, hcall⟩ := h.reserved i hi
    exact ⟨call, (hslot i).trans hcall⟩
  case beyond => rw [hparts]; exact fun i hi => (hslot i).trans (h.beyond i hi)
  case opened =>
    rw [hopened]
    intro id index call hget
    obtain ⟨i, hindex, hreserved, hcall⟩ := h.opened id index call hget
    exact ⟨i, hindex, hparts ▸ hreserved, (hslot i).trans hcall⟩
  case apart => rw [hopened]; exact h.apart
  case slots =>
    intro f hf hpart
    rw [hframes] at hf
    rcases List.mem_append.1 hf with hold | hlast
    · exact h.slots f hold hpart
    · rw [hnew f hlast] at hpart
      cases hpart

theorem narrate_inv (text : PyStr) (h : s.Inv) : (s.narrate text).Inv := by
  refine h.of_text [Frame.messageDelta (if s.collected = [] then text else lit "\n\n" ++ text)] rfl
    (fun f hf => by rw [List.mem_singleton.1 hf]; rfl) ?_ rfl rfl rfl
  constructor
  case text =>
    change streamed (s.frames ++ [_]) 0 = textPart (s.collected ++ [_])
    rw [streamed_snoc, h.collects.text, absorb_textPart]
  case texts => simp [narrate, h.collects.texts, Frame.delta?]
  case silent =>
    refine ⟨fun hall => ?_, fun hnone => ?_⟩
    · have hlast := hall _ (List.mem_append_right _ (List.mem_singleton_self _))
      cases hlast
    · exact absurd hnone.1 (List.append_ne_nil_of_right_ne_nil _ (List.cons_ne_nil _ _))
  case beside => exact h.collects.beside

theorem say_inv {frames : List Frame} (hframes : ∀ f ∈ frames, f.isSilent = true) (h : s.Inv) :
    (s.say frames).Inv := by
  refine h.of_text frames rfl (fun f hf => ?_) (h.collects.silent_tail hframes) rfl rfl rfl
  have hsilent := hframes f hf
  cases f <;> first | rfl | cases hsilent

theorem Inv.of_part {s' : AgentState} {f : Frame} {part streamedPart : Part} (h : s.Inv)
    (hframes : s'.frames = s.frames ++ [f]) (hslot : f.slot = some s.nextIndex)
    (hdelta : f.delta? = none) (hsilent : f.isSilent = false)
    (habsorb : absorb s.nextIndex none f = some streamedPart)
    (hcollected : s'.collected = s.collected) (hparts : s'.extraParts = s.extraParts ++ [part])
    (hnext : s'.nextIndex = s.nextIndex + 1) (hbeside : part.isBeside = true)
    (hfilled : part ≠ .toolCall none → streamedPart = part)
    (hreserved : part = .toolCall none → ∃ call, streamedPart = .toolCall (some call))
    (hopened : ∀ id index call, s'.opened.get? id = some (index, call) → ∃ i, s'.Holds index call i)
    (hapart : ∀ id id' index call call', s'.opened.get? id = some (index, call) →
      s'.opened.get? id' = some (index, call') → id = id') : s'.Inv := by
  have hlast : streamed s'.frames (s.extraParts.length + 1) = some streamedPart := by
    rw [hframes, streamed_snoc, h.beyond _ (Nat.le_refl _), ← h.next, habsorb]
  have hother : ∀ k, k ≠ s.nextIndex → streamed s'.frames k = streamed s.frames k := by
    intro k hk
    rw [hframes, streamed_snoc, absorb_other]
    intro heq
    exact hk (Option.some.inj (heq.symm.trans hslot))
  have hbefore : ∀ i, i < s.extraParts.length →
      s'.extraParts[i]? = s.extraParts[i]? ∧
      streamed s'.frames (i + 1) = streamed s.frames (i + 1) := by
    intro i hi
    rw [hparts, List.getElem?_append_left hi]
    exact ⟨rfl, hother (i + 1) (by rw [h.next]; omega)⟩
  have hadded : s'.extraParts[s.extraParts.length]? = some part := by
    rw [hparts, List.getElem?_concat_length]
  have hlength : s'.extraParts.length = s.extraParts.length + 1 := by
    rw [hparts, List.length_append, List.length_singleton]
  have hinside : ∀ i p, s'.extraParts[i]? = some p →
      i < s.extraParts.length ∧ s.extraParts[i]? = some p ∨ i = s.extraParts.length ∧ p = part := by
    intro i p hi
    have hlt := (List.getElem?_eq_some_iff.1 hi).1
    rw [hlength] at hlt
    rcases Nat.lt_succ_iff_lt_or_eq.1 hlt with hless | hsame
    · exact Or.inl ⟨hless, (hbefore i hless).1 ▸ hi⟩
    · rw [hsame, hadded] at hi
      exact Or.inr ⟨hsame, (Option.some.inj hi).symm⟩
  constructor
  case collects =>
    constructor
    case text =>
      rw [hother 0 (by rw [h.next]; omega), hcollected]
      exact h.collects.text
    case texts =>
      rw [hframes, hcollected, texts_append, texts_cons, hdelta, h.collects.texts]
      exact List.append_nil _
    case silent =>
      rw [hframes, hparts]
      refine ⟨fun hall => ?_, fun hnone => ?_⟩
      · rw [hall f (List.mem_append_right _ (List.mem_singleton_self _))] at hsilent
        cases hsilent
      · exact absurd hnone.2 (List.append_ne_nil_of_right_ne_nil _ (List.cons_ne_nil _ _))
    case beside =>
      rw [hparts]
      intro p hp
      rcases List.mem_append.1 hp with hold | hnew
      · exact h.collects.beside p hold
      · rw [List.mem_singleton.1 hnew]
        exact hbeside
  case next => rw [hnext, hlength, h.next]
  case filled =>
    intro i p hi hne
    rcases hinside i p hi with ⟨hlt, hold⟩ | ⟨rfl, rfl⟩
    · rw [(hbefore i hlt).2]
      exact h.filled i p hold hne
    · rw [hlast, hfilled hne]
  case reserved =>
    intro i hi
    rcases hinside i _ hi with ⟨hlt, hold⟩ | ⟨rfl, heq⟩
    · rw [(hbefore i hlt).2]
      exact h.reserved i hold
    · obtain ⟨call, hcall⟩ := hreserved heq.symm
      exact ⟨call, by rw [hlast, hcall]⟩
  case beyond =>
    intro i hi
    rw [hlength] at hi
    rw [hother (i + 1) (by rw [h.next]; omega)]
    exact h.beyond i (by omega)
  case opened => exact hopened
  case apart => exact hapart
  case slots =>
    intro g hg hpart k hk
    rw [hframes] at hg
    rcases List.mem_append.1 hg with hold | hnew
    · exact h.slots g hold hpart k hk
    · rw [List.mem_singleton.1 hnew, hslot, h.next] at hk
      have hindex := Option.some.inj hk
      omega

/-- An open call keeps its slot when a part is added. -/
theorem Holds.of_part {s' : AgentState} {f : Frame} {part : Part} {index i : Nat} {call : ToolCall}
    (h : s.Holds index call i) (hframes : s'.frames = s.frames ++ [f])
    (hslot : f.slot = some (s.extraParts.length + 1))
    (hparts : s'.extraParts = s.extraParts ++ [part]) : s'.Holds index call i := by
  have hi := (List.getElem?_eq_some_iff.1 h.reserved).1
  constructor
  case index => exact h.index
  case reserved => rw [hparts, List.getElem?_append_left hi, h.reserved]
  case streamed =>
    rw [hframes, streamed_snoc, absorb_other, h.streamed]
    intro heq
    have hindex := Option.some.inj (heq.symm.trans hslot)
    omega

theorem allocate_inv {part : Part} (hbeside : part.isBeside = true) (hcall : part ≠ .toolCall none)
    (h : s.Inv) : (s.allocate part).Inv := by
  refine h.of_part (f := .part s.nextIndex part) rfl rfl rfl rfl
    (by simp [absorb] : _ = some part) rfl rfl rfl hbeside
    (fun _ => rfl) (fun heq => absurd heq hcall) (fun id index call hget => ?_) h.apart
  obtain ⟨i, hholds⟩ := h.opened id index call hget
  exact ⟨i, hholds.of_part rfl (h.next ▸ rfl) rfl⟩

variable {ids : List PyStr}

theorem batch_inv {label : PyStr} (h : s.Inv) :
    Inv { s with label := label, ids := ids } :=
  h.of_text [] (List.append_nil _).symm (fun _ hf => absurd hf List.not_mem_nil) h.collects rfl rfl
    rfl

theorem closeBatch_inv (h : s.Inv) : s.closeBatch.Inv := by
  rw [closeBatch]
  split
  · exact h
  · exact batch_inv (allocate_inv rfl (fun heq => by cases heq) h)

theorem noteCall_inv (label callId : PyStr) (h : s.Inv) : (s.noteCall label callId).Inv := by
  simp only [noteCall]
  split
  · exact batch_inv (closeBatch_inv h)
  · exact batch_inv h

theorem openCall_inv (call : ToolCall) (h : s.Inv) : (s.openCall call).Inv := by
  have hkept : ∀ id index other i, s.opened.get? id = some (index, other) →
      s.Holds index other i → (s.openCall call).Holds index other i :=
    fun _ _ _ i _ hholds => hholds.of_part (i := i) rfl (h.next ▸ rfl) rfl
  have hnew : (s.openCall call).Holds s.nextIndex call s.extraParts.length := by
    constructor
    case index => exact h.next
    case reserved => exact List.getElem?_concat_length
    case streamed =>
      change streamed (s.frames ++ [Frame.runStep s.nextIndex call]) _ = _
      rw [streamed_snoc, h.beyond _ (Nat.le_refl _), h.next]
      simp [absorb]
  have hget : ∀ id index other, (s.openCall call).opened.get? id = some (index, other) →
      id = call.id ∧ index = s.nextIndex ∧ other = call ∨
        id ≠ call.id ∧ s.opened.get? id = some (index, other) := by
    intro id index other hopened
    change (s.opened.set call.id (s.nextIndex, call)).get? id = _ at hopened
    rw [Dict.get?_set] at hopened
    split at hopened
    · rename_i hid
      cases hopened
      exact Or.inl ⟨hid, rfl, rfl⟩
    · rename_i hid
      exact Or.inr ⟨hid, hopened⟩
  have hbelow : ∀ id index other, s.opened.get? id = some (index, other) → index < s.nextIndex := by
    intro id index other hopened
    obtain ⟨i, hholds⟩ := h.opened id index other hopened
    have hi := (List.getElem?_eq_some_iff.1 hholds.reserved).1
    rw [hholds.index, h.next]
    omega
  refine h.of_part (f := .runStep s.nextIndex call) rfl rfl rfl rfl
    (by simp [absorb] : _ = some (Part.toolCall (some call))) rfl rfl rfl rfl
    (fun hne => absurd rfl hne) (fun _ => ⟨call, rfl⟩) (fun id index other hopened => ?_)
    (fun id id' index other other' hopened hopened' => ?_)
  · rcases hget id index other hopened with ⟨-, rfl, rfl⟩ | ⟨-, hold⟩
    · exact ⟨_, hnew⟩
    · obtain ⟨i, hholds⟩ := h.opened id index other hold
      exact ⟨i, hkept id index other i hold hholds⟩
  · rcases hget id index other hopened with ⟨rfl, rfl, -⟩ | ⟨-, hold⟩
    · rcases hget id' _ other' hopened' with ⟨rfl, -, -⟩ | ⟨-, hold'⟩
      · rfl
      · exact absurd (hbelow id' _ other' hold') (Nat.lt_irrefl _)
    · rcases hget id' index other' hopened' with ⟨-, rfl, -⟩ | ⟨-, hold'⟩
      · exact absurd (hbelow id _ other hold) (Nat.lt_irrefl _)
      · exact h.apart id id' index other other' hold hold'

/-- The call that is finished fills its own slot. -/
theorem finishCall_inv (callId detail : PyStr) (h : s.Inv) : (s.finishCall callId detail).Inv := by
  rw [finishCall]
  cases hopened : s.opened.get? callId with
  | none => exact h
  | some item =>
    obtain ⟨index, call⟩ := item
    obtain ⟨i, rfl, hreserved, -⟩ := h.opened callId index call hopened
    have hi := (List.getElem?_eq_some_iff.1 hreserved).1
    simp only [Nat.add_sub_cancel]
    set done : ToolCall := { call with output := detail, progress := true } with hdone
    have hslot : streamed (s.frames ++ [Frame.runStepCompleted (i + 1) done]) (i + 1) =
        some (.toolCall (some done)) := by
      rw [streamed_snoc]
      simp [absorb]
    have hother : ∀ k, k ≠ i + 1 →
        streamed (s.frames ++ [Frame.runStepCompleted (i + 1) done]) k = streamed s.frames k := by
      intro k hk
      rw [streamed_snoc, absorb_other]
      exact fun heq => hk (Option.some.inj heq).symm
    have hset : ∀ j part, (s.extraParts.set i (.toolCall (some done)))[j]? = some part →
        j = i ∧ part = .toolCall (some done) ∨ j ≠ i ∧ s.extraParts[j]? = some part := by
      intro j part hj
      by_cases hji : j = i
      · rw [hji, List.getElem?_set_self hi] at hj
        exact Or.inl ⟨hji, (Option.some.inj hj).symm⟩
      · rw [List.getElem?_set_ne (fun heq => hji heq.symm)] at hj
        exact Or.inr ⟨hji, hj⟩
    constructor
    case collects =>
      constructor
      case text => exact (hother 0 (by omega)).trans h.collects.text
      case texts => simp [Frame.delta?, h.collects.texts]
      case silent =>
        refine ⟨fun hall => ?_, fun hnone => ?_⟩
        · have hlast := hall _ (List.mem_append_right _ (List.mem_singleton_self _))
          cases hlast
        · have hlength := congrArg List.length hnone.2
          rw [List.length_set] at hlength
          exact absurd hlength (Nat.ne_of_gt (Nat.lt_of_le_of_lt (Nat.zero_le i) hi))
      case beside =>
        intro part hpart
        rcases List.mem_or_eq_of_mem_set hpart with hold | rfl
        · exact h.collects.beside part hold
        · rfl
    case next => rw [List.length_set, h.next]
    case filled =>
      intro j part hj hne
      rcases hset j part hj with ⟨rfl, rfl⟩ | ⟨hji, hold⟩
      · exact hslot
      · rw [hother (j + 1) (by omega)]
        exact h.filled j part hold hne
    case reserved =>
      intro j hj
      rcases hset j _ hj with ⟨-, heq⟩ | ⟨hji, hold⟩
      · cases heq
      · rw [hother (j + 1) (by omega)]
        exact h.reserved j hold
    case beyond =>
      intro j hj
      rw [List.length_set] at hj
      rw [hother (j + 1) (by omega)]
      exact h.beyond j hj
    case opened =>
      intro id index' call' hget
      obtain ⟨hget', hid⟩ := Dict.get?_filterKeys.1 hget
      obtain ⟨j, rfl, hreserved', hcall'⟩ := h.opened id index' call' hget'
      have hji : j ≠ i := by
        rintro rfl
        exact of_decide_eq_true hid (h.apart id callId _ call' call hget' hopened)
      refine ⟨j, rfl, ?_, ?_⟩
      · exact (List.getElem?_set_ne fun heq => hji heq.symm).trans hreserved'
      · exact (hother (j + 1) (by omega)).trans hcall'
    case apart =>
      intro id id' index' call₁ call₂ hget hget'
      exact h.apart id id' index' call₁ call₂ (Dict.get?_filterKeys.1 hget).1
        (Dict.get?_filterKeys.1 hget').1
    case slots =>
      intro f hf hpart k hk
      rcases List.mem_append.1 hf with hold | hnew
      · exact h.slots f hold hpart k hk
      · rw [List.mem_singleton.1 hnew] at hk
        have hindex : i + 1 = k := Option.some.inj hk
        omega

theorem emit_inv (event : Event) (h : s.Inv) : (s.emit event).Inv := by
  cases event with
  | narration text => exact narrate_inv text h
  | toolCallStarted name args callId => exact openCall_inv _ (noteCall_inv _ callId h)
  | toolCallFinished callId detail => exact finishCall_inv callId detail h
  | turnUsage gauge =>
    refine say_inv (fun f hf => ?_) h
    cases gauge with
    | true => rcases List.mem_pair.1 hf with rfl | rfl <;> rfl
    | false => rw [List.mem_singleton.1 hf]; rfl
  | proving => exact allocate_inv rfl (fun heq => by cases heq) (closeBatch_inv h)
  | stopped costCap reason => exact narrate_inv (stopNote costCap reason) h
  | parked => exact say_inv (fun f hf => by rw [List.mem_singleton.1 hf]; rfl) h
  | steer text createdAt => exact allocate_inv rfl (fun heq => by cases heq) h

/-! ### Slots that are never filled -/

theorem orphan_allocate {part : Part} (hcall : part ≠ .toolCall none) (i : Nat) :
    (s.allocate part).Orphan i ↔ s.Orphan i := by
  have hslot : (s.extraParts ++ [part])[i]? = some (.toolCall none) ↔
      s.extraParts[i]? = some (.toolCall none) := by
    rcases Nat.lt_or_ge i s.extraParts.length with hlt | hge
    · rw [List.getElem?_append_left hlt]
    · rw [List.getElem?_append_right hge, List.getElem?_eq_none hge]
      refine ⟨fun hlast => ?_, fun hnone => by cases hnone⟩
      have hmem := List.mem_singleton.1 (List.mem_of_getElem? hlast)
      exact absurd hmem.symm hcall
  exact and_congr_left fun _ => hslot

theorem orphan_closeBatch (i : Nat) : s.closeBatch.Orphan i ↔ s.Orphan i := by
  rw [closeBatch]
  split
  · exact Iff.rfl
  · exact orphan_allocate (fun heq => by cases heq) i

theorem orphan_noteCall (label callId : PyStr) (i : Nat) :
    (s.noteCall label callId).Orphan i ↔ s.Orphan i := by
  simp only [noteCall]
  split
  · exact orphan_closeBatch i
  · exact Iff.rfl

theorem opened_closeBatch : s.closeBatch.opened = s.opened := by
  rw [closeBatch]
  split <;> rfl

theorem opened_noteCall (label callId : PyStr) :
    (s.noteCall label callId).opened = s.opened := by
  simp only [noteCall]
  split
  · exact opened_closeBatch
  · rfl

/-- The slot of a call is lost when another call takes its id. -/
theorem orphan_openCall (call : ToolCall) (h : s.Inv) :
    (∃ i, (s.openCall call).Orphan i) ↔
      (∃ i, s.Orphan i) ∨ (s.opened.get? call.id).isSome = true := by
  have hget : ∀ id, (s.openCall call).opened.get? id =
      if id = call.id then some (s.nextIndex, call) else s.opened.get? id :=
    fun id => Dict.get?_set s.opened call.id id (s.nextIndex, call)
  have hold : ∀ i, i < s.extraParts.length →
      (s.openCall call).extraParts[i]? = s.extraParts[i]? :=
    fun i hi => List.getElem?_append_left hi
  constructor
  · rintro ⟨i, hreserved, hnone⟩
    rcases Nat.lt_or_ge i s.extraParts.length with hlt | hge
    · rw [hold i hlt] at hreserved
      by_cases hlost : ∃ other, s.opened.get? call.id = some (i + 1, other)
      · obtain ⟨other, hother⟩ := hlost
        exact Or.inr (by rw [hother]; rfl)
      · refine Or.inl ⟨i, hreserved, fun id other hopened => ?_⟩
        by_cases hid : id = call.id
        · exact hlost ⟨other, hid ▸ hopened⟩
        · exact hnone id other (by rw [hget, if_neg hid, hopened])
    · -- the new slot is that of the new call
      have hlast : i = s.extraParts.length := by
        have hi := (List.getElem?_eq_some_iff.1 hreserved).1
        have hlength : (s.openCall call).extraParts.length = s.extraParts.length + 1 :=
          List.length_append
        omega
      exact absurd (by rw [hget, if_pos rfl, h.next, hlast]) (hnone call.id call)
  · rintro (⟨i, hreserved, hnone⟩ | hsome)
    · have hi := (List.getElem?_eq_some_iff.1 hreserved).1
      refine ⟨i, (hold i hi).trans hreserved, fun id other hopened => ?_⟩
      rw [hget] at hopened
      split at hopened
      · rw [h.next] at hopened
        cases hopened
        exact Nat.lt_irrefl _ hi
      · exact hnone id other hopened
    · obtain ⟨⟨index, other⟩, hother⟩ := Option.isSome_iff_exists.1 hsome
      obtain ⟨i, rfl, hreserved, -⟩ := h.opened call.id index other hother
      have hi := (List.getElem?_eq_some_iff.1 hreserved).1
      refine ⟨i, (hold i hi).trans hreserved, fun id other' hopened => ?_⟩
      rw [hget] at hopened
      split at hopened
      · rw [h.next] at hopened
        cases hopened
        exact Nat.lt_irrefl _ hi
      · rename_i hid
        exact hid (h.apart id call.id (i + 1) other' other hopened hother)

theorem orphan_finishCall (callId detail : PyStr) (h : s.Inv) (i : Nat) :
    (s.finishCall callId detail).Orphan i ↔ s.Orphan i := by
  rw [finishCall]
  cases hopened : s.opened.get? callId with
  | none => exact Iff.rfl
  | some item =>
    obtain ⟨index, call⟩ := item
    obtain ⟨j, rfl, hreserved, -⟩ := h.opened callId index call hopened
    have hj := (List.getElem?_eq_some_iff.1 hreserved).1
    simp only [Nat.add_sub_cancel]
    by_cases hij : i = j
    · -- the slot of the call that is finished is filled, and was not lost
      subst hij
      refine ⟨fun hafter => ?_, fun hbefore => absurd hopened (hbefore.2 callId call)⟩
      have hfilled := hafter.1
      rw [List.getElem?_set_self hj] at hfilled
      cases hfilled
    · refine and_congr ?_ ⟨fun hafter id other hget => ?_, fun hbefore id other hget => ?_⟩
      · rw [List.getElem?_set_ne fun heq => hij heq.symm]
      · refine hafter id other (Dict.get?_filterKeys.2 ⟨hget, decide_eq_true fun hid => ?_⟩)
        rw [hid, hopened] at hget
        cases hget
        exact hij rfl
      · exact hbefore id other (Dict.get?_filterKeys.1 hget).1

def Opens (s : AgentState) (ids : List PyStr) : Prop :=
  ∀ id, id ∈ ids ↔ (s.opened.get? id).isSome = true

theorem opens_finishCall (callId detail : PyStr) (h : s.Opens ids) :
    (s.finishCall callId detail).Opens (ids.filter (· ≠ callId)) := by
  intro id
  rw [List.mem_filter, h id, finishCall, decide_eq_true_iff]
  cases hopened : s.opened.get? callId with
  | none =>
    refine ⟨fun hid => hid.1, fun hid => ⟨hid, fun heq => ?_⟩⟩
    rw [heq, hopened] at hid
    cases hid
  | some item =>
    simp only [Option.isSome_iff_exists]
    constructor
    · rintro ⟨⟨value, hvalue⟩, hid⟩
      exact ⟨value, Dict.get?_filterKeys.2 ⟨hvalue, decide_eq_true hid⟩⟩
    · rintro ⟨value, hvalue⟩
      obtain ⟨hget, hid⟩ := Dict.get?_filterKeys.1 hvalue
      exact ⟨⟨value, hget⟩, of_decide_eq_true hid⟩

theorem opens_openCall (call : ToolCall) (h : s.Opens ids) :
    (s.openCall call).Opens (call.id :: ids) := by
  intro id
  change _ ↔ ((s.opened.set call.id (s.nextIndex, call)).get? id).isSome = true
  rw [List.mem_cons, h id, Dict.get?_set]
  split
  · rename_i hid
    exact ⟨fun _ => rfl, fun _ => Or.inl hid⟩
  · rename_i hid
    exact ⟨fun hor => hor.resolve_left hid, Or.inr⟩

/-- A slot is lost in a run exactly when a call is started under the id of an open one. -/
theorem orphan_iff (events : List Event) (h : s.Inv) (hids : s.Opens ids) :
    (∃ i, (events.foldl emit s).Orphan i) ↔
      (∃ i, s.Orphan i) ∨ distinctCalls ids events = false := by
  induction events generalizing s ids with
  | nil => simp [distinctCalls]
  | cons event events ih =>
    rw [List.foldl_cons]
    cases event with
    | toolCallStarted name args callId =>
      have hnote := noteCall_inv (activityLabel name) callId h
      have hopens : (s.noteCall (activityLabel name) callId).Opens ids := by
        intro id
        rw [opened_noteCall]
        exact hids id
      simp only [emit]
      rw [ih (openCall_inv _ hnote) (opens_openCall _ hopens), orphan_openCall _ hnote,
        opened_noteCall, ← hids callId]
      simp only [orphan_noteCall, distinctCalls, Bool.and_eq_false_iff, decide_eq_false_iff_not,
        not_not]
      exact or_assoc
    | toolCallFinished callId detail =>
      simp only [emit]
      rw [ih (finishCall_inv callId detail h) (opens_finishCall callId detail hids)]
      simp only [orphan_finishCall callId detail h, distinctCalls]
    | narration text => exact ih (narrate_inv text h) hids
    | turnUsage gauge => exact ih (emit_inv (.turnUsage gauge) h) hids
    | stopped costCap reason => exact ih (narrate_inv _ h) hids
    | parked => exact ih (emit_inv .parked h) hids
    | steer text createdAt =>
      have hne : Part.steer text createdAt ≠ .toolCall none := fun heq => by cases heq
      rw [ih (emit_inv (.steer text createdAt) h) hids]
      simp only [emit, orphan_allocate hne, distinctCalls]
    | proving =>
      have hopens : (s.emit .proving).Opens ids := by
        intro id
        change _ ↔ (s.closeBatch.opened.get? id).isSome = true
        rw [opened_closeBatch]
        exact hids id
      have hne : Part.activityLabel (lit "Proving the change") none ≠ .toolCall none :=
        fun heq => by cases heq
      rw [ih (emit_inv .proving h) hopens]
      simp only [emit, orphan_allocate hne, orphan_closeBatch, distinctCalls]

/-! ### The slots at the end -/

theorem fill_of_notMem {items : List (PyStr × Nat × ToolCall)} {parts : List Part} {i : Nat}
    (h : ∀ item ∈ items, item.2.1 - 1 ≠ i) : (fill parts items)[i]? = parts[i]? := by
  induction items generalizing parts with
  | nil => rfl
  | cons item items ih =>
    have hrest := @ih (parts.set (item.2.1 - 1) (.toolCall (some item.2.2)))
      fun item' hitem => h item' (List.mem_cons_of_mem item hitem)
    exact hrest.trans (List.getElem?_set_ne (h item List.mem_cons_self))

theorem fill_of_mem {items : List (PyStr × Nat × ToolCall)} {parts : List Part} {i : Nat}
    {item : PyStr × Nat × ToolCall} (hmem : item ∈ items) (hindex : item.2.1 - 1 = i)
    (hi : i < parts.length) (honly : ∀ item' ∈ items, item'.2.1 - 1 = i → item' = item) :
    (fill parts items)[i]? = some (.toolCall (some item.2.2)) := by
  induction items generalizing parts with
  | nil => cases hmem
  | cons head items ih =>
    have hrest : ∀ item' ∈ items, item'.2.1 - 1 = i → item' = item :=
      fun item' hitem => honly item' (List.mem_cons_of_mem head hitem)
    by_cases hlater : item ∈ items
    · exact ih hlater (by rw [List.length_set]; exact hi) hrest
    · have hhead : item = head := (List.mem_cons.1 hmem).resolve_right hlater
      have hnone : ∀ item' ∈ items, item'.2.1 - 1 ≠ i :=
        fun item' hitem heq => hlater (hrest item' hitem heq ▸ hitem)
      have hself :=
        @fill_of_notMem items (parts.set (head.2.1 - 1) (.toolCall (some head.2.2))) i hnone
      refine hself.trans ?_
      rw [← hhead, hindex]
      exact List.getElem?_set_self hi

theorem length_fill (items : List (PyStr × Nat × ToolCall)) (parts : List Part) :
    (fill parts items).length = parts.length := by
  induction items generalizing parts with
  | nil => rfl
  | cons item items ih => exact (ih _).trans List.length_set

theorem mem_fill {items : List (PyStr × Nat × ToolCall)} {parts : List Part} {part : Part}
    (h : part ∈ fill parts items) : part ∈ parts ∨ ∃ call, part = .toolCall (some call) := by
  induction items generalizing parts with
  | nil => exact Or.inl h
  | cons item items ih =>
    rcases ih h with hset | hcall
    · rcases List.mem_or_eq_of_mem_set hset with hold | heq
      · exact Or.inl hold
      · exact Or.inr ⟨_, heq⟩
    · exact Or.inr hcall

theorem Inv.item (h : s.Inv) {item : PyStr × Nat × ToolCall} (hitem : item ∈ s.opened.items) :
    ∃ i, s.Holds item.2.1 item.2.2 i :=
  h.opened item.1 item.2.1 item.2.2 (Dict.get?_eq_some_iff.2 hitem)

/-- Closing the books keeps what a turn collected. -/
theorem collects_fill (h : s.Inv) :
    Collects s.frames s.collected (fill s.extraParts s.opened.items) where
  text := h.collects.text
  texts := h.collects.texts
  silent := by
    rw [h.collects.silent, ← List.length_eq_zero_iff (l := fill _ _), length_fill,
      List.length_eq_zero_iff]
  beside := by
    intro part hpart
    rcases mem_fill hpart with hold | ⟨call, rfl⟩
    · exact h.collects.beside part hold
    · rfl

/-- When no slot was lost, every slot has the part that was streamed under its index. -/
theorem slots_fill (h : s.Inv) (hnone : ¬ ∃ i, s.Orphan i) (i : Nat) :
    streamed s.frames (i + 1) = (fill s.extraParts s.opened.items)[i]? := by
  cases hpart : s.extraParts[i]? with
  | none =>
    have hge := List.getElem?_eq_none_iff.1 hpart
    rw [h.beyond i hge, List.getElem?_eq_none]
    rw [length_fill]
    exact hge
  | some part =>
    have hi := (List.getElem?_eq_some_iff.1 hpart).1
    by_cases hcall : part = .toolCall none
    · rw [hcall] at hpart
      have hopen : ∃ id call, s.opened.get? id = some (i + 1, call) := by
        by_contra hlost
        push Not at hlost
        exact hnone ⟨i, hpart, hlost⟩
      obtain ⟨id, call, hget⟩ := hopen
      have hmem := Dict.get?_eq_some_iff.1 hget
      obtain ⟨j, hj, -, hstreamed⟩ := h.opened id (i + 1) call hget
      obtain rfl : i = j := Nat.succ.inj hj
      refine hstreamed.trans (fill_of_mem hmem (Nat.add_sub_cancel i 1) hi ?_).symm
      -- no two open calls have one slot
      intro item hitem hindex
      obtain ⟨k, hk⟩ := h.item hitem
      have hsame : item.2.1 = i + 1 := by
        have hlow := hk.index
        omega
      have hget' : s.opened.get? item.1 = some (i + 1, item.2.2) :=
        Dict.get?_eq_some_iff.2 (hsame ▸ hitem)
      have hid := h.apart item.1 id (i + 1) item.2.2 call hget' hget
      have hvalue : (i + 1, item.2.2) = (i + 1, call) :=
        Option.some.inj ((hid ▸ hget').symm.trans hget)
      have hsnd : item.2 = (i + 1, call) := Prod.ext hsame (Prod.mk.inj hvalue).2
      exact Prod.ext hid hsnd
    · rw [h.filled i part hpart hcall, fill_of_notMem, hpart]
      intro item hitem hindex
      obtain ⟨k, hk⟩ := h.item hitem
      have hki : k = i := by
        have hlow := hk.index
        omega
      have hreserved := hk.reserved
      rw [hki, hpart] at hreserved
      exact hcall (Option.some.inj hreserved)

/-- A slot that was lost stays reserved. -/
theorem orphan_fill (h : s.Inv) {i : Nat} (horphan : s.Orphan i) :
    (fill s.extraParts s.opened.items)[i]? = some (.toolCall none) := by
  rw [fill_of_notMem, horphan.1]
  intro item hitem hindex
  obtain ⟨k, hk⟩ := h.item hitem
  have hsame : item.2.1 = i + 1 := by
    have hlow := hk.index
    omega
  exact horphan.2 item.1 item.2.2 (Dict.get?_eq_some_iff.2 (hsame ▸ hitem))

theorem emitted_inv (events : List Event) : (events.foldl emit {}).Inv := by
  induction events using List.reverseRecOn with
  | nil => exact inv_opening
  | append_singleton events event ih =>
    rw [List.foldl_append]
    exact emit_inv event ih

end AgentState

/-! ## The stored message -/

theorem receipts_silent (chunks : List Chunk) : ∀ f ∈ receipts chunks, f.isSilent = true := by
  intro f hf
  rw [receipts] at hf
  rcases List.mem_append.1 hf with husage | hfinal
  · split at husage
    · rw [List.mem_singleton.1 husage]
      rfl
    · cases husage
  · rw [List.mem_singleton.1 hfinal]
    rfl

theorem slot_of_silent {f : Frame} (h : f.isSilent = true) : f.slot = none := by
  cases f with
  | event name => rfl
  | messageDelta _ | thinkStep | reasoningDelta _ | runStep _ _ | runStepCompleted _ _ | part _ _ =>
    cases h

theorem streamed_receipts (frames : List Frame) (chunks : List Chunk) (k : Nat) :
    streamed (frames ++ receipts chunks) k = streamed frames k := by
  refine streamed_other fun f hf hslot => ?_
  rw [slot_of_silent (receipts_silent chunks f hf)] at hslot
  cases hslot

theorem chat_mirrors_iff (chunks : List Chunk) (ending : Ending) (cap : Option PyStr) :
    Mirrors ((Turn.chat chunks ending cap).stored .committed)
        ((Turn.chat chunks ending cap).sent .committed) ↔
      (Turn.chat chunks ending cap).Told .committed := by
  have hinv := ChatState.charge_inv chunks cap (runTurn_inv chunks ending)
  have hcollects := hinv.collects.silent_tail (receipts_silent chunks)
  refine ⟨fun hmirrors => ⟨hcollects.spoken_of_mirrors hmirrors, rfl⟩, fun htold => ?_⟩
  exact hcollects.mirrors (fun i => (streamed_receipts _ chunks _).trans (hinv.slots_eq i)) _ htold.1

theorem agent_mirrors_iff (events : List Event) (ending : Ending) :
    Mirrors ((Turn.agent events ending).stored .committed)
        ((Turn.agent events ending).sent .committed) ↔
      (Turn.agent events ending).Told .committed := by
  have hinv := AgentState.closeBatch_inv (AgentState.emitted_inv events)
  have hcollects := (AgentState.collects_fill hinv).silent_tail (receipts_silent [])
  -- a slot is lost exactly when two open calls had one id
  have horphan : (∃ i, (events.foldl AgentState.emit {}).closeBatch.Orphan i) ↔
      distinctCalls [] events = false := by
    simp only [AgentState.orphan_closeBatch]
    have hopens : ({} : AgentState).Opens [] :=
      fun _ => ⟨fun hmem => absurd hmem List.not_mem_nil, fun hsome => by cases hsome⟩
    rw [AgentState.orphan_iff events AgentState.inv_opening hopens]
    refine ⟨fun hor => hor.resolve_left ?_, Or.inr⟩
    rintro ⟨i, hreserved, -⟩
    cases hreserved
  constructor
  · intro hmirrors
    refine ⟨hcollects.spoken_of_mirrors hmirrors, ?_⟩
    by_contra hclash
    rw [Bool.not_eq_true] at hclash
    obtain ⟨i, hi⟩ := horphan.2 hclash
    obtain ⟨call, hcall⟩ := hinv.reserved i hi.1
    exact hcollects.not_mirrors (AgentState.orphan_fill hinv hi)
      ((streamed_receipts _ [] _).trans hcall) _ hmirrors
  · rintro ⟨hspoken, hdistinct⟩
    have hnone : ¬ ∃ i, (events.foldl AgentState.emit {}).closeBatch.Orphan i := by
      rw [horphan]
      intro hclash
      exact absurd (hclash.symm.trans hdistinct) Bool.false_ne_true
    exact hcollects.mirrors
      (fun i => (streamed_receipts _ [] _).trans (AgentState.slots_fill hinv hnone i)) _ hspoken

/-! ## A turn that died -/

theorem frames_slots (turn : Turn) :
    ∀ f ∈ turn.frames, f.isPart = true → ∀ k, f.slot = some k → 1 ≤ k := by
  cases turn with
  | chat chunks ending cap => exact (runTurn_inv chunks ending).slots
  | agent events ending =>
    exact (AgentState.closeBatch_inv (AgentState.emitted_inv events)).slots

/-- The text that is read back from the store is that of the message deltas. -/
theorem messageText_wire (frames : List Frame) :
    ChatTurn.Chat.messageText (ChatTurn.bySeq (ChatTurn.numbered 1 (frames.map Frame.wire))) =
      (texts frames).flatten := by
  rw [ChatTurn.bySeq_numbered]
  have hany : ∀ n, ChatTurn.Chat.messageText (ChatTurn.numbered n (frames.map Frame.wire)) =
      (texts frames).flatten := by
    induction frames with
    | nil => exact fun _ => rfl
    | cons f fs ih =>
      intro n
      have hhead : ChatTurn.Chat.messageText (ChatTurn.numbered n ((f :: fs).map Frame.wire)) =
          f.delta?.toList.flatten ++
            ChatTurn.Chat.messageText (ChatTurn.numbered (n + 1) (fs.map Frame.wire)) := by
        cases f with
        | messageDelta text =>
          have hsingle : (Frame.messageDelta text).delta?.toList.flatten = text :=
            List.append_nil text
          exact hsingle.symm ▸ rfl
        | part index part => cases part <;> rfl
        | thinkStep => rfl
        | reasoningDelta text => rfl
        | runStep index call => rfl
        | runStepCompleted index call => rfl
        | event name => rfl
      rw [texts_cons, List.flatten_append, hhead, ih (n + 1)]
  exact hany 1

theorem reconciled_eq (flushed : List Frame) :
    reconciled flushed = (if (texts flushed).flatten = [] then [] else
      [.text (texts flushed).flatten]) := by
  rw [reconciled, messageText_wire, assemble]
  simp

/-- A frame about a slot beside the text is in no reconciled message. -/
theorem not_mirrors_of_part {frames flushed : List Frame}
    (hslots : ∀ f ∈ frames, f.isPart = true → ∀ k, f.slot = some k → 1 ≤ k) {f : Frame}
    (hf : f ∈ frames) (hpart : f.isPart = true) : ¬ Mirrors (reconciled flushed) frames := by
  intro hmirrors
  obtain ⟨k, hk⟩ : ∃ k, f.slot = some k := by
    cases f with
    | messageDelta _ | event _ => cases hpart
    | thinkStep | reasoningDelta _ | runStep _ _ | runStepCompleted _ _ | part _ _ => exact ⟨_, rfl⟩
  obtain ⟨part, hstreamed⟩ := Option.isSome_iff_exists.1 (streamed_isSome hf hk)
  have hkept := hmirrors.kept k part hstreamed
  have hlength : (reconciled flushed).length ≤ 1 := by
    rw [reconciled_eq]
    split
    · exact Nat.zero_le 1
    · exact Nat.le_refl 1
  have hlow := hslots f hf hpart k hk
  have hlt := (List.getElem?_eq_some_iff.1 hkept).1
  omega

theorem texts_eq_nil_iff {frames : List Frame} (h : ∀ f ∈ frames, f.isPart = false) :
    texts frames = [] ↔ ∀ f ∈ frames, f.isSilent = true := by
  rw [texts, List.filterMap_eq_nil_iff]
  refine forall₂_congr fun f hf => ?_
  have hpart := h f hf
  cases f with
  | messageDelta text =>
    exact ⟨fun hnone => (by cases hnone), fun hsilent => (by cases hsilent)⟩
  | event name => exact ⟨fun _ => rfl, fun _ => rfl⟩
  | thinkStep | reasoningDelta _ | runStep _ _ | runStepCompleted _ _ | part _ _ => cases hpart

theorem flatten_texts_drop {frames : List Frame} {n : Nat} :
    (texts (frames.drop n)).flatten = [] ↔
      ∀ f ∈ frames.drop n, ∀ text, f.delta? = some text → text = [] := by
  rw [List.flatten_eq_nil_iff]
  simp only [texts, List.mem_filterMap]
  constructor
  · exact fun h f hf text htext => h text ⟨f, hf, htext⟩
  · intro h text hmem
    rcases hmem with ⟨f, hf, htext⟩
    exact h f hf text htext

theorem died_mirrors_iff (turn : Turn) (published flushed : Nat) :
    Mirrors (turn.stored (.died published flushed)) (turn.sent (.died published flushed)) ↔
      turn.Told (.died published flushed) := by
  have hstored : turn.stored (.died published flushed) =
      reconciled ((turn.frames.take published).take flushed) := by cases turn <;> rfl
  have hsent : turn.sent (.died published flushed) = turn.frames.take published := by
    cases turn <;> rfl
  rw [Turn.Told, hstored, hsent]
  set frames := turn.frames.take published with hframes
  have hslots : ∀ f ∈ frames, f.isPart = true → ∀ k, f.slot = some k → 1 ≤ k :=
    fun f hf => frames_slots turn f (List.mem_of_mem_take hf)
  -- what was flushed and what was lost
  have hsplit : (texts frames).flatten =
      (texts (frames.take flushed)).flatten ++ (texts (frames.drop flushed)).flatten := by
    rw [← List.flatten_append, ← texts_append, List.take_append_drop]
  constructor
  · intro hmirrors
    have hnone : ∀ f ∈ frames, f.isPart = false := by
      intro f hf
      by_contra hpart
      exact not_mirrors_of_part hslots hf (Bool.eq_true_of_not_eq_false hpart) hmirrors
    have hzero := (streamed_texts hnone).1
    rw [← flatten_texts_drop, spoken_iff, ← texts_eq_nil_iff hnone]
    by_cases htexts : texts frames = []
    · refine ⟨Or.inr htexts, hnone, ?_⟩
      rw [htexts, List.flatten_nil] at hsplit
      exact (List.append_eq_nil_iff.1 hsplit.symm).2
    · rw [textPart, if_neg htexts] at hzero
      have hkept := hmirrors.kept 0 _ hzero
      rw [reconciled_eq] at hkept
      split at hkept
      · cases hkept
      · rename_i hflushed
        have htext : (texts (frames.take flushed)).flatten = (texts frames).flatten :=
          Part.text.inj (Option.some.inj hkept)
        refine ⟨Or.inl (htext ▸ hflushed), hnone, ?_⟩
        rw [← htext] at hsplit
        exact List.self_eq_append_right.1 hsplit
  · rintro ⟨hspoken, hnone, hlost⟩
    obtain ⟨hzero, hsucc⟩ := streamed_texts hnone
    rw [← flatten_texts_drop] at hlost
    rw [hlost, List.append_nil] at hsplit
    rw [spoken_iff, ← texts_eq_nil_iff hnone] at hspoken
    rw [reconciled_eq, ← hsplit]
    rcases hspoken with htext | htexts
    · have hsome : texts frames ≠ [] := fun hnil => htext (by rw [hnil]; rfl)
      rw [textPart, if_neg hsome] at hzero
      rw [if_neg htext]
      constructor
      · intro k part hk
        cases k with
        | zero => exact hzero.symm.trans hk
        | succ k => rw [hsucc] at hk; cases hk
      · intro k part hk _
        cases k with
        | zero => exact hzero.trans hk
        | succ k => cases hk
    · rw [textPart, if_pos htexts] at hzero
      rw [htexts]
      constructor
      · intro k part hk
        cases k with
        | zero => rw [hzero] at hk; cases hk
        | succ k => rw [hsucc] at hk; cases hk
      · intro k part hk _
        cases hk

/-- The stored message is the fold of the streamed one exactly when what was streamed leaves no slot
empty before another, no call is started under the id of an open one, and a process that died had
flushed all there was. -/
theorem mirrors_iff (turn : Turn) (outcome : Outcome) :
    Mirrors (turn.stored outcome) (turn.sent outcome) ↔ turn.Told outcome := by
  cases outcome with
  | committed =>
    cases turn with
    | chat chunks ending cap => exact chat_mirrors_iff chunks ending cap
    | agent events ending => exact agent_mirrors_iff events ending
  | died published flushed => exact died_mirrors_iff turn published flushed

/-- The user stops a model that is still thinking. -/
def stoppedTurn : Turn := .chat [.reasoning (lit "Let me see")] .aborted none

/-- What it thought was streamed under the index 1, and is stored in front. -/
theorem thinking_moves_up :
    streamed (stoppedTurn.sent .committed) 1 = some (.think (lit "Let me see")) ∧
      (stoppedTurn.stored .committed)[0]? = some (.think (lit "Let me see")) ∧
      (stoppedTurn.stored .committed)[1]? = none ∧
      ¬ Mirrors (stoppedTurn.stored .committed) (stoppedTurn.sent .committed) := by
  refine ⟨rfl, rfl, rfl, fun hmirrors => ?_⟩
  have hkept := hmirrors.kept 1 (.think (lit "Let me see")) rfl
  cases hkept

end Content
end Tempest
