import Tempest.Execute.TsValue
import Tempest.Process.Reachable

/-!
# Inline — ghost text and the request it answers (`completionPolicy.ts`, `inlineCompletion.ts`)

The policy decides what an answer, an edit or a key makes of the suggestion; the extension dispatches
what it decides.  Every dispatch of a policy takes the risk badge away.  Requests and lookups settle in
any order, and each of them settles once.
-/

namespace Tempest
namespace Inline

open Ts (JsStr)

/-! ## The policy -/

structure Pending where
  generation : Nat
  requestedAt : Int

structure Shown where
  text : JsStr
  generation : Nat

inductive PolicyState where
  | idle
  | pending (p : Pending)
  | showing (shown : Shown)

structure Metrics where
  latencies : List Int
  shown : Nat
  accepted : Nat
  stale : Nat

def emptyMetrics : Metrics := ⟨[], 0, 0, 0⟩

def Metrics.addStale (m : Metrics) : Metrics := { m with stale := m.stale + 1 }

def onDocumentChanged (state : PolicyState) (m : Metrics) : PolicyState × Metrics :=
  match state with
  | .showing _ => (.idle, m)
  | .pending _ => (.idle, m.addStale)
  | .idle => (.idle, m)

def onRequest (state : PolicyState) (m : Metrics) (now : Int) (nextGeneration : Nat) :
    PolicyState × Metrics :=
  match state with
  | .pending _ => (.pending ⟨nextGeneration, now⟩, m.addStale)
  | _ => (.pending ⟨nextGeneration, now⟩, m)

/-- The answer to the question that is being asked, or one that comes too late. -/
def onSuggestion (state : PolicyState) (m : Metrics) (now : Int) (generation : Nat) (text : JsStr) :
    PolicyState × Metrics :=
  match state with
  | .pending p =>
    if p.generation = generation then
      if text = [] then (.idle, m)
      else (.showing ⟨text, generation⟩,
        { m with latencies := m.latencies ++ [now - p.requestedAt], shown := m.shown + 1 })
    else (.pending p, m.addStale)
  | other => (other, m.addStale)

def onAccept (state : PolicyState) (m : Metrics) : PolicyState × Metrics × Option JsStr :=
  match state with
  | .showing shown => (.idle, { m with accepted := m.accepted + 1 }, some shown.text)
  | other => (other, m, none)

def onDismiss (_ : PolicyState) : PolicyState := .idle

def PolicyState.isIdle : PolicyState → Bool
  | .idle => true
  | _ => false

def PolicyState.isPending : PolicyState → Bool
  | .pending _ => true
  | _ => false

def PolicyState.isShowing : PolicyState → Bool
  | .showing _ => true
  | _ => false

def PolicyState.waitsFor (g : Nat) : PolicyState → Bool
  | .pending p => p.generation = g
  | _ => false

def PolicyState.shows (g : Nat) : PolicyState → Bool
  | .showing shown => shown.generation = g
  | _ => false

def PolicyState.awaited : PolicyState → Nat
  | .pending p => p.generation
  | _ => 0

/-! ## The editor -/

/-- `namesNoSymbol()`, or `riskFor(symbol, recorded)` with `none` for a lookup that failed. -/
inductive Risk (ρ : Type) where
  | noSymbol
  | measured (symbol : JsStr) (recorded : Option ρ)

def Risk.symbol {ρ : Type} : Risk ρ → Option JsStr
  | .noSymbol => none
  | .measured symbol _ => some symbol

structure Badge (ρ : Type) where
  about : Nat
  risk : Risk ρ

structure Editor (ρ : Type) where
  doc : JsStr
  caret : Nat
  policy : PolicyState
  risk : Option (Badge ρ)
  metrics : Metrics
  generation : Nat
  asked : Finset Nat
  lookups : List (Nat × JsStr)
  /-- The document and the caret of the latest request, and that neither has changed since. -/
  question : JsStr × Nat
  untouched : Bool
  answers : List (Nat × JsStr)
  /-- The requests for which `shown` or `stale` was raised. -/
  counted : List Nat

inductive Action (ρ : Type) where
  | request (now : Int)
  | answer (g : Nat) (now : Int) (text : JsStr)
  | fail (g : Nat)
  | look (g : Nat) (symbol : JsStr) (recorded : Option ρ)
  | edit (doc : JsStr) (caret : Nat)
  | move (caret : Nat)
  | dismiss
  | accept

section Step

variable {ρ : Type}

def Metrics.judged (m : Metrics) : Nat := m.shown + m.stale

/-- The metrics, and the request to which their growth is owed. -/
def Editor.count (s : Editor ρ) (g : Nat) (m : Metrics) : Editor ρ :=
  { s with metrics := m, counted := List.replicate (m.judged - s.metrics.judged) g ++ s.counted }

/-- A dispatch of `setPolicy`. -/
def Editor.setPolicy (s : Editor ρ) (policy : PolicyState) : Editor ρ := { s with policy, risk := none }

def Editor.dismissed (s : Editor ρ) : Editor ρ :=
  if s.policy.isIdle then s else s.setPolicy (onDismiss s.policy)

-- the symbol that a suggestion names behind a prefix
variable (symbolOf : JsStr → JsStr → Option JsStr)

-- whether a lookup is wired
variable (lookupRisk : Bool)

def Editor.request (s : Editor ρ) (now : Int) : Editor ρ :=
  let asking := onRequest s.policy s.metrics now (s.generation + 1)
  let counted := (s.count s.policy.awaited asking.2).setPolicy asking.1
  { counted with
    generation := s.generation + 1
    asked := insert (s.generation + 1) s.asked
    question := (s.doc, s.caret)
    untouched := true }

/-- What follows the dispatch of an answer, whatever request the policy now shows. -/
def Editor.lookUp (s : Editor ρ) (g : Nat) (text : JsStr) : Editor ρ :=
  if s.policy.isShowing && lookupRisk then
    match symbolOf (s.doc.take s.caret) text with
    | none => { s with risk := some ⟨g, .noSymbol⟩ }
    | some symbol => { s with lookups := (g, symbol) :: s.lookups }
  else s

def Editor.answered (s : Editor ρ) (g : Nat) (now : Int) (text : JsStr) : Editor ρ :=
  let next := onSuggestion s.policy s.metrics now g text
  let settled : Editor ρ := { s with asked := s.asked.erase g, answers := (g, text) :: s.answers }
  ((settled.count g next.2).setPolicy next.1).lookUp symbolOf lookupRisk g text

def Editor.edit (s : Editor ρ) (doc : JsStr) (caret : Nat) : Editor ρ :=
  let next := onDocumentChanged s.policy s.metrics
  { (s.count s.policy.awaited next.2).setPolicy next.1 with doc, caret, untouched := false }

def step (s : Editor ρ) : Action ρ → Option (Editor ρ)
  | .request now => some (if s.policy.isPending then s else s.request now)
  | .answer g now text =>
    if g ∈ s.asked then some (s.answered symbolOf lookupRisk g now text) else none
  | .fail g =>
    if g ∈ s.asked then some ({ s with asked := s.asked.erase g }.setPolicy .idle) else none
  | .look g symbol recorded =>
    if (g, symbol) ∈ s.lookups then
      let looked : Editor ρ := { s with lookups := s.lookups.erase (g, symbol) }
      some (if s.policy.shows g then { looked with risk := some ⟨g, .measured symbol recorded⟩ } else looked)
    else none
  | .edit doc caret => some (s.edit doc caret)
  | .move caret => some { s.dismissed with caret, untouched := false }
  | .dismiss => some s.dismissed
  | .accept =>
    match onAccept s.policy s.metrics with
    | (next, m, some insert) =>
      some (({ s with policy := next, metrics := m } : Editor ρ).edit
        (s.doc.take s.caret ++ insert ++ s.doc.drop s.caret) (s.caret + insert.length))
    | (_, _, none) => some s

def Editor.start (doc : JsStr) (caret : Nat) : Editor ρ :=
  ⟨doc, caret, .idle, none, emptyMetrics, 0, ∅, [], (doc, caret), true, [], []⟩

def Editor.Started (s : Editor ρ) : Prop := ∃ doc caret, s = .start doc caret

/-! ## What a suggestion owes to its question -/

/-- An answer that the policy does not wait for is not counted yet, meets no badge, and names a symbol if
it meets a suggestion; a failure that it does not wait for meets an idle policy. -/
def Clear (s : Editor ρ) : Action ρ → Prop
  | .answer g _ text => s.policy.waitsFor g = false → g ∉ s.counted ∧ s.risk = none ∧
      (s.policy.isShowing = true → lookupRisk = true → symbolOf (s.doc.take s.caret) text ≠ none)
  | .fail g => s.policy.waitsFor g = false → s.policy = .idle
  | _ => True

def Action.Settles (g : Nat) : Action ρ → Prop
  | .answer g' _ _ => g' = g
  | .fail g' => g' = g
  | .look g' _ _ => g' = g
  | _ => False

/-- What holds of a state of a run whose steps are all `ok`. -/
structure Belongs (ok : Editor ρ → Action ρ → Prop) (s : Editor ρ) : Prop where
  latest : ∀ shown, s.policy = .showing shown → shown.generation = s.generation ∧
    (shown.generation, shown.text) ∈ s.answers ∧ s.untouched = true ∧ s.question = (s.doc, s.caret)
  inserted : ∀ shown t, s.policy = .showing shown → step symbolOf lookupRisk s .accept = some t →
    t.doc = s.question.1.take s.question.2 ++ shown.text ++ s.question.1.drop s.question.2
  undisturbed : ∀ g a t, g < s.generation → a.Settles g → ok s a →
    step symbolOf lookupRisk s a = some t → t.policy = s.policy ∧ t.risk = s.risk
  badge : ∀ b, s.risk = some b → ∃ shown, s.policy = .showing shown ∧ b.about = shown.generation ∧
    b.risk.symbol = symbolOf (s.doc.take s.caret) shown.text
  accepted : s.metrics.accepted ≤ s.metrics.shown
  /-- `shown` and `stale` have been raised by these requests, by each once at most. -/
  once : s.metrics.shown + s.metrics.stale = s.counted.length ∧ s.counted.Nodup

/-! ## The invariant -/

def Editor.PhaseInv (s : Editor ρ) : PolicyState → Prop
  | .idle => s.risk = none ∧ s.metrics.accepted ≤ s.metrics.shown
  | .pending p => s.risk = none ∧ s.metrics.accepted ≤ s.metrics.shown ∧ p.generation = s.generation ∧
      p.generation ∉ s.counted ∧ s.untouched = true ∧ s.question = (s.doc, s.caret)
  | .showing shown => s.metrics.accepted < s.metrics.shown ∧ shown.generation = s.generation ∧
      shown.generation ∉ s.asked ∧ (shown.generation, shown.text) ∈ s.answers ∧ s.untouched = true ∧
      s.question = (s.doc, s.caret)

structure Editor.Inv (s : Editor ρ) : Prop where
  asked : ∀ g ∈ s.asked, g ≤ s.generation
  counted : ∀ g ∈ s.counted, g ≤ s.generation
  nodup : s.counted.Nodup
  total : s.metrics.judged = s.counted.length
  phase : s.PhaseInv s.policy
  badge : ∀ b, s.risk = some b → ∃ shown, s.policy = .showing shown ∧ b.about = shown.generation ∧
    b.risk.symbol = symbolOf (s.doc.take s.caret) shown.text
  looks : ∀ g symbol, (g, symbol) ∈ s.lookups → g ∉ s.asked ∧ g ≤ s.generation ∧
    ∀ shown, s.policy = .showing shown → shown.generation = g →
      symbolOf (s.doc.take s.caret) shown.text = some symbol

variable {symbolOf lookupRisk} {s : Editor ρ}

theorem inv_start (doc : JsStr) (caret : Nat) : (Editor.start doc caret : Editor ρ).Inv symbolOf where
  asked := by simp [Editor.start]
  counted := by simp [Editor.start]
  nodup := List.nodup_nil
  total := rfl
  phase := ⟨rfl, le_rfl⟩
  badge := by simp [Editor.start]
  looks := by simp [Editor.start]

/-- An idle policy asks nothing of the document, the caret and the question. -/
theorem Editor.Inv.idle {t : Editor ρ} (h : s.Inv symbolOf) (hpolicy : t.policy = .idle)
    (hrisk : t.risk = none) (hasked : t.asked ⊆ s.asked) (hgeneration : t.generation = s.generation)
    (hlooks : t.lookups = s.lookups) (hcounted : ∀ g ∈ t.counted, g ≤ t.generation)
    (hnodup : t.counted.Nodup) (htotal : t.metrics.judged = t.counted.length)
    (haccepted : t.metrics.accepted ≤ t.metrics.shown) : t.Inv symbolOf where
  asked g hg := hgeneration ▸ h.asked g (hasked hg)
  counted := hcounted
  nodup := hnodup
  total := htotal
  phase := by
    rw [hpolicy]
    exact ⟨hrisk, haccepted⟩
  badge b hb := by simp [hrisk] at hb
  looks g symbol hlook := by
    have hold := h.looks g symbol (hlooks ▸ hlook)
    refine ⟨fun hg => hold.1 (hasked hg), hgeneration ▸ hold.2.1, fun shown hshown => ?_⟩
    rw [hpolicy] at hshown
    cases hshown

theorem Editor.Inv.accepted_le (h : s.Inv symbolOf) : s.metrics.accepted ≤ s.metrics.shown := by
  have hphase := h.phase
  cases hpolicy : s.policy with
  | idle => rw [hpolicy] at hphase; exact hphase.2
  | pending p => rw [hpolicy] at hphase; exact hphase.2.1
  | showing shown => rw [hpolicy] at hphase; exact hphase.1.le

theorem inv_fail {g : Nat} (h : s.Inv symbolOf) :
    ({ s with asked := s.asked.erase g }.setPolicy .idle : Editor ρ).Inv symbolOf :=
  h.idle rfl rfl (Finset.erase_subset _ _) rfl rfl h.counted h.nodup h.total h.accepted_le

theorem inv_dismissed (h : s.Inv symbolOf) : s.dismissed.Inv symbolOf := by
  unfold Editor.dismissed
  split_ifs
  · exact h
  · exact h.idle rfl rfl (Finset.Subset.refl _) rfl rfl h.counted h.nodup h.total h.accepted_le

theorem inv_edit (h : s.Inv symbolOf) (doc : JsStr) (caret : Nat) : (s.edit doc caret).Inv symbolOf := by
  have hphase := h.phase
  cases hpolicy : s.policy with
  | pending p =>
    -- the request that was in flight is counted as stale
    rw [hpolicy] at hphase
    obtain ⟨-, haccepted, hgeneration, hfresh, -⟩ := hphase
    have hcounted : (s.edit doc caret).counted = p.generation :: s.counted := by
      simp [Editor.edit, Editor.count, Editor.setPolicy, onDocumentChanged, hpolicy, Metrics.addStale,
        Metrics.judged, PolicyState.awaited, ← Nat.add_assoc]
    refine h.idle ?_ rfl (Finset.Subset.refl _) rfl rfl ?_ ?_ ?_ ?_
    · simp [Editor.edit, Editor.setPolicy, onDocumentChanged, hpolicy]
    · rw [hcounted]
      exact List.forall_mem_cons.2 ⟨hgeneration.le, h.counted⟩
    · rw [hcounted]
      exact List.nodup_cons.2 ⟨hfresh, h.nodup⟩
    · have htotal := h.total
      rw [hcounted, List.length_cons, ← htotal]
      simp [Editor.edit, Editor.count, Editor.setPolicy, onDocumentChanged, hpolicy, Metrics.addStale,
        Metrics.judged, Nat.add_assoc]
    · simpa [Editor.edit, Editor.count, Editor.setPolicy, onDocumentChanged, hpolicy, Metrics.addStale]
        using haccepted
  | idle | showing _ =>
    refine h.idle ?_ rfl (Finset.Subset.refl _) rfl rfl ?_ ?_ ?_ ?_ <;>
      simp [Editor.edit, Editor.count, Editor.setPolicy, onDocumentChanged, hpolicy]
    · exact h.counted
    · exact h.nodup
    · exact h.total
    · exact h.accepted_le

theorem inv_accept {t : Editor ρ} (h : s.Inv symbolOf)
    (hstep : step symbolOf lookupRisk s .accept = some t) :
    t.Inv symbolOf := by
  cases hpolicy : s.policy with
  | showing shown =>
    have hphase := h.phase
    rw [hpolicy] at hphase
    simp only [step, onAccept, hpolicy, Option.some.injEq] at hstep
    -- the acceptance is counted, and the insertion is an edit of an idle editor
    have haccepted : ({ s with
        policy := .idle, risk := none, metrics :=
          { s.metrics with accepted := s.metrics.accepted + 1 } } :
        Editor ρ).Inv symbolOf :=
      h.idle rfl rfl (Finset.Subset.refl _) rfl rfl h.counted h.nodup h.total hphase.1
    have hedited := inv_edit haccepted (s.doc.take s.caret ++ shown.text ++ s.doc.drop s.caret)
      (s.caret + shown.text.length)
    rw [← hstep]
    exact hedited
  | idle | pending _ =>
    simp only [step, onAccept, hpolicy, Option.some.injEq] at hstep
    exact hstep ▸ h

theorem inv_request (h : s.Inv symbolOf) (hpending : s.policy.isPending = false) (now : Int) :
    (s.request now).Inv symbolOf := by
  have hasking : onRequest s.policy s.metrics now (s.generation + 1) =
      (.pending ⟨s.generation + 1, now⟩, s.metrics) := by
    cases hpolicy : s.policy with
    | pending p => simp [PolicyState.isPending, hpolicy] at hpending
    | idle | showing _ => rfl
  have hcounted : (s.request now).counted = s.counted := by
    simp [Editor.request, Editor.count, Editor.setPolicy, hasking]
  have hpolicy : (s.request now).policy = .pending ⟨s.generation + 1, now⟩ := by
    simp [Editor.request, Editor.setPolicy, hasking]
  have hmetrics : (s.request now).metrics = s.metrics := by
    simp [Editor.request, Editor.count, Editor.setPolicy, hasking]
  have hfresh : s.generation + 1 ∉ s.counted := fun hmem => absurd (h.counted _ hmem) (by omega)
  constructor
  · intro g hg
    rcases Finset.mem_insert.1 hg with rfl | hold
    · exact le_rfl
    · exact (h.asked g hold).trans (Nat.le_succ _)
  · exact fun g hg => (h.counted g (hcounted ▸ hg)).trans (Nat.le_succ _)
  · exact hcounted ▸ h.nodup
  · rw [hmetrics, hcounted]
    exact h.total
  · rw [hpolicy]
    refine ⟨rfl, hmetrics ▸ h.accepted_le, rfl, ?_, rfl, rfl⟩
    rw [hcounted]
    exact hfresh
  · intro b hb
    simp [Editor.request, Editor.setPolicy] at hb
  · intro g symbol hlook
    have hold := h.looks g symbol hlook
    refine ⟨fun hg => ?_, hold.2.1.trans (Nat.le_succ _), fun shown hshown => ?_⟩
    · rcases Finset.mem_insert.1 hg with hnew | hasked
      · exact absurd hold.2.1 (by omega)
      · exact hold.1 hasked
    · rw [hpolicy] at hshown
      cases hshown

theorem inv_look {t : Editor ρ} {g : Nat} {symbol : JsStr} {recorded : Option ρ} (h : s.Inv symbolOf)
    (hstep : step symbolOf lookupRisk s (.look g symbol recorded) = some t) : t.Inv symbolOf := by
  simp only [step] at hstep
  split_ifs at hstep with hmem hshows
  all_goals
    cases hstep
  · -- the lookup is for the suggestion on screen, so its symbol is the one that this names
    have hlook := h.looks g symbol hmem
    refine ⟨h.asked, h.counted, h.nodup, h.total, ?_, fun b hb => ?_, fun g' symbol' hlook' =>
      h.looks g' symbol' (List.mem_of_mem_erase hlook')⟩
    · have hphase := h.phase
      cases hpolicy : s.policy with
      | showing shown => rwa [hpolicy] at hphase
      | idle | pending _ => simp [PolicyState.shows, hpolicy] at hshows
    · cases hb
      cases hpolicy : s.policy with
      | showing shown =>
        have hgeneration : shown.generation = g := by simpa [PolicyState.shows, hpolicy] using hshows
        exact ⟨shown, rfl, hgeneration.symm, (hlook.2.2 shown hpolicy hgeneration).symm⟩
      | idle | pending _ => simp [PolicyState.shows, hpolicy] at hshows
  · exact ⟨h.asked, h.counted, h.nodup, h.total, h.phase, h.badge, fun g' symbol' hlook' =>
      h.looks g' symbol' (List.mem_of_mem_erase hlook')⟩

theorem exists_showing {policy : PolicyState} (h : policy.isShowing = true) :
    ∃ shown, policy = .showing shown := by
  cases policy with
  | showing shown => exact ⟨shown, rfl⟩
  | idle | pending _ => cases h

/-- What an answer looks up, or finds to name no symbol, is about the suggestion that it has become. -/
theorem inv_lookUp {g : Nat} {text : JsStr} (h : s.Inv symbolOf) (hasked : g ∉ s.asked)
    (hle : g ≤ s.generation) (hown : ∀ shown, s.policy = .showing shown →
      (shown.generation = g → shown.text = text) ∧
        (lookupRisk = true → symbolOf (s.doc.take s.caret) text = none → shown.generation = g)) :
    (s.lookUp symbolOf lookupRisk g text).Inv symbolOf := by
  unfold Editor.lookUp
  split_ifs with hlooks
  · rw [Bool.and_eq_true] at hlooks
    obtain ⟨shown, hpolicy⟩ := exists_showing hlooks.1
    have hphase := h.phase
    rw [hpolicy] at hphase
    cases hsymbol : symbolOf (s.doc.take s.caret) text with
    | none =>
      have hgeneration := (hown shown hpolicy).2 hlooks.2 hsymbol
      have hphase' : ({ s with risk := some ⟨g, .noSymbol⟩ } : Editor ρ).PhaseInv s.policy := by
        rw [hpolicy]
        exact hphase
      refine ⟨h.asked, h.counted, h.nodup, h.total, hphase', fun b hb => ?_, h.looks⟩
      cases hb
      refine ⟨shown, hpolicy, hgeneration.symm, ?_⟩
      rw [(hown shown hpolicy).1 hgeneration]
      exact hsymbol.symm
    | some symbol =>
      have hphase' : ({ s with lookups := (g, symbol) :: s.lookups } : Editor ρ).PhaseInv s.policy := by
        rw [hpolicy]
        exact hphase
      refine ⟨h.asked, h.counted, h.nodup, h.total, hphase', h.badge, fun g' symbol' hlook => ?_⟩
      rcases List.mem_cons.1 hlook with hnew | hold
      · cases hnew
        refine ⟨hasked, hle, fun shown' hshown hgeneration => ?_⟩
        rw [(hown shown' hshown).1 hgeneration]
        exact hsymbol
      · exact h.looks g' symbol' hold
  · exact h

/-- The policy after an answer, before the lookup. -/
def Editor.told (s : Editor ρ) (g : Nat) (text : JsStr) (next : PolicyState × Metrics) : Editor ρ :=
  (({ s with asked := s.asked.erase g, answers := (g, text) :: s.answers } : Editor ρ).count g
    next.2).setPolicy next.1

theorem told_counted {g : Nat} {text : JsStr} {next : PolicyState × Metrics}
    (hnext : next.2.judged = s.metrics.judged + 1) : (s.told g text next).counted = g :: s.counted := by
  simp [Editor.told, Editor.count, Editor.setPolicy, hnext]

/-- An answer that comes too late is counted, and nothing else. -/
theorem inv_told_late {g : Nat} {text : JsStr} (h : s.Inv symbolOf) (hg : g ∈ s.asked)
    (hwaits : s.policy.waitsFor g = false) (hcounted : g ∉ s.counted) :
    (s.told g text (s.policy, s.metrics.addStale)).Inv symbolOf := by
  have hjudged : s.metrics.addStale.judged = s.metrics.judged + 1 := by
    simp [Metrics.addStale, Metrics.judged, Nat.add_assoc]
  have hnew := @told_counted _ s g text (s.policy, s.metrics.addStale) hjudged
  constructor
  · exact fun g' hg' => h.asked g' (Finset.mem_of_mem_erase hg')
  · rw [hnew]
    exact List.forall_mem_cons.2 ⟨h.asked g hg, h.counted⟩
  · rw [hnew]
    exact List.nodup_cons.2 ⟨hcounted, h.nodup⟩
  · rw [hnew, List.length_cons, ← h.total]
    exact hjudged
  · have hphase := h.phase
    show Editor.PhaseInv _ s.policy
    cases hpolicy : s.policy with
    | idle =>
      rw [hpolicy] at hphase
      exact ⟨rfl, hphase.2⟩
    | pending p =>
      rw [hpolicy] at hphase
      obtain ⟨-, haccepted, hgeneration, hfresh, hquestion⟩ := hphase
      have hne : p.generation ≠ g := by simpa [PolicyState.waitsFor, hpolicy] using hwaits
      refine ⟨rfl, haccepted, hgeneration, fun hmem => ?_, hquestion⟩
      have hold : p.generation ∈ g :: s.counted := by
        rw [← hnew]
        exact hmem
      rcases List.mem_cons.1 hold with hsame | hcount
      · exact hne hsame
      · exact hfresh hcount
    | showing shown =>
      rw [hpolicy] at hphase
      obtain ⟨haccepted, hgeneration, hsettled, hanswer, hquestion⟩ := hphase
      exact ⟨haccepted, hgeneration, fun hmem => hsettled (Finset.mem_of_mem_erase hmem),
        List.mem_cons_of_mem _ hanswer, hquestion⟩
  · intro b hb
    simp [Editor.told, Editor.setPolicy] at hb
  · intro g' symbol hlook
    have hold := h.looks g' symbol hlook
    exact ⟨fun hmem => hold.1 (Finset.mem_of_mem_erase hmem), hold.2⟩

/-- The answer that the policy waits for becomes the suggestion. -/
theorem inv_told_shown {g : Nat} {now : Int} {text : JsStr} {p : Pending} (h : s.Inv symbolOf)
    (hg : g ∈ s.asked) (hpolicy : s.policy = .pending p) (hp : p.generation = g) :
    (s.told g text (.showing ⟨text, g⟩, { s.metrics with
      latencies := s.metrics.latencies ++ [now - p.requestedAt]
      shown := s.metrics.shown + 1 })).Inv symbolOf := by
  have hphase := h.phase
  rw [hpolicy] at hphase
  obtain ⟨-, haccepted, hgeneration, hfresh, hquestion⟩ := hphase
  rw [hp] at hgeneration hfresh
  set next : PolicyState × Metrics := (.showing ⟨text, g⟩, { s.metrics with
    latencies := s.metrics.latencies ++ [now - p.requestedAt]
    shown := s.metrics.shown + 1 }) with hnext
  have hjudged : next.2.judged = s.metrics.judged + 1 := by
    simp [hnext, Metrics.judged, Nat.add_right_comm]
  have hnew := @told_counted _ s g text next hjudged
  constructor
  · exact fun g' hg' => h.asked g' (Finset.mem_of_mem_erase hg')
  · rw [hnew]
    exact List.forall_mem_cons.2 ⟨h.asked g hg, h.counted⟩
  · rw [hnew]
    exact List.nodup_cons.2 ⟨hfresh, h.nodup⟩
  · rw [hnew, List.length_cons, ← h.total]
    exact hjudged
  · exact ⟨Nat.lt_succ_of_le haccepted, hgeneration, Finset.notMem_erase g s.asked, List.mem_cons_self,
      hquestion⟩
  · intro b hb
    simp [Editor.told, Editor.setPolicy] at hb
  · intro g' symbol hlook
    have hold := h.looks g' symbol hlook
    refine ⟨fun hmem => hold.1 (Finset.mem_of_mem_erase hmem), hold.2.1, fun shown hshown hsame => ?_⟩
    -- the lookups under way belong to requests that have settled, and this one had not
    cases hshown
    have hown : g = g' := hsame
    exact absurd hg (hown ▸ hold.1)

theorem onSuggestion_late {policy : PolicyState} {m : Metrics} {now : Int} {g : Nat} {text : JsStr}
    (hwaits : policy.waitsFor g = false) : onSuggestion policy m now g text = (policy, m.addStale) := by
  cases policy with
  | pending p =>
    have hne : p.generation ≠ g := by simpa [PolicyState.waitsFor] using hwaits
    simp [onSuggestion, hne]
  | idle | showing _ => rfl

/-- An answer that names a symbol, or is not looked up, leaves the policy and the badge. -/
theorem lookUp_unchanged {g : Nat} {text : JsStr}
    (hnamed : s.policy.isShowing = true → lookupRisk = true →
    symbolOf (s.doc.take s.caret) text ≠ none) :
    (s.lookUp symbolOf lookupRisk g text).policy = s.policy ∧
      (s.lookUp symbolOf lookupRisk g text).risk = s.risk := by
  unfold Editor.lookUp
  split_ifs with hlooks
  · rw [Bool.and_eq_true] at hlooks
    cases hsymbol : symbolOf (s.doc.take s.caret) text with
    | none => exact absurd hsymbol (hnamed hlooks.1 hlooks.2)
    | some symbol => exact ⟨rfl, rfl⟩
  · exact ⟨rfl, rfl⟩

theorem inv_answered {g : Nat} {now : Int} {text : JsStr} (h : s.Inv symbolOf) (hg : g ∈ s.asked)
    (hclear : Clear symbolOf lookupRisk s (.answer g now text)) :
    (s.answered symbolOf lookupRisk g now text).Inv symbolOf := by
  have hgone : g ∉ s.asked.erase g := Finset.notMem_erase g s.asked
  cases hwaits : s.policy.waitsFor g with
  | true =>
    obtain ⟨p, hpolicy, hp⟩ : ∃ p, s.policy = .pending p ∧ p.generation = g := by
      cases hpolicy : s.policy with
      | pending p => exact ⟨p, rfl, by simpa [PolicyState.waitsFor, hpolicy] using hwaits⟩
      | idle | showing _ => simp [PolicyState.waitsFor, hpolicy] at hwaits
    by_cases htext : text = []
    · -- an empty answer leaves an idle policy
      have hidle : s.answered symbolOf lookupRisk g now text = s.told g text (.idle, s.metrics) := by
        simp [Editor.answered, Editor.told, onSuggestion, hpolicy, hp, htext, Editor.lookUp,
          Editor.setPolicy,
          PolicyState.isShowing]
      rw [hidle]
      refine h.idle rfl rfl (Finset.erase_subset _ _) rfl rfl ?_ ?_ ?_ h.accepted_le <;>
        simp [Editor.told, Editor.count, Editor.setPolicy]
      · exact h.counted
      · exact h.nodup
      · exact h.total
    · have htold := @inv_told_shown _ _ _ g now text p h hg hpolicy hp
      have hnext : onSuggestion s.policy s.metrics now g text = (.showing ⟨text, g⟩, { s.metrics with
          latencies := s.metrics.latencies ++ [now - p.requestedAt]
          shown := s.metrics.shown + 1 }) := by
        simp [onSuggestion, hpolicy, hp, htext]
      unfold Editor.answered
      rw [hnext]
      refine inv_lookUp htold hgone (h.asked g hg) fun shown hshown => ?_
      cases hshown
      exact ⟨fun _ => rfl, fun _ _ => rfl⟩
  | false =>
    obtain ⟨hcounted, -, hnamed⟩ := hclear hwaits
    have hnext : onSuggestion s.policy s.metrics now g text = (s.policy, s.metrics.addStale) :=
      onSuggestion_late hwaits
    have htold := @inv_told_late _ _ _ g text h hg hwaits hcounted
    unfold Editor.answered
    rw [hnext]
    refine inv_lookUp htold hgone (h.asked g hg) fun shown hshown => ⟨fun hown => ?_,
      fun hlook hsymbol => ?_⟩
    · -- the suggestion on screen is not the answer to a request that has not settled
      have hpolicy : s.policy = .showing shown := hshown
      have hphase := h.phase
      rw [hpolicy] at hphase
      exact absurd (hown ▸ hg) hphase.2.2.1
    · have hpolicy : s.policy = .showing shown := hshown
      exact absurd hsymbol (hnamed (by rw [hpolicy]; rfl) hlook)

theorem inv_step {s' : Editor ρ} {a : Action ρ} (h : s.Inv symbolOf)
    (hclear : Clear symbolOf lookupRisk s a)
    (hstep : step symbolOf lookupRisk s a = some s') : s'.Inv symbolOf := by
  cases a with
  | request now =>
    simp only [step, Option.some.injEq] at hstep
    rw [← hstep]
    split_ifs with hpending
    · exact h
    · exact inv_request h (by simpa using hpending) now
  | answer g now text =>
    simp only [step] at hstep
    split_ifs at hstep with hg
    cases hstep
    exact inv_answered h hg hclear
  | fail g =>
    simp only [step] at hstep
    split_ifs at hstep
    cases hstep
    exact inv_fail h
  | look g symbol recorded => exact inv_look h hstep
  | edit doc caret =>
    cases hstep
    exact inv_edit h doc caret
  | move caret =>
    cases hstep
    have hdismissed := inv_dismissed h
    have hidle : s.dismissed.policy = .idle := by
      unfold Editor.dismissed
      split_ifs with hpolicy
      · cases hcase : s.policy with
        | idle => rfl
        | pending _ | showing _ => simp [PolicyState.isIdle, hcase] at hpolicy
      · rfl
    have hphase := hdismissed.phase
    rw [hidle] at hphase
    exact hdismissed.idle hidle hphase.1
      (Finset.Subset.refl _) rfl rfl hdismissed.counted hdismissed.nodup
      hdismissed.total hphase.2
  | dismiss =>
    cases hstep
    exact inv_dismissed h
  | accept => exact inv_accept h hstep

theorem inv_reachable (h : Reachable (step symbolOf lookupRisk)
      (Clear symbolOf lookupRisk) Editor.Started s) :
    s.Inv symbolOf :=
  h.invariant (fun _ ⟨doc, caret, hstart⟩ => hstart ▸ inv_start doc caret) fun _ _ _ hinv hclear hstep =>
    inv_step hinv hclear hstep

/-- Where answers and failures that come too late are clear, a suggestion belongs to its question. -/
theorem suggestion_belongs
    (h : Reachable (step symbolOf lookupRisk) (Clear symbolOf lookupRisk) Editor.Started s) :
    Belongs symbolOf lookupRisk (Clear symbolOf lookupRisk) s := by
  have hinv := inv_reachable h
  have hphase := hinv.phase
  have hcurrent : ∀ g, g < s.generation → s.policy.waitsFor g = false ∧ s.policy.shows g = false := by
    intro g hg
    cases hpolicy : s.policy with
    | idle => exact ⟨rfl, rfl⟩
    | pending p =>
      rw [hpolicy] at hphase
      exact ⟨decide_eq_false (hphase.2.2.1 ▸ hg.ne'), rfl⟩
    | showing shown =>
      rw [hpolicy] at hphase
      exact ⟨rfl, decide_eq_false (hphase.2.1 ▸ hg.ne')⟩
  constructor
  · intro shown hpolicy
    rw [hpolicy] at hphase
    exact ⟨hphase.2.1, hphase.2.2.2⟩
  · intro shown t hpolicy hstep
    rw [hpolicy] at hphase
    simp only [step, onAccept, hpolicy, Option.some.injEq] at hstep
    rw [← hstep, hphase.2.2.2.2.2]
    rfl
  · intro g a t hg hsettles hclear hstep
    cases a with
    | answer g' now text =>
      obtain rfl : g' = g := hsettles
      have hwaits := (hcurrent g' hg).1
      obtain ⟨-, hrisk, hnamed⟩ := hclear hwaits
      have hnext : onSuggestion s.policy s.metrics now g' text = (s.policy, s.metrics.addStale) :=
        onSuggestion_late hwaits
      simp only [step] at hstep
      split_ifs at hstep
      cases hstep
      unfold Editor.answered
      rw [hnext, hrisk]
      exact lookUp_unchanged hnamed
    | fail g' =>
      obtain rfl : g' = g := hsettles
      have hidle := hclear (hcurrent g' hg).1
      rw [hidle] at hphase
      simp only [step] at hstep
      split_ifs at hstep
      cases hstep
      exact ⟨hidle.symm, hphase.1.symm⟩
    | look g' symbol recorded =>
      obtain rfl : g' = g := hsettles
      simp only [step, (hcurrent g' hg).2, Bool.false_eq_true, if_false] at hstep
      split_ifs at hstep
      cases hstep
      exact ⟨rfl, rfl⟩
    | request _ | edit _ _ | move _ | dismiss | accept => cases hsettles
  · exact hinv.badge
  · exact hinv.accepted_le
  · exact ⟨hinv.total, hinv.nodup⟩

theorem suggestion_belongs_shown : ∃ s : Editor Unit, s.policy = .showing ⟨Ts.js "total", 1⟩ ∧
    Belongs (fun _ _ => none) true (Clear (fun _ _ => none) true) s := by
  have hreached : Reachable (step (fun _ _ => none) true) (Clear (fun _ _ => none) true) Editor.Started
      ((((Editor.start [] 0 : Editor Unit).request 0).answered (fun _ _ => none) true 1 5 (Ts.js "total"))) :=
    .step (.step (.start ⟨[], 0, rfl⟩) (a := .request 0) trivial rfl) (a := .answer 1 5 (Ts.js "total"))
      (fun hlate => nomatch hlate) rfl
  exact ⟨_, rfl, suggestion_belongs hreached⟩

/-- A request that was dismissed fails, and takes the next request with it. -/
theorem failure_disturbs :
    ¬ ∀ (symbolOf : JsStr → JsStr → Option JsStr) (lookupRisk : Bool) (s : Editor Unit),
    Reachable (step symbolOf lookupRisk) (fun _ _ => True) Editor.Started s →
      Belongs symbolOf lookupRisk (fun _ _ => True) s := by
  intro h
  have hstart : Reachable (step (fun _ _ => none) true) (fun _ _ => True) Editor.Started
      (Editor.start [] 0 : Editor Unit) := .start ⟨[], 0, rfl⟩
  have hasked := hstart.of_always [.request 0, .dismiss, .request 1] (by simp) rfl
  have hfailed := (h _ _ _ hasked).undisturbed 1 (.fail 1) _ (by decide) rfl trivial rfl
  exact PolicyState.noConfusion hfailed.1

end Step
end Inline
end Tempest
