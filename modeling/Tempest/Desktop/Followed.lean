import Tempest.Desktop.HandedOn

/-!
# Followed — the webview sees each frame once and in order

`handed_on`: in every run whose steps `Admits` allows, what each subscriber has handed to its listeners
is the ledger up to the last number, once and in order, and nothing is left out at the end.  Between the
subscriber's last number and its poller's cursor lies a chain of pages, each behind the one before.
-/

namespace Tempest
namespace LiveFeed

open ChatTurn

/-! ## The invariant -/

/-- What the poller of a subscriber has in hand is the next page behind what it has pushed. -/
def Poller.Follows (s : Turn) (b : Nat) : Poller → Prop
  | .checking after | .calling after => after = b
  | .holding after page | .emitting after page => Fits s b after page
  | .gone | .leaving => s.status ≠ .active ∧ b = s.ledger.length

def Host.Owns (s : Host) (g : Nat) : Prop :=
  s.live = some g ∨ s.pollers g = .gone ∨ s.pollers g = .leaving

/-- A chain of pages is on its way from the poller that the replay has started. -/
def Fed (s : Host) (c : Subscriber) (a : Nat) : Prop :=
  ∃ g b, c.poller = some g ∧ Chain s.toTurn a (c.own (c.held ++ c.inbox)) b ∧ b ≤ s.ledger.length ∧
    (s.pollers g).Follows s.toTurn b ∧ s.Owns g

def AttachInv (s : Host) (c : Subscriber) : Attach → Prop
  | .idle | .connecting | .asking => c.poller = none
  | .read after page => c.poller = none ∧ after = 0 ∧ ∃ m, Fits s.toTurn 0 m page
  | .answered none => True
  | .answered (some page) => ∃ m, Fits s.toTurn 0 m page ∧ Fed s c m
  | .done => Fed s c c.highWater ∧ (s.status ≠ .active → c.highWater < s.ledger.length)

structure SubscriberInv (s : Host) (c : Subscriber) : Prop where
  seen : Seen s.toTurn c
  closed : c.ending ≠ none → c.held = [] ∧ c.inbox = []
  primed : c.ending = none → c.primed = true → c.attach = .done ∧ c.held = []
  unprimed : c.ending = none → c.primed = false → c.attach ≠ .done ∧ c.out = []
  attach : c.ending = none → AttachInv s c c.attach
  minted : ∀ push ∈ c.held ++ c.inbox, push.poller < s.minted

structure Inv (s : Feed) : Prop where
  ends : Ends s.toTurn
  subscribers : ∀ c ∈ s.subscribers, SubscriberInv s.toHost c
  pollers : ∀ g, s.minted ≤ g → s.pollers g = .gone

section Steps

variable {s s' : Host} {c : Subscriber}

theorem SubscriberInv.unread (h : SubscriberInv s c) (hopen : c.ending = none)
    (hattach : c.attach ≠ .done) :
    c.primed = false ∧ c.highWater = 0 := by
  have hprimed : c.primed = false := by
    by_contra hprimed
    exact hattach (h.primed hopen (Bool.eq_true_of_not_eq_false hprimed)).1
  have hmark := h.seen.highWater
  rw [(h.unprimed hopen hprimed).2] at hmark
  exact ⟨hprimed, hmark.symm⟩

theorem SubscriberInv.of_closed (hseen : Seen s.toTurn c) (hending : c.ending ≠ none)
    (hheld : c.held = [])
    (hinbox : c.inbox = []) : SubscriberInv s c where
  seen := hseen
  closed := fun _ => ⟨hheld, hinbox⟩
  primed := fun hopen => absurd hopen hending
  unprimed := fun hopen => absurd hopen hending
  attach := fun hopen => absurd hopen hending
  minted := by
    rw [hheld, hinbox]
    exact List.forall_mem_nil _

theorem page_fits (s : Turn) {after : Nat} (h : after ≤ s.ledger.length) :
    Fits s after s.ledger.length (s.page after) where
  le := h
  within := Nat.le_refl _
  events := by rw [List.take_length, Turn.page]
  verdict := fun hended => ⟨hended, rfl⟩

/-- Where a subscriber that has delivered its page has come to. -/
theorem SubscriberInv.of_outcome {c' : Subscriber} {b : Nat} (h : Outcome s.toTurn c b c')
    (hopen : c.ending = none) (hattach : c.attach = .done) (hprimed : c.primed = true)
    (hheld : c.held = [])
    (hminted : ∀ push ∈ c.inbox, push.poller < s.minted)
    (hfed : ∃ g b', c.poller = some g ∧ Chain s.toTurn b (c.own c.inbox) b' ∧ b' ≤ s.ledger.length ∧
      (s.pollers g).Follows s.toTurn b' ∧ s.Owns g) : SubscriberInv s c' := by
  cases h with
  | ended rows hseen => exact .of_closed hseen (fun hnone => by cases hnone) rfl rfl
  | reached rows hseen hmark hbehind =>
    have hunprimed : ¬c.primed = false := by simp [hprimed]
    have hnone : ∀ pushes, c.held ++ pushes = pushes := fun pushes => by rw [hheld, List.nil_append]
    refine ⟨hseen, fun hending => absurd hopen hending, fun _ _ => ⟨hattach, hheld⟩,
      fun _ hfalse => absurd hfalse hunprimed, fun _ => ?_, ?_⟩
    · have hattach' : (c.took rows).attach = .done := hattach
      rw [hattach']
      refine ⟨?_, hmark ▸ hbehind⟩
      obtain ⟨g, b', hpoller, hchain, hrest⟩ := hfed
      refine ⟨g, b', hpoller, ?_, hrest⟩
      show Chain s.toTurn (c.took rows).highWater (c.own (c.held ++ c.inbox)) b'
      rw [hmark, hnone]
      exact hchain
    · show ∀ push ∈ c.held ++ c.inbox, push.poller < s.minted
      rw [hnone]
      exact hminted

theorem SubscriberInv.settle {page : Option Page} (h : SubscriberInv s c) (he : Ends s.toTurn)
    (hattach : c.attach = .answered page) (hok : c.ending = none → c.Settles) :
    SubscriberInv s ({ c with attach := .done }.settle page) := by
  by_cases hopen : c.ending = none
  case neg =>
    have hclosed : c.ending.isSome = true := Option.isSome_iff_ne_none.mpr hopen
    obtain ⟨hheld, hinbox⟩ := h.closed hopen
    cases page with
    | some page =>
      simp only [Subscriber.settle, hclosed, if_true]
      exact .of_closed (h.seen.same rfl rfl rfl rfl) hopen hheld hinbox
    | none =>
      simp only [Subscriber.settle, Subscriber.release, hheld, List.foldl_nil, Subscriber.fail,
        hclosed, if_true]
      exact .of_closed (h.seen.same rfl rfl rfl rfl) hopen rfl hinbox
  case pos =>
    have hsettles := hok hopen
    have hinv := h.attach hopen
    have hnone : c.ending.isSome = false := by rw [hopen]; rfl
    simp only [Subscriber.Settles, hattach] at hsettles
    rw [hattach] at hinv
    cases page with
    | none => exact hsettles.elim
    | some page =>
      obtain ⟨m, hfits, g, b, hpoller, hchain, hb, hfollows, howns⟩ := hinv
      obtain ⟨hprimed, hmark⟩ := h.unread hopen (by rw [hattach]; exact fun heq => by cases heq)
      have hfits' : Fits s.toTurn { c with attach := .done }.highWater m page := by rwa [hmark]
      have hnext := deliver_next (c := { c with attach := .done }) (h.seen.same rfl rfl rfl rfl) he
        hopen hfits' fun hended => hmark ▸ he.pos hended
      simp only [Subscriber.settle, hnone, Bool.false_eq_true, if_false]
      generalize { c with attach := .done }.deliver page = c' at hnext
      cases hnext with
      | ended rows hseen =>
        exact .of_closed (hseen.same rfl rfl rfl rfl) (fun hnone => by cases hnone) rfl rfl
      | reached rows hseen hmark' hbehind =>
        rw [own_append] at hchain
        obtain ⟨b', hheld, hinbox⟩ := chain_append.mp hchain
        have hcursor : cursorOf page.events 0 = m := hfits.cursor
        have hforeign : ∀ push ∈ c.held, c.Foreign push → push.status = .active ∧
            ∀ row ∈ push.events, row.1 ≤ m := by
          -- the page does not end the stream, as the ledger is not at its end
          rcases hfits.final he with ⟨hnonfinal, -⟩ | ⟨-, -, -, -, -, hended, hlast⟩
          · refine hcursor ▸ hsettles.resolve_left fun hany => ?_
            obtain ⟨row, hrow, hfinal⟩ := List.any_eq_true.mp hany
            exact Bool.false_ne_true ((hnonfinal row hrow).symm.trans hfinal)
          · exact absurd hlast (Nat.ne_of_lt (hbehind hended))
        have houtcome := foldl_deliver (b := b')
          (c := { ({ c with attach := .done } : Subscriber).took rows with
            primed := true, held := [] })
          (hseen.same rfl rfl rfl rfl) he hopen (Nat.le_of_eq hmark'.symm) (hmark'.symm ▸ hheld) hforeign
          (hmark'.symm ▸ hbehind)
        rw [release_eq hmark']
        refine .of_outcome houtcome hopen rfl rfl rfl (fun push hpush => ?_)
          ⟨g, b, hpoller, hinbox, hb, hfollows, howns⟩
        exact h.minted push (List.mem_append_right _ hpush)

theorem SubscriberInv.receive {push : Push} {inbox : List Push} (h : SubscriberInv s c)
    (he : Ends s.toTurn)
    (hinbox : c.inbox = push :: inbox)
    (hok : c.primed = true → c.Foreign push → c.Spent push) :
    SubscriberInv s ({ c with inbox := inbox }.receive push) := by
  have hopen : c.ending = none := by
    by_contra hending
    exact List.cons_ne_nil _ _ (hinbox.symm.trans (h.closed hending).2)
  have hminted : ∀ p ∈ c.held ++ push :: inbox, p.poller < s.minted := hinbox ▸ h.minted
  have hlater : ∀ p ∈ inbox, p.poller < s.minted := fun p hp =>
    hminted p (List.mem_append_right _ (List.mem_cons_of_mem _ hp))
  by_cases hprimed : c.primed = true
  case neg =>
    rw [Bool.not_eq_true] at hprimed
    have hrow : c.held ++ [push] ++ inbox = c.held ++ c.inbox := by
      rw [hinbox, List.append_assoc, List.singleton_append]
    obtain ⟨hattach, hout⟩ := h.unprimed hopen hprimed
    have hheld : { c with inbox := inbox }.receive push =
        { c with inbox := inbox, held := c.held ++ [push] } := by
      simp only [Subscriber.receive, hprimed, Bool.false_eq_true, if_false]
    rw [hheld]
    refine ⟨h.seen.same rfl rfl rfl rfl, fun hending => absurd hopen hending, fun _ htrue => ?_,
      fun _ _ => ⟨hattach, hout⟩, fun _ => ?_, ?_⟩
    · exact absurd htrue (by simp [hprimed])
    · -- the row of the pushes is the same
      have hinv := h.attach hopen
      simp only [AttachInv, Fed] at hinv ⊢
      cases hcall : c.attach with
      | done => exact absurd hcall hattach
      | idle | connecting | asking | read after page =>
        rw [hcall] at hinv
        exact hinv
      | answered page =>
        rw [hcall] at hinv
        cases page with
        | none => trivial
        | some page =>
          obtain ⟨m, hfits, g, b, hpoller, hchain, hrest⟩ := hinv
          refine ⟨m, hfits, g, b, hpoller, ?_, hrest⟩
          show Chain s.toTurn m (c.own (c.held ++ [push] ++ inbox)) b
          rwa [hrow]
    · show ∀ p ∈ c.held ++ [push] ++ inbox, p.poller < s.minted
      rw [hrow]
      exact h.minted
  case pos =>
    obtain ⟨hattach, hheld⟩ := h.primed hopen hprimed
    have hinv := h.attach hopen
    rw [hattach] at hinv
    obtain ⟨⟨g, b, hpoller, hchain, hb, hfollows, howns⟩, hlag⟩ := hinv
    rw [hheld, List.nil_append, hinbox] at hchain
    have hdeliver : { c with inbox := inbox }.receive push =
        { c with inbox := inbox }.deliver push.toPage := by
      simp only [Subscriber.receive, hprimed, if_true]
    have hseen : Seen s.toTurn { c with inbox := inbox } := h.seen.same rfl rfl rfl rfl
    rw [hdeliver]
    by_cases hown : c.poller = some push.poller
    case neg =>
      have hspent := hok hprimed hown
      rw [own_foreign hown] at hchain
      have hsame : { c with inbox := inbox }.deliver push.toPage = { c with inbox := inbox } :=
        deliver_nothing hspent.2 hspent.1
      rw [hsame]
      exact .of_outcome (.refl hseen rfl hlag) hopen hattach hprimed hheld hlater
        ⟨g, b, hpoller, hchain, hb, hfollows, howns⟩
    case pos =>
      rw [own_cons hown] at hchain
      obtain ⟨m, hfits, hrest⟩ := hchain
      exact .of_outcome (deliver_next hseen he hopen hfits hlag) hopen hattach hprimed hheld hlater
        ⟨g, b, hpoller, hrest, hb, hfollows, howns⟩

/-- What the poller of a subscriber does keeps the chain behind it. -/
theorem SubscriberInv.of_fed (h : SubscriberInv s c) (hturn : s'.toTurn = s.toTurn)
    (hminted : s.minted ≤ s'.minted)
    (hstep : ∀ g b, c.ending = none → c.poller = some g → b ≤ s.ledger.length →
      (s.pollers g).Follows s.toTurn b → s.Owns g → (s'.pollers g).Follows s.toTurn b ∧ s'.Owns g) :
    SubscriberInv s' c where
  seen := hturn ▸ h.seen
  closed := h.closed
  primed := h.primed
  unprimed := h.unprimed
  attach := by
    intro hopen
    have hinv := h.attach hopen
    have hfed : ∀ a, Fed s c a → Fed s' c a := by
      rintro a ⟨g, b, hpoller, hchain, hb, hfollows, howns⟩
      obtain ⟨hfollows', howns'⟩ := hstep g b hopen hpoller hb hfollows howns
      exact ⟨g, b, hpoller, hturn ▸ hchain, hturn ▸ hb, hturn ▸ hfollows', howns'⟩
    cases hcall : c.attach with
    | idle | connecting | asking =>
      rw [hcall] at hinv
      exact hinv
    | read after page =>
      rw [hcall] at hinv
      obtain ⟨hpoller, hafter, m, hfits⟩ := hinv
      exact ⟨hpoller, hafter, m, hturn ▸ hfits⟩
    | answered page =>
      rw [hcall] at hinv
      cases page with
      | none => trivial
      | some page =>
        obtain ⟨m, hfits, hinv⟩ := hinv
        exact ⟨m, hturn ▸ hfits, hfed m hinv⟩
    | done =>
      rw [hcall] at hinv
      exact ⟨hfed _ hinv.1, hturn ▸ hinv.2⟩
  minted := fun push hpush => Nat.lt_of_lt_of_le (h.minted push hpush) hminted

/-- A subscriber goes on to ask for its page. -/
theorem SubscriberInv.move {attach : Attach} (h : SubscriberInv s c)
    (hold : c.ending = none → c.attach ≠ .done) (hnew : c.ending = none → attach ≠ .done)
    (hinv : c.ending = none → AttachInv s c attach) : SubscriberInv s { c with attach := attach } where
  seen := h.seen.same rfl rfl rfl rfl
  closed := h.closed
  primed := fun hopen hprimed => absurd (h.primed hopen hprimed).1 (hold hopen)
  unprimed := fun hopen hprimed => ⟨hnew hopen, (h.unprimed hopen hprimed).2⟩
  attach := hinv
  minted := h.minted

/-- The page was read, and the poller starts behind it. -/
theorem SubscriberInv.claim {after : Nat} {page : Page} (h : SubscriberInv s c)
    (hattach : c.attach = .read after page) (hturn : s'.toTurn = s.toTurn)
    (hminted : s.minted < s'.minted)
    (hlive : s'.live = some s.minted)
    (hpoller : s'.pollers s.minted = .checking (cursorOf page.events after)) :
    SubscriberInv s' { c with attach := .answered (some page), poller := some s.minted } := by
  have hseen : Seen s'.toTurn { c with attach := .answered (some page), poller := some s.minted } :=
    hturn ▸ h.seen.same rfl rfl rfl rfl
  by_cases hopen : c.ending = none
  case neg => exact .of_closed hseen hopen (h.closed hopen).1 (h.closed hopen).2
  case pos =>
    have hcall : c.attach ≠ .done := by rw [hattach]; exact fun heq => by cases heq
    have hunprimed := (h.unread hopen hcall).1
    refine ⟨hseen, h.closed, fun _ hprimed => ?_, fun _ _ => ⟨?_, (h.unprimed hopen hunprimed).2⟩,
      fun _ => ?_, fun push hpush => (h.minted push hpush).trans hminted⟩
    · exact absurd hprimed (by simp [hunprimed])
    · exact fun heq => by cases heq
    · have hinv := h.attach hopen
      rw [hattach] at hinv
      obtain ⟨-, rfl, m, hfits⟩ := hinv
      refine ⟨m, hturn ▸ hfits, s.minted, m, rfl, ?_, hturn ▸ hfits.within, ?_, .inl hlive⟩
      · -- what was pushed before comes from pollers before
        have hnone : ({ c with attach := .answered (some page), poller := some s.minted } :
            Subscriber).own
            (c.held ++ c.inbox) = [] := by
          refine List.filter_eq_nil_iff.mpr fun push hpush heq => ?_
          have hsame := Option.some.inj (of_decide_eq_true heq)
          exact Nat.ne_of_lt (h.minted push hpush) hsame.symm
        show Chain s'.toTurn m (Subscriber.own _ (c.held ++ c.inbox)) m
        rw [hnone]
        exact rfl
      · rw [hpoller, hfits.cursor]
        exact rfl

theorem SubscriberInv.close (h : SubscriberInv s c) : SubscriberInv s (c.detach .aborted) := by
  refine .of_closed ⟨h.seen.ordered, h.seen.bound, h.seen.delivered, h.seen.highWater, h.seen.within,
    h.seen.content, fun hfinal => ?_, fun hfailed => ?_⟩ (fun hnone => by cases hnone) rfl rfl
  · cases hfinal
  · cases hfailed

def Host.advance (s : Host) (g : Nat) (poller : Poller) : Host :=
  { s with pollers := fun i => if i = g then poller else s.pollers i }

theorem advance_self (g : Nat) (poller : Poller) : (s.advance g poller).pollers g = poller := if_pos rfl

theorem advance_other {g i : Nat} (h : i ≠ g) (poller : Poller) :
    (s.advance g poller).pollers i = s.pollers i := if_neg h

theorem advance_owns_other {g i : Nat} (h : i ≠ g) (poller : Poller) (howns : s.Owns i) :
    (s.advance g poller).Owns i := by
  rw [Host.Owns, advance_other h]
  exact howns

/-- A step of a poller between two pushes. -/
theorem SubscriberInv.advance {g : Nat} {poller : Poller} (h : SubscriberInv s c)
    (hstep : ∀ b, c.ending = none → c.poller = some g → b ≤ s.ledger.length →
      (s.pollers g).Follows s.toTurn b → s.Owns g →
        poller.Follows s.toTurn b ∧ (s.live = some g ∨ poller = .gone ∨ poller = .leaving)) :
    SubscriberInv (s.advance g poller) c := by
  refine h.of_fed rfl (Nat.le_refl _) fun i b hopen hpoller hb hfollows howns => ?_
  by_cases heq : i = g
  · subst heq
    obtain ⟨hfollows', howns'⟩ := hstep b hopen hpoller hb hfollows howns
    rw [Host.Owns, advance_self]
    exact ⟨hfollows', howns'⟩
  · rw [advance_other heq]
    exact ⟨hfollows, advance_owns_other heq poller howns⟩

def behind (after : Nat) (page : Page) : Poller :=
  if page.status ≠ .active ∧ page.events = [] then .leaving else .checking after

theorem behind_follows {b after : Nat} {page : Page} (h : Fits s.toTurn b after page) :
    (behind after page).Follows s.toTurn after := by
  unfold behind
  split
  case isTrue hword => exact h.verdict hword.1
  case isFalse => exact rfl

theorem Fed.broadcast {page : Page} {g after a : Nat} (h : Fed s c a)
    (hpoller : s.pollers g = .emitting after page) :
    Fed (s.advance g (behind after page)) { c with inbox := c.inbox ++ [⟨page, g⟩] } a := by
  obtain ⟨i, b, hown, hchain, hb, hfollows, howns⟩ := h
  have hrow : c.own (c.held ++ (c.inbox ++ [⟨page, g⟩])) =
      c.own (c.held ++ c.inbox) ++ c.own [⟨page, g⟩] := by
    rw [← List.append_assoc, own_append]
  by_cases heq : i = g
  · subst heq
    rw [hpoller] at hfollows
    have hlive : s.live = some i := by
      rcases howns with hlive | hgone | hleaving
      · exact hlive
      · cases hpoller.symm.trans hgone
      · cases hpoller.symm.trans hleaving
    refine ⟨i, after, hown, ?_, hfollows.within, ?_, .inl hlive⟩
    · show Chain s.toTurn a (c.own (c.held ++ (c.inbox ++ [⟨page, i⟩]))) after
      rw [hrow, own_cons hown]
      exact chain_append.mpr ⟨b, hchain, after, hfollows, rfl⟩
    · rw [advance_self]
      exact behind_follows hfollows
  · refine ⟨i, b, hown, ?_, hb, ?_, advance_owns_other heq _ howns⟩
    · have hforeign : c.Foreign ⟨page, g⟩ := fun hsame => heq (Option.some.inj (hown.symm.trans hsame))
      show Chain s.toTurn a (c.own (c.held ++ (c.inbox ++ [⟨page, g⟩]))) b
      have hnone : c.own [] = [] := rfl
      rw [hrow, own_foreign hforeign, hnone, List.append_nil]
      exact hchain
    · rw [advance_other heq]
      exact hfollows

theorem SubscriberInv.broadcast {page : Page} {g after : Nat} (h : SubscriberInv s c)
    (hpoller : s.pollers g = .emitting after page) (hminted : g < s.minted) :
    SubscriberInv (s.advance g (behind after page))
      (if c.listening then { c with inbox := c.inbox ++ [⟨page, g⟩] } else c) := by
  by_cases hlistening : c.listening = true
  case neg =>
    rw [if_neg hlistening]
    refine h.advance fun b hopen hown _ _ _ => absurd hown ?_
    -- who does not listen has asked for nothing yet
    have hinv := h.attach hopen
    simp only [Subscriber.listening, hopen, Option.isNone_none, Bool.true_and] at hlistening
    have hnone : c.poller = none := by
      cases hcall : c.attach with
      | idle | connecting =>
        rw [hcall] at hinv
        exact hinv
      | asking | read _ _ | answered _ | done => simp [hcall] at hlistening
    rw [hnone]
    exact fun heq => by cases heq
  case pos =>
    have hopen : c.ending = none := by
      simp only [Subscriber.listening, Bool.and_eq_true, Option.isNone_iff_eq_none] at hlistening
      exact hlistening.1
    rw [if_pos hlistening]
    refine ⟨h.seen.same rfl rfl rfl rfl, fun hending => absurd hopen hending, h.primed, h.unprimed,
      fun _ => ?_, ?_⟩
    · have hinv := h.attach hopen
      show AttachInv _ _ c.attach
      cases hcall : c.attach with
      | idle | connecting | asking | read _ _ =>
        rw [hcall] at hinv
        exact hinv
      | answered page =>
        rw [hcall] at hinv
        cases page with
        | none => trivial
        | some page =>
          obtain ⟨m, hfits, hfed⟩ := hinv
          exact ⟨m, hfits, hfed.broadcast hpoller⟩
      | done =>
        rw [hcall] at hinv
        exact ⟨hinv.1.broadcast hpoller, hinv.2⟩
    · intro push hpush
      rw [← List.append_assoc] at hpush
      rcases List.mem_append.mp hpush with hold | hnew
      · exact h.minted push hold
      · rw [List.mem_singleton.mp hnew]
        exact hminted

/-! ## The engine -/

/-- The engine goes on, and the first frames stay. -/
structure Grown (n : Nat) (s s' : Turn) : Prop where
  within : n ≤ s.ledger.length
  take : s'.ledger.take n = s.ledger.take n
  more : n < s'.ledger.length
  unfinished : s.status = .active ∨ n < s.ledger.length

section Engine

variable {t t' : Turn} {n a b : Nat}

theorem Grown.not_ended (hg : Grown n t t') (hb : b ≤ n) :
    ¬(t.status ≠ .active ∧ b = t.ledger.length) := by
  rintro ⟨hended, rfl⟩
  exact hg.unfinished.elim hended fun hlt => Nat.not_lt.mpr hb hlt

theorem Grown.take_le (hg : Grown n t t') (hb : b ≤ n) : t'.ledger.take b = t.ledger.take b := by
  have htake := congrArg (List.take b) hg.take
  rwa [List.take_take, List.take_take, Nat.min_eq_left hb] at htake

theorem Fits.grown {page : Page} (h : Fits t a b page) (hg : Grown n t t') (hb : b ≤ n) :
    Fits t' a b page where
  le := h.le
  within := hb.trans (Nat.le_of_lt hg.more)
  events := by rw [hg.take_le hb, h.events]
  verdict := fun hended => absurd (h.verdict hended) (hg.not_ended hb)

theorem Chain.grown {pushes : List Push} (h : Chain t a pushes b) (hg : Grown n t t') (hb : b ≤ n) :
    Chain t' a pushes b := by
  induction pushes generalizing a with
  | nil => exact h
  | cons push pushes ih =>
    obtain ⟨m, hfits, hrest⟩ := h
    exact ⟨m, hfits.grown hg (hrest.le.trans hb), ih hrest⟩

theorem Seen.grown (h : Seen t c) (hg : Grown n t t') (hn : c.highWater ≤ n) : Seen t' c where
  ordered := h.ordered
  bound := h.bound
  delivered := h.delivered
  highWater := h.highWater
  within := hn.trans (Nat.le_of_lt hg.more)
  content := by rw [hg.take_le hn, h.content]
  complete := fun hfinal => by
    obtain ⟨hended, hmark, -⟩ := h.complete hfinal
    exact absurd ⟨hended, hmark⟩ (hg.not_ended hn)
  unfailed := h.unfailed

theorem Follows.grown {poller : Poller} (h : poller.Follows t b) (hg : Grown n t t')
    (hbelow : poller.below n = true) : poller.Follows t' b ∧ b ≤ n := by
  cases poller with
  | checking after | calling after =>
    obtain rfl : after = b := h
    exact ⟨rfl, of_decide_eq_true hbelow⟩
  | holding after page | emitting after page =>
    have hafter : after ≤ n := of_decide_eq_true hbelow
    exact ⟨Fits.grown h hg hafter, (Fits.le h).trans hafter⟩
  | gone | leaving => cases hbelow

/-- While the turn is active, what was read is in the ledger. -/
theorem Follows.below {poller : Poller} (h : poller.Follows t b) (hactive : t.status = .active)
    (hb : b ≤ t.ledger.length) : poller.below t.ledger.length = true := by
  cases poller with
  | checking after | calling after =>
    obtain rfl : after = b := h
    exact decide_eq_true hb
  | holding after page | emitting after page => exact decide_eq_true (Fits.within h)
  | gone | leaving => exact absurd hactive h.1

theorem SubscriberInv.grown (h : SubscriberInv s c) (hg : Grown n s.toTurn s'.toTurn)
    (hlive : s'.live = s.live) (hpollers : s'.pollers = s.pollers) (hminted : s'.minted = s.minted)
    (hmark : c.highWater ≤ n)
    (hread : c.ending = none → ∀ after page, c.attach = .read after page → ∀ m,
      Fits s.toTurn 0 m page → m ≤ n)
    (hbelow : c.ending = none → ∀ g b, c.poller = some g → b ≤ s.ledger.length →
      (s.pollers g).Follows s.toTurn b → (s.pollers g).below n = true) : SubscriberInv s' c where
  seen := h.seen.grown hg hmark
  closed := h.closed
  primed := h.primed
  unprimed := h.unprimed
  attach := by
    intro hopen
    have hinv := h.attach hopen
    have hfed : ∀ a, Fed s c a → Fed s' c a ∧ a ≤ n := by
      rintro a ⟨g, b, hpoller, hchain, hb, hfollows, howns⟩
      obtain ⟨hfollows', hbn⟩ := Follows.grown hfollows hg (hbelow hopen g b hpoller hb hfollows)
      refine ⟨⟨g, b, hpoller, hchain.grown hg hbn, hbn.trans (Nat.le_of_lt hg.more), ?_, ?_⟩,
        hchain.le.trans hbn⟩
      · rw [hpollers]
        exact hfollows'
      · rw [Host.Owns, hlive, hpollers]
        exact howns
    cases hcall : c.attach with
    | idle | connecting | asking =>
      rw [hcall] at hinv
      exact hinv
    | read after page =>
      rw [hcall] at hinv
      obtain ⟨hpoller, hafter, m, hfits⟩ := hinv
      exact ⟨hpoller, hafter, m, hfits.grown hg (hread hopen after page hcall m hfits)⟩
    | answered page =>
      rw [hcall] at hinv
      cases page with
      | none => trivial
      | some page =>
        obtain ⟨m, hfits, hinv⟩ := hinv
        exact ⟨m, hfits.grown hg (hfed m hinv).2, (hfed m hinv).1⟩
    | done =>
      rw [hcall] at hinv
      exact ⟨(hfed _ hinv.1).1, fun _ => Nat.lt_of_le_of_lt hmark hg.more⟩
  minted := hminted ▸ h.minted

end Engine

end Steps

/-! ## Runs -/

section Runs

variable {s s' : Feed} {c : Subscriber}

/-- The engine adds to an active turn. -/
theorem Inv.extend {ledger : List Frame} {status : Status} (h : Inv s) (hactive : s.status = .active)
    (hmore : ledger ≠ []) (hends : Ends ⟨s.ledger ++ ledger, status⟩) :
    Inv { s with ledger := s.ledger ++ ledger, status := status } where
  ends := hends
  subscribers := by
    intro c hc
    have hg : Grown s.ledger.length s.toTurn ⟨s.ledger ++ ledger, status⟩ :=
      ⟨Nat.le_refl _, by simp, by simpa using List.length_pos_iff.mpr hmore, .inl hactive⟩
    exact (h.subscribers c hc).grown hg rfl rfl rfl (h.subscribers c hc).seen.within
      (fun _ _ _ _ m hfits => hfits.within) fun _ g b _ hb hfollows => Follows.below hfollows hactive hb
  pollers := h.pollers

theorem cursorOf_le {rows : Rows} {a n : Nat} (ha : a ≤ n) (h : ∀ row ∈ rows, row.1 ≤ n) :
    cursorOf rows a ≤ n :=
  Nat.le_of_lt_succ (cursorOf_lt (Nat.lt_succ_of_le ha) fun row hrow => Nat.lt_succ_of_le (h row hrow))

theorem Inv.restart {kept : Nat} (h : Inv s) (hkept : kept ≤ s.ledger.length)
    (hunfinished : s.status = .active ∨ kept < s.ledger.length) (hok : s.Admits (.restart kept)) :
    Inv (s.restart kept) where
  ends := by
    refine ⟨fun hactive => ?_, fun _ => ⟨_, _, rfl, rfl, fun frame hframe => ?_⟩⟩
    · cases hactive
    by_cases hactive : s.status = .active
    · exact h.ends.active hactive frame (List.mem_of_mem_take hframe)
    · obtain ⟨frames, last, hledger, -, hframes⟩ := h.ends.ended hactive
      have hlt := hunfinished.resolve_left hactive
      rw [hledger, List.length_append, List.length_singleton] at hlt
      rw [hledger, List.take_append_of_le_length (Nat.le_of_lt_succ hlt)] at hframe
      exact hframes frame (List.mem_of_mem_take hframe)
  subscribers := by
    intro c hc
    have hg : Grown kept s.toTurn (s.restart kept).toTurn := by
      have hlength : (s.ledger.take kept).length = kept := List.length_take_of_le hkept
      refine ⟨hkept, ?_, ?_, hunfinished⟩
      · show (s.ledger.take kept ++ _).take kept = s.ledger.take kept
        rw [List.take_append_of_le_length (Nat.le_of_eq hlength.symm), List.take_take, Nat.min_self]
      · show kept < (s.ledger.take kept ++ [_]).length
        rw [List.length_append, hlength, List.length_singleton]
        exact Nat.lt_succ_self kept
    obtain ⟨hmark, hopen⟩ := hok c hc
    refine (h.subscribers c hc).grown hg rfl rfl rfl hmark (fun hnone after page hcall m hfits => ?_)
      fun hnone g b hpoller _ _ => (hopen hnone).2 g hpoller
    have hrows := (hopen hnone).1
    rw [hcall] at hrows
    have hcursor : cursorOf page.events 0 ≤ kept := cursorOf_le (Nat.zero_le kept)
      fun row hrow => of_decide_eq_true (List.all_eq_true.mp hrows row hrow)
    rwa [hfits.cursor] at hcursor
  pollers := h.pollers

theorem Inv.set {k : Nat} (h : Inv s) (hc : SubscriberInv s.toHost c) : Inv (s.setSubscriber k c) where
  ends := h.ends
  subscribers := by
    intro c' hc'
    rcases List.mem_or_eq_of_mem_set hc' with hold | rfl
    · exact h.subscribers c' hold
    · exact hc
  pollers := h.pollers

theorem Inv.advance {g : Nat} {poller : Poller} (h : Inv s) (hthere : s.pollers g ≠ .gone)
    (hstep : ∀ c ∈ s.subscribers, ∀ b, c.ending = none → c.poller = some g → b ≤ s.ledger.length →
      (s.pollers g).Follows s.toTurn b → s.Owns g →
        poller.Follows s.toTurn b ∧ (s.live = some g ∨ poller = .gone ∨ poller = .leaving)) :
    Inv (s.setPoller g poller) where
  ends := h.ends
  subscribers := fun c hc => (h.subscribers c hc).advance (hstep c hc)
  pollers := by
    intro i hi
    have hother : i ≠ g := fun heq => hthere (heq ▸ h.pollers i hi)
    exact (if_neg hother).trans (h.pollers i hi)

variable {action : Action}

theorem serve_inv (h : Inv s) (hok : s.Admits action) (hstep : s.serve action = some s') : Inv s' := by
  cases action with
  | append frame =>
    simp only [Feed.serve] at hstep
    split_ifs at hstep with hcond
    cases hstep
    obtain ⟨hactive, hframe⟩ := hcond
    have hends : Ends ⟨s.ledger ++ [frame], s.status⟩ :=
      ⟨fun _ => List.forall_mem_append.mpr ⟨h.ends.active hactive, by simpa using hframe⟩,
        fun hended => absurd hactive hended⟩
    exact h.extend hactive (List.cons_ne_nil _ _) hends
  | finish extra text aborted status =>
    simp only [Feed.serve] at hstep
    split_ifs at hstep with hcond
    cases hstep
    obtain ⟨hactive, hended, hextra⟩ := hcond
    have hrow : s.ledger ++ extra ++ [.final text aborted] =
        s.ledger ++ (extra ++ [.final text aborted]) :=
      List.append_assoc ..
    have hends : Ends ⟨s.ledger ++ (extra ++ [.final text aborted]), status⟩ := by
      refine ⟨fun hactive' => absurd hactive' hended, fun _ => ⟨_, _, hrow.symm, rfl, ?_⟩⟩
      refine List.forall_mem_append.mpr ⟨h.ends.active hactive, fun frame hframe => ?_⟩
      simpa using List.all_eq_true.mp hextra frame hframe
    rw [hrow]
    exact h.extend hactive (List.append_ne_nil_of_right_ne_nil _ (List.cons_ne_nil _ _)) hends
  | restart kept =>
    simp only [Feed.serve] at hstep
    split_ifs at hstep with hcond
    cases hstep
    exact h.restart hcond.1 hcond.2 hok
  | construct | stream _ | listen _ | read _ | refuse _ | claim _ | settle _ | receive _ | close _ | check _
  | call _ | miss _ | giveUp _ | recheck _ | emit _ | leave _ => cases hstep

theorem claim_inv {k after : Nat} {page : Page} (h : Inv s) (hc : SubscriberInv s.toHost c)
    (hattach : c.attach = .read after page) (hok : s.Admits (.claim k)) :
    Inv (s.claim k c after page) where
  ends := h.ends
  subscribers := by
    intro c' hc'
    rcases List.mem_or_eq_of_mem_set hc' with hold | rfl
    · refine (h.subscribers c' hold).of_fed rfl (Nat.le_succ _) fun g _ hopen hpoller _ _ _ => ?_
      cases (hok c' hold hopen).symm.trans hpoller
    · exact hc.claim hattach rfl (Nat.lt_succ_self _) rfl (if_pos rfl)
  pollers := by
    intro i hi
    have hother : i ≠ s.minted := Nat.ne_of_gt hi
    exact (if_neg hother).trans (h.pollers i (Nat.le_of_succ_le hi))

theorem attend_inv {k : Nat} (h : Inv s) (hc : s.subscribers[k]? = some c)
    (hown : ∀ i, action = .settle i ∨ action = .receive i → i = k) (hok : s.Admits action)
    (hstep : s.attend k c action = some s') : Inv s' := by
  have hinv := h.subscribers c (List.mem_of_getElem? hc)
  cases action with
  | stream i =>
    simp only [Feed.attend] at hstep
    split_ifs at hstep with hcond
    cases hstep
    have hidle : c.attach ≠ .done := by rw [hcond.1]; exact fun heq => by cases heq
    refine h.set (hinv.move (fun _ => hidle) (fun _ heq => by cases heq) fun hopen => ?_)
    have hnone := hinv.attach hopen
    rw [hcond.1] at hnone
    exact hnone
  | listen i =>
    simp only [Feed.attend] at hstep
    split_ifs at hstep with hcond hending
    all_goals obtain rfl := Option.some.inj hstep
    all_goals have hconnecting : c.attach ≠ .done := by rw [hcond]; exact fun heq => by cases heq
    · -- it was closed while it connected
      have hclosed : c.ending ≠ none := Option.isSome_iff_ne_none.mp hending
      exact h.set (hinv.move (fun _ => hconnecting) (fun hopen => absurd hopen hclosed)
        fun hopen => absurd hopen hclosed)
    · refine h.set (hinv.move (fun _ => hconnecting) (fun _ heq => by cases heq) fun hopen => ?_)
      have hnone := hinv.attach hopen
      rw [hcond] at hnone
      exact hnone
  | read i =>
    simp only [Feed.attend] at hstep
    split_ifs at hstep with hcond
    cases hstep
    have hasking : c.attach ≠ .done := by rw [hcond]; exact fun heq => by cases heq
    refine h.set (hinv.move (fun _ => hasking) (fun _ heq => by cases heq) fun hopen => ?_)
    have hnone := hinv.attach hopen
    rw [hcond] at hnone
    have hmark := (hinv.unread hopen hasking).2
    rw [hmark]
    exact ⟨hnone, rfl, _, page_fits s.toTurn (Nat.zero_le _)⟩
  | refuse i =>
    simp only [Feed.attend] at hstep
    split_ifs at hstep with hcond
    cases hstep
    have hasking : c.attach ≠ .done := by rw [hcond]; exact fun heq => by cases heq
    exact h.set (hinv.move (fun _ => hasking) (fun _ heq => by cases heq) fun _ => trivial)
  | claim i =>
    simp only [Feed.attend] at hstep
    split at hstep
    case h_1 after page hattach =>
      cases hstep
      exact claim_inv (k := k) h hinv hattach hok
    case h_2 => cases hstep
  | settle i =>
    simp only [Feed.attend] at hstep
    split at hstep
    case h_1 page hattach =>
      cases hstep
      obtain rfl := hown i (.inl rfl)
      exact h.set (hinv.settle h.ends hattach (hok c hc))
    case h_2 => cases hstep
  | receive i =>
    simp only [Feed.attend] at hstep
    split at hstep
    case h_1 push inbox hinbox =>
      cases hstep
      obtain rfl := hown i (.inr rfl)
      refine h.set (hinv.receive h.ends hinbox fun hprimed hforeign =>
        hok c hc hprimed push ?_ hforeign)
      rw [hinbox]
      exact rfl
    case h_2 => cases hstep
  | close i =>
    simp only [Feed.attend] at hstep
    split_ifs at hstep
    cases hstep
    exact h.set hinv.close
  | append _ | finish _ _ _ _ | restart _ | construct | check _ | call _ | miss _ | giveUp _ | recheck _
  | emit _ | leave _ => cases hstep

/-- A poller that owns the stream as long as it is at work. -/
theorem Host.Owns.live {s : Host} {g : Nat} (h : s.Owns g) (hgone : s.pollers g ≠ .gone)
    (hleaving : s.pollers g ≠ .leaving) : s.live = some g :=
  h.resolve_right (not_or.mpr ⟨hgone, hleaving⟩)

theorem drain_inv {g : Nat} (h : Inv s) (hown : ∀ i, action = .giveUp i → i = g)
    (hok : s.Admits action) (hstep : s.drain g (s.pollers g) action = some s') : Inv s' := by
  cases action with
  | check i =>
    simp only [Feed.drain] at hstep
    split at hstep
    case h_2 => cases hstep
    case h_1 after hpoller =>
      cases hstep
      refine h.advance (by simp [hpoller]) fun c _ b _ _ _ hfollows howns => ?_
      rw [hpoller] at hfollows
      have hlive := howns.live (by simp [hpoller]) (by simp [hpoller])
      rw [if_pos hlive]
      exact ⟨hfollows, .inl hlive⟩
  | call i =>
    simp only [Feed.drain] at hstep
    split at hstep
    case h_2 => cases hstep
    case h_1 after hpoller =>
      cases hstep
      refine h.advance (by simp [hpoller]) fun c _ b _ _ hb hfollows howns => ?_
      rw [hpoller] at hfollows
      obtain rfl : after = b := hfollows
      have hfits := page_fits s.toTurn hb
      rw [hfits.cursor]
      exact ⟨hfits, .inl (howns.live (by simp [hpoller]) (by simp [hpoller]))⟩
  | miss i =>
    simp only [Feed.drain] at hstep
    split at hstep
    case h_2 => cases hstep
    case h_1 after hpoller =>
      cases hstep
      refine h.advance (by simp [hpoller]) fun c _ b _ _ _ hfollows howns => ?_
      rw [hpoller] at hfollows
      exact ⟨hfollows, .inl (howns.live (by simp [hpoller]) (by simp [hpoller]))⟩
  | giveUp i =>
    simp only [Feed.drain] at hstep
    split at hstep
    case h_2 => cases hstep
    case h_1 after hpoller =>
      cases hstep
      obtain rfl := hown i rfl
      exact h.advance (by simp [hpoller]) fun c hc b hopen hpoll _ _ _ => absurd hpoll (hok c hc hopen)
  | recheck i =>
    simp only [Feed.drain] at hstep
    split at hstep
    case h_2 => cases hstep
    case h_1 after page hpoller =>
      have hthere : s.pollers g ≠ .gone := by simp [hpoller]
      have hlive : s.Owns g → s.live = some g := fun howns => howns.live hthere (by simp [hpoller])
      split_ifs at hstep with hnothing hlive'
      all_goals obtain rfl := Option.some.inj hstep
      all_goals refine h.advance hthere fun c _ b _ _ _ hfollows howns => ?_
      all_goals rw [hpoller] at hfollows
      · exact ⟨((Fits.eq_nil_iff hfollows).mp hnothing.1).symm, .inl (hlive howns)⟩
      · exact ⟨hfollows, .inl (hlive howns)⟩
      · exact absurd (hlive howns) hlive'
  | emit i =>
    simp only [Feed.drain] at hstep
    split at hstep
    case h_2 => cases hstep
    case h_1 after page hpoller =>
      cases hstep
      have hthere : s.pollers g ≠ .gone := by simp [hpoller]
      have hminted : g < s.minted := Nat.lt_of_not_le fun hle => hthere (h.pollers g hle)
      refine ⟨h.ends, fun c' hc' => ?_, fun j hj => ?_⟩
      · obtain ⟨c, hc, rfl⟩ := List.mem_map.mp hc'
        exact (h.subscribers c hc).broadcast hpoller hminted
      · exact (if_neg (Nat.ne_of_gt (Nat.lt_of_lt_of_le hminted hj))).trans (h.pollers j hj)
  | leave i =>
    simp only [Feed.drain] at hstep
    split at hstep
    case h_2 => cases hstep
    case h_1 hpoller =>
      cases hstep
      have hminted : g < s.minted := Nat.lt_of_not_le fun hle => by
        cases hpoller.symm.trans (h.pollers g hle)
      refine ⟨h.ends, fun c hc => ?_, fun j hj => ?_⟩
      · refine (h.subscribers c hc).of_fed rfl (Nat.le_refl _) fun j b _ _ _ hfollows howns => ?_
        by_cases heq : j = g
        · subst heq
          rw [hpoller] at hfollows
          have hgone : (s.setPoller j .gone).pollers j = .gone := if_pos rfl
          simp only [Host.Owns, hgone]
          exact ⟨hfollows, .inr (.inl trivial)⟩
        · have hsame : (s.setPoller g .gone).pollers j = s.pollers j := if_neg heq
          simp only [Host.Owns, hsame]
          refine ⟨hfollows, howns.imp_left fun hlive => ?_⟩
          rw [if_neg fun hg => heq (Option.some.inj (hlive.symm.trans hg))]
          exact hlive
      · exact (if_neg (Nat.ne_of_gt (Nat.lt_of_lt_of_le hminted hj))).trans (h.pollers j hj)
  | append _ | finish _ _ _ _ | restart _ | construct | stream _ | listen _ | read _ | refuse _ | claim _
  | settle _ | receive _ | close _ => cases hstep

theorem construct_inv (h : Inv s) : Inv { s with subscribers := s.subscribers ++ [{}] } where
  ends := h.ends
  subscribers := by
    intro c hc
    rcases List.mem_append.mp hc with hold | hnew
    · exact h.subscribers c hold
    · obtain rfl := List.mem_singleton.mp hnew
      refine ⟨⟨.nil, List.forall_mem_nil _, fun _ => Iff.rfl, rfl, Nat.zero_le _, rfl, fun hfinal => ?_,
        fun hfailed => ?_⟩, fun hending => absurd rfl hending, fun _ hprimed => ?_,
        fun _ _ => ⟨fun heq => ?_, rfl⟩,
        fun _ => rfl, List.forall_mem_nil _⟩
      · cases hfinal
      · cases hfailed
      · cases hprimed
      · cases heq
  pollers := h.pollers

/-- Every step that the condition allows keeps the invariant. -/
theorem step_inv (h : Inv s) (hok : s.Admits action) (hstep : s.step action = some s') : Inv s' := by
  cases action with
  | append _ | finish _ _ _ _ | restart _ => exact serve_inv h hok hstep
  | construct =>
    cases hstep
    exact construct_inv h
  | stream k | listen k | read k | refuse k | claim k | settle k | receive k | close k =>
    simp only [Feed.step] at hstep
    cases hc : s.subscribers[k]? with
    | none =>
      rw [hc] at hstep
      cases hstep
    | some c =>
      rw [hc] at hstep
      refine attend_inv h hc (fun i hi => ?_) hok hstep
      rcases hi with heq | heq
      all_goals cases heq
      all_goals rfl
  | giveUp g => exact drain_inv h (fun i hi => (Action.giveUp.inj hi).symm) hok hstep
  | check g | call g | miss g | recheck g | emit g | leave g =>
    exact drain_inv h (fun i hi => by cases hi) hok hstep

theorem opened_inv (h : s.Opened) : Inv s where
  ends := by
    refine ⟨fun _ => ?_, fun hended => absurd h.status hended⟩
    rw [h.ledger]
    exact List.forall_mem_nil _
  subscribers := by
    rw [h.subscribers]
    exact List.forall_mem_nil _
  pollers := h.pollers

theorem SubscriberInv.awaited {s : Feed} {c : Subscriber} (h : SubscriberInv s.toHost c)
    (hrest : s.AtRest c) :
    c.ending.isSome := by
  by_contra hending
  have hopen : c.ending = none := Option.not_isSome_iff_eq_none.mp hending
  have hprimed : c.primed = true := by
    by_contra hprimed
    exact (h.unprimed hopen (Bool.eq_false_of_not_eq_true hprimed)).1 hrest.attach
  have hinv := h.attach hopen
  rw [hrest.attach] at hinv
  obtain ⟨⟨g, b, -, hchain, -, hfollows, -⟩, hlag⟩ := hinv
  rw [(h.primed hopen hprimed).2, hrest.inbox] at hchain
  rw [hrest.pollers g] at hfollows
  -- nothing is on its way, and the poller has come to the end of the ledger
  obtain rfl : c.highWater = b := hchain
  exact Nat.ne_of_lt (hlag hfollows.1) hfollows.2

/-- Whatever the order of the steps, where each subscriber hears from its own poller only, its listeners
are handed each frame of the ledger once and in order, and the final one in the end. -/
theorem handed_on (h : Reachable Feed.step Feed.Admits Feed.Opened s) (hc : c ∈ s.subscribers) :
    s.Faithful c := by
  have hinv : Inv s := h.invariant (fun _ hstart => opened_inv hstart)
    fun _ _ _ hinv hok hstep => step_inv hinv hok hstep
  have hc := hinv.subscribers c hc
  have hmark := hc.seen.highWater
  refine ⟨hc.seen.ordered, ?_, fun hfinal => ?_, hc.seen.unfailed, hc.awaited⟩
  · rw [hmark]
    exact hc.seen.content
  · rw [hmark]
    exact hc.seen.complete hfinal

end Runs

/-! ## Two runs -/

instance decidableForeign (c : Subscriber) (push : Push) : Decidable (c.Foreign push) :=
  inferInstanceAs (Decidable (_ ≠ _))

instance decidableSpent (c : Subscriber) (push : Push) : Decidable (c.Spent push) :=
  inferInstanceAs (Decidable (_ ∧ _))

instance decidableCovered (push : Push) (page : Page) : Decidable (push.Covered page) :=
  inferInstanceAs (Decidable (_ ∧ _))

instance decidableSettles (c : Subscriber) : Decidable c.Settles :=
  match h : c.attach with
  | .answered (some page) =>
    decidable_of_iff (page.events.any (fun row => isFinal row.2) ∨
      ∀ push ∈ c.held, c.Foreign push → push.Covered page) (by simp [Subscriber.Settles, h])
  | .answered none => .isFalse (by simp [Subscriber.Settles, h])
  | .idle | .connecting | .asking | .read _ _ | .done => .isTrue (by simp [Subscriber.Settles, h])

instance decidableAdmits (s : Feed) : (action : Action) → Decidable (s.Admits action)
  | .claim _ => inferInstanceAs (Decidable (∀ c ∈ s.subscribers, c.ending = none → c.poller = none))
  | .settle k => inferInstanceAs (Decidable (∀ c ∈ s.subscribers[k]?, c.ending = none → c.Settles))
  | .receive k => inferInstanceAs (Decidable (∀ c ∈ s.subscribers[k]?, c.primed = true →
      ∀ push ∈ c.inbox.head?, c.Foreign push → c.Spent push))
  | .giveUp g => inferInstanceAs (Decidable (∀ c ∈ s.subscribers, c.ending = none → c.poller ≠ some g))
  | .restart kept => inferInstanceAs (Decidable (∀ c ∈ s.subscribers, c.highWater ≤ kept ∧
      (c.ending = none → c.attach.below kept = true ∧ ∀ g ∈ c.poller, (s.pollers g).below kept = true)))
  | .append _ | .finish _ _ _ _ | .construct | .stream _ | .listen _ | .read _ | .refuse _ | .close _
  | .check _ | .call _ | .miss _ | .recheck _ | .emit _ | .leave _ => .isTrue trivial

def opened : Feed where
  ledger := []
  status := .active
  live := none
  minted := 1
  pollers := fun _ => .gone
  subscribers := []

theorem opened_opened : opened.Opened := ⟨rfl, rfl, rfl, fun _ _ => rfl⟩

def event (body : String) : Frame := .event (Python.lit body)

def text (body : String) : Frame := .delta .message (Python.lit "step") (Python.lit body)

def subscribes (k : Nat) : List Action := [.construct, .stream k, .listen k]

def polls (g : Nat) : List Action := [.check g, .call g, .recheck g, .emit g]

/-- Deltas come before the replay, before its answer and behind it. -/
def followedRun : List Action :=
  ([.append (event "created"), .append (text "a")] : List Action) ++ subscribes 0 ++
    ([.append (text "b"), .read 0, .claim 0, .append (text "c")] : List Action) ++ polls 1 ++
    ([.append (text "d"), .receive 0, .settle 0] : List Action) ++ polls 1 ++
    ([.receive 0, .finish [] (Python.lit "abcd") false .complete] : List Action) ++ polls 1 ++
    ([.receive 0] : List Action)

theorem handed_on_followed : ∃ s : Feed, (∃ c ∈ s.subscribers, c.ending = some .final ∧
      c.out.map Prod.fst = [1, 3, 4, 5, 6]) ∧ ∀ c ∈ s.subscribers, s.Faithful c := by
  obtain ⟨s, hs, htest⟩ := Reachable.exists_of_foldlM followedRun
    (fun s => ∃ c ∈ s.subscribers, c.ending = some .final ∧ c.out.map Prod.fst = [1, 3, 4, 5, 6])
    (.start opened_opened : Reachable Feed.step Feed.Admits Feed.Opened opened) (by decide)
  exact ⟨s, of_decide_eq_true htest, fun c hc => handed_on hs hc⟩

/-- The stream is closed and subscribed to again; between the second replay and its claim, the first
poller pushes once more. -/
def resubscribedRun : List Action :=
  ([.append (event "created"), .append (text "a")] : List Action) ++ subscribes 0 ++
    ([.read 0, .claim 0, .settle 0, .close 0] : List Action) ++ subscribes 1 ++
    ([.read 1, .append (text "b")] : List Action) ++ polls 1 ++
    ([.claim 1, .receive 1, .settle 1, .append (text "c")] : List Action) ++ polls 2 ++
    ([.receive 1] : List Action)

/-- The listeners are handed the text of the third frame twice. -/
theorem handed_on_twice : ¬∀ s : Feed, Reachable Feed.step (fun _ _ => True) Feed.Opened s →
    ∀ c ∈ s.subscribers, s.Faithful c := by
  intro h
  obtain ⟨s, hs, htest⟩ := Reachable.exists_of_foldlM resubscribedRun
    (fun s => ∃ c ∈ s.subscribers,
      c.out = [(1, event "created"), (2, text "a"), (3, text "b"), (4, text "bc")] ∧
      s.ledger = [event "created", text "a", text "b", text "c"])
    (.start opened_opened : Reachable Feed.step (fun _ _ => True) Feed.Opened opened) (by decide)
  obtain ⟨c, hc, hout, hledger⟩ := of_decide_eq_true htest
  have hcontent := (h s hs c hc).content
  rw [hout, hledger] at hcontent
  revert hcontent
  decide

end LiveFeed
end Tempest
