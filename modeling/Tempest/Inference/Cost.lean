import Tempest.Python.Text

/-!
# Cost — the meter and its caps (`inference/cost.py`)

The ledger is an append-only list of charges; the totals of a scope are folded from it on every
call.  `gate` is the loop over the scopes that `preflight` and `spend` share; a charge is appended
only behind it, under the meter's lock.

`Meter.Step` is the interleaving of any number of threads.  The invariant says what the thread in
the critical section already knows about the ledger; from it, every total stays within its budget
(`caps_kept`).
-/

namespace Tempest

open Python

/-! ## Decimals -/

/-- Round half to even at 28 significant digits, the precision of the default context. -/
def roundDecimal (x : ℚ) : ℚ :=
  if x = 0 then 0
  else
    let unit : ℚ := (10 : ℚ) ^ (Int.log 10 |x| - 27)
    let scaled := x / unit
    let low := ⌊scaled⌋
    let rest := scaled - low
    if rest < 1 / 2 then low * unit
    else if 1 / 2 < rest then (low + 1) * unit
    else if low % 2 = 0 then low * unit
    else (low + 1) * unit

def decimalAdd (x y : ℚ) : ℚ := roundDecimal (x + y)

def decimalMul (x y : ℚ) : ℚ := roundDecimal (x * y)

def decimalDiv (x y : ℚ) : ℚ := roundDecimal (x / y)

/-! ## Rates, budgets and spendings -/

structure Rate where
  inputPerMtok : ℚ
  outputPerMtok : ℚ
  currency : PyStr := lit "USD"

def Rate.cost (rate : Rate) (inputTokens outputTokens : Nat) : ℚ :=
  decimalAdd (decimalDiv (decimalMul inputTokens rate.inputPerMtok) 1000000)
    (decimalDiv (decimalMul outputTokens rate.outputPerMtok) 1000000)

/-- Hard caps; `none` means unlimited. -/
structure CostBudget where
  maxInputTokens : Option Nat := none
  maxOutputTokens : Option Nat := none
  maxTotalTokens : Option Nat := none
  maxDollars : Option ℚ := none

/-- What has been spent in a scope; no dollars means not priced. -/
structure Spend where
  inputTokens : Nat := 0
  outputTokens : Nat := 0
  dollars : Option ℚ := none
  unpricedCharges : Nat := 0

def Spend.totalTokens (s : Spend) : Nat := s.inputTokens + s.outputTokens

def Spend.plus (s : Spend) (inputTokens outputTokens : Nat) (dollars : Option ℚ) : Spend :=
  match dollars with
  | none =>
    { s with
      inputTokens := s.inputTokens + inputTokens
      outputTokens := s.outputTokens + outputTokens
      unpricedCharges := s.unpricedCharges + 1 }
  | some d =>
    { s with
      inputTokens := s.inputTokens + inputTokens
      outputTokens := s.outputTokens + outputTokens
      dollars := some (decimalAdd (s.dollars.getD 0) d) }

/-! ## Refusals -/

inductive Scope where
  | task
  | session
  | day
  deriving DecidableEq

def Scope.text : Scope → PyStr
  | .task => lit "task"
  | .session => lit "session"
  | .day => lit "day"

inductive CostPart where
  | text (s : PyStr)
  | decimal (d : ℚ)

inductive CostError where
  | capExceeded (message : List CostPart)
  | rateUnknown (message : List CostPart)

def tokenCap (scope : Scope) (kind : PyStr) (projected limit : Nat) : CostError :=
  .capExceeded [.text (scope.text ++ kind ++ lit " cap reached: " ++ natText projected ++
    lit " would exceed " ++ natText limit)]

def uncheckable (scope : Scope) (limit : ℚ) : CostError :=
  .rateUnknown [.text (lit "a " ++ scope.text ++ lit " limit of "), .decimal limit,
    .text (lit " was set, but no price is configured for this provider/model, so the limit cannot be evaluated. Set a rate, or use a token cap instead — an unevaluable limit must never read as 'within budget'.")]

def dollarCap (scope : Scope) (projected limit : ℚ) : CostError :=
  .capExceeded [.text (scope.text ++ lit " spend cap reached: "), .decimal projected,
    .text (lit " would exceed "), .decimal limit]

def checkTokens (cap : Option Nat) (scope : Scope) (kind : PyStr) (projected : Nat) :
    Except CostError Unit :=
  match cap with
  | none => .ok ()
  | some limit => if limit < projected then .error (tokenCap scope kind projected limit) else .ok ()

def checkDollars (cap : Option ℚ) (scope : Scope) (projected : Option ℚ) (rateKnown : Bool) :
    Except CostError Unit :=
  match cap with
  | none => .ok ()
  | some limit =>
    if !rateKnown then .error (uncheckable scope limit)
    else
      match projected with
      | none => .ok ()
      | some d => if limit < d then .error (dollarCap scope d limit) else .ok ()

/-- `_check`. -/
def checkBudget (budget : CostBudget) (projected : Spend) (scope : Scope) (rateKnown : Bool) :
    Except CostError Unit := do
  checkTokens budget.maxInputTokens scope (lit " input-token") projected.inputTokens
  checkTokens budget.maxOutputTokens scope (lit " output-token") projected.outputTokens
  checkTokens budget.maxTotalTokens scope (lit " total-token") projected.totalTokens
  checkDollars budget.maxDollars scope projected.dollars rateKnown

/-! ## The ledger -/

/-- What the keyword arguments of `preflight` and `spend` say. -/
structure Charge where
  provider : PyStr
  model : PyStr
  inputTokens : Nat
  outputTokens : Nat
  key : Scope → PyStr
  cachedInputTokens : Nat := 0

/-- A line of the ledger as `_records` reads it. -/
structure LedgerEntry where
  provider : PyStr
  model : PyStr
  inputTokens : Nat
  outputTokens : Nat
  cachedInputTokens : Nat
  dollars : Option ℚ
  key : Scope → PyStr

abbrev Ledger := List LedgerEntry

/-- The record of a charge after `json.dumps` and `json.loads`. -/
def Charge.entry (c : Charge) (dollars : Option ℚ) : LedgerEntry where
  provider := wireText c.provider
  model := wireText c.model
  inputTokens := c.inputTokens
  outputTokens := c.outputTokens
  cachedInputTokens := c.cachedInputTokens
  dollars := dollars
  key := fun scope => wireText (c.key scope)

/-- `json.dumps` raises on the record. -/
def Charge.unprintable (c : Charge) : Bool :=
  intTooLong c.inputTokens || intTooLong c.outputTokens || intTooLong c.cachedInputTokens

def Spend.add (s : Spend) (e : LedgerEntry) : Spend :=
  s.plus e.inputTokens e.outputTokens e.dollars

def totals (ledger : Ledger) (scope : Scope) (key : PyStr) : Spend :=
  (ledger.filter fun e => e.key scope = key).foldl Spend.add {}

/-! ## The gate -/

structure Meter where
  budgets : Scope → Option CostBudget
  rates : PyStr → Option Rate
  estimateThresholdDollars : Option ℚ

def Meter.rateFor (m : Meter) (provider model : PyStr) : Option Rate :=
  (m.rates (provider ++ lit "/" ++ model)).or (m.rates provider)

def Meter.price (m : Meter) (c : Charge) : Option ℚ :=
  (m.rateFor c.provider c.model).map fun rate => rate.cost c.inputTokens c.outputTokens

def scopesFor : List Scope := [.task, .session, .day]

def Meter.projected (m : Meter) (ledger : Ledger) (c : Charge) (scope : Scope) : Spend :=
  (totals ledger scope (c.key scope)).plus c.inputTokens c.outputTokens (m.price c)

def Meter.checkScope (m : Meter) (ledger : Ledger) (c : Charge) (scope : Scope) :
    Except CostError Unit :=
  match m.budgets scope with
  | none => .ok ()
  | some budget =>
    checkBudget budget (m.projected ledger c scope) scope (m.rateFor c.provider c.model).isSome

def Meter.gate (m : Meter) (ledger : Ledger) (c : Charge) : List Scope → Except CostError Unit
  | [] => .ok ()
  | scope :: scopes =>
    match m.checkScope ledger c scope with
    | .error e => .error e
    | .ok () => m.gate ledger c scopes

structure Estimate where
  inputTokens : Nat
  outputTokens : Nat
  dollars : Option ℚ
  overThreshold : Bool

def Meter.preflight (m : Meter) (ledger : Ledger) (c : Charge) : Except CostError Estimate :=
  match m.gate ledger c scopesFor with
  | .error e => .error e
  | .ok () =>
    .ok
      { inputTokens := c.inputTokens
        outputTokens := c.outputTokens
        dollars := m.price c
        overThreshold :=
          match m.estimateThresholdDollars, m.price c with
          | some threshold, some d => threshold ≤ d
          | _, _ => false }

inductive SpendError where
  | cost (error : CostError)
  /-- The `ValueError` of `json.dumps`. -/
  | unprintable

/-- `spend`, with the ledger it leaves. -/
def Meter.spend (m : Meter) (ledger : Ledger) (c : Charge) : Except SpendError Spend × Ledger :=
  match m.gate ledger c scopesFor with
  | .error e => (.error (.cost e), ledger)
  | .ok () =>
    if c.unprintable then (.error .unprintable, ledger)
    else
      (.ok (Spend.plus {} c.inputTokens c.outputTokens (m.price c)),
        ledger ++ [c.entry (m.price c)])

/-! ## Caps -/

def AtMost {α : Type} [LE α] (cap : Option α) (amount : α) : Prop := ∀ limit ∈ cap, amount ≤ limit

structure Within (budget : CostBudget) (s : Spend) : Prop where
  input : AtMost budget.maxInputTokens s.inputTokens
  output : AtMost budget.maxOutputTokens s.outputTokens
  total : AtMost budget.maxTotalTokens s.totalTokens
  dollars : ∀ d ∈ s.dollars, AtMost budget.maxDollars d

def CapsKept (m : Meter) (ledger : Ledger) : Prop :=
  ∀ scope key, ∀ budget ∈ m.budgets scope, Within budget (totals ledger scope key)

variable {scope : Scope}

theorem checkTokens_ok {cap : Option Nat} {kind : PyStr} {projected : Nat}
    (h : checkTokens cap scope kind projected = .ok ()) : AtMost cap projected := by
  intro limit hlimit
  obtain rfl : cap = some limit := hlimit
  by_contra hover
  simp [checkTokens, not_le.1 hover] at h

theorem checkDollars_ok {cap : Option ℚ} {projected : Option ℚ} {known : Bool}
    (h : checkDollars cap scope projected known = .ok ()) : ∀ d ∈ projected, AtMost cap d := by
  intro d hd limit hlimit
  obtain rfl : cap = some limit := hlimit
  obtain rfl : projected = some d := hd
  by_contra hover
  cases known with
  | false => simp [checkDollars] at h
  | true => simp [checkDollars, not_le.1 hover] at h

/-- What passes `_check` is within the budget. -/
theorem checkBudget_ok {budget : CostBudget} {projected : Spend} {known : Bool}
    (h : checkBudget budget projected scope known = .ok ()) : Within budget projected := by
  unfold checkBudget at h
  cases hinput : checkTokens budget.maxInputTokens scope (lit " input-token")
      projected.inputTokens with
  | error e => simp [hinput, bind, Except.bind] at h
  | ok _ =>
    cases houtput : checkTokens budget.maxOutputTokens scope (lit " output-token")
        projected.outputTokens with
    | error e => simp [hinput, houtput, bind, Except.bind] at h
    | ok _ =>
      cases htotal : checkTokens budget.maxTotalTokens scope (lit " total-token")
          projected.totalTokens with
      | error e => simp [hinput, houtput, htotal, bind, Except.bind] at h
      | ok _ =>
        have hdollars : checkDollars budget.maxDollars scope projected.dollars known =
            .ok () := by
          simpa [hinput, houtput, htotal, bind, Except.bind] using h
        exact ⟨checkTokens_ok hinput, checkTokens_ok houtput, checkTokens_ok htotal,
          checkDollars_ok hdollars⟩

/-! ## One charge -/

/-- The keys of the charge come back from the ledger as they went in. -/
def Charge.Keyed (c : Charge) : Prop := ∀ scope, noSplitPair (c.key scope) = true

variable {c : Charge}

theorem Charge.entry_key (h : c.Keyed) (dollars : Option ℚ) (scope : Scope) :
    (c.entry dollars).key scope = c.key scope :=
  wireText_of_noSplitPair (h scope)

theorem totals_append (ledger : Ledger) (e : LedgerEntry) (scope : Scope) (key : PyStr) :
    totals (ledger ++ [e]) scope key =
      if e.key scope = key then (totals ledger scope key).add e else totals ledger scope key := by
  unfold totals
  by_cases hkey : e.key scope = key
  · simp [List.filter_append, hkey]
  · simp [List.filter_append, hkey]

variable {m : Meter} {ledger : Ledger}

theorem totals_charged (h : c.Keyed) (scope : Scope) :
    totals (ledger ++ [c.entry (m.price c)]) scope (c.key scope) =
      m.projected ledger c scope := by
  rw [totals_append, if_pos (c.entry_key h (m.price c) scope)]
  rfl

theorem checkScope_ok (h : m.checkScope ledger c scope = .ok ()) :
    ∀ budget ∈ m.budgets scope, Within budget (m.projected ledger c scope) := by
  intro budget hbudget
  have hsome : m.budgets scope = some budget := hbudget
  simp only [Meter.checkScope, hsome] at h
  exact checkBudget_ok h

/-- A charge that passes the gate keeps the caps. -/
theorem capsKept_append (hkeyed : c.Keyed) (hcaps : CapsKept m ledger)
    (hpassed : ∀ scope, m.checkScope ledger c scope = .ok ()) :
    CapsKept m (ledger ++ [c.entry (m.price c)]) := by
  intro scope key budget hbudget
  by_cases hkey : c.key scope = key
  · -- the scope instance that is charged
    subst hkey
    rw [totals_charged hkeyed]
    exact checkScope_ok (hpassed scope) budget hbudget
  · rw [totals_append, c.entry_key hkeyed, if_neg hkey]
    exact hcaps scope key budget hbudget

/-! ## Any number of threads -/

inductive MeterCall where
  | preflight (c : Charge)
  | spend (c : Charge)

def MeterCall.charge : MeterCall → Charge
  | .preflight c => c
  | .spend c => c

/-- Where a thread stands: outside, waiting for the lock, in the loop over the scopes with those
left to check, or done. -/
inductive ThreadState where
  | idle
  | waiting (call : MeterCall)
  | checking (call : MeterCall) (left : List Scope)
  | refused (call : MeterCall) (error : SpendError)
  | done (call : MeterCall)

structure MeterState where
  ledger : Ledger
  lock : Option Nat
  thread : Nat → ThreadState

def MeterState.put (s : MeterState) (t : Nat) (ts : ThreadState) : MeterState :=
  { s with thread := fun t' => if t' = t then ts else s.thread t' }

def ThreadState.outside : ThreadState → Bool
  | .waiting _ | .checking _ _ => false
  | _ => true

inductive Meter.Step (m : Meter) : MeterState → Option MeterCall → MeterState → Prop where
  | call (s : MeterState) (t : Nat) (call : MeterCall) (h : (s.thread t).outside = true) :
      m.Step s (some call) (s.put t (.waiting call))
  | acquire (s : MeterState) (t : Nat) (call : MeterCall) (h : s.thread t = .waiting call)
      (hfree : s.lock = none) :
      m.Step s none { s.put t (.checking call scopesFor) with lock := some t }
  | pass (s : MeterState) (t : Nat) (call : MeterCall) (scope : Scope) (left : List Scope)
      (h : s.thread t = .checking call (scope :: left))
      (hok : m.checkScope s.ledger call.charge scope = .ok ()) :
      m.Step s none (s.put t (.checking call left))
  | refuse (s : MeterState) (t : Nat) (call : MeterCall) (scope : Scope) (left : List Scope)
      (e : CostError) (h : s.thread t = .checking call (scope :: left))
      (herror : m.checkScope s.ledger call.charge scope = .error e) :
      m.Step s none { s.put t (.refused call (.cost e)) with lock := none }
  | estimate (s : MeterState) (t : Nat) (c : Charge)
      (h : s.thread t = .checking (.preflight c) []) :
      m.Step s none { s.put t (.done (.preflight c)) with lock := none }
  | unprintable (s : MeterState) (t : Nat) (c : Charge)
      (h : s.thread t = .checking (.spend c) []) (hprint : c.unprintable = true) :
      m.Step s none { s.put t (.refused (.spend c) .unprintable) with lock := none }
  | append (s : MeterState) (t : Nat) (c : Charge) (h : s.thread t = .checking (.spend c) [])
      (hprint : c.unprintable = false) :
      m.Step s none
        { s.put t (.done (.spend c)) with
          lock := none
          ledger := s.ledger ++ [c.entry (m.price c)] }

/-- A run all of whose calls satisfy `ok`. -/
inductive Meter.Run (m : Meter) (ok : MeterCall → Prop) : MeterState → MeterState → Prop where
  | refl (s : MeterState) : m.Run ok s s
  | tail {s s' s'' : MeterState} {label : Option MeterCall} (run : m.Run ok s s')
      (step : m.Step s' label s'') (hok : ∀ call ∈ label, ok call) : m.Run ok s s''

structure Meter.Start (m : Meter) (s : MeterState) : Prop where
  outside : ∀ t, (s.thread t).outside = true
  unlocked : s.lock = none
  caps : CapsKept m s.ledger

/-- A spend whose keys survive the ledger; a preflight writes nothing. -/
def MeterCall.Keyed : MeterCall → Prop
  | .preflight _ => True
  | .spend c => c.Keyed

/-- What holds between the steps: the thread in the loop holds the lock, and every scope it has
behind it passes on the ledger as it stands. -/
structure MeterInv (m : Meter) (s : MeterState) : Prop where
  caps : CapsKept m s.ledger
  holder : ∀ t call left, s.thread t = .checking call left → s.lock = some t
  passed : ∀ t call left, s.thread t = .checking call left → ∃ behind, scopesFor = behind ++ left ∧
    ∀ scope ∈ behind, m.checkScope s.ledger call.charge scope = .ok ()
  keyed : ∀ t call, (s.thread t = .waiting call ∨ ∃ left, s.thread t = .checking call left) →
    call.Keyed

theorem MeterState.put_self (s : MeterState) (t : Nat) (ts : ThreadState) :
    (s.put t ts).thread t = ts := by
  simp [MeterState.put]

theorem MeterState.put_other (s : MeterState) {t t' : Nat} (h : t' ≠ t) (ts : ThreadState) :
    (s.put t ts).thread t' = s.thread t' := by
  simp [MeterState.put, h]

theorem MeterState.put_cases {s : MeterState} {t t' : Nat} {ts ts' : ThreadState}
    (h : (s.put t ts).thread t' = ts') : t' = t ∧ ts = ts' ∨ t' ≠ t ∧ s.thread t' = ts' := by
  by_cases ht : t' = t
  · subst ht
    exact Or.inl ⟨rfl, (MeterState.put_self s t' ts).symm.trans h⟩
  · exact Or.inr ⟨ht, (MeterState.put_other s ht ts).symm.trans h⟩

variable {s s' : MeterState}

theorem meterInv_start (h : m.Start s) : MeterInv m s := by
  have hnot : ∀ t call left, s.thread t ≠ .checking call left := by
    intro t call left hchecking
    have hout := h.outside t
    simp [hchecking, ThreadState.outside] at hout
  refine ⟨h.caps, ?_, ?_, ?_⟩
  · exact fun t call left hchecking => absurd hchecking (hnot t call left)
  · exact fun t call left hchecking => absurd hchecking (hnot t call left)
  · intro t call hinside
    have hout := h.outside t
    rcases hinside with hwaiting | ⟨left, hchecking⟩
    · simp [hwaiting, ThreadState.outside] at hout
    · exact absurd hchecking (hnot t call left)

theorem MeterInv.all_passed (hinv : MeterInv m s) {t : Nat} {call : MeterCall}
    (h : s.thread t = .checking call []) (scope : Scope) :
    m.checkScope s.ledger call.charge scope = .ok () := by
  rcases hinv.passed t call [] h with ⟨behind, hbehind, hpassed⟩
  apply hpassed
  rw [List.append_nil] at hbehind
  rw [← hbehind]
  cases scope <;> simp [scopesFor]

/-- The one thread in the loop leaves it; nobody else is inside. -/
theorem MeterInv.leave {t : Nat} {call : MeterCall} {left : List Scope} {ts : ThreadState}
    (hinv : MeterInv m s) (h : s.thread t = .checking call left) (hout : ts.outside = true)
    (hthread : s'.thread = (s.put t ts).thread) (hcaps : CapsKept m s'.ledger) : MeterInv m s' := by
  have hnot : ∀ t' call' left', s'.thread t' ≠ .checking call' left' := by
    intro t' call' left' hchecking
    rw [hthread] at hchecking
    rcases MeterState.put_cases hchecking with ⟨_, rfl⟩ | ⟨ht, hold⟩
    · cases hout
    · -- two threads in the loop would both hold the lock
      have hlock := (hinv.holder t' call' left' hold).symm.trans (hinv.holder t call left h)
      exact ht (Option.some.inj hlock)
  refine ⟨hcaps, ?_, ?_, ?_⟩
  · exact fun t' call' left' hchecking => absurd hchecking (hnot t' call' left')
  · exact fun t' call' left' hchecking => absurd hchecking (hnot t' call' left')
  · intro t' call' hinside
    rcases hinside with hwaiting | ⟨left', hchecking⟩
    · rw [hthread] at hwaiting
      rcases MeterState.put_cases hwaiting with ⟨_, rfl⟩ | ⟨_, hold⟩
      · cases hout
      · exact hinv.keyed t' call' (Or.inl hold)
    · exact absurd hchecking (hnot t' call' left')

theorem meterInv_step {label : Option MeterCall} (hinv : MeterInv m s) (hstep : m.Step s label s')
    (hok : ∀ call ∈ label, call.Keyed) : MeterInv m s' := by
  cases hstep with
  | call t call hout =>
    have hback : ∀ t' call' left, (s.put t (.waiting call)).thread t' = .checking call' left →
        s.thread t' = .checking call' left := by
      intro t' call' left hchecking
      rcases MeterState.put_cases hchecking with ⟨_, hnew⟩ | ⟨_, hold⟩
      · cases hnew
      · exact hold
    refine ⟨hinv.caps, ?_, ?_, ?_⟩
    · intro t' call' left hchecking
      exact hinv.holder t' call' left (hback t' call' left hchecking)
    · intro t' call' left hchecking
      exact hinv.passed t' call' left (hback t' call' left hchecking)
    · intro t' call' hinside
      rcases hinside with hwaiting | ⟨left, hchecking⟩
      · rcases MeterState.put_cases hwaiting with ⟨_, hnew⟩ | ⟨_, hold⟩
        · obtain rfl : call = call' := ThreadState.waiting.inj hnew
          exact hok call rfl
        · exact hinv.keyed t' call' (Or.inl hold)
      · exact hinv.keyed t' call' (Or.inr ⟨left, hback t' call' left hchecking⟩)
  | acquire t call hwaiting hfree =>
    have honly : ∀ t' call' left,
        (s.put t (.checking call scopesFor)).thread t' = .checking call' left →
          t' = t ∧ call' = call ∧ left = scopesFor := by
      intro t' call' left hchecking
      rcases MeterState.put_cases hchecking with ⟨ht, hnew⟩ | ⟨_, hold⟩
      · rcases ThreadState.checking.inj hnew with ⟨rfl, rfl⟩
        exact ⟨ht, rfl, rfl⟩
      · have hlock := hinv.holder t' call' left hold
        simp [hfree] at hlock
    refine ⟨hinv.caps, ?_, ?_, ?_⟩
    · intro t' call' left hchecking
      rcases honly t' call' left hchecking with ⟨rfl, _, _⟩
      rfl
    · intro t' call' left hchecking
      rcases honly t' call' left hchecking with ⟨_, _, rfl⟩
      exact ⟨[], rfl, fun scope hscope => nomatch hscope⟩
    · intro t' call' hinside
      rcases hinside with hwaiting' | ⟨left, hchecking⟩
      · rcases MeterState.put_cases hwaiting' with ⟨_, hnew⟩ | ⟨_, hold⟩
        · cases hnew
        · exact hinv.keyed t' call' (Or.inl hold)
      · rcases honly t' call' left hchecking with ⟨_, rfl, _⟩
        exact hinv.keyed t call' (Or.inl hwaiting)
  | pass t call scope left hchecking hpass =>
    have hback : ∀ t' call' left', (s.put t (.checking call left)).thread t' =
        .checking call' left' → t' = t ∧ call' = call ∧ left' = left ∨
          t' ≠ t ∧ s.thread t' = .checking call' left' := by
      intro t' call' left' hat
      rcases MeterState.put_cases hat with ⟨ht, hnew⟩ | hold
      · rcases ThreadState.checking.inj hnew with ⟨rfl, rfl⟩
        exact Or.inl ⟨ht, rfl, rfl⟩
      · exact Or.inr hold
    refine ⟨hinv.caps, ?_, ?_, ?_⟩
    · intro t' call' left' hat
      rcases hback t' call' left' hat with ⟨rfl, _, _⟩ | ⟨_, hold⟩
      · exact hinv.holder t' call (scope :: left) hchecking
      · exact hinv.holder t' call' left' hold
    · intro t' call' left' hat
      rcases hback t' call' left' hat with ⟨rfl, rfl, rfl⟩ | ⟨_, hold⟩
      · -- one more scope lies behind the thread
        rcases hinv.passed t' call' (scope :: left') hchecking with ⟨behind, hbehind, hpassed⟩
        refine ⟨behind ++ [scope], by simpa using hbehind, ?_⟩
        intro scope' hscope'
        rcases List.mem_append.1 hscope' with hold | hnew
        · exact hpassed scope' hold
        · obtain rfl : scope' = scope := by simpa using hnew
          exact hpass
      · exact hinv.passed t' call' left' hold
    · intro t' call' hinside
      rcases hinside with hwaiting | ⟨left', hat⟩
      · rcases MeterState.put_cases hwaiting with ⟨_, hnew⟩ | ⟨_, hold⟩
        · cases hnew
        · exact hinv.keyed t' call' (Or.inl hold)
      · rcases hback t' call' left' hat with ⟨rfl, rfl, _⟩ | ⟨_, hold⟩
        · exact hinv.keyed t' call' (Or.inr ⟨scope :: left, hchecking⟩)
        · exact hinv.keyed t' call' (Or.inr ⟨left', hold⟩)
  | refuse t call scope left e hchecking _ =>
    exact hinv.leave hchecking rfl rfl hinv.caps
  | estimate _ _ hchecking | unprintable _ _ hchecking _ => exact hinv.leave hchecking rfl rfl hinv.caps
  | append t c hchecking _ =>
    have hkeyed : c.Keyed := hinv.keyed t (.spend c) (Or.inr ⟨[], hchecking⟩)
    have hpassed : ∀ scope, m.checkScope s.ledger c scope = .ok () :=
      fun scope => hinv.all_passed hchecking scope
    have hcaps := capsKept_append hkeyed hinv.caps hpassed
    exact hinv.leave hchecking rfl rfl hcaps

theorem meterInv_run (hinv : MeterInv m s) (hrun : m.Run MeterCall.Keyed s s') : MeterInv m s' := by
  induction hrun with
  | refl => exact hinv
  | tail _ hstep hok ih => exact meterInv_step ih hstep hok

/-! ## Critical sections are single calls -/

theorem gate_ok {scopes : List Scope} (h : ∀ scope ∈ scopes, m.checkScope ledger c scope = .ok ()) :
    m.gate ledger c scopes = .ok () := by
  induction scopes with
  | nil => rfl
  | cons scope scopes ih =>
    have hrest := ih fun scope' hscope' => h scope' (List.mem_cons_of_mem scope hscope')
    simp [Meter.gate, h scope (by simp), hrest]

theorem gate_error {e : CostError} {behind left : List Scope}
    (h : ∀ scope ∈ behind, m.checkScope ledger c scope = .ok ())
    (herror : m.checkScope ledger c scope = .error e) :
    m.gate ledger c (behind ++ scope :: left) = .error e := by
  induction behind with
  | nil => simp [Meter.gate, herror]
  | cons first behind ih =>
    have hrest := ih fun scope' hscope' => h scope' (List.mem_cons_of_mem first hscope')
    simpa [Meter.gate, h first (by simp)] using hrest

section Sequential

variable {m : Meter} {ledger : Ledger} {c : Charge} {e : CostError}

theorem preflight_of_error (h : m.gate ledger c scopesFor = .error e) :
    m.preflight ledger c = .error e := by
  simp only [Meter.preflight, h]

theorem preflight_of_ok (h : m.gate ledger c scopesFor = .ok ()) :
    ∃ estimate, m.preflight ledger c = .ok estimate := by
  simp only [Meter.preflight, h]
  exact ⟨_, rfl⟩

theorem spend_of_error (h : m.gate ledger c scopesFor = .error e) :
    m.spend ledger c = (.error (.cost e), ledger) := by
  simp only [Meter.spend, h]

theorem spend_of_unprintable (h : m.gate ledger c scopesFor = .ok ()) (hprint : c.unprintable) :
    m.spend ledger c = (.error .unprintable, ledger) := by
  simp only [Meter.spend, h, hprint, if_true]

theorem spend_of_ok (h : m.gate ledger c scopesFor = .ok ()) (hprint : c.unprintable = false) :
    ∃ s, m.spend ledger c = (.ok s, ledger ++ [c.entry (m.price c)]) := by
  simp [Meter.spend, h, hprint]

/-- A preflight succeeds exactly when the spend that follows it does. -/
theorem preflight_iff_spend (hprint : c.unprintable = false) :
    (∃ estimate, m.preflight ledger c = .ok estimate) ↔ ∃ s, (m.spend ledger c).1 = .ok s := by
  cases hgate : m.gate ledger c scopesFor with
  | error e => simp [preflight_of_error hgate, spend_of_error hgate]
  | ok _ =>
    rcases spend_of_ok hgate hprint with ⟨s, hs⟩
    exact iff_of_true (preflight_of_ok hgate) ⟨s, by rw [hs]⟩

end Sequential

/-- How a call of a thread ends on the ledger it found: as the call on its own does. -/
def EndsAs (m : Meter) (before after : Ledger) : ThreadState → Prop
  | .refused (.spend c) e => m.spend before c = (.error e, after) ∧ after = before
  | .done (.spend c) => ∃ s, m.spend before c = (.ok s, after)
  | .refused (.preflight c) _ => (∃ e, m.preflight before c = .error e) ∧ after = before
  | .done (.preflight c) => (∃ e, m.preflight before c = .ok e) ∧ after = before
  | _ => after = before

theorem step_ends {label : Option MeterCall} (hinv : MeterInv m s) (hstep : m.Step s label s') :
    ∃ t, (∀ t' ≠ t, s'.thread t' = s.thread t') ∧ EndsAs m s.ledger s'.ledger (s'.thread t) := by
  cases hstep with
  | call t call _ =>
    refine ⟨t, fun t' ht => MeterState.put_other s ht _, ?_⟩
    rw [MeterState.put_self]
    exact rfl
  | acquire t call _ _ =>
    refine ⟨t, fun t' ht => MeterState.put_other s ht _, ?_⟩
    have hself := MeterState.put_self s t (.checking call scopesFor)
    simp only [hself]
    exact rfl
  | pass t call scope left _ _ =>
    refine ⟨t, fun t' ht => MeterState.put_other s ht _, ?_⟩
    rw [MeterState.put_self]
    exact rfl
  | refuse t call scope left e hchecking herror =>
    refine ⟨t, fun t' ht => MeterState.put_other s ht _, ?_⟩
    have hself := MeterState.put_self s t (.refused call (.cost e))
    rcases hinv.passed t call (scope :: left) hchecking with ⟨behind, hbehind, hpassed⟩
    have hgate : m.gate s.ledger call.charge scopesFor = .error e := by
      rw [hbehind]
      exact gate_error hpassed herror
    simp only [hself]
    cases call with
    | preflight c => exact ⟨⟨e, preflight_of_error hgate⟩, rfl⟩
    | spend c => exact ⟨spend_of_error hgate, rfl⟩
  | estimate t c hchecking =>
    refine ⟨t, fun t' ht => MeterState.put_other s ht _, ?_⟩
    have hself := MeterState.put_self s t (.done (.preflight c))
    have hgate : m.gate s.ledger c scopesFor = .ok () :=
      gate_ok fun scope _ => hinv.all_passed hchecking scope
    simp only [hself]
    exact ⟨preflight_of_ok hgate, rfl⟩
  | unprintable t c hchecking hprint =>
    refine ⟨t, fun t' ht => MeterState.put_other s ht _, ?_⟩
    have hself := MeterState.put_self s t (.refused (.spend c) .unprintable)
    have hgate : m.gate s.ledger c scopesFor = .ok () :=
      gate_ok fun scope _ => hinv.all_passed hchecking scope
    simp only [hself]
    exact ⟨spend_of_unprintable hgate hprint, rfl⟩
  | append t c hchecking hprint =>
    refine ⟨t, fun t' ht => MeterState.put_other s ht _, ?_⟩
    have hself := MeterState.put_self s t (.done (.spend c))
    have hgate : m.gate s.ledger c scopesFor = .ok () :=
      gate_ok fun scope _ => hinv.all_passed hchecking scope
    simp only [hself]
    exact spend_of_ok hgate hprint

/-! ## The caps hold over every run -/

/-- A preflight and the spend after it agree unless the record cannot be written. -/
theorem preflight_agrees_iff :
    ((∃ estimate, m.preflight ledger c = .ok estimate) ↔ ∃ s, (m.spend ledger c).1 = .ok s) ↔
      (c.unprintable = true → ∃ e, m.gate ledger c scopesFor = .error e) := by
  cases hprint : c.unprintable with
  | false => exact iff_of_true (preflight_iff_spend hprint) (by simp)
  | true =>
    cases hgate : m.gate ledger c scopesFor with
    | error e => simp [preflight_of_error hgate, spend_of_error hgate]
    | ok _ =>
      have hpreflight := preflight_of_ok hgate
      simp [hpreflight, spend_of_unprintable hgate hprint]

/-- In every run whose charges keep their keys the caps hold, every call ends as it would alone,
and the next preflight tells what the next spend does, but for a record that cannot be written. -/
theorem caps_kept {m : Meter} {s s' : MeterState} (hstart : m.Start s)
    (hrun : m.Run MeterCall.Keyed s s') :
    CapsKept m s'.ledger ∧
      (∀ label s'', m.Step s' label s'' →
        ∃ t, (∀ t' ≠ t, s''.thread t' = s'.thread t') ∧
          EndsAs m s'.ledger s''.ledger (s''.thread t)) ∧
      ∀ c : Charge,
        ((∃ estimate, m.preflight s'.ledger c = .ok estimate) ↔
            ∃ spend, (m.spend s'.ledger c).1 = .ok spend) ↔
          (c.unprintable = true → ∃ e, m.gate s'.ledger c scopesFor = .error e) := by
  have hinv := meterInv_run (meterInv_start hstart) hrun
  exact ⟨hinv.caps, fun label s'' hstep => step_ends hinv hstep, fun c => preflight_agrees_iff⟩

/-- The calls of all threads leave the ledger that spends leave which succeed one after the other. -/
theorem run_linearizes (start : {s // m.Start s}) (after : {s // m.Run MeterCall.Keyed start s}) :
    ∃ spends : List Charge, spends.foldlM (fun ledger c =>
      if (m.spend ledger c).1.isOk then some (m.spend ledger c).2 else none) start.1.ledger =
        some after.1.ledger := by
  obtain ⟨s, hstart⟩ := start
  obtain ⟨s', hrun⟩ := after
  induction hrun with
  | refl => exact ⟨[], rfl⟩
  | @tail before after _ hrun hstep _ ih =>
    obtain ⟨spends, hspends⟩ := ih
    obtain ⟨t, _, hends⟩ := step_ends (meterInv_run (meterInv_start hstart) hrun) hstep
    have hspent : after.ledger = before.ledger ∨
        ∃ c spent, m.spend before.ledger c = (.ok spent, after.ledger) := by
      unfold EndsAs at hends
      split at hends
      case h_2 => exact Or.inr ⟨_, hends⟩
      case h_5 => exact Or.inl hends
      all_goals exact Or.inl hends.2
    rcases hspent with hsame | ⟨c, spent, hspent⟩
    · exact ⟨spends, hsame ▸ hspends⟩
    · refine ⟨spends ++ [c], ?_⟩
      rw [List.foldlM_append, hspends]
      simp [hspent, Except.isOk, Except.toBool]

/-- One thread spends while the others stay where they are. -/
theorem Meter.Run.spend {ok : MeterCall → Prop} {t : Nat} (hout : (s.thread t).outside = true)
    (hfree : s.lock = none) (hpassed : ∀ scope, m.checkScope s.ledger c scope = .ok ())
    (hprint : c.unprintable = false) (hok : ok (.spend c)) :
    ∃ s', m.Run ok s s' ∧ s'.ledger = s.ledger ++ [c.entry (m.price c)] := by
  have hnone : ∀ call ∈ (none : Option MeterCall), ok call := fun call hcall => nomatch hcall
  have hcalled : m.Run ok s (s.put t (.waiting (.spend c))) := by
    refine (Meter.Run.refl s).tail (Step.call s t (.spend c) hout) ?_
    rintro _ ⟨⟩
    exact hok
  have hacquired := hcalled.tail
    (Step.acquire _ t (.spend c) (MeterState.put_self s t _) hfree) hnone
  have htask := hacquired.tail
    (Step.pass _ t (.spend c) .task [.session, .day] (by simp [MeterState.put, scopesFor])
      (hpassed .task)) hnone
  have hsession := htask.tail
    (Step.pass _ t (.spend c) .session [.day] (MeterState.put_self _ t _) (hpassed .session)) hnone
  have hday := hsession.tail
    (Step.pass _ t (.spend c) .day [] (MeterState.put_self _ t _) (hpassed .day)) hnone
  exact ⟨_, hday.tail (Step.append _ t c (MeterState.put_self _ t _) hprint) hnone, rfl⟩

/-! ## A key with two spellings -/

def tenTokens : Meter where
  budgets
    | .task => some { maxInputTokens := some 10 }
    | _ => none
  rates := fun _ => none
  estimateThresholdDollars := none

def chargeFor (task : PyStr) (inputTokens : Nat) : Charge where
  provider := lit "anthropic"
  model := lit "opus"
  inputTokens := inputTokens
  outputTokens := 0
  key
    | .task => task
    | _ => lit "today"

def idleMeter (ledger : Ledger) : MeterState where
  ledger := ledger
  lock := none
  thread := fun _ => .idle

/-- U+1F600, and the two lone surrogates that JSON joins into it. -/
def grin : PyStr := [codePoint 0x1F600]

def splitGrin : PyStr := [codePoint 0xD83D, codePoint 0xDE00]

theorem chargeFor_keyed {task : PyStr} (h : noSplitPair task = true) (n : Nat) :
    (chargeFor task n).Keyed := by
  intro scope
  cases scope with
  | task => exact h
  | session | day => exact (by decide : noSplitPair (lit "today") = true)

/-- Only the task is capped, and only its input tokens. -/
theorem tenTokens_capsKept (h : ∀ key,
      (totals ledger .task key).inputTokens ≤ 10) : CapsKept tenTokens ledger := by
  intro scope key budget hbudget
  cases scope with
  | session | day => cases hbudget
  | task =>
    obtain rfl : { maxInputTokens := some 10 } = budget := Option.some.inj hbudget
    refine ⟨?_, ?_, ?_, ?_⟩
    · rintro limit ⟨⟩
      exact h key
    · exact fun limit hlimit => nomatch hlimit
    · exact fun limit hlimit => nomatch hlimit
    · exact fun d _ limit hlimit => nomatch hlimit

theorem tenTokens_start (h : ∀ key, (totals ledger .task key).inputTokens ≤ 10) :
    tenTokens.Start (idleMeter ledger) :=
  ⟨fun _ => rfl, rfl, tenTokens_capsKept h⟩

theorem tenTokens_passes {task : PyStr} {n : Nat} (h : (totals ledger .task task).inputTokens + n ≤ 10)
    (scope : Scope) : tenTokens.checkScope ledger (chargeFor task n) scope = .ok () := by
  cases scope with
  | session | day => rfl
  | task =>
    have hnot : ¬ 10 < (totals ledger .task task).inputTokens + n := by omega
    simp [Meter.checkScope, tenTokens, checkBudget, checkTokens, checkDollars, Meter.projected,
      Meter.price, Meter.rateFor, Spend.plus, chargeFor, hnot, bind, Except.bind]

theorem totals_singleton (e : LedgerEntry) (key : PyStr) :
    (totals [e] .task key).inputTokens ≤ e.inputTokens := by
  have hzero : (totals [] .task key).inputTokens = 0 := rfl
  have happend := totals_append [] e .task key
  rw [List.nil_append] at happend
  rw [happend]
  split
  · simp only [Spend.add, Spend.plus]
    cases e.dollars <;> simp [hzero]
  · omega

theorem caps_kept_spent :
    ∃ s', tenTokens.Run MeterCall.Keyed (idleMeter []) s' ∧ s'.ledger ≠ [] ∧
      CapsKept tenTokens s'.ledger := by
  have hstart : tenTokens.Start (idleMeter []) := tenTokens_start fun key => Nat.zero_le 10
  have hkeyed : (MeterCall.spend (chargeFor grin 10)).Keyed := chargeFor_keyed (by decide) 10
  have hpassed : ∀ scope, tenTokens.checkScope [] (chargeFor grin 10) scope = .ok () :=
    tenTokens_passes (le_refl 10)
  rcases Meter.Run.spend (s := idleMeter []) (t := 0) rfl rfl hpassed
    (by simp [Charge.unprintable, chargeFor, intTooLong, maxStrDigits]) hkeyed with ⟨s', hrun, hledger⟩
  exact ⟨s', hrun, by simp [hledger, idleMeter], (caps_kept hstart hrun).1⟩

/-- After ten tokens for "😀", ten more for its two surrogates pass and are read back as hers; and a
count of more than 4300 digits passes the preflight of an unlimited meter and breaks the spend. -/
theorem caps_not_kept :
    (∃ s', tenTokens.Start (idleMeter [(chargeFor grin 10).entry none]) ∧
      tenTokens.Run (fun _ => True) (idleMeter [(chargeFor grin 10).entry none]) s' ∧
      ¬ CapsKept tenTokens s'.ledger) ∧
    ∃ (m : Meter) (c : Charge), (∃ estimate, m.preflight [] c = .ok estimate) ∧
      (m.spend [] c).1 = .error .unprintable := by
  refine ⟨?_, ?_⟩
  · have hstart : tenTokens.Start (idleMeter [(chargeFor grin 10).entry none]) :=
      tenTokens_start fun key => totals_singleton _ key
    have hpassed : ∀ scope, tenTokens.checkScope [(chargeFor grin 10).entry none]
        (chargeFor splitGrin 10) scope = .ok () := by
      apply tenTokens_passes
      have hother : (totals [(chargeFor grin 10).entry none] .task splitGrin).inputTokens = 0 := by
        decide
      omega
    have hspent : ∃ s', tenTokens.Run (fun _ => True) (idleMeter [(chargeFor grin 10).entry none])
        s' ∧ s'.ledger = [(chargeFor grin 10).entry none, (chargeFor splitGrin 10).entry none] :=
      Meter.Run.spend (t := 0) rfl rfl hpassed
        (by simp [Charge.unprintable, chargeFor, intTooLong, maxStrDigits]) trivial
    rcases hspent with ⟨s', hrun, hledger⟩
    refine ⟨s', hstart, hrun, ?_⟩
    intro hcaps
    have hwithin := (hcaps .task grin _ rfl).input 10 rfl
    have htotal : (totals s'.ledger .task grin).inputTokens = 20 := by
      rw [hledger]
      decide
    omega
  · have hlong : (chargeFor grin (10 ^ maxStrDigits)).unprintable = true := by
      simp only [Charge.unprintable, chargeFor, intTooLong_of_le le_rfl, Bool.true_or]
    have hgate : (⟨fun _ => none, fun _ => none, none⟩ : Meter).gate []
        (chargeFor grin (10 ^ maxStrDigits)) scopesFor = .ok () := gate_ok fun scope _ => rfl
    refine ⟨⟨fun _ => none, fun _ => none, none⟩, chargeFor grin (10 ^ maxStrDigits),
      preflight_of_ok hgate, ?_⟩
    rw [spend_of_unprintable hgate hlong]

end Tempest
