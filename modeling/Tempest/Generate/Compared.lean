import Tempest.Generate.Inputs

/-!
# Compared — the inputs that both revisions are called with

The generated inputs are distinct, and every input binds to the signature as far as the pools have a
value for each keyword-only parameter without a default; a mutated input binds as the one it is made of.
Mutants are compared with the generated inputs only, and not with one another.
-/

namespace Tempest
namespace Inputs

open Python Strategies Interpreter

variable {σ : Type} {p : Interpreter σ}

/-! ## Binding -/

namespace Signature

def positional (sig : Signature) : List Parameter :=
  sig.params.filter fun q => q.kind = .positionalOnly || q.kind = .positionalOrKeyword

def keywordOnly (sig : Signature) : List Parameter := sig.params.filter fun q => q.kind = .keywordOnly

def required (sig : Signature) : Nat := sig.positional.countP fun q => q.default = none

end Signature

/-- A call with `count` positional arguments and the keywords `keys` binds. -/
structure Binds (sig : Signature) (count : Nat) (keys : List PyStr) : Prop where
  enough : sig.required ≤ count
  atMost : count ≤ sig.positional.length
  given : ∀ q ∈ sig.keywordOnly, q.default = none → q.name ∈ keys
  known : ∀ key ∈ keys, key ∈ sig.keywordOnly.map Parameter.name

/-- The literals of a tuple and of a `dict` with the keys `keys`. -/
structure Spelled (p : Interpreter σ) (l : Literals) (count : Nat) (keys : List PyStr) : Prop where
  nodup : keys.Nodup
  values : ∃ args kwargs, l = p.literals args kwargs ∧ args.length = count ∧
    kwargs.map Prod.fst = keys.map PyVal.str ∧ plainItems args ∧ plainPairs kwargs

def BindsTo (p : Interpreter σ) (sig : Signature) (l : Literals) : Prop :=
  ∃ count keys, Spelled p l count keys ∧ Binds sig count keys

/-! ## Mutation -/

section Mutation

variable {inner : PyVal → σ → PyVal × σ} {items : List PyVal} {pairs : List (PyVal × PyVal)} {v : PyVal}

theorem plain_getD {i : Nat} (h : plainItems items) : ((items[i]?).getD .none).plain := by
  cases hget : items[i]? with
  | none => rfl
  | some item => exact plainItems_iff.mp h item (List.mem_of_getElem? hget)

theorem plainItems_set {i : Nat} (h : plainItems items) (hv : v.plain) :
    plainItems (items.set i v) := by
  refine plainItems_iff.mpr ?_
  intro item hitem
  cases List.mem_or_eq_of_mem_set hitem with
  | inl hold => exact plainItems_iff.mp h item hold
  | inr hnew => exact hnew ▸ hv

theorem plainPairs_set {i : Nat} {pair : PyVal × PyVal} (h : plainPairs pairs)
    (hpair : pair.1.plain ∧ pair.2.plain) : plainPairs (pairs.set i pair) := by
  refine plainPairs_iff.mpr ?_
  intro other hother
  cases List.mem_or_eq_of_mem_set hother with
  | inl hold => exact plainPairs_iff.mp h other hold
  | inr hnew => exact hnew ▸ hpair

theorem plainItems_mutateItems (hinner : ∀ v s, v.plain → (inner v s).1.plain)
    (h : plainItems items) (s : σ) : plainItems (p.mutateItems inner items s).1 := by
  simp only [Interpreter.mutateItems]
  split_ifs
  · rfl
  · refine plainItems_iff.mpr ?_
    intro item hitem
    exact plainItems_iff.mp h item (List.mem_of_mem_eraseIdx hitem)
  · refine plainItems_iff.mpr ?_
    intro item hitem
    cases List.mem_append.mp hitem with
    | inl hold => exact plainItems_iff.mp h item hold
    | inr hnew => exact List.mem_singleton.mp hnew ▸ plain_getD h
  · exact plainItems_set h (hinner _ _ (plain_getD h))

theorem mem_sortedBy {key : PyVal → PyStr} {item : (PyVal × PyVal) × Nat}
    (h : item ∈ sortedBy key pairs) :
    pairs[item.2]? = some item.1 := by
  have hmem := (List.perm_insertionSort _ _).mem_iff.mp h
  exact List.mem_zipIdx_iff_getElem?.mp hmem

/-- What is chosen of the sorted items of a dict is an item at its place, or nothing is. -/
theorem choice_sortedBy (key : PyVal → PyStr) (pairs : List (PyVal × PyVal)) (s : σ) :
    pairs[(p.choice (sortedBy key pairs) ((.none, .none), pairs.length) s).1.2]? =
        some (p.choice (sortedBy key pairs) ((.none, .none), pairs.length) s).1.1 ∨
      (p.choice (sortedBy key pairs) ((.none, .none), pairs.length) s).1 =
        ((.none, .none), pairs.length) := by
  simp only [Interpreter.choice]
  cases hget : (sortedBy key pairs)[(p.randrange (sortedBy key pairs).length s).1]? with
  | none => exact Or.inr rfl
  | some item => exact Or.inl (mem_sortedBy (List.mem_of_getElem? hget))

theorem plainPairs_mutatePairs (hinner : ∀ v s, v.plain → (inner v s).1.plain)
    (h : plainPairs pairs) (s : σ) : plainPairs (p.mutatePairs inner pairs s).1 := by
  simp only [Interpreter.mutatePairs]
  split_ifs
  · rfl
  · refine plainPairs_iff.mpr ?_
    intro pair hpair
    exact plainPairs_iff.mp h pair (List.mem_of_mem_eraseIdx hpair)
  · refine plainPairs_set h ?_
    cases choice_sortedBy (p := p) p.repr pairs s with
    | inl hitem =>
      have hplain := plainPairs_iff.mp h _ (List.mem_of_getElem? hitem)
      exact ⟨hplain.1, hinner _ _ hplain.2⟩
    | inr hnone =>
      rw [hnone]
      exact ⟨rfl, hinner _ _ rfl⟩

theorem plainItems_keepSome (h : plainItems items) (s : σ) : plainItems (p.keepSome items s).1 := by
  induction items generalizing s with
  | nil => rfl
  | cons item items ih =>
    simp only [plainItems, Bool.and_eq_true] at h
    simp only [Interpreter.keepSome]
    split_ifs
    · exact Bool.and_eq_true_iff.mpr ⟨h.1, ih h.2 _⟩
    · exact ih h.2 _

theorem plain_mutateValue (depth : Nat) (v : PyVal) (s : σ) (h : v.plain) :
    (p.mutateValue depth v s).1.plain := by
  induction depth using Nat.strong_induction_on generalizing v s with
  | _ depth ih =>
    cases depth with
    | zero => exact h
    | succ depth =>
      have hinner : ∀ v s, v.plain → (p.mutateValue depth v s).1.plain :=
        fun v s hv => ih depth (Nat.lt_succ_self _) v s hv
      cases v with
      | list items => exact plainItems_mutateItems hinner h s
      | tuple items =>
        cases depth with
        | zero => exact h
        | succ deeper =>
          exact plainItems_mutateItems (fun v s hv => ih deeper (by omega) v s hv) h s
      | dict items => exact plainPairs_mutatePairs hinner h s
      | set items =>
        have hkept : plainItems (p.keepSome items s).1 := plainItems_keepSome h s
        simp only [Interpreter.mutateValue]
        split_ifs
        · rfl
        · exact hkept
      | none | bool _ | int _ | float _ | str _ | bytes _ => rfl
      | frozenset items => exact h
      | rejected _ | object _ _ | bare _ | hostile _ | cycle => cases h

theorem map_fst_set {i : Nat} {pair : PyVal × PyVal} {w : PyVal} (h : pairs[i]? = some pair) :
    (pairs.set i (pair.1, w)).map Prod.fst = pairs.map Prod.fst := by
  obtain ⟨hi, heq⟩ := List.getElem?_eq_some_iff.mp h
  have hmap : i < (pairs.map Prod.fst).length := by rwa [List.length_map]
  have hfst : (pairs.map Prod.fst)[i] = pair.1 := by rw [List.getElem_map, heq]
  rw [List.map_set, ← hfst, List.set_getElem_self]

/-- An edit keeps the number of arguments and the keys. -/
theorem mutateArguments_shape {args : List PyVal} (hargs : plainItems args) (hpairs : plainPairs pairs)
    (s : σ) :
    (p.mutateArguments args pairs s).1.length = args.length ∧
      (p.mutateArguments args pairs s).2.map Prod.fst = pairs.map Prod.fst ∧
      plainItems (p.mutateArguments args pairs s).1 ∧ plainPairs (p.mutateArguments args pairs s).2 := by
  simp only [Interpreter.mutateArguments]
  split_ifs
  · exact ⟨List.length_set, rfl, plainItems_set hargs (plain_mutateValue _ _ _ (plain_getD hargs)),
      hpairs⟩
  · exact ⟨rfl, rfl, hargs, hpairs⟩
  · refine ⟨rfl, ?_, hargs, ?_⟩
    · cases choice_sortedBy (p := p) keyText pairs _ with
      | inl hitem => exact map_fst_set hitem
      | inr hnone => rw [hnone, List.set_eq_of_length_le le_rfl]
    · refine plainPairs_set hpairs ?_
      cases choice_sortedBy (p := p) keyText pairs _ with
      | inl hitem =>
        have hplain := plainPairs_iff.mp hpairs _ (List.mem_of_getElem? hitem)
        exact ⟨hplain.1, plain_mutateValue _ _ _ hplain.2⟩
      | inr hnone =>
        rw [hnone]
        exact ⟨rfl, plain_mutateValue _ _ _ rfl⟩

theorem spelled_mutateInput {l : Literals} {count : Nat} {keys : List PyStr}
    (h : Spelled p l count keys) (seed : Int) : Spelled p (p.mutateInput l seed) count keys := by
  obtain ⟨args, kwargs, rfl, hcount, hkeys, hargs, hkwargs⟩ := h.values
  simp only [Interpreter.mutateInput, Interpreter.literals]
  split
  next args' kwargs' hparse hparse' =>
    obtain ⟨items, heq, hlength, hitems⟩ := p.parse_tuple args _ hargs hparse
    obtain ⟨pairs, heq', hkeys', hpairs⟩ := p.parse_dict keys kwargs _ h.nodup hkeys hkwargs hparse'
    cases heq
    cases heq'
    have hshape := mutateArguments_shape (p := p) hitems hpairs (p.seeded seed)
    exact ⟨h.nodup, _, _, rfl, hshape.1.trans (hlength.trans hcount), hshape.2.1.trans hkeys',
      hshape.2.2⟩
  next => exact h

end Mutation

/-! ## Generation -/

section Generation

variable {mined : List PyVal} {seed : Int} {budget : Budget}

def Stocked (p : Interpreter σ) (mined : List PyVal) (q : Parameter) : Prop :=
  p.poolOf mined 0 (p.paramInfo q) ≠ some []

theorem poolOf_ne_nil {q : Parameter} (h : Stocked p mined q) (seed : Int) :
    p.poolOf mined seed (p.paramInfo q) ≠ some [] :=
  fun hempty => h (valuesFor_empty hempty)

theorem plain_pick {pool : List PyVal} {q : ParamInfo} (h : p.poolOf mined seed q = some pool)
    (k : Nat) :
    (pick pool k).plain := by
  simp only [pick]
  cases hget : pool[k % pool.length]? with
  | none => rfl
  | some v => exact p.literal_plain v (literalOk_of_valuesFor h (List.mem_of_getElem? hget))

theorem poolsFrom_spec {qs : List ParamInfo} {i : Nat} {pools : List (List PyVal)}
    (h : p.poolsFrom mined seed i qs = some pools) :
    List.Forall₂ (fun q pool => ∃ seed, p.poolOf mined seed q = some pool) qs pools := by
  induction qs generalizing i pools with
  | nil =>
    cases h
    exact .nil
  | cons q qs ih =>
    obtain ⟨pool, hpool, hmap⟩ := Option.bind_eq_some_iff.mp h
    obtain ⟨rest, hrest, rfl⟩ := Option.map_eq_some_iff.mp hmap
    exact .cons ⟨_, hpool⟩ (ih hrest)

theorem pickArgs_spec {pools : List (List PyVal)} (round : Nat) (s : σ)
    (h : ∀ pool ∈ pools, ∀ k, (pick pool k).plain) :
    (p.pickArgs round pools s).1.length = pools.length ∧ plainItems (p.pickArgs round pools s).1 := by
  induction pools generalizing s with
  | nil => exact ⟨rfl, rfl⟩
  | cons pool pools ih =>
    have hpools : ∀ pool ∈ pools, ∀ k, (pick pool k).plain :=
      fun pool hpool => h pool (List.mem_cons_of_mem _ hpool)
    cases pool with
    | nil =>
      obtain ⟨hlength, hplain⟩ := ih s hpools
      exact ⟨congrArg (· + 1) hlength, hplain⟩
    | cons v pool =>
      obtain ⟨hlength, hplain⟩ := ih (p.randrange 3 s).2 hpools
      exact ⟨congrArg (· + 1) hlength, Bool.and_eq_true_iff.mpr ⟨h _ List.mem_cons_self _, hplain⟩⟩

/-- The keywords of a round are keyword-only parameters with a value in their pool, and one that has to
be there is among them if it has. -/
theorem pickKwargs_spec {qs : List ParamInfo} {round j : Nat} {s : σ}
    {made : List (PyVal × PyVal) × σ} (h : p.pickKwargs mined seed round j qs s = some made) :
    ∃ keys : List PyStr, made.1.map Prod.fst = keys.map PyVal.str ∧
      keys.Sublist (qs.map ParamInfo.name) ∧ plainPairs made.1 ∧
      (∀ q ∈ qs, q.defaultLiteral = none → (∀ seed, p.poolOf mined seed q ≠ some []) → q.name ∈ keys) ∧
      ∀ key ∈ keys, ∃ q ∈ qs, q.name = key ∧ ∃ seed, p.poolOf mined seed q ≠ some [] := by
  induction qs generalizing j s made with
  | nil =>
    cases h
    exact ⟨[], rfl, List.Sublist.refl [], rfl, (fun _ h => by cases h), (fun _ h => by cases h)⟩
  | cons q qs ih =>
    simp only [Interpreter.pickKwargs] at h
    by_cases hcoin : (p.supplies q s).1 = true
    · rw [if_pos hcoin] at h
      obtain ⟨pool, hpool, hmap⟩ := Option.bind_eq_some_iff.mp h
      obtain ⟨rest, hrest, rfl⟩ := Option.map_eq_some_iff.mp hmap
      obtain ⟨keys, hkeys, hsub, hplain, hgiven, hknown⟩ := ih hrest
      have hknown' : ∀ key ∈ keys, ∃ q' ∈ q :: qs, q'.name = key ∧
          ∃ seed, p.poolOf mined seed q' ≠ some [] := by
        intro key hkey
        obtain ⟨q', hq', hname⟩ := hknown key hkey
        exact ⟨q', List.mem_cons_of_mem _ hq', hname⟩
      by_cases hempty : pool = []
      · simp only [if_pos hempty]
        refine ⟨keys, hkeys, hsub.cons _, hplain, ?_, hknown'⟩
        intro q' hq' hdefault hstocked
        cases hq' with
        | head => exact absurd (hempty ▸ hpool) (hstocked _)
        | tail _ hq' => exact hgiven q' hq' hdefault hstocked
      · simp only [if_neg hempty]
        refine ⟨q.name :: keys, congrArg (PyVal.str q.name :: ·) hkeys, hsub.cons_cons _, ?_, ?_, ?_⟩
        · refine Bool.and_eq_true_iff.mpr ⟨?_, hplain⟩
          exact plain_pick hpool round
        · intro q' hq' hdefault hstocked
          cases hq' with
          | head => exact List.mem_cons_self
          | tail _ hq' => exact List.mem_cons_of_mem _ (hgiven q' hq' hdefault hstocked)
        · intro key hkey
          cases hkey with
          | head =>
            refine ⟨q, List.mem_cons_self, rfl, seed * 7000 + j, ?_⟩
            rw [hpool]
            exact fun h => hempty (Option.some.inj h)
          | tail _ hkey => exact hknown' key hkey
    · rw [if_neg hcoin] at h
      obtain ⟨keys, hkeys, hsub, hplain, hgiven, hknown⟩ := ih h
      refine ⟨keys, hkeys, hsub.cons _, hplain, ?_, ?_⟩
      · intro q' hq' hdefault hstocked
        cases hq' with
        | head =>
          have hcoin' : (p.supplies q s).1 = true := by rw [Interpreter.supplies, if_pos hdefault]
          exact absurd hcoin' hcoin
        | tail _ hq' => exact hgiven q' hq' hdefault hstocked
      · intro key hkey
        obtain ⟨q', hq', hname⟩ := hknown key hkey
        exact ⟨q', List.mem_cons_of_mem _ hq', hname⟩

/-- What the loop adds is new, below the budget and the input of a round. -/
theorem generateRounds_spec {P : Literals → Prop} {options : List Nat} {pools : List (List PyVal)}
    {keywordOnly : List ParamInfo} {rounds : List Nat} {found made : List Literals} {s : σ}
    (hround : ∀ round s kwargs,
      let args := p.pickArgs round (pools.take ((options[round % options.length]?).getD 0)) s
      p.pickKwargs mined budget.seed round 0 keywordOnly args.2 = some kwargs →
        P (p.literals args.1 kwargs.1))
    (h : p.generateRounds mined budget options pools keywordOnly rounds found s = some made)
    (hfound : found.Nodup ∧ found.length ≤ budget.maxInputs ∧ ∀ l ∈ found, P l) :
    made.Nodup ∧ made.length ≤ budget.maxInputs ∧ ∀ l ∈ made, P l := by
  induction rounds generalizing found s with
  | nil =>
    cases h
    exact hfound
  | cons round rounds ih =>
    simp only [Interpreter.generateRounds] at h
    split_ifs at h with hfull
    · cases h
      exact hfound
    · obtain ⟨kwargs, hkwargs, hrest⟩ := Option.bind_eq_some_iff.mp h
      refine ih hrest ?_
      split_ifs with hseen
      · exact hfound
      · refine ⟨?_, ?_, ?_⟩
        · refine List.nodup_append.mpr ⟨hfound.1, List.nodup_singleton _, ?_⟩
          intro l hl l' hl' heq
          exact hseen (List.mem_singleton.mp hl' ▸ heq ▸ hl)
        · rw [List.length_append, List.length_singleton]
          omega
        · intro l hl
          cases List.mem_append.mp hl with
          | inl hold => exact hfound.2.2 l hold
          | inr hnew => exact List.mem_singleton.mp hnew ▸ hround round s kwargs hkwargs

/-- What has been found stays, and the first round finds something. -/
theorem generateRounds_ne_nil {options : List Nat} {pools : List (List PyVal)}
    {keywordOnly : List ParamInfo} {rounds : List Nat} {found made : List Literals} {s : σ}
    (h : p.generateRounds mined budget options pools keywordOnly rounds found s = some made)
    (hsome : found ≠ [] ∨ rounds ≠ [] ∧ 0 < budget.maxInputs) : made ≠ [] := by
  induction rounds generalizing found s with
  | nil =>
    cases h
    exact hsome.resolve_right fun h => h.1 rfl
  | cons round rounds ih =>
    simp only [Interpreter.generateRounds] at h
    split_ifs at h with hfull
    · cases h
      cases hsome with
      | inl hfound => exact hfound
      | inr hfirst =>
        rintro rfl
        exact absurd hfirst.2 (by rw [List.length_nil] at hfull; omega)
    · obtain ⟨kwargs, -, hrest⟩ := Option.bind_eq_some_iff.mp h
      refine ih hrest (Or.inl ?_)
      split_ifs with hseen
      · exact List.ne_nil_of_mem hseen
      · exact List.concat_ne_nil _ _

end Generation

/-! ## The generated inputs -/

section Generated

variable {sig : Signature} {mined : List PyVal} {budget : Budget} {pools : List (List PyVal)}
  {literals : List Literals}

@[grind =]
def introspection (p : Interpreter σ) (sig : Signature) : List ParamInfo := sig.params.map p.paramInfo

theorem positional_introspection :
    (introspection p sig).filter ParamInfo.positional = sig.positional.map p.paramInfo := by
  rw [introspection, List.filter_map]
  rfl

theorem keywordOnly_introspection :
    (introspection p sig).filter ParamInfo.keywordOnly = sig.keywordOnly.map p.paramInfo := by
  rw [introspection, List.filter_map]
  rfl

/-- The arities are no fewer than the required parameters and no more than all. -/
theorem arity_bounds (round : Nat) :
    let options := arityOptions (sig.positional.map p.paramInfo)
    let arity := (options[round % options.length]?).getD 0
    sig.required ≤ arity ∧ arity ≤ sig.positional.length := by
  have hrequired : sig.required ≤
      (sig.positional.map p.paramInfo).countP fun q => q.defaultLiteral = none := by
    rw [List.countP_map]
    refine List.countP_mono_left ?_
    intro q _ hdefault
    have hnone : q.default = none := of_decide_eq_true hdefault
    exact decide_eq_true (by rw [Interpreter.paramInfo, hnone, Option.filter_none])
  have hcount := List.countP_le_length (p := fun q : ParamInfo => decide (q.defaultLiteral = none))
    (l := sig.positional.map p.paramInfo)
  rw [List.length_map] at hcount
  have hall : ∀ arity ∈ arityOptions (sig.positional.map p.paramInfo),
      sig.required ≤ arity ∧ arity ≤ sig.positional.length := by
    intro arity harity
    simp only [Interpreter.arityOptions, List.length_map] at harity
    split_ifs at harity
    · rw [List.mem_singleton.mp harity]
      exact ⟨hrequired, hcount⟩
    · simp only [List.mem_cons, List.not_mem_nil, or_false] at harity
      obtain rfl | rfl := harity
      · exact ⟨hrequired, hcount⟩
      · exact ⟨hrequired.trans hcount, le_rfl⟩
  have hpos : 0 < (arityOptions (sig.positional.map p.paramInfo)).length := by
    simp only [Interpreter.arityOptions]
    split_ifs
    · exact Nat.one_pos
    · exact Nat.two_pos
  simp only
  rw [List.getElem?_eq_getElem (Nat.mod_lt round hpos), Option.getD_some]
  exact hall _ (List.getElem_mem _)

theorem eq_of_name {q q' : Parameter} (hq : q ∈ sig.params) (hq' : q' ∈ sig.params)
    (h : q.name = q'.name) : q = q' :=
  List.inj_on_of_nodup_map sig.nodup_names hq hq' h

theorem round_spec
    (hpools : p.poolsFrom mined budget.seed 0 (sig.positional.map p.paramInfo) = some pools)
    {round : Nat} {s : σ} {kwargs : List (PyVal × PyVal) × σ}
    (h : let options := arityOptions (sig.positional.map p.paramInfo)
      p.pickKwargs mined budget.seed round 0 (sig.keywordOnly.map p.paramInfo)
        (p.pickArgs round (pools.take ((options[round % options.length]?).getD 0)) s).2 = some kwargs) :
    let options := arityOptions (sig.positional.map p.paramInfo)
    let args := p.pickArgs round (pools.take ((options[round % options.length]?).getD 0)) s
    ∃ count keys, Spelled p (p.literals args.1 kwargs.1) count keys ∧ sig.required ≤ count ∧
      count ≤ sig.positional.length ∧ (∀ key ∈ keys, key ∈ sig.keywordOnly.map Parameter.name) ∧
      ∀ q ∈ sig.keywordOnly, (q.default = none → Stocked p mined q → q.name ∈ keys) ∧
        (¬ Stocked p mined q → q.name ∉ keys) := by
  obtain ⟨keys, hkeys, hsub, hplain, hgiven, hknown⟩ := pickKwargs_spec h
  have harity := @arity_bounds σ p sig round
  have hspec := poolsFrom_spec hpools
  have hlength : pools.length = sig.positional.length := by
    rw [← hspec.length_eq, List.length_map]
  simp only at harity ⊢
  generalize ((arityOptions (sig.positional.map p.paramInfo))[
    round % (arityOptions (sig.positional.map p.paramInfo)).length]?).getD 0 = arity at h harity ⊢
  have hargs := @pickArgs_spec σ p (pools.take arity) round s ?_
  · have hnames : (sig.keywordOnly.map p.paramInfo).map ParamInfo.name =
        sig.keywordOnly.map Parameter.name := by
      rw [List.map_map]
      rfl
    have hnodup : (sig.keywordOnly.map Parameter.name).Nodup :=
      sig.nodup_names.sublist (List.filter_sublist.map Parameter.name)
    rw [hnames] at hsub
    refine ⟨arity, keys, ⟨hnodup.sublist hsub, _, _, rfl, ?_, hkeys, hargs.2, hplain⟩, harity.1,
      harity.2, fun key hkey => hsub.subset hkey, ?_⟩
    · rw [hargs.1, List.length_take, hlength, min_eq_left harity.2]
    · intro q hq
      constructor
      · intro hdefault hstocked
        have hnone : (p.paramInfo q).defaultLiteral = none := by
          rw [Interpreter.paramInfo, hdefault, Option.filter_none]
        exact hgiven _ (List.mem_map_of_mem hq) hnone (poolOf_ne_nil hstocked)
      · intro hempty hkey
        obtain ⟨info, hinfo, hname, seed, hsome⟩ := hknown _ hkey
        obtain ⟨q', hq', rfl⟩ := List.mem_map.mp hinfo
        have heq : q' = q :=
          eq_of_name (List.mem_of_mem_filter hq') (List.mem_of_mem_filter hq) hname
        exact hsome (valuesFor_empty (heq ▸ not_not.mp hempty))
  · intro pool hpool k
    obtain ⟨i, hi, hget⟩ := List.mem_iff_getElem.mp (List.mem_of_mem_take hpool)
    have hi' : i < (sig.positional.map p.paramInfo).length := hspec.length_eq ▸ hi
    obtain ⟨seed, hseed⟩ := hspec.get hi' hi
    exact hget ▸ plain_pick hseed k

/-- What holds of the input of every round holds of the generated inputs, which are distinct and within
the budget. -/
theorem generated_spec {P : Literals → Prop}
    (h : p.generateInputs (introspection p sig) mined budget = some literals)
    (hP : ∀ l count keys, Spelled p l count keys → sig.required ≤ count →
      count ≤ sig.positional.length → (∀ key ∈ keys, key ∈ sig.keywordOnly.map Parameter.name) →
      (∀ q ∈ sig.keywordOnly, (q.default = none → Stocked p mined q → q.name ∈ keys) ∧
        (¬ Stocked p mined q → q.name ∉ keys)) → P l) :
    literals.Nodup ∧ literals.length ≤ budget.maxInputs ∧ ∀ l ∈ literals, P l := by
  simp only [Interpreter.generateInputs, positional_introspection, keywordOnly_introspection] at h
  obtain ⟨pools, hpools, hmap⟩ := Option.bind_eq_some_iff.mp h
  obtain ⟨made, hmade, rfl⟩ := Option.map_eq_some_iff.mp hmap
  have hspec := generateRounds_spec (P := P) ?_ hmade
    ⟨List.nodup_nil, Nat.zero_le _, (fun _ h => by cases h)⟩
  · rw [List.take_of_length_le hspec.2.1]
    exact hspec
  · intro round s kwargs args hkwargs
    obtain ⟨count, keys, hspelled, hlow, hhigh, hknown, hgiven⟩ := round_spec hpools hkwargs
    exact hP _ count keys hspelled hlow hhigh hknown hgiven

/-- Nothing is generated: no input is asked for, or no positional parameter has a value. -/
def Idle (p : Interpreter σ) (sig : Signature) (mined : List PyVal) (budget : Budget) : Prop :=
  budget.maxInputs = 0 ∨ sig.positional ≠ [] ∧ ∀ q ∈ sig.positional, ¬ Stocked p mined q

theorem generated_ne_nil (h : p.generateInputs (introspection p sig) mined budget = some literals)
    (hbusy : ¬ Idle p sig mined budget) : literals ≠ [] := by
  simp only [Interpreter.generateInputs, positional_introspection, keywordOnly_introspection] at h
  obtain ⟨pools, hpools, hmap⟩ := Option.bind_eq_some_iff.mp h
  obtain ⟨made, hmade, rfl⟩ := Option.map_eq_some_iff.mp hmap
  have hmax : 0 < budget.maxInputs := Nat.pos_of_ne_zero fun hzero => hbusy (Or.inl hzero)
  have hdepth : 0 < (pools.map List.length).max?.getD 1 := by
    have hspec := poolsFrom_spec hpools
    cases hlist : (pools.map List.length).max? with
    | none => exact Nat.one_pos
    | some depth =>
      by_contra hzero
      refine hbusy (Or.inr ⟨?_, ?_⟩)
      · intro hnone
        rw [hnone] at hspec
        cases hspec
        cases hlist
      · intro q hq hstocked
        obtain ⟨i, hi, hget⟩ := List.mem_iff_getElem.mp (List.mem_map_of_mem (f := p.paramInfo) hq)
        have hi' : i < pools.length := hspec.length_eq ▸ hi
        obtain ⟨seed, hseed⟩ := hspec.get hi hi'
        have hpool : pools[i] ≠ [] := by
          intro hempty
          have hnone := poolOf_ne_nil hstocked seed
          rw [← hget] at hnone
          exact hnone (hseed.trans (congrArg some hempty))
        have hle : pools[i].length ≤ depth :=
          (List.max?_eq_some_iff.mp hlist).2 _ (List.mem_map_of_mem (List.getElem_mem hi'))
        rw [Option.getD_some] at hzero
        exact hpool (List.eq_nil_of_length_eq_zero (by omega))
  have hrounds : List.range ((pools.map List.length).max?.getD 1 * 2) ≠ [] := by
    rw [Ne, List.range_eq_nil]
    omega
  have hsome := generateRounds_ne_nil hmade (Or.inr ⟨hrounds, hmax⟩)
  intro hempty
  cases made with
  | nil => exact hsome rfl
  | cons l made =>
    have hlength := congrArg List.length hempty
    rw [List.length_take, List.length_cons, List.length_nil] at hlength
    omega

theorem generated_nil (h : p.generateInputs (introspection p sig) mined budget = some literals)
    (hidle : Idle p sig mined budget) : literals = [] := by
  cases hidle with
  | inl hzero =>
    have hlength := (generated_spec (P := fun _ => True) h fun _ _ _ _ _ _ _ _ => trivial).2.1
    exact List.eq_nil_of_length_eq_zero (by omega)
  | inr hempty =>
    simp only [Interpreter.generateInputs, positional_introspection, keywordOnly_introspection] at h
    obtain ⟨pools, hpools, hmap⟩ := Option.bind_eq_some_iff.mp h
    obtain ⟨made, hmade, rfl⟩ := Option.map_eq_some_iff.mp hmap
    have hspec := poolsFrom_spec hpools
    have hnone : ∀ n ∈ pools.map List.length, n = 0 := by
      intro n hn
      obtain ⟨pool, hpool, rfl⟩ := List.mem_map.mp hn
      obtain ⟨i, hi, rfl⟩ := List.mem_iff_getElem.mp hpool
      have hi' : i < (sig.positional.map p.paramInfo).length := hspec.length_eq ▸ hi
      obtain ⟨seed, hseed⟩ := hspec.get hi' hi
      obtain ⟨q, hq, hget⟩ := List.mem_map.mp (List.getElem_mem hi')
      have hunstocked : p.poolOf mined 0 (p.paramInfo q) = some [] := not_not.mp (hempty.2 q hq)
      have hnil : p.poolOf mined seed (p.paramInfo q) = some [] := valuesFor_empty hunstocked
      rw [List.get_eq_getElem, ← hget, hnil] at hseed
      exact congrArg List.length (Option.some.inj hseed).symm
    have hdepth : (pools.map List.length).max?.getD 1 = 0 := by
      cases hlist : (pools.map List.length).max? with
      | none =>
        rw [List.max?_eq_none_iff, List.map_eq_nil_iff] at hlist
        rw [hlist] at hspec
        cases hspec' : sig.positional with
        | nil => exact absurd hspec' hempty.1
        | cons q qs =>
          rw [hspec'] at hspec
          cases hspec
      | some depth => exact hnone depth (List.max?_eq_some_iff.mp hlist).1
    rw [hdepth] at hmade
    cases hmade
    exact List.take_nil

end Generated

/-! ## Both rounds -/

section TopUp

variable {sig : Signature} {mined : List PyVal} {budget : Budget} {lab : PureLab}
  {changedLines : Finset Nat} {literals : List Literals} {cfg : CompareConfig}

def topUp (lab : PureLab) (changedLines : Finset Nat) (budget : Budget) (literals : List Literals) :
    List Literals :=
  if changedLines ≠ ∅ ∧ literals.length < budget.maxInputs then
    mutants lab changedLines budget literals (lab.runHead 0 literals)
  else []

theorem inputs_pureRuns (lab : PureLab) (changedLines : Finset Nat) (budget : Budget)
    (literals : List Literals) :
    (pureRuns lab changedLines budget literals).1 =
      literals ++ topUp lab changedLines budget literals := by
  simp only [pureRuns, topUp]
  split_ifs with hround hnone hnil
  · rw [hnone, List.append_nil]
  · rfl
  · rw [List.append_nil]
  · exact absurd rfl hnil

theorem mem_topUp {l : Literals} (h : l ∈ topUp lab changedLines budget literals) :
    l ∉ literals ∧ ∃ l' ∈ literals, ∃ seed, l = lab.mutate l' seed := by
  simp only [topUp] at h
  split_ifs at h
  · have hfilter := List.mem_filter.mp (List.mem_of_mem_take h)
    obtain ⟨hmade, hnew⟩ := hfilter
    obtain ⟨hit, hhit, hmem⟩ := List.mem_flatMap.mp hmade
    obtain ⟨k, -, rfl⟩ := List.mem_map.mp hmem
    have hzip := List.mem_of_mem_filter (List.mem_of_mem_take (List.fst_mem_of_mem_zipIdx hhit))
    refine ⟨?_, hit.1.1, (List.of_mem_zip hzip).1, _, rfl⟩
    simpa only [Bool.not_eq_true', List.contains_eq_mem, decide_eq_false_iff_not] using hnew
  · cases h

theorem length_topUp : literals.length ≤ budget.maxInputs →
    literals.length + (topUp lab changedLines budget literals).length ≤ budget.maxInputs := by
  intro hlength
  simp only [topUp]
  split_ifs
  · have htake : (mutants lab changedLines budget literals (lab.runHead 0 literals)).length ≤
        budget.maxInputs - literals.length := List.length_take_le _ _
    omega
  · exact hlength

theorem nodup_inputs_iff (hnodup : literals.Nodup) :
    (literals ++ topUp lab changedLines budget literals).Nodup ↔
      (topUp lab changedLines budget literals).Nodup := by
  rw [List.nodup_append]
  refine ⟨fun h => h.2.1, fun h => ⟨hnodup, h, ?_⟩⟩
  intro l hl l' hl' heq
  exact (mem_topUp hl').1 (heq ▸ hl)

/-! ### Counts -/

theorem zipRows_inputs {rerun : Nat → Nat → Rerun} {inputs : List Literals} {i : Nat}
    {base head : List Observation} {rows : List Row} (h : zipRows rerun i inputs base head = .ok rows) :
    rows.map Row.input = inputs := by
  induction inputs generalizing i base head rows with
  | nil =>
    match base, head with
    | [], [] =>
      cases h
      rfl
    | [], _ :: _ | _ :: _, _ => cases h
  | cons input inputs ih =>
    match base, head with
    | [], _ | _ :: _, [] => cases h
    | b :: base, o :: head =>
      simp only [zipRows] at h
      split at h
      · cases h
      next hrest =>
        cases h
        rw [List.map_cons, ih hrest]

def equalRows (cfg : CompareConfig) (rows : List Row) : List Row :=
  rows.filter fun row => compare row.base row.head cfg = .equal

theorem proveRow_equivalent {dedupe stopped : Bool} {row : Row} {s s' : LoopState}
    (h : proveRow cfg dedupe row s = .ok (s', stopped)) :
    s'.equivalent = s.equivalent + if compare row.base row.head cfg = .equal then 1 else 0 := by
  simp only [proveRow] at h
  cases hcompare : compare row.base row.head cfg with
  | equal | unprovable _ =>
    simp only [hcompare] at h
    cases h
    rfl
  | diverged _ =>
    simp only [hcompare] at h
    cases hsubmission : submission cfg dedupe row s with
    | none =>
      simp only [hsubmission] at h
      cases h
      rfl
    | some d =>
      simp only [hsubmission] at h
      cases hconfirm : confirmDivergence row.rerun with
      | nondeterministicBase =>
        simp only [hconfirm] at h
        cases h
        rfl
      | flaky =>
        simp only [hconfirm] at h
        cases h
        rfl
      | confirmed =>
        simp only [hconfirm, bind_eq_ok] at h
        obtain ⟨base, -, head, -, hstate⟩ := h
        cases hstate
        rfl

theorem proveLoop_equivalent {dedupe : Bool} {rows : List Row} {s s' : LoopState}
    (h : proveLoop cfg dedupe rows s = .ok (s', none)) :
    s'.equivalent = s.equivalent + (equalRows cfg rows).length := by
  induction rows generalizing s with
  | nil =>
    cases h
    rfl
  | cons row rows ih =>
    simp only [proveLoop] at h
    split at h
    · cases h
    · cases h
    next t hrow =>
      rw [ih h, proveRow_equivalent hrow, Nat.add_assoc]
      congr 1
      simp only [equalRows, List.filter_cons, decide_eq_true_eq]
      split_ifs
      · exact Nat.add_comm 1 _
      · exact Nat.zero_add _

/-- An outcome counts each of the inputs `inputs` once, and each of those that compare equal, or it is
one that counts nothing. -/
def CountsOnce (outcome : TargetOutcome) (inputs equal : List Literals) : Prop :=
  outcome.inputsRun = 0 ∧ outcome.equivalentInputs = 0 ∨
    outcome.inputsRun = inputs.toFinset.card ∧ outcome.equivalentInputs = equal.toFinset.card

theorem countsOnce_conclude {module qualname : PyStr} {dedupe : Bool} {unstable : PyStr → PyStr}
    {rows : List Row} {outcome : TargetOutcome} (hnodup : (rows.map Row.input).Nodup)
    (h : conclude module qualname changedLines cfg dedupe unstable rows = .ok outcome) :
    CountsOnce outcome (rows.map Row.input) ((equalRows cfg rows).map Row.input) := by
  simp only [conclude] at h
  split at h
  · cases h
  · cases h
    exact Or.inl ⟨rfl, rfl⟩
  next s hloop =>
    have hequal := proveLoop_equivalent hloop
    have hsub : ((equalRows cfg rows).map Row.input).Nodup :=
      hnodup.sublist (List.filter_sublist.map Row.input)
    have hcounts : outcome.inputsRun = rows.length ∧ outcome.equivalentInputs = s.equivalent := by
      cases h
      simp only [deriveOutcome]
      split_ifs <;> exact ⟨rfl, rfl⟩
    refine Or.inr ⟨?_, ?_⟩
    · rw [hcounts.1, List.toFinset_card_of_nodup hnodup, List.length_map]
    · rw [hcounts.2, List.toFinset_card_of_nodup hsub, List.length_map, hequal]
      exact Nat.zero_add _

end TopUp

/-! ## What is compared -/

def mutating (p : Interpreter σ) (lab : PureLab) : PureLab := { lab with mutate := p.mutateInput }

/-- The inputs that are compared are distinct, within the budget and bind, and the outcome counts each of
them once. -/
structure SoundInputs (p : Interpreter σ) (sig : Signature) (budget : Budget) (lab : PureLab)
    (changedLines : Finset Nat) (literals : List Literals) : Prop where
  distinct : (pureRuns lab changedLines budget literals).1.Nodup
  bounded : (pureRuns lab changedLines budget literals).1.length ≤ budget.maxInputs
  binds : ∀ l ∈ (pureRuns lab changedLines budget literals).1, BindsTo p sig l
  counts : ∀ module qualname cfg rows outcome,
    pureRows lab changedLines budget cfg literals = .ok rows →
    proveTarget module qualname lab changedLines budget cfg (.ok literals) = .ok outcome →
    CountsOnce outcome (pureRuns lab changedLines budget literals).1
      ((equalRows cfg rows).map Row.input)

section Sound

variable {sig : Signature} {mined : List PyVal} {budget : Budget} {changedLines : Finset Nat}
  {literals : List Literals}

theorem keys_of_spelled {l : Literals} {count count' : Nat} {keys keys' : List PyStr}
    (h : Spelled p l count keys) (h' : Spelled p l count' keys') : keys = keys' := by
  obtain ⟨args, kwargs, rfl, -, hkeys, -, hplain⟩ := h.values
  obtain ⟨args', kwargs', heq, -, hkeys', -, hplain'⟩ := h'.values
  exact p.repr_keys keys keys' kwargs kwargs' hkeys hkeys' hplain hplain' (congrArg Prod.snd heq)

/-- A keyword-only parameter without a default and without a value is missing from every input. -/
theorem stocked_of_binds (h : p.generateInputs (introspection p sig) mined budget = some literals)
    (hbinds : ∀ l ∈ literals, BindsTo p sig l) :
    Idle p sig mined budget ∨ ∀ q ∈ sig.keywordOnly, q.default = none → Stocked p mined q := by
  by_cases hidle : Idle p sig mined budget
  · exact Or.inl hidle
  · refine Or.inr ?_
    intro q hq hdefault
    by_contra hempty
    obtain ⟨l, hl⟩ := List.exists_mem_of_ne_nil _ (generated_ne_nil h hidle)
    have hmissing : ∀ l ∈ literals, ∃ count keys, Spelled p l count keys ∧ q.name ∉ keys := by
      refine (generated_spec h ?_).2.2
      intro l count keys hspelled _ _ _ hgiven
      exact ⟨count, keys, hspelled, (hgiven q hq).2 hempty⟩
    obtain ⟨count, keys, hspelled, hnot⟩ := hmissing l hl
    obtain ⟨count', keys', hspelled', hbind⟩ := hbinds l hl
    exact hnot (keys_of_spelled hspelled hspelled' ▸ hbind.given q hq hdefault)

theorem binds_of_stocked (h : p.generateInputs (introspection p sig) mined budget = some literals)
    (hstocked : Idle p sig mined budget ∨ ∀ q ∈ sig.keywordOnly, q.default = none → Stocked p mined q) :
    ∀ l ∈ literals, BindsTo p sig l := by
  cases hstocked with
  | inr hall =>
    refine (generated_spec h ?_).2.2
    intro l count keys hspelled hlow hhigh hknown hgiven
    exact ⟨count, keys, hspelled, hlow, hhigh,
      fun q hq hdefault => (hgiven q hq).1 hdefault (hall q hq hdefault), hknown⟩
  | inl hidle =>
    rw [generated_nil h hidle]
    exact fun _ h => by cases h

theorem binds_topUp {lab : PureLab} (hbinds : ∀ l ∈ literals, BindsTo p sig l) :
    ∀ l ∈ topUp (mutating p lab) changedLines budget literals, BindsTo p sig l := by
  intro l hl
  obtain ⟨-, l', hl', seed, rfl⟩ := mem_topUp hl
  obtain ⟨count, keys, hspelled, hbind⟩ := hbinds l' hl'
  exact ⟨count, keys, spelled_mutateInput hspelled seed, hbind⟩

/-- The compared inputs are sound exactly where the mutants that are taken are distinct from one another,
and every keyword-only parameter without a default has a value if there are inputs at all. -/
theorem soundInputs_iff (lab : PureLab)
    (h : p.generateInputs (introspection p sig) mined budget = some literals) :
    SoundInputs p sig budget (mutating p lab) changedLines literals ↔
      (topUp (mutating p lab) changedLines budget literals).Nodup ∧
        (Idle p sig mined budget ∨
          ∀ q ∈ sig.keywordOnly, q.default = none → Stocked p mined q) := by
  obtain ⟨hnodup, hlength, -⟩ := generated_spec (P := fun _ => True) h fun _ _ _ _ _ _ _ _ => trivial
  have hinputs := inputs_pureRuns (mutating p lab) changedLines budget literals
  constructor
  · intro hsound
    have hdistinct := hsound.distinct
    rw [hinputs, nodup_inputs_iff hnodup] at hdistinct
    refine ⟨hdistinct, stocked_of_binds h ?_⟩
    intro l hl
    exact hsound.binds l (hinputs ▸ List.mem_append_left _ hl)
  · rintro ⟨hfresh, hstocked⟩
    have hbinds := binds_of_stocked h hstocked
    have hdistinct : (pureRuns (mutating p lab) changedLines budget literals).1.Nodup := by
      rw [hinputs, nodup_inputs_iff hnodup]
      exact hfresh
    refine ⟨hdistinct, ?_, ?_, ?_⟩
    · rw [hinputs, List.length_append]
      exact length_topUp hlength
    · intro l hl
      rw [hinputs] at hl
      cases List.mem_append.mp hl with
      | inl hold => exact hbinds l hold
      | inr hnew => exact binds_topUp hbinds l hnew
    · intro module qualname cfg rows outcome hrows houtcome
      have hmap : rows.map Row.input = (pureRuns (mutating p lab) changedLines budget literals).1 :=
        zipRows_inputs hrows
      simp only [proveTarget, hrows] at houtcome
      rw [← hmap]
      exact countsOnce_conclude (hmap ▸ hdistinct) houtcome

end Sound

/-! ## A function of a dict -/

/-- A code of the keys of a `dict` that can be read back. -/
def keyCode : PyVal → PyStr
  | .str text => text.flatMap (fun c => [codePoint 0x20, c]) ++ [codePoint 0x2C]
  | _ => []

theorem keyCode_append {text text' rest rest' : PyStr}
    (h : keyCode (.str text) ++ rest = keyCode (.str text') ++ rest') :
    text = text' ∧ rest = rest' := by
  have hmark : codePoint 0x20 ≠ codePoint 0x2C := by decide
  induction text generalizing text' with
  | nil =>
    cases text' with
    | nil => exact ⟨rfl, (List.cons.inj h).2⟩
    | cons c text' => exact absurd (List.cons.inj h).1.symm hmark
  | cons c text ih =>
    cases text' with
    | nil => exact absurd (List.cons.inj h).1 hmark
    | cons c' text' =>
      obtain ⟨hc, htail⟩ := List.cons.inj (List.cons.inj h).2
      obtain ⟨rfl, hrest⟩ := ih htail
      exact ⟨hc ▸ rfl, hrest⟩

theorem keyCodes_injective {keys keys' : List PyStr}
    (h : (keys.map PyVal.str).flatMap keyCode = (keys'.map PyVal.str).flatMap keyCode) :
    keys = keys' := by
  have hcons : ∀ text : PyStr, keyCode (.str text) ≠ [] := fun text => List.concat_ne_nil _ _
  induction keys generalizing keys' with
  | nil =>
    cases keys' with
    | nil => rfl
    | cons key' keys' => exact absurd (List.append_eq_nil_iff.mp h.symm).1 (hcons key')
  | cons key keys ih =>
    cases keys' with
    | nil => exact absurd (List.append_eq_nil_iff.mp h).1 (hcons key)
    | cons key' keys' =>
      obtain ⟨rfl, hrest⟩ := keyCode_append h
      rw [ih hrest]

/-- `repr` as far as the inputs of the function need it. -/
@[grind =]
def dictRepr : PyVal → PyStr
  | .float (.nan _ _) => lit "nan"
  | .tuple [.dict []] => lit "(\x7b\x7d,)"
  | .tuple [.dict [_]] => lit "(\x7b'k': 0\x7d,)"
  | .tuple [.dict (_ :: _ :: _)] => lit "(\x7b'': 0, 'a': 1, 'abc': -1\x7d,)"
  | .dict items => lit "\x7b" ++ (items.map Prod.fst).flatMap keyCode ++ lit "\x7d"
  | _ => []

def dictParse (text : PyStr) : Option PyVal :=
  if text = lit "(\x7b\x7d,)" then some (.tuple [.dict []])
  else if text = lit "{}" then some (.dict [])
  else none

theorem dictParse_some {text : PyStr} {v : PyVal} (h : dictParse text = some v) :
    text = lit "(\x7b\x7d,)" ∧ v = .tuple [.dict []] ∨ text = lit "{}" ∧ v = .dict [] := by
  simp only [dictParse] at h
  split_ifs at h with hargs hkwargs
  · exact Or.inl ⟨hargs, (Option.some.inj h).symm⟩
  · exact Or.inr ⟨hkwargs, (Option.some.inj h).symm⟩

theorem dictRepr_tuple (items : List PyVal) :
    items = [.dict []] ∨ dictRepr (.tuple items) ≠ lit "(\x7b\x7d,)" ∧ dictRepr (.tuple items) ≠ lit "{}" := by
  by_cases hitems : items = [.dict []]
  · exact Or.inl hitems
  · refine Or.inr ?_
    unfold dictRepr
    split
    next h => cases h
    next h => exact absurd (PyVal.tuple.inj h) hitems
    next => exact ⟨by decide, by decide⟩
    next => exact ⟨by decide, by decide⟩
    next h => cases h
    next => exact ⟨by decide, by decide⟩

theorem dictRepr_dict {keys keys' : List PyStr} {items items' : List (PyVal × PyVal)}
    (hkeys : items.map Prod.fst = keys.map PyVal.str)
    (hkeys' : items'.map Prod.fst = keys'.map PyVal.str)
    (h : dictRepr (.dict items) = dictRepr (.dict items')) : keys = keys' := by
  simp only [dictRepr, hkeys, hkeys'] at h
  exact keyCodes_injective (List.append_cancel_left (List.append_cancel_right h))

theorem scalarEq_getD {v w : PyVal} {r : Bool} (h : scalarEq v w = some r) :
    (scalarEq v w).getD false = r := by
  rw [h, Option.getD_some]

def dictInterpreter : Interpreter Unit where
  repr := dictRepr
  eq v w := (scalarEq v w).getD false
  literalOk v := v.plain
  shuffle _ values := values
  repr_nan _ _ := rfl
  eq_scalar _ _ _ h := scalarEq_getD h
  shuffle_perm _ _ := List.Perm.refl _
  annotation _ := .generic .dict [.cls .str, .cls .int]
  examples _ := []
  isLiteral _ := true
  parse := dictParse
  seeded _ := ()
  random s := (0, s)
  randrange _ s := (0, s)
  plusOne x := x
  halve x := x
  negate x := x
  tenfold x := x
  upper text := text
  swapcase text := text
  literal_plain v h := h
  repr_keys _ _ _ _ hkeys hkeys' _ _ h := dictRepr_dict hkeys hkeys' h
  parse_tuple items v hplain h := by
    cases dictRepr_tuple items with
    | inl hitems =>
      rw [hitems] at h ⊢
      exact ⟨[.dict []], (Option.some.inj h).symm, rfl, rfl⟩
    | inr hother =>
      cases dictParse_some h with
      | inl hargs => exact absurd hargs.1 hother.1
      | inr hkwargs => exact absurd hkwargs.1 hother.2
  parse_dict keys items v _ hkeys hplain h := by
    cases dictParse_some h with
    | inl hargs => exact absurd (List.cons.inj hargs.1).1 (by decide)
    | inr hkwargs =>
      have hnil : [] = keys := @dictRepr_dict [] _ [] _ rfl hkeys hkwargs.1.symm
      exact ⟨[], hkwargs.2, hnil ▸ rfl, rfl⟩

def dictSignature : Signature where
  params := [⟨lit "d", .positionalOrKeyword, some (lit "dict[str, int]"), none⟩]
  nodup_names := List.nodup_singleton _

def dictInputs : List Literals :=
  [(lit "(\x7b\x7d,)", lit "{}"), (lit "(\x7b'': 0, 'a': 1, 'abc': -1\x7d,)", lit "{}")]

theorem dictInputs_generated :
    dictInterpreter.generateInputs (introspection dictInterpreter dictSignature) [] {} =
      some dictInputs := by
  decide

/-- A run that completes and executes the lines `lines`. -/
def ranThrough (lines : Finset Nat) : Observation where
  outcome := .completed
  returnPresent := true
  returnCanon := .none
  raised := none
  executedLines := lines

/-- Only an empty dict reaches the first line. -/
def dictLab : PureLab where
  runBase _ inputs := inputs.map fun _ => ranThrough ∅
  runHead _ inputs := inputs.map fun l => ranThrough (if l.1 = lit "(\x7b\x7d,)" then {1} else ∅)
  freshBase _ _ := ranThrough ∅
  freshHead _ _ := ranThrough ∅
  mutate l _ := l

theorem dict_sound :
    SoundInputs dictInterpreter dictSignature {} (mutating dictInterpreter dictLab) {2} dictInputs := by
  refine (soundInputs_iff dictLab dictInputs_generated).mpr ⟨?_, Or.inr ?_⟩
  · decide
  · intro q hq
    cases hq

/-- An empty dict is always mutated to `{'k': 0}`, which is then compared three times. -/
theorem mutant_repeated :
    ¬ ∀ (sig : Signature) (budget : Budget) (lab : PureLab) (changedLines : Finset Nat)
      (literals : List Literals),
      dictInterpreter.generateInputs (introspection dictInterpreter sig) [] budget = some literals →
      SoundInputs dictInterpreter sig budget (mutating dictInterpreter lab) changedLines literals := by
  intro hsound
  have hdistinct := (hsound dictSignature {} dictLab {1} dictInputs dictInputs_generated).distinct
  have hinputs : (pureRuns (mutating dictInterpreter dictLab) {1} {} dictInputs).1 =
      dictInputs ++ List.replicate 3 (lit "(\x7b'k': 0\x7d,)", lit "{}") := by
    decide
  rw [hinputs] at hdistinct
  exact absurd hdistinct (by decide)

end Inputs
end Tempest
