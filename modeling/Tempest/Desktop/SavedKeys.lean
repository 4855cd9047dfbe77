import Tempest.Desktop.KeyAnswers

/-!
# SavedKeys — what the bridge keeps over a run of requests

`Moment` is the keychain beside what was saved and not revoked.  A revocation takes the name from the
path of the URL as it stands there, a presence check decodes it; so a name with a blank can be saved
and looked up but not revoked (`saved_for_good`).  `keys_faithful` says what holds in every run of
actions that are `Clean`.
-/

namespace Tempest
namespace KeyBridge

open Python BrowserUrl

/-! ## What was saved -/

structure Moment where
  kc : Keychain
  saved : PyStr → Option PyStr

/-- Saved and revoked by what a user does; nothing is if the keychain refuses. -/
def savedAfter (readJson : PyStr → Option Json) (catalog : Catalog) (saved : PyStr → Option PyStr)
    (f : Faults) : Action → PyStr → Option PyStr
  | .save _ name value =>
    match envFor catalog name with
    | some env =>
      if keyFromDialogValue readJson value ≠ [] ∧ f.store env = none then
        Function.update saved env (some (keyFromDialogValue readJson value))
      else saved
    | none => saved
  | .check _ => saved
  | .revoke name =>
    match envFor catalog name with
    | some env => if f.clear env = none then Function.update saved env none else saved
    | none => saved
  | .revokeAll => fun env => if env ∈ envs catalog then none else saved env

section Steps

variable (readJson : PyStr → Option Json) (catalog : Catalog)

def answer (m : Moment) (f : Faults) (a : Action) : Response :=
  (keysResponse f readJson catalog m.kc a.request).1

def Moment.next (m : Moment) (f : Faults) (a : Action) : Moment :=
  ⟨(keysResponse f readJson catalog m.kc a.request).2, savedAfter readJson catalog m.saved f a⟩

def runActions (start : Moment) (steps : List (Faults × Action)) : Moment :=
  steps.foldl (fun m step => m.next readJson catalog step.1 step.2) start

end Steps

/-! ## The condition -/

/-- What an action and the keychain must be like at a step. -/
def Clean (catalog : Catalog) (f : Faults) : Action → Prop
  | .save _ name _ => envFor catalog name = some anthropicAccount → f.Clears legacyAccount
  | .check name => Checkable name ∧ f.read legacyAccount = none
  | .revoke name =>
    Revocable name ∧ ∀ env, envFor catalog name = some env →
      f.stays env = false ∧ (env = anthropicAccount → f.Clears legacyAccount)
  | .revokeAll => ∀ account, f.Clears account

def NamesVariables (catalog : Catalog) : Prop := ∀ env ∈ envs catalog, isEnvAccount env = true

/-! ## What a step preserves -/

section Invariant

variable {kc kc₀ : Keychain} {env env' key account : PyStr}

theorem get?_stored (h : env ≠ legacyAccount) :
    (stored kc env key).get? account =
      if account = env then some key
      else if env = anthropicAccount ∧ account = legacyAccount then none
      else kc.get? account := by
  unfold stored
  by_cases hanthropic : env = anthropicAccount
  · by_cases hlegacy : account = legacyAccount
    · have hne : account ≠ env := fun heq => h (heq ▸ hlegacy)
      rw [if_pos hanthropic, get?_without, if_pos hlegacy, if_neg hne, if_pos ⟨hanthropic, hlegacy⟩]
    · have hother : ¬ (env = anthropicAccount ∧ account = legacyAccount) :=
        fun hboth => hlegacy hboth.2
      rw [if_pos hanthropic, get?_without, if_neg hlegacy, Dict.get?_set, if_neg hother]
  · have hother : ¬ (env = anthropicAccount ∧ account = legacyAccount) :=
      fun hboth => hanthropic hboth.1
    rw [if_neg hanthropic, Dict.get?_set, if_neg hother]

theorem get?_revoked :
    (revoked kc env).get? account =
      if account = env ∨ env = anthropicAccount ∧ account = legacyAccount then none
      else kc.get? account := by
  unfold revoked
  by_cases hanthropic : env = anthropicAccount
  · by_cases hlegacy : account = legacyAccount
    · rw [if_pos hanthropic, get?_without, if_pos hlegacy, if_pos (Or.inr ⟨hanthropic, hlegacy⟩)]
    · by_cases hown : account = env
      · rw [if_pos hanthropic, get?_without, if_neg hlegacy, get?_without, if_pos hown,
          if_pos (Or.inl hown)]
      · rw [if_pos hanthropic, get?_without, if_neg hlegacy, get?_without, if_neg hown, if_neg]
        rintro (heq | hboth)
        · exact hown heq
        · exact hlegacy hboth.2
  · by_cases hown : account = env
    · rw [if_neg hanthropic, get?_without, if_pos hown, if_pos (Or.inl hown)]
    · rw [if_neg hanthropic, get?_without, if_neg hown, if_neg]
      rintro (heq | hboth)
      · exact hown heq
      · exact hanthropic hboth.1

theorem effective_of_own {kc : Keychain} (h : kc.get? env = some key) :
    effective kc env = some key := by
  simp only [effective, h]

/-- What counts depends on the own item and, for one variable, on the legacy one. -/
theorem effective_congr (hown : kc.get? env = kc₀.get? env)
    (hlegacy : env = anthropicAccount → kc.get? legacyAccount = kc₀.get? legacyAccount) :
    effective kc env = effective kc₀ env := by
  unfold effective
  rw [hown]
  cases kc₀.get? env with
  | some key => rfl
  | none =>
    simp only
    split_ifs with hanthropic
    · exact hlegacy hanthropic
    · rfl

theorem effective_eq_none (hown : kc.get? env = none)
    (hlegacy : env = anthropicAccount → kc.get? legacyAccount = none) : effective kc env = none := by
  unfold effective
  rw [hown]
  simp only
  split_ifs with hanthropic
  · exact hlegacy hanthropic
  · rfl

theorem effective_stored (henv : isEnvAccount env = true) (henv' : isEnvAccount env' = true) :
    effective (stored kc env key) env' = if env' = env then some key else effective kc env' := by
  have hget := fun account => @get?_stored kc env key account (ne_legacy henv)
  by_cases hsame : env' = env
  · rw [if_pos hsame]
    apply effective_of_own
    rw [hget, if_pos hsame]
  · rw [if_neg hsame]
    apply effective_congr
    · rw [hget, if_neg hsame, if_neg fun hboth => ne_legacy henv' hboth.2]
    · intro hanthropic
      rw [hget, if_neg (ne_legacy henv).symm, if_neg]
      exact fun hboth => hsame (hanthropic.trans hboth.1.symm)

theorem effective_revoked (henv : isEnvAccount env = true) (henv' : isEnvAccount env' = true) :
    effective (revoked kc env) env' = if env' = env then none else effective kc env' := by
  by_cases hsame : env' = env
  · rw [if_pos hsame]
    apply effective_eq_none
    · rw [get?_revoked, if_pos (Or.inl hsame)]
    · intro hanthropic
      rw [get?_revoked, if_pos (Or.inr ⟨hsame.symm.trans hanthropic, rfl⟩)]
  · rw [if_neg hsame]
    apply effective_congr
    · rw [get?_revoked, if_neg]
      rintro (heq | hboth)
      · exact hsame heq
      · exact ne_legacy henv' hboth.2
    · intro hanthropic
      rw [get?_revoked, if_neg]
      rintro (heq | hboth)
      · exact ne_legacy henv heq.symm
      · exact hsame (hanthropic.trans hboth.1.symm)

/-- The keychain and what was saved agree on the variables of the catalog; of what else the keychain
began with, at most the legacy item is gone. -/
structure Kept (catalog : Catalog) (kc₀ : Keychain) (m : Moment) : Prop where
  saved : ∀ env ∈ envs catalog, effective m.kc env = m.saved env
  others : ∀ account, account ∉ envs catalog → account ≠ legacyAccount →
    m.kc.get? account = kc₀.get? account
  legacy : m.kc.get? legacyAccount = kc₀.get? legacyAccount ∨ m.kc.get? legacyAccount = none

variable {readJson : PyStr → Option Json} {catalog : Catalog}

theorem kept_next (hnames : NamesVariables catalog) {m : Moment} {f : Faults} {a : Action}
    (h : Kept catalog kc₀ m) (hclean : Clean catalog f a) :
    Kept catalog kc₀ (m.next readJson catalog f a) := by
  cases a with
  | save post name value =>
    cases henv : envFor catalog name with
    | none =>
      simp only [Moment.next, savedAfter, save_unknown henv, henv]
      exact h
    | some env =>
      by_cases htaken : keyFromDialogValue readJson value ≠ [] ∧ f.store env = none
      · have hmem := envFor_mem henv
        have hlegacy : env = anthropicAccount → f.Clears legacyAccount :=
          fun hanthropic => hclean (hanthropic ▸ henv)
        simp only [Moment.next, savedAfter, save_taken henv htaken.1 htaken.2 hlegacy, henv,
          if_pos htaken]
        have hget := fun account =>
          @get?_stored m.kc env (keyFromDialogValue readJson value) account
            (ne_legacy (hnames env hmem))
        refine ⟨?_, ?_, ?_⟩
        · intro env' hmem'
          simp only [effective_stored (hnames env hmem) (hnames env' hmem'),
            Function.update_apply, h.saved env' hmem']
        · intro account hother hne
          have hown : account ≠ env := fun heq => hother (heq ▸ hmem)
          have hgone : ¬ (env = anthropicAccount ∧ account = legacyAccount) :=
            fun hboth => hne hboth.2
          simp only [hget, if_neg hown, if_neg hgone]
          exact h.others account hother hne
        · simp only [hget]
          rw [if_neg (ne_legacy (hnames env hmem)).symm]
          split_ifs
          · exact Or.inr rfl
          · exact h.legacy
      · obtain ⟨status, refusal, _, hresponse⟩ :=
          @save_refused readJson catalog f m.kc name env post value henv htaken
        simp only [Moment.next, savedAfter, hresponse, henv, if_neg htaken]
        exact h
  | check name =>
    simp only [Moment.next, savedAfter, check_eq hclean.1]
    exact h
  | revoke name =>
    obtain ⟨hname, hkeychain⟩ := hclean
    cases henv : envFor catalog name with
    | none =>
      simp only [Moment.next, savedAfter, revoke_unknown hname henv, henv]
      exact h
    | some env =>
      have hmem := envFor_mem henv
      obtain ⟨hstays, hlegacy⟩ := hkeychain env henv
      cases hclear : f.clear env with
      | some error =>
        simp only [Moment.next, savedAfter, revoke_refused hname henv hclear, henv, hclear,
          reduceCtorEq, if_false]
        exact h
      | none =>
        simp only [Moment.next, savedAfter, henv,
          revoke_taken hname henv ⟨hclear, hstays⟩ hlegacy,
          hclear, if_true]
        refine ⟨?_, ?_, ?_⟩
        · intro env' hmem'
          simp only [effective_revoked (hnames env hmem) (hnames env' hmem'),
            Function.update_apply, h.saved env' hmem']
        · intro account hother hne
          simp only [get?_revoked]
          rw [if_neg, h.others account hother hne]
          rintro (heq | hboth)
          · exact hother (heq ▸ hmem)
          · exact hne hboth.2
        · simp only [get?_revoked]
          split_ifs
          · exact Or.inr rfl
          · exact h.legacy
  | revokeAll =>
    simp only [Moment.next, savedAfter, revokeAll_eq hclean]
    refine ⟨?_, ?_, ?_⟩
    · intro env hmem
      simp only [if_pos hmem]
      apply effective_eq_none
      · rw [get?_without, get?_foldl_without, if_pos hmem, ite_self]
      · intro _
        rw [get?_without, if_pos rfl]
    · intro account hother hne
      simp only [get?_without, if_neg hne, get?_foldl_without, if_neg hother]
      exact h.others account hother hne
    · right
      simp only [get?_without, if_true]

theorem kept_run (hnames : NamesVariables catalog) {start : Moment} (hstart : Kept catalog kc₀ start)
    {steps : List (Faults × Action)} (hclean : ∀ step ∈ steps, Clean catalog step.1 step.2) :
    Kept catalog kc₀ (runActions readJson catalog start steps) := by
  induction steps generalizing start with
  | nil => exact hstart
  | cons step steps ih =>
    have hfirst :=
        @kept_next _ readJson catalog hnames _ _ _ hstart (hclean step List.mem_cons_self)
    exact ih hfirst fun later hlater => hclean later (List.mem_cons_of_mem step hlater)

end Invariant

/-! ## The environment of the engine -/

section Environment

variable {f : Faults} {kc : Keychain} {env key account : PyStr}

theorem pair_eq_some {p : PyStr × PyStr} (h : f.pair kc account env = some p) :
    p.1 = env ∧ kc.get? account = some p.2 := by
  unfold Faults.pair Faults.readKey at h
  cases hread : f.read account with
  | some error => simp [hread] at h
  | none =>
    cases hown : kc.get? account with
    | none => simp [hread, hown] at h
    | some key =>
      simp only [hread, hown, Option.some.injEq] at h
      subst h
      exact ⟨rfl, rfl⟩

theorem pair_of_get? (hread : f.read account = none) (h : kc.get? account = some key) :
    f.pair kc account env = some (env, key) := by
  simp only [Faults.pair, readKey_of_none hread, h]

theorem mem_ownPairs (hread : ∀ account, f.read account = none) (haccounts : f.accounts = false) :
    (env, key) ∈ ((f.accountNames kc).filter isEnvAccount).filterMap
        (fun account => f.pair kc account account) ↔
      isEnvAccount env = true ∧ kc.get? env = some key := by
  rw [List.mem_filterMap]
  constructor
  · rintro ⟨account, haccount, hpair⟩
    obtain ⟨rfl, hown⟩ := pair_eq_some hpair
    exact ⟨(List.mem_filter.1 haccount).2, hown⟩
  · rintro ⟨henv, hown⟩
    refine ⟨env, List.mem_filter.2 ⟨?_, henv⟩, pair_of_get? (hread env) hown⟩
    simp only [Faults.accountNames, haccounts, Bool.false_eq_true, if_false, List.mem_insertionSort]
    by_contra hnot
    rw [Dict.get?_eq_none_iff.2 hnot] at hown
    cases hown

theorem mem_engineEnv (hread : ∀ account, f.read account = none) (haccounts : f.accounts = false) :
    (env, key) ∈ engineEnv f kc ↔ isEnvAccount env = true ∧ effective kc env = some key := by
  have howned := fun env key => @mem_ownPairs f kc env key hread haccounts
  have hnames : anthropicAccount ∉ (((f.accountNames kc).filter isEnvAccount).filterMap
      (fun account => f.pair kc account account)).map Prod.fst ↔
        kc.get? anthropicAccount = none := by
    rw [Option.eq_none_iff_forall_ne_some]
    constructor
    · intro hnot key hown
      exact hnot (List.mem_map.2 ⟨_, (howned _ key).2 ⟨isEnvAccount_anthropic, hown⟩, rfl⟩)
    · rintro hnone hmem
      obtain ⟨⟨env, key⟩, hpair, rfl⟩ := List.mem_map.1 hmem
      exact hnone key ((howned _ key).1 hpair).2
  have hlisted : legacyAccount ∈ f.accountNames kc ↔ kc.get? legacyAccount ≠ none := by
    simp only [Faults.accountNames, haccounts, Bool.false_eq_true, if_false, List.mem_insertionSort,
      ne_eq, Dict.get?_eq_none_iff, not_not]
  simp only [engineEnv, List.mem_insertionSort, List.mem_append, howned]
  constructor
  · rintro (⟨henv, hown⟩ | hlegacy)
    · exact ⟨henv, effective_of_own hown⟩
    · split_ifs at hlegacy with hcondition
      · obtain ⟨rfl, hkey⟩ := pair_eq_some (Option.mem_toList.1 hlegacy)
        refine ⟨isEnvAccount_anthropic, ?_⟩
        simp only [effective, hnames.1 hcondition.1, if_true]
        exact hkey
      · cases hlegacy
  · rintro ⟨henv, heffective⟩
    unfold effective at heffective
    cases hown : kc.get? env with
    | some own =>
      simp only [hown] at heffective
      exact Or.inl ⟨henv, heffective⟩
    | none =>
      simp only [hown] at heffective
      split_ifs at heffective with hanthropic
      subst hanthropic
      right
      have hcondition := And.intro (hnames.2 hown) (hlisted.2 (by rw [heffective]; simp))
      rw [if_pos hcondition]
      exact Option.mem_toList.2 (pair_of_get? (hread legacyAccount) heffective)

/-- No variable is set twice, whatever can be read. -/
theorem nodup_engineEnv (f : Faults) (kc : Keychain) : ((engineEnv f kc).map Prod.fst).Nodup := by
  have hsub : ∀ accounts : List PyStr,
      ((accounts.filterMap fun account => f.pair kc account account).map Prod.fst).Sublist
        accounts := by
    intro accounts
    induction accounts with
    | nil => exact List.Sublist.refl _
    | cons account accounts ih =>
      cases hpair : f.pair kc account account with
      | none =>
        have hskip : (account :: accounts).filterMap (fun account => f.pair kc account account) =
            accounts.filterMap fun account => f.pair kc account account :=
          List.filterMap_cons_none hpair
        rw [hskip]
        exact ih.cons account
      | some p =>
        have htake : (account :: accounts).filterMap (fun account => f.pair kc account account) =
            p :: accounts.filterMap fun account => f.pair kc account account :=
          List.filterMap_cons_some hpair
        rw [htake, List.map_cons, (pair_eq_some hpair).1]
        exact ih.cons_cons account
  have haccounts : (f.accountNames kc).Nodup := by
    unfold Faults.accountNames
    split_ifs
    · exact List.nodup_nil
    · exact (List.perm_insertionSort _ _).nodup_iff.2 kc.nodup
  unfold engineEnv
  simp only
  rw [((List.perm_insertionSort _ _).map Prod.fst).nodup_iff, List.map_append]
  split_ifs with hcondition
  · cases hpair : f.pair kc legacyAccount anthropicAccount with
    | none =>
      simp only [Option.toList_none, List.map_nil, List.append_nil]
      exact (haccounts.sublist List.filter_sublist).sublist (hsub _)
    | some p =>
      simp only [Option.toList_some, List.map_cons, List.map_nil]
      rw [(pair_eq_some hpair).1]
      refine List.Nodup.append ((haccounts.sublist List.filter_sublist).sublist (hsub _))
        (List.nodup_singleton _) ?_
      rw [List.disjoint_singleton]
      exact hcondition.1
  · simp only [List.map_nil, List.append_nil]
    exact (haccounts.sublist List.filter_sublist).sublist (hsub _)

end Environment

/-! ## Every run -/

/-- What an answer says is what was done: a key is reported where it counts, and an answer of success
means that the keychain changed as asked. -/
def Answered (readJson : PyStr → Option Json) (catalog : Catalog) (m : Moment) (f : Faults) :
    Action → Prop
  | .save post name value =>
    ∀ env, envFor catalog name = some env → keyFromDialogValue readJson value ≠ [] →
      let response := answer readJson catalog m f (.save post name value)
      (f.store env = none → response.status = 201) ∧
        (response.status < 400 →
          effective (m.next readJson catalog f (.save post name value)).kc env =
            some (keyFromDialogValue readJson value))
  | .check name =>
    ∀ env, envFor catalog name = some env → f.read env = none →
      answer readJson catalog m f (.check name) = ⟨200, .expiresAt (m.saved env).isSome⟩
  | .revoke name =>
    ∀ env, envFor catalog name = some env →
      let response := answer readJson catalog m f (.revoke name)
      (f.clear env = none → response.status = 204) ∧
        (response.status < 400 →
          effective (m.next readJson catalog f (.revoke name)).kc env = none)
  | .revokeAll =>
    (answer readJson catalog m f .revokeAll).status = 204 ∧
      ∀ env ∈ envs catalog, effective (m.next readJson catalog f .revokeAll).kc env = none

theorem answered_of_kept {readJson : PyStr → Option Json} {catalog : Catalog} {kc₀ : Keychain}
    (hnames : NamesVariables catalog) {m : Moment} {f : Faults} {a : Action}
    (h : Kept catalog kc₀ m) (hclean : Clean catalog f a) : Answered readJson catalog m f a := by
  have hnext := @kept_next _ readJson catalog hnames m f a h hclean
  cases a with
  | save post name value =>
    intro env henv hkey
    cases hstore : f.store env with
    | none =>
      have hlegacy : env = anthropicAccount → f.Clears legacyAccount :=
        fun hanthropic => hclean (hanthropic ▸ henv)
      refine ⟨?_, ?_⟩
      · intro _
        simp only [answer, save_taken henv hkey hstore hlegacy]
      · intro _
        rw [hnext.saved env (envFor_mem henv)]
        simp only [Moment.next, savedAfter, henv, hkey, hstore, ne_eq, not_false_eq_true,
          and_self, if_true, Function.update_self]
    | some error =>
      have hrefused : ¬ (keyFromDialogValue readJson value ≠ [] ∧ f.store env = none) := by
        rw [hstore]
        exact fun hboth => Option.some_ne_none error hboth.2
      obtain ⟨status, refusal, hstatus, hresponse⟩ :=
        @save_refused readJson catalog f m.kc name env post value henv hrefused
      refine ⟨?_, ?_⟩
      · intro hnone
        cases hnone
      · intro hlow
        simp only [answer, hresponse, refuse] at hlow
        omega
  | check name =>
    intro env henv hread
    rw [answer, check_known hclean.1 hclean.2 henv hread, h.saved env (envFor_mem henv)]
  | revoke name =>
    obtain ⟨hname, hkeychain⟩ := hclean
    intro env henv
    obtain ⟨hstays, hlegacy⟩ := hkeychain env henv
    cases hclear : f.clear env with
    | none =>
      refine ⟨?_, ?_⟩
      · intro _
        simp only [answer, revoke_taken hname henv ⟨hclear, hstays⟩ hlegacy]
      · intro _
        rw [hnext.saved env (envFor_mem henv)]
        simp only [Moment.next, savedAfter, henv, hclear, if_true, Function.update_self]
    | some error =>
      refine ⟨?_, ?_⟩
      · intro hnone
        cases hnone
      · intro hlow
        simp only [answer, revoke_refused hname henv hclear, refuse] at hlow
        omega
  | revokeAll =>
    refine ⟨?_, ?_⟩
    · simp only [answer, revokeAll_eq hclean]
    · intro env hmem
      rw [hnext.saved env hmem]
      simp only [Moment.next, savedAfter, if_pos hmem]

/-- After every run of clean actions the keychain holds, for the variables of the catalog, what was
saved last and not revoked; the engine is started with exactly these, each once, beside what the
keychain held before for variables that are not of the catalog; and the next clean action is answered
as it is done. -/
theorem keys_faithful (readJson : PyStr → Option Json) (catalog : Catalog)
    (hnames : NamesVariables catalog) (kc₀ : Keychain) (steps : List (Faults × Action))
    (hclean : ∀ step ∈ steps, Clean catalog step.1 step.2) :
    let m := runActions readJson catalog ⟨kc₀, effective kc₀⟩ steps
    (∀ env ∈ envs catalog, effective m.kc env = m.saved env) ∧
      (∀ f : Faults, (∀ account, f.read account = none) → f.accounts = false →
        ((engineEnv f m.kc).map Prod.fst).Nodup ∧
          (∀ env ∈ envs catalog, ∀ key, (env, key) ∈ engineEnv f m.kc ↔ m.saved env = some key) ∧
          ∀ env key, (env, key) ∈ engineEnv f m.kc →
            env ∈ envs catalog ∨ effective kc₀ env = some key) ∧
      ∀ f a, Clean catalog f a → Answered readJson catalog m f a := by
  intro m
  have hstart : Kept catalog kc₀ ⟨kc₀, effective kc₀⟩ :=
    ⟨fun _ _ => rfl, fun _ _ _ => rfl, Or.inl rfl⟩
  have hkept : Kept catalog kc₀ m := kept_run hnames hstart hclean
  refine ⟨hkept.saved, ?_, fun f a ha => answered_of_kept hnames hkept ha⟩
  intro f hread haccounts
  refine ⟨nodup_engineEnv f m.kc, ?_, ?_⟩
  · intro env hmem key
    rw [mem_engineEnv hread haccounts, hkept.saved env hmem]
    exact and_iff_right (hnames env hmem)
  · intro env key hin
    obtain ⟨henv, heffective⟩ := (mem_engineEnv hread haccounts).1 hin
    by_cases hmem : env ∈ envs catalog
    · exact Or.inl hmem
    · right
      rw [← heffective]
      -- the own item is the one from before, and so is the legacy item if it is still there
      have hown := hkept.others env hmem (ne_legacy henv)
      rcases hkept.legacy with hlegacy | hgone
      · exact (effective_congr hown fun _ => hlegacy).symm
      · cases hbefore : m.kc.get? env with
        | some own =>
          rw [effective_of_own hbefore]
          exact effective_of_own (hown.symm.trans hbefore)
        | none =>
          rw [effective_eq_none hbefore fun _ => hgone] at heffective
          cases heffective

/-! ## A name with a blank -/

def openKeychain : Faults := ⟨fun _ => none, fun _ => none, fun _ => none, fun _ => false, false⟩

def lockedKeychain : Faults :=
  ⟨fun _ => none, fun _ => none, fun _ => some (lit "locked"), fun _ => false, false⟩

def groq : PyStr := lit "Groq"

def azure : PyStr := lit "Azure OpenAI"

def azureEnv : PyStr := lit "AZURE_OPENAI_API_KEY"

def keyedCatalog : Catalog := [⟨groq, lit "GROQ_API_KEY"⟩, ⟨azure, azureEnv⟩]

/-- Both names are saved and looked up, one is revoked. -/
def keyedSteps : List (Faults × Action) :=
  [(openKeychain, .save false groq (lit "g")), (openKeychain, .save true azure (lit "a")),
    (openKeychain, .check azure), (openKeychain, .revoke groq)]

def noJson : PyStr → Option Json := fun _ => none

theorem keys_faithful_keyed :
    (envs keyedCatalog).map
        (effective (runActions noJson keyedCatalog ⟨.empty, effective .empty⟩ keyedSteps).kc) =
      (envs keyedCatalog).map
        (runActions noJson keyedCatalog ⟨.empty, effective .empty⟩ keyedSteps).saved := by
  have hclears : openKeychain.Clears legacyAccount := ⟨rfl, rfl⟩
  have hnames : NamesVariables keyedCatalog := by
    unfold NamesVariables
    decide
  have hplain : azure.all (fun c => c ≠ hash ∧ isBreak c = false) = true := by
    decide
  have hdecodes : azure.all
      (fun c => c ≠ percent ∧ c ≠ plus ∧ c ≠ ampersand ∧ isSurrogate c = false) =
      true := by
    decide
  have hlast : azure.getLast? = some (codePoint 0x49) := by
    decide
  have hcheck : Checkable azure :=
    { plain := fun c hc => of_decide_eq_true (List.all_eq_true.1 hplain c hc)
      last := fun c hc => by
        obtain rfl := Option.some.inj (hlast.symm.trans hc)
        decide
      decodes := fun c hc => of_decide_eq_true (List.all_eq_true.1 hdecodes c hc) }
  have hkept : groq.all (fun c => !encoded pathSpecial c) = true := by
    decide
  have hrevoke : Revocable groq :=
    { plain := fun c hc => Bool.not_eq_true' _ ▸ List.all_eq_true.1 hkept c hc
      segment := by decide
      once := by decide }
  have hclean : ∀ step ∈ keyedSteps, Clean keyedCatalog step.1 step.2 := by
    intro step hstep
    simp only [keyedSteps, List.mem_cons, List.not_mem_nil, or_false] at hstep
    rcases hstep with rfl | rfl | rfl | rfl
    · exact fun _ => hclears
    · exact fun _ => hclears
    · exact ⟨hcheck, rfl⟩
    · exact ⟨hrevoke, fun _ _ => ⟨rfl, fun _ => hclears⟩⟩
  exact List.map_congr_left
    (keys_faithful noJson keyedCatalog hnames .empty keyedSteps hclean).1

/-- `Azure OpenAI` is saved and reported, and not found when it is revoked; and a keychain that
refuses to delete anything is answered for with a 204. -/
theorem saved_for_good :
    let m := runActions noJson keyedCatalog ⟨.empty, effective .empty⟩
      [(openKeychain, .save false azure (lit "a"))]
    answer noJson keyedCatalog m openKeychain (.check azure) = ⟨200, .expiresAt true⟩ ∧
      ((answer noJson keyedCatalog m openKeychain (.revoke azure)).status = 404 ∧
        (m.next noJson keyedCatalog openKeychain (.revoke azure)).saved azureEnv = none ∧
        (azureEnv, lit "a") ∈
          engineEnv openKeychain (m.next noJson keyedCatalog openKeychain (.revoke azure)).kc) ∧
      (answer noJson keyedCatalog m lockedKeychain .revokeAll).status = 204 ∧
        (azureEnv, lit "a") ∈
          engineEnv openKeychain (m.next noJson keyedCatalog lockedKeychain .revokeAll).kc := by
  refine ⟨?_, ⟨?_, ?_, ?_⟩, ?_, ?_⟩ <;> decide +kernel

end KeyBridge
end Tempest
