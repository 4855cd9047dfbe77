import Mathlib.Data.List.Induction
import Tempest.Python.Dict

/-!
# Innermost — one item for each line, and one for each name

Items lie around lines.  `pick` takes the item around a line that starts last, and `note` keeps it under
its name, so that of several items with one name the one picked last stays.  `mem_noted` says which
items a run over increasing lines leaves, and `nodup_noted` that it leaves each of them once.
-/

namespace Tempest

open Python

namespace Innermost

variable {σ κ : Type} [DecidableEq κ] (covers : σ → Nat → Bool) (start : σ → Nat) (name : σ → κ)

def pick (line : Nat) : List σ → Option σ → Option σ
  | [], best => best
  | s :: items, best =>
    if covers s line && best.all fun b => start b ≤ start s then pick line items (some s)
    else pick line items best

def note (items : List σ) (chosen : Dict κ σ) (line : Nat) : Dict κ σ :=
  match pick covers start line items none with
  | some best => chosen.set (name best) best
  | none => chosen

def Last (items : List σ) (line : Nat) (d : σ) : Prop :=
  d ∈ items ∧ covers d line = true ∧ ∀ s ∈ items, covers s line = true → ¬ start d < start s

def Noted (items : List σ) (lines : List Nat) (d : σ) : Prop :=
  ∃ line ∈ lines, Last covers start items line d ∧
    ∀ later ∈ lines, line < later → ∀ s, Last covers start items later s → name s ≠ name d

variable {covers start name}

/-! ## One line -/

variable {items : List σ}

theorem pick_eq_getLast {line : Nat} {best : Option σ}
    (hsorted : items.Pairwise fun a b => start a < start b)
    (hbest : ∀ b ∈ best, ∀ s ∈ items, start b < start s) :
    pick covers start line items best = (items.filter fun s => covers s line).getLast?.or best := by
  induction items generalizing best with
  | nil => rfl
  | cons s items ih =>
    rw [List.pairwise_cons] at hsorted
    cases hcovers : covers s line with
    | false =>
      have hrest := ih hsorted.2 fun b hb t ht => hbest b hb t (List.mem_cons_of_mem s ht)
      simp [pick, hcovers, hrest]
    | true =>
      -- the starts increase, so the new item replaces the best one
      have hafter : (best.all fun b => decide (start b ≤ start s)) = true := by
        cases best with
        | none => rfl
        | some b => simpa using le_of_lt (hbest b rfl s List.mem_cons_self)
      have hrest : pick covers start line items (some s) =
          (items.filter fun t => covers t line).getLast?.or (some s) := by
        apply ih hsorted.2
        rintro _ ⟨⟩ t ht
        exact hsorted.1 t ht
      simp only [pick, hcovers, hafter, Bool.and_self, if_true, hrest, List.filter_cons]
      cases hlast : (items.filter fun t => covers t line).getLast? with
      | none =>
        have hnil := List.getLast?_eq_none_iff.1 hlast
        simp [hnil]
      | some t => simp [List.getLast?_cons, hlast]

theorem getLast?_iff {d : σ} (hsorted : items.Pairwise fun a b => start a < start b) :
    items.getLast? = some d ↔ d ∈ items ∧ ∀ s ∈ items, ¬ start d < start s := by
  induction items using List.reverseRecOn with
  | nil => simp
  | append_singleton init last _ =>
    rw [List.pairwise_append] at hsorted
    have hbefore : ∀ s ∈ init, start s < start last :=
      fun s hs => hsorted.2.2 s hs last (List.mem_singleton_self last)
    rw [List.getLast?_concat]
    constructor
    · rintro ⟨⟩
      refine ⟨by simp, ?_⟩
      intro s hs
      rcases List.mem_append.1 hs with hinit | hlast
      · exact not_lt.2 (le_of_lt (hbefore s hinit))
      · rw [List.mem_singleton.1 hlast]
        exact lt_irrefl _
    · rintro ⟨hmem, hmax⟩
      rcases List.mem_append.1 hmem with hinit | hlast
      · exact absurd (hbefore d hinit) (hmax last (by simp))
      · rw [List.mem_singleton.1 hlast]

theorem pick_iff {line : Nat} {d : σ} (hsorted : items.Pairwise fun a b => start a < start b) :
    pick covers start line items none = some d ↔ Last covers start items line d := by
  rw [pick_eq_getLast hsorted (by intro b hb; cases hb), Option.or_none,
    getLast?_iff (hsorted.filter _)]
  simp only [List.mem_filter, and_imp, Last, and_assoc]

/-! ## All lines -/

theorem note_skips {chosen : Dict κ σ} {line : Nat} {key : κ}
    (h : ∀ s, pick covers start line items none = some s → name s ≠ key) :
    (note covers start name items chosen line).get? key = chosen.get? key := by
  unfold note
  cases hs : pick covers start line items none with
  | none => rfl
  | some s =>
    have hne : ¬ key = name s := fun heq => h s hs heq.symm
    simp [hne]

theorem get?_foldl_note {lines : List Nat} {key : κ} {d : σ} (hsorted : lines.Pairwise (· < ·)) :
    (lines.foldl (note covers start name items) .empty).get? key = some d ↔ name d = key ∧
      ∃ line ∈ lines, pick covers start line items none = some d ∧ ∀ later ∈ lines, line < later →
        ∀ s, pick covers start later items none = some s → name s ≠ key := by
  induction lines using List.reverseRecOn with
  | nil => simp
  | append_singleton init last ih =>
    rw [List.pairwise_append] at hsorted
    have hbefore : ∀ line ∈ init, line < last :=
      fun line hline => hsorted.2.2 line hline last (List.mem_singleton_self last)
    have hinit := ih hsorted.1
    rw [List.foldl_append, List.foldl_cons, List.foldl_nil]
    -- does the last line decide about the name?
    by_cases hlast : ∃ s, pick covers start last items none = some s ∧ name s = key
    · obtain ⟨s, hs, rfl⟩ := hlast
      simp only [note, hs, Dict.get?_set, if_true, Option.some.injEq]
      constructor
      · rintro rfl
        refine ⟨rfl, last, by simp, hs, ?_⟩
        intro later hlater hlt
        rcases List.mem_append.1 hlater with hmem | hmem
        · exact absurd hlt (lt_asymm (hbefore later hmem))
        · rw [List.mem_singleton.1 hmem] at hlt
          exact absurd hlt (lt_irrefl _)
      · rintro ⟨_, line, hline, hd, hlater⟩
        rcases List.mem_append.1 hline with hmem | hmem
        · exact absurd rfl (hlater last (by simp) (hbefore line hmem) s hs)
        · rw [List.mem_singleton.1 hmem, hs] at hd
          exact Option.some.inj hd
    · have hskip : ∀ s, pick covers start last items none = some s → name s ≠ key :=
        fun s hs heq => hlast ⟨s, hs, heq⟩
      rw [note_skips hskip, hinit]
      apply and_congr_right
      intro hname
      constructor
      · rintro ⟨line, hline, hd, hlater⟩
        refine ⟨line, by simp [hline], hd, ?_⟩
        intro later hmem hlt
        rcases List.mem_append.1 hmem with hmem' | hmem'
        · exact hlater later hmem' hlt
        · rw [List.mem_singleton.1 hmem']
          exact hskip
      · rintro ⟨line, hline, hd, hlater⟩
        rcases List.mem_append.1 hline with hmem | hmem
        · exact ⟨line, hmem, hd, fun later hlmem => hlater later (by simp [hlmem])⟩
        · rw [List.mem_singleton.1 hmem] at hd
          exact absurd hname (hskip d hd)

theorem mem_noted {lines : List Nat} {d : σ} {sorted : List σ}
    (hitems : items.Pairwise fun a b => start a < start b) (hlines : lines.Pairwise (· < ·))
    (hperm : sorted.Perm ((lines.foldl (note covers start name items) .empty).items.map Prod.snd)) :
    d ∈ sorted ↔ Noted covers start name items lines d := by
  have hkept : d ∈ sorted ↔
      ∃ key, (lines.foldl (note covers start name items) .empty).get? key = some d := by
    simp only [hperm.mem_iff, List.mem_map, Dict.get?_eq_some_iff]
    constructor
    · rintro ⟨p, hp, rfl⟩
      exact ⟨p.1, hp⟩
    · rintro ⟨key, hp⟩
      exact ⟨(key, d), hp, rfl⟩
  rw [hkept]
  simp only [get?_foldl_note hlines, pick_iff hitems, exists_eq_left', Noted]

theorem nodup_noted {lines : List Nat} {sorted : List σ} (hlines : lines.Pairwise (· < ·))
    (hperm : sorted.Perm ((lines.foldl (note covers start name items) .empty).items.map Prod.snd)) :
    (sorted.map name).Nodup := by
  have hnames : ((lines.foldl (note covers start name items) .empty).items.map Prod.snd).map name =
      (lines.foldl (note covers start name items) .empty).items.map Prod.fst := by
    rw [List.map_map]
    apply List.map_congr_left
    rintro ⟨key, d⟩ hp
    exact ((get?_foldl_note hlines).1 (Dict.get?_eq_some_iff.2 hp)).1
  rw [(hperm.map name).nodup_iff, hnames]
  exact Dict.nodup _

end Innermost

end Tempest
