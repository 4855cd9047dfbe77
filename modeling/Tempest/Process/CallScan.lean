import Tempest.Python.Walk

/-!
# CallScan — a search along calls that goes into every name once

A search looks at the nodes of a function in order and goes into the functions they call, so many
calls deep, with one list of the names it has been into.  A name that was met with no calls left is
not gone into again when it is met with one call left: `scan_two` says exactly what a search two
calls deep sees, and `chain_of_sees` that this is on some chain of calls.
-/

namespace Tempest

open Python (ReachesIn reachesIn_zero reachesIn_succ)

structure CallGraph (φ ν κ : Type) where
  nodes : φ → List ν
  hit : ν → Bool
  called : ν → Option κ
  function : κ → Option φ

namespace CallGraph

variable {φ ν κ : Type} [DecidableEq κ] (g : CallGraph φ ν κ)

def callee (node : ν) : Option (κ × φ) :=
  (g.called node).bind fun name => (g.function name).map fun fn => (name, fn)

def hits (fn : φ) : Bool := (g.nodes fn).any g.hit

/-- The functions a function calls, in the order the calls are met. -/
def callees (fn : φ) : List (κ × φ) := (g.nodes fn).filterMap g.callee

/-- The loop over the nodes; `scan` is the search of a callee, absent when no calls are left. -/
def scanNodes (scan : Option (φ → List κ → Bool × List κ)) : List ν → List κ → Bool × List κ
  | [], seen => (false, seen)
  | node :: nodes, seen =>
    if g.hit node then (true, seen)
    else
      match g.callee node, scan with
      | some (name, fn), some scan =>
        if name ∈ seen then scanNodes (some scan) nodes seen
        else
          match scan fn (name :: seen) with
          | (true, seen) => (true, seen)
          | (false, seen) => scanNodes (some scan) nodes seen
      | _, scan => scanNodes scan nodes seen

def scan : Nat → φ → List κ → Bool × List κ
  | 0 => fun fn => g.scanNodes none (g.nodes fn)
  | depth + 1 => fun fn => g.scanNodes (some (scan depth)) (g.nodes fn)

/-! ## What is seen two calls deep -/

/-- The callees that are gone into themselves: those that no callee gone into before calls. -/
def opened : List (κ × φ) → List κ → List φ
  | [], _ => []
  | (name, fn) :: rest, seen =>
    if name ∈ seen then opened rest seen
    else fn :: opened rest ((g.callees fn).map Prod.fst ++ name :: seen)

def Sees (fn : φ) : Prop :=
  g.hits fn = true ∨ (∃ p ∈ g.callees fn, g.hits p.2 = true) ∨
    ∃ f ∈ g.opened (g.callees fn) [], ∃ p ∈ g.callees f, g.hits p.2 = true

/-- Some chain of so many calls at most ends in a function with a hit. -/
def Chain (depth : Nat) (fn : φ) : Prop :=
  ReachesIn (fun a b => ∃ name, (name, b) ∈ g.callees a) (fun a => g.hits a = true) depth fn

/-- The names met so far stand for functions without a hit. -/
def Clean (seen : List κ) : Prop :=
  ∀ name ∈ seen, ∀ fn, g.function name = some fn → g.hits fn = false

variable {g}

omit [DecidableEq κ] in
theorem callee_eq_some {node : ν} {name : κ} {fn : φ} :
    g.callee node = some (name, fn) ↔ g.called node = some name ∧ g.function name = some fn := by
  rw [callee, Option.bind_eq_some_iff]
  constructor
  · rintro ⟨called, hcalled, hfn⟩
    obtain ⟨f, hf, hpair⟩ := Option.map_eq_some_iff.1 hfn
    obtain ⟨rfl, rfl⟩ := Prod.mk.inj hpair
    exact ⟨hcalled, hf⟩
  · rintro ⟨hcalled, hfn⟩
    exact ⟨name, hcalled, Option.map_eq_some_iff.2 ⟨fn, hfn, rfl⟩⟩

omit [DecidableEq κ] in
theorem function_of_callee {nodes : List ν} {p : κ × φ} (h : p ∈ nodes.filterMap g.callee) :
    g.function p.1 = some p.2 := by
  obtain ⟨node, _, hcallee⟩ := List.mem_filterMap.1 h
  exact (callee_eq_some.1 hcallee).2

theorem opened_congr {callees : List (κ × φ)} {seen seen' : List κ}
    (h : ∀ name, name ∈ seen ↔ name ∈ seen') : g.opened callees seen = g.opened callees seen' := by
  induction callees generalizing seen seen' with
  | nil => rfl
  | cons p rest ih =>
    by_cases hseen : p.1 ∈ seen
    · simp only [opened, hseen, (h p.1).1 hseen, if_true]
      exact ih h
    · have hseen' : p.1 ∉ seen' := fun hmem => hseen ((h p.1).2 hmem)
      simp only [opened, hseen, hseen', if_false, List.cons.injEq, true_and]
      apply ih
      intro name
      simp only [List.mem_append, List.mem_cons, h name]

theorem opened_subset {callees : List (κ × φ)} {seen : List κ} {f : φ}
    (h : f ∈ g.opened callees seen) : ∃ name, (name, f) ∈ callees := by
  induction callees generalizing seen with
  | nil => cases h
  | cons p rest ih =>
    by_cases hseen : p.1 ∈ seen
    · simp only [opened, hseen, if_true] at h
      obtain ⟨name, hname⟩ := ih h
      exact ⟨name, List.mem_cons_of_mem p hname⟩
    · simp only [opened, hseen, if_false] at h
      rcases List.mem_cons.1 h with rfl | hrest
      · exact ⟨p.1, List.mem_cons_self⟩
      · obtain ⟨name, hname⟩ := ih hrest
        exact ⟨name, List.mem_cons_of_mem p hname⟩

/-! ## No calls left -/

theorem scanNodes_nil (scan : Option (φ → List κ → Bool × List κ)) (seen : List κ) :
    g.scanNodes scan [] seen = (false, seen) := rfl

theorem scanNodes_none (nodes : List ν) (seen : List κ) :
    g.scanNodes none nodes seen = (nodes.any g.hit, seen) := by
  induction nodes with
  | nil => rfl
  | cons node nodes ih =>
    cases hhit : g.hit node with
    | true => simp [scanNodes, hhit]
    | false => cases hcallee : g.callee node <;> simp [scanNodes, hhit, hcallee, ih]

theorem scan_zero (fn : φ) (seen : List κ) : g.scan 0 fn seen = (g.hits fn, seen) :=
  scanNodes_none (g.nodes fn) seen

/-! ## One call left -/

theorem scanNodes_cons (scan : φ → List κ → Bool × List κ) (node : ν) (nodes : List ν)
    (seen : List κ) :
    g.scanNodes (some scan) (node :: nodes) seen =
      if g.hit node then (true, seen)
      else
        match g.callee node with
        | none => g.scanNodes (some scan) nodes seen
        | some (name, fn) =>
          if name ∈ seen then g.scanNodes (some scan) nodes seen
          else
            match scan fn (name :: seen) with
            | (true, seen) => (true, seen)
            | (false, seen) => g.scanNodes (some scan) nodes seen := by
  cases hcallee : g.callee node with
  | none => simp [scanNodes, hcallee]
  | some p =>
    obtain ⟨name, fn⟩ := p
    by_cases hseen : name ∈ seen
    · simp [scanNodes, hcallee, hseen]
    · cases hfn : scan fn (name :: seen) with
      | mk found seen => cases found <;> simp [scanNodes, hcallee, hseen, hfn]

theorem scanNodes_one (nodes : List ν) (seen : List κ) :
    ((g.scanNodes (some (g.scan 0)) nodes seen).1 = true ↔
        nodes.any g.hit = true ∨ ∃ p ∈ nodes.filterMap g.callee,
          p.1 ∉ seen ∧ g.hits p.2 = true) ∧
      ((g.scanNodes (some (g.scan 0)) nodes seen).1 = false →
        ∀ name, name ∈ (g.scanNodes (some (g.scan 0)) nodes seen).2 ↔
          name ∈ seen ∨ name ∈ (nodes.filterMap g.callee).map Prod.fst) := by
  induction nodes generalizing seen with
  | nil => simp [scanNodes_nil]
  | cons node nodes ih =>
    rw [scanNodes_cons]
    cases hhit : g.hit node with
    | true => simp [hhit]
    | false =>
      cases hcallee : g.callee node with
      | none =>
        have hrest := ih seen
        simpa [hhit, hcallee] using hrest
      | some p =>
        obtain ⟨name, fn⟩ := p
        by_cases hseen : name ∈ seen
        · have hrest := ih seen
          simp only [Bool.false_eq_true, if_false, hseen, if_true]
          refine ⟨?_, ?_⟩
          · rw [hrest.1]
            simp [hhit, hcallee, hseen]
          · intro hfalse id
            rw [hrest.2 hfalse id]
            simp only [List.filterMap_cons, hcallee, List.map_cons, List.mem_cons]
            constructor
            · rintro (h | h)
              · exact Or.inl h
              · exact Or.inr (Or.inr h)
            · rintro (h | rfl | h)
              · exact Or.inl h
              · exact Or.inl hseen
              · exact Or.inr h
        · cases hfn : g.hits fn with
          | true => simp [hseen, scan_zero, hfn, hcallee]
          | false =>
            have hrest := ih (name :: seen)
            simp only [Bool.false_eq_true, if_false, hseen, scan_zero, hfn]
            refine ⟨?_, ?_⟩
            · rw [hrest.1]
              simp only [List.any_cons, hhit, Bool.false_or, List.filterMap_cons, hcallee,
                List.mem_cons, exists_eq_or_imp, hfn, Bool.false_eq_true, and_false,
                false_or, not_or]
              apply or_congr_right
              -- a later call of the same name calls the same function
              apply exists_congr
              rintro ⟨id, f⟩
              apply and_congr_right
              intro hmem
              have hget := function_of_callee hmem
              constructor
              · exact fun h => ⟨h.1.2, h.2⟩
              · rintro ⟨hnot, hf⟩
                refine ⟨⟨?_, hnot⟩, hf⟩
                rintro rfl
                have hsame : fn = f :=
                  Option.some.inj ((callee_eq_some.1 hcallee).2.symm.trans hget)
                rw [← hsame, hfn] at hf
                cases hf
            · intro hfalse id
              rw [hrest.2 hfalse id]
              simp only [List.filterMap_cons, hcallee, List.map_cons, List.mem_cons]
              tauto

/-! ## Two calls left -/

/-- What a callee shows when it is gone into. -/
theorem scan_one {fn : φ} {name : κ} {seen : List κ} (hclean : g.Clean seen)
    (hget : g.function name = some fn) :
    (g.scan 1 fn (name :: seen)).1 = true ↔
      g.hits fn = true ∨ ∃ p ∈ g.callees fn, g.hits p.2 = true := by
  have hone := (@scanNodes_one _ _ _ _ g (g.nodes fn) (name :: seen)).1
  rw [show g.scan 1 fn (name :: seen) =
    g.scanNodes (some (g.scan 0)) (g.nodes fn) (name :: seen) from rfl, hone]
  constructor
  · rintro (hhit | ⟨p, hp, _, hp'⟩)
    · exact Or.inl hhit
    · exact Or.inr ⟨p, hp, hp'⟩
  · rintro (hhit | ⟨p, hp, hp'⟩)
    · exact Or.inl hhit
    · have hpget := function_of_callee hp
      by_cases hself : p.1 = name
      · -- the function calls itself
        have hsame : p.2 = fn := by
          rw [hself, hget] at hpget
          exact (Option.some.inj hpget).symm
        rw [hsame] at hp'
        exact Or.inl hp'
      · by_cases hseen : p.1 ∈ seen
        · have hfalse := hclean p.1 hseen p.2 hpget
          rw [hp'] at hfalse
          cases hfalse
        · refine Or.inr ⟨p, hp, ?_, hp'⟩
          simp [hself, hseen]

theorem scanNodes_two (nodes : List ν) (seen : List κ) (hclean : g.Clean seen) :
    (g.scanNodes (some (g.scan 1)) nodes seen).1 = true ↔
      nodes.any g.hit = true ∨
        (∃ p ∈ nodes.filterMap g.callee, g.hits p.2 = true) ∨
          ∃ f ∈ g.opened (nodes.filterMap g.callee) seen, ∃ p ∈ g.callees f,
            g.hits p.2 = true := by
  induction nodes generalizing seen with
  | nil => simp [scanNodes_nil, opened]
  | cons node nodes ih =>
    rw [scanNodes_cons]
    cases hhit : g.hit node with
    | true => simp [hhit]
    | false =>
      cases hcallee : g.callee node with
      | none =>
        have hrest := ih seen hclean
        simpa [hhit, hcallee] using hrest
      | some p =>
        obtain ⟨name, fn⟩ := p
        have hget := (callee_eq_some.1 hcallee).2
        by_cases hseen : name ∈ seen
        · have hfn := hclean name hseen fn hget
          have hrest := ih seen hclean
          simpa [hhit, hcallee, hseen, hfn, opened] using hrest
        · have hone := scan_one hclean hget
          have hafter := (@scanNodes_one _ _ _ _ g (g.nodes fn) (name :: seen)).2
          simp only [Bool.false_eq_true, if_false, hseen]
          cases hscan : g.scan 1 fn (name :: seen) with
          | mk found seen' =>
            rw [hscan] at hone
            cases found with
            | true =>
              refine iff_of_true rfl ?_
              rcases hone.1 rfl with hfn | ⟨p, hp, hp'⟩
              · exact Or.inr (Or.inl ⟨(name, fn), by simp [hcallee], hfn⟩)
              · refine Or.inr (Or.inr ⟨fn, ?_, p, hp, hp'⟩)
                simp [hcallee, opened, hseen]
            | false =>
              have hnone : ¬ (g.hits fn = true ∨
                  ∃ p ∈ g.callees fn, g.hits p.2 = true) := by
                rw [← hone]
                simp
              rw [not_or] at hnone
              have hseen' : ∀ id, id ∈ seen' ↔
                  id ∈ (g.callees fn).map Prod.fst ++ name :: seen := by
                intro id
                have hmem := hafter (congrArg Prod.fst hscan) id
                rw [show g.scanNodes (some (g.scan 0)) (g.nodes fn) (name :: seen) =
                  g.scan 1 fn (name :: seen) from rfl, hscan] at hmem
                rw [hmem, List.mem_append]
                exact or_comm
              have hclean' : g.Clean seen' := by
                intro id hid f hf
                rcases List.mem_append.1 ((hseen' id).1 hid) with hcalled | hbefore
                · obtain ⟨q, hq, rfl⟩ := List.mem_map.1 hcalled
                  have hsame : q.2 = f :=
                    Option.some.inj ((function_of_callee hq).symm.trans hf)
                  rw [← hsame]
                  cases hq' : g.hits q.2 with
                  | false => rfl
                  | true => exact absurd ⟨q, hq, hq'⟩ hnone.2
                · rcases List.mem_cons.1 hbefore with rfl | hold
                  · obtain rfl : fn = f := Option.some.inj (hget.symm.trans hf)
                    exact Bool.eq_false_iff.2 hnone.1
                  · exact hclean id hold f hf
              have hrest := ih seen' hclean'
              rw [hrest, opened_congr hseen']
              have hfn := Bool.eq_false_iff.2 hnone.1
              have hcalled : ¬ ∃ a b, (a, b) ∈ g.callees fn ∧ g.hits b = true := by
                rintro ⟨a, b, hmem, hb⟩
                exact hnone.2 ⟨(a, b), hmem, hb⟩
              simp [hhit, hcallee, hseen, hfn, opened, hcalled]

/-- What a search two calls deep finds. -/
theorem scan_two (fn : φ) : (g.scan 2 fn []).1 = true ↔ g.Sees fn :=
  scanNodes_two (g.nodes fn) [] (by intro name hname; cases hname)

/-! ## Chains of calls -/

omit [DecidableEq κ] in
theorem chain_two {fn : φ} :
    g.Chain 2 fn ↔
      g.hits fn = true ∨ (∃ p ∈ g.callees fn, g.hits p.2 = true) ∨
        ∃ q ∈ g.callees fn, ∃ p ∈ g.callees q.2, g.hits p.2 = true := by
  simp only [Chain, reachesIn_succ, reachesIn_zero]
  constructor
  · rintro (hfn | ⟨a, ⟨name, ha⟩, hhit | ⟨b, ⟨name', hb⟩, hhit⟩⟩)
    · exact Or.inl hfn
    · exact Or.inr (Or.inl ⟨(name, a), ha, hhit⟩)
    · exact Or.inr (Or.inr ⟨(name, a), ha, (name', b), hb, hhit⟩)
  · rintro (hfn | ⟨p, hp, hhit⟩ | ⟨q, hq, p, hp, hhit⟩)
    · exact Or.inl hfn
    · exact Or.inr ⟨p.2, ⟨p.1, hp⟩, Or.inl hhit⟩
    · exact Or.inr ⟨q.2, ⟨q.1, hq⟩, Or.inr ⟨p.2, ⟨p.1, hp⟩, hhit⟩⟩

theorem chain_of_sees {fn : φ} (h : g.Sees fn) : g.Chain 2 fn := by
  rw [chain_two]
  rcases h with hfn | hcallee | ⟨f, hf, hhit⟩
  · exact Or.inl hfn
  · exact Or.inr (Or.inl hcallee)
  · obtain ⟨name, hname⟩ := opened_subset hf
    exact Or.inr (Or.inr ⟨(name, f), hname, hhit⟩)

end CallGraph

end Tempest
