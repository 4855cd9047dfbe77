import Mathlib.Data.Finset.Basic

/-!
# Closure — everything that gets to a set along the edges of a graph

A graph is a list of nodes with the nodes they have edges to.  `pass` goes over it once and puts in
each node with an edge into the set so far; `closure` repeats that until a pass changes nothing.
`mem_closure` says that this is all that can reach the start, cycles or not.
-/

namespace Tempest

namespace Graph

variable {α : Type} [DecidableEq α]

def visitNode (out : Finset α) (node : α × Finset α) : Finset α :=
  if node.1 ∉ out ∧ (node.2 ∩ out).Nonempty then insert node.1 out else out

def pass (graph : List (α × Finset α)) (out : Finset α) : Finset α := graph.foldl visitNode out

/-- Passes until one changes nothing, `n` of them at most. -/
def passes (graph : List (α × Finset α)) : Nat → Finset α → Finset α
  | 0, out => out
  | n + 1, out => if pass graph out = out then out else passes graph n (pass graph out)

def closure (graph : List (α × Finset α)) (start : Finset α) : Finset α :=
  passes graph (graph.length + 1) start

def HasEdge (graph : List (α × Finset α)) (a b : α) : Prop := ∃ edges, (a, edges) ∈ graph ∧ b ∈ edges

/-- `a` gets to the start. -/
def Reaches (graph : List (α × Finset α)) (start : Finset α) (a : α) : Prop :=
  ∃ b ∈ start, Relation.ReflTransGen (HasEdge graph) a b

variable {graph : List (α × Finset α)} {start out : Finset α} {a b : α}

/-! ## One pass -/

theorem subset_visitNode (node : α × Finset α) : out ⊆ visitNode out node := by
  rw [visitNode]
  split
  · exact Finset.subset_insert node.1 out
  · exact Finset.Subset.refl out

theorem subset_pass : out ⊆ pass graph out := by
  induction graph generalizing out with
  | nil => exact Finset.Subset.refl out
  | cons node graph ih => exact (subset_visitNode node).trans ih

theorem mem_pass_of_edge (h : HasEdge graph a b) (hb : b ∈ out) : a ∈ pass graph out := by
  obtain ⟨edges, hmem, hedge⟩ := h
  induction graph generalizing out with
  | nil => cases hmem
  | cons node graph ih =>
    rcases List.mem_cons.1 hmem with rfl | hmem
    · -- the node is in the set when the pass has been at it
      suffices hnode : a ∈ visitNode out (a, edges) by
        have hkept : a ∈ pass graph (visitNode out (a, edges)) := subset_pass hnode
        exact hkept
      rw [visitNode]
      by_cases hin : a ∈ out
      · rwa [if_neg fun hcond => hcond.1 hin]
      · rw [if_pos ⟨hin, b, Finset.mem_inter.2 ⟨hedge, hb⟩⟩]
        exact Finset.mem_insert_self a out
    · exact ih (subset_visitNode node hb) hmem

theorem mem_pass_node (h : a ∈ pass graph out) : a ∈ out ∨ ∃ edges, (a, edges) ∈ graph := by
  induction graph generalizing out with
  | nil => exact .inl h
  | cons node graph ih =>
    rcases ih h with hvisited | ⟨edges, hmem⟩
    · rw [visitNode] at hvisited
      split at hvisited
      · rcases Finset.mem_insert.1 hvisited with rfl | hout
        · exact .inr ⟨node.2, List.mem_cons_self⟩
        · exact .inl hout
      · exact .inl hvisited
    · exact .inr ⟨edges, List.mem_cons_of_mem node hmem⟩

theorem reaches_pass {whole : List (α × Finset α)} (hsub : ∀ node ∈ graph, node ∈ whole)
    (hout : ∀ x ∈ out, Reaches whole start x) : ∀ x ∈ pass graph out, Reaches whole start x := by
  induction graph generalizing out with
  | nil => exact hout
  | cons node graph ih =>
    refine ih (fun n hn => hsub n (List.mem_cons_of_mem node hn)) fun x hx => ?_
    rw [visitNode] at hx
    split at hx
    case isTrue hcond =>
      rcases Finset.mem_insert.1 hx with rfl | hmem
      · obtain ⟨y, hy⟩ := hcond.2
        obtain ⟨hedge, hyout⟩ := Finset.mem_inter.1 hy
        obtain ⟨b, hb, hpath⟩ := hout y hyout
        exact ⟨b, hb, hpath.head ⟨node.2, hsub node List.mem_cons_self, hedge⟩⟩
      · exact hout x hmem
    case isFalse => exact hout x hx

/-! ## Passes until nothing changes -/

def missing (graph : List (α × Finset α)) (out : Finset α) : List (α × Finset α) :=
  graph.filter fun node => node.1 ∉ out

/-- A pass that changes the set leaves fewer nodes out. -/
theorem missing_pass (h : pass graph out ≠ out) :
    (missing graph (pass graph out)).length < (missing graph out).length := by
  obtain ⟨x, hx, hnot⟩ := Finset.exists_of_ssubset (Finset.ssubset_iff_subset_ne.2 ⟨subset_pass, h.symm⟩)
  obtain ⟨edges, hnode⟩ := (mem_pass_node hx).resolve_left hnot
  have hsub : missing graph (pass graph out) = (missing graph out).filter fun n =>
    n.1 ∉ pass graph out := by
    rw [missing, missing, List.filter_filter]
    refine List.filter_congr fun node _ => ?_
    by_cases hin : node.1 ∈ out
    · simp [hin, subset_pass hin]
    · simp [hin]
  rw [hsub]
  refine List.length_filter_lt_length_iff_exists.2 ⟨(x, edges), ?_, by simpa using hx⟩
  simp [missing, hnode, hnot]

theorem passes_succ (n : Nat) : passes graph (n + 1) out =
    if pass graph out = out then out else passes graph n (pass graph out) := rfl

theorem pass_passes {n : Nat} (h : (missing graph out).length < n) :
    pass graph (passes graph n out) = passes graph n out := by
  induction n generalizing out with
  | zero => cases h
  | succ n ih =>
    rw [passes_succ]
    split
    case isTrue heq => exact heq
    case isFalse hne => exact ih (by have := missing_pass hne; omega)

theorem subset_passes {n : Nat} : out ⊆ passes graph n out := by
  induction n generalizing out with
  | zero => exact Finset.Subset.refl out
  | succ n ih =>
    rw [passes_succ]
    split
    · exact Finset.Subset.refl out
    · exact subset_pass.trans ih

theorem reaches_passes {n : Nat} (hout : ∀ x ∈ out, Reaches graph start x) :
    ∀ x ∈ passes graph n out, Reaches graph start x := by
  induction n generalizing out with
  | zero => exact hout
  | succ n ih =>
    rw [passes_succ]
    split
    · exact hout
    · exact ih (reaches_pass (fun _ h => h) hout)

/-- The loop ends with everything that gets to the start, and nothing else. -/
theorem mem_closure : a ∈ closure graph start ↔ Reaches graph start a := by
  have hfuel : (missing graph start).length < graph.length + 1 :=
    Nat.lt_succ_of_le (List.length_filter_le _ graph)
  constructor
  · exact reaches_passes (fun x hx => ⟨x, hx, .refl⟩) a
  · rintro ⟨b, hb, hpath⟩
    induction hpath using Relation.ReflTransGen.head_induction_on with
    | refl => exact subset_passes hb
    | head hedge _ ih =>
      rw [closure, ← pass_passes hfuel]
      exact mem_pass_of_edge hedge ih

end Graph

end Tempest
