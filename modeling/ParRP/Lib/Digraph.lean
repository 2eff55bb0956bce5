import Mathlib

/-! # Adjacency-list digraphs

A directed graph on the vertices `0, …, n - 1`, stored as one out-edge list per
vertex in insertion order, as `adjacency_list<vecS, vecS, directedS>` stores it.
Paths are the transitive closure of the edge relation. The rank lemma at the end
is the acyclicity test used on concrete graphs.
-/

namespace ParRP

/-- One out-edge list per vertex; the vertex set is `0, …, outEdges.length - 1`. -/
structure Digraph where
  outEdges : List (List Nat)
  deriving DecidableEq, Repr

namespace Digraph

/-- The graph with no vertex. -/
def empty : Digraph := ⟨[]⟩

def numVertices (g : Digraph) : Nat := g.outEdges.length

/-- The out-edge targets of `u` in insertion order; empty outside the vertex set. -/
def out (g : Digraph) (u : Nat) : List Nat := g.outEdges.getD u []

/-- `add_edge(u, v, g)`: the vertex set grows to cover both endpoints and `v` is
appended to the out-edge list of `u`. -/
def addEdge (u v : Nat) (g : Digraph) : Digraph :=
  ⟨(g.outEdges ++ List.replicate (max u v + 1 - g.outEdges.length) []).modify u (· ++ [v])⟩

def Adj (g : Digraph) (u v : Nat) : Prop := v ∈ g.out u

instance (g : Digraph) (u v : Nat) : Decidable (g.Adj u v) :=
  inferInstanceAs (Decidable (v ∈ g.out u))

/-- A non-empty path from `u` to `v`. -/
def Reach (g : Digraph) : Nat → Nat → Prop := Relation.TransGen g.Adj

def Acyclic (g : Digraph) : Prop := ∀ u, ¬ g.Reach u u

/-- Every edge ends inside the vertex set. -/
def Closed (g : Digraph) : Prop := ∀ u v, g.Adj u v → v < g.numVertices

/-- A vertex without out-edges. -/
def IsSink (g : Digraph) (v : Nat) : Prop := g.out v = []

theorem out_of_le {g : Digraph} {u : Nat} (h : g.numVertices ≤ u) : g.out u = [] := by
  simp [out, List.getD_eq_getElem?_getD, List.getElem?_eq_none h]

theorem lt_of_adj {g : Digraph} {u v : Nat} (h : g.Adj u v) : u < g.numVertices := by
  by_contra hle
  rw [Adj, out_of_le (Nat.le_of_not_lt hle)] at h
  simp at h

theorem numVertices_addEdge (u v : Nat) (g : Digraph) :
    (g.addEdge u v).numVertices = max g.numVertices (max u v + 1) := by
  simp only [addEdge, numVertices, List.length_modify, List.length_append, List.length_replicate]
  omega

/-- Padding with empty lists changes no out-edge list. -/
private theorem getD_append_replicate_nil (l : List (List Nat)) (k x : Nat) :
    (l ++ List.replicate k []).getD x [] = l.getD x [] := by
  simp only [List.getD_eq_getElem?_getD, List.getElem?_append, List.getElem?_replicate]
  split
  · rfl
  · split <;> simp [List.getElem?_eq_none (by omega : l.length ≤ x)]

private theorem getD_modify (l : List (List Nat)) (u x : Nat) (f : List Nat → List Nat)
    (hu : u < l.length) :
    (l.modify u f).getD x [] = if x = u then f (l.getD x []) else l.getD x [] := by
  simp only [List.getD_eq_getElem?_getD, List.getElem?_modify]
  by_cases hx : x = u
  · subst hx
    simp [List.getElem?_eq_getElem hu]
  · simp [Ne.symm hx, hx]

theorem out_addEdge (u v : Nat) (g : Digraph) (x : Nat) :
    (g.addEdge u v).out x = if x = u then g.out x ++ [v] else g.out x := by
  have hu : u < (g.outEdges ++ List.replicate (max u v + 1 - g.outEdges.length) []).length := by
    simp only [List.length_append, List.length_replicate]
    omega
  simp only [out, addEdge]
  rw [getD_modify _ u x _ hu, getD_append_replicate_nil]

theorem adj_addEdge (u v : Nat) (g : Digraph) (x y : Nat) :
    (g.addEdge u v).Adj x y ↔ g.Adj x y ∨ (x = u ∧ y = v) := by
  simp only [Adj, out_addEdge]
  by_cases hx : x = u
  · subst hx
    simp [eq_comm]
  · simp [hx]

theorem closed_empty : empty.Closed := by
  intro u v h
  simp [Adj, out, empty] at h

theorem closed_addEdge {g : Digraph} (hg : g.Closed) (u v : Nat) : (g.addEdge u v).Closed := by
  intro x y hxy
  rw [numVertices_addEdge]
  rcases (adj_addEdge u v g x y).mp hxy with h | ⟨-, rfl⟩
  · have := hg x y h
    omega
  · omega

/-- A rank that strictly grows along every edge rules out every cycle. -/
theorem acyclic_of_rank (g : Digraph) (rank : Nat → Nat)
    (hrank : ∀ u v, g.Adj u v → rank u < rank v) : g.Acyclic := by
  intro u hu
  have hlt : ∀ {a b}, g.Reach a b → rank a < rank b := by
    intro a b hab
    induction hab with
    | single hab => exact hrank _ _ hab
    | tail _ hbc ih => exact Nat.lt_trans ih (hrank _ _ hbc)
  exact Nat.lt_irrefl _ (hlt hu)

theorem Reach.single {g : Digraph} {u v : Nat} (h : g.Adj u v) : g.Reach u v :=
  Relation.TransGen.single h

theorem Reach.head {g : Digraph} {u v w : Nat} (h : g.Adj u v) (hr : g.Reach v w) :
    g.Reach u w :=
  Relation.TransGen.head h hr

theorem Reach.trans {g : Digraph} {u v w : Nat} (h₁ : g.Reach u v) (h₂ : g.Reach v w) :
    g.Reach u w :=
  Relation.TransGen.trans h₁ h₂

/-- A path's first step: every path leaves its source along an edge. -/
theorem Reach.cases_head {g : Digraph} {u w : Nat} (h : g.Reach u w) :
    ∃ v, g.Adj u v ∧ (v = w ∨ g.Reach v w) := by
  induction h using Relation.TransGen.head_induction_on with
  | single hab => exact ⟨_, hab, Or.inl rfl⟩
  | head hac hcb _ => exact ⟨_, hac, Or.inr hcb⟩

theorem Reach.target_lt {g : Digraph} (hg : g.Closed) {u w : Nat} (h : g.Reach u w) :
    w < g.numVertices := by
  induction h with
  | single hab => exact hg _ _ hab
  | tail _ hbc _ => exact hg _ _ hbc

theorem Reach.lt_numVertices {g : Digraph} {u w : Nat} (h : g.Reach u w) :
    u < g.numVertices := by
  obtain ⟨v, huv, -⟩ := h.cases_head
  exact lt_of_adj huv

end Digraph

end ParRP
