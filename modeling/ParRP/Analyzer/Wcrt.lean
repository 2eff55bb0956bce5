import ParRP.Analyzer.ParseDag

/-! # Critical paths and volumes in `compute_WCRTs`

For each of the four configurations, `compute_WCRTs` runs a longest-path dynamic
program over the vertices in the order `boost::topological_sort` returns (every
vertex after its successors), reads the entry of vertex `0`, and sums the weights
into a volume. All values are `size_t`: sums wrap modulo `2^64`.

The Graham bound `wcrts[i]` is computed in `double` and is left out of the model.
-/

namespace ParRP.Analyzer

open ParRP.Digraph

/-- `NUM_CONFIGS`: `SHARE`, `COLOR`, `PAR`, `COLOR_PRIVATE_INST`. -/
def numConfigs : Nat := 4

/-- `size_t` addition. -/
def sizeAdd (a b : Nat) : Nat := (a + b) % 2 ^ 64

/-- `weight_map[v][i]`. -/
def weightAt (weightMap : List (List Nat)) (v i : Nat) : Nat := (weightMap.getD v []).getD i 0

/-- The inner loop for one vertex `v`:
`longest_path[v] = max(longest_path[v], weight_map[v][i] + longest_path[t])` over the
out-edges `v → t` in order. -/
def relaxVertex (g : Digraph) (w : Nat → Nat) (lp : Nat → Nat) (v : Nat) : Nat → Nat :=
  (g.out v).foldl (fun lp t => Function.update lp v (max (lp v) (sizeAdd (w v) (lp t)))) lp

/-- `longest_path` after the loop over `sorted_vertices`, from an all-zero vector. -/
def longestPath (g : Digraph) (w : Nat → Nat) (sorted : List Nat) : Nat → Nat :=
  sorted.foldl (relaxVertex g w) fun _ => 0

/-- The first loop of `compute_WCRTs`: one critical path per configuration, each
guarded by `assert(longest_path.front() != 0)`. -/
def criticalPaths (g : Digraph) (weightMap : List (List Nat)) (sorted : List Nat) :
    Except String (List Nat) :=
  (List.range numConfigs).mapM fun i =>
    let front := longestPath g (weightAt weightMap · i) sorted 0
    if front ≠ 0 then .ok front else .error "assert(longest_path.front() != 0)"

/-- The second loop: `volumes[i]` sums `weight_map[j][i]` over every row `j`. -/
def volumes (weightMap : List (List Nat)) : List Nat :=
  (List.range numConfigs).map fun i => weightMap.foldl (fun acc row => sizeAdd acc (row.getD i 0)) 0

end ParRP.Analyzer

namespace ParRP.Analyzer

open ParRP.Digraph

/-- `compute_WCRTs` without the `double` bound: the critical paths and the volumes of
the four configurations. -/
def computeWCRTs (topo : Digraph → Option (List Nat)) (g : Digraph)
    (weightMap : List (List Nat)) : Except String (List Nat × List Nat) := do
  let sorted ← match topo g with
    | some order => pure order
    | none => throw "not_a_dag"
  let paths ← criticalPaths g weightMap sorted
  return (paths, volumes weightMap)

/-- A main task with one `taskwait` and no child task: `omptr_print` writes these two
records, and `parse_dag` links them by one control edge. -/
def twoBlocks : List BasicBlock := [⟨0, 0, 0, -1, 0, []⟩, ⟨1, 0, 1, -1, 0, []⟩]

def twoBlockDag : Digraph := ⟨[[1], []]⟩

/-- Weight one for both blocks in every configuration. -/
def unitWeights : List (List Nat) := [[1, 1, 1, 1], [1, 1, 1, 1]]

/-- On the path `r = 0 → 1 = e`, whose vertex weights sum to `2` in every
configuration, `compute_WCRTs` reports a critical path of `1`: the recurrence gives
the sink a longest path of `0`, so the sink's weight is never counted. -/
theorem computeWCRTs_omits_sink_weight :
    (∀ topo, TopologicalSort topo →
      parseDag topo twoBlocks = .ok ⟨twoBlockDag, 0, 1, 1⟩ ∧
      computeWCRTs topo twoBlockDag unitWeights = .ok ([1, 1, 1, 1], [2, 2, 2, 2])) ∧
    twoBlockDag.Adj 0 1 ∧
    ∀ i < numConfigs, ([0, 1].map (weightAt unitWeights · i)).sum = 2 := by
  refine ⟨fun topo hT => ?_, by decide, by decide⟩
  have hac : twoBlockDag.Acyclic := by
    apply acyclic_of_rank twoBlockDag id
    intro u v h
    have hu : u < 2 := lt_of_adj h
    interval_cases u <;> simp_all [Adj, out, twoBlockDag]
  obtain ⟨order, ho⟩ := hT.acyclic_some _ hac
  have hlen : order.length = 2 := hT.length_eq ho
  -- the only order with `1` before `0`
  have horder : order = [1, 0] := by
    obtain ⟨a, b, rfl⟩ := List.length_eq_two.mp hlen
    have ha : a < 2 := (hT.mem_iff _ _ ho a).mp (by simp)
    have hb : b < 2 := (hT.mem_iff _ _ ho b).mp (by simp)
    have hab : a ≠ b := by simpa using hT.nodup _ _ ho
    have hsink := hT.head_no_succ ho (v := a) rfl
    interval_cases a <;> interval_cases b
    · exact absurd rfl hab
    · exact absurd (by decide) (hsink 1)
    · rfl
    · exact absurd rfl hab
  subst horder
  have hrows : groupTasks (sortBlocks twoBlocks) =
      pure [[⟨0, 0, 0, -1, 0, []⟩, ⟨1, 0, 1, -1, 0, []⟩]] := by decide
  have hg : buildGraph [[⟨0, 0, 0, -1, 0, []⟩, ⟨1, 0, 1, -1, 0, []⟩]] = pure twoBlockDag := by
    decide
  constructor
  · simp only [parseDag, hrows, hg, ho, pure_bind]
    rfl
  · simp only [computeWCRTs, ho, pure_bind]
    decide

end ParRP.Analyzer
