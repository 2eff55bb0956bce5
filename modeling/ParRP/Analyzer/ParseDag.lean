import ParRP.Lib.Digraph

/-! # The analyzer's DAG parser

`parse_dag` reads the basic-block records that `omptr_print` writes, sorts them by
task and node, groups them per task, and adds the control, task-creation and
synchronisation edges. Vector indexing that the source leaves unchecked fails
here with a message; a failed assertion fails with the asserted condition.

`boost::topological_sort` is not part of the repository. It enters as a
parameter, and `TopologicalSort` states the behaviour of it that `parse_dag` and
`compute_WCRTs` rely on.
-/

namespace ParRP.Analyzer

open ParRP.Digraph

/-- One JSON record of the DAG file, as `from_json` reads it. -/
structure BasicBlock where
  ID : Int
  taskID : Int
  nodeID : Int
  taskCreated : Int
  numTasksWaitingFor : Int
  waitFor : List Int
  deriving DecidableEq, Repr

/-- `BasicBlock::operator<`: by task, then by node within a task. -/
def BasicBlock.lt (a b : BasicBlock) : Bool :=
  if a.taskID = b.taskID then a.nodeID < b.nodeID else a.taskID < b.taskID

/-- `std::sort` with `operator<`. On records with pairwise distinct `(taskID, nodeID)`
keys, the only ones `omptr_print` writes, every correct sort returns this list. -/
def sortBlocks (blocks : List BasicBlock) : List BasicBlock :=
  blocks.insertionSort (fun a b => !(b.lt a))

/-- The grouping loop of `parse_dag`: consecutive records of one task form one row,
and each new task id must follow the previous one. -/
def groupTasksAux : Int → List BasicBlock → List BasicBlock → Except String (List (List BasicBlock))
  | _, bbs, [] => .ok [bbs]
  | current, bbs, bb :: rest =>
      if bb.taskID ≠ current then
        if bb.taskID = current + 1 then
          (fun rows => bbs :: rows) <$> groupTasksAux bb.taskID [bb] rest
        else .error "assert(bb.taskID == current_task_id + 1)"
      else groupTasksAux current (bbs ++ [bb]) rest

def groupTasks : List BasicBlock → Except String (List (List BasicBlock))
  | [] => .error "assert(!basic_blocks_1d.empty())"
  | first :: rest =>
      if first.taskID = 0 then groupTasksAux 0 [] (first :: rest)
      else .error "assert(current_task_id == 0)"

/-- `basic_blocks_2d[i][j]`; out of range is undefined behaviour in the source. -/
def blockAt (rows : List (List BasicBlock)) (i j : Int) : Except String BasicBlock :=
  if 0 ≤ i ∧ 0 ≤ j then
    match rows[i.toNat]? >>= fun row => row[j.toNat]? with
    | some bb => .ok bb
    | none => .error "basic_blocks_2d index out of range"
  else .error "basic_blocks_2d index out of range"

/-- `basic_blocks_2d[i].back()`. -/
def lastBlockOf (rows : List (List BasicBlock)) (i : Int) : Except String BasicBlock :=
  if 0 ≤ i then
    match rows[i.toNat]? >>= List.getLast? with
    | some bb => .ok bb
    | none => .error "basic_blocks_2d index out of range"
  else .error "basic_blocks_2d index out of range"

/-- A vertex descriptor from a record id. -/
def vertexOf (i : Int) : Except String Nat :=
  if 0 ≤ i then .ok i.toNat else .error "negative vertex id"

/-- `boost::add_edge(a.ID, b.ID, g)` for two records. -/
def addBlockEdge (a b : BasicBlock) (g : Digraph) : Except String Digraph := do
  let u ← vertexOf a.ID
  let v ← vertexOf b.ID
  return g.addEdge u v

/-- The three kinds of edges that one record contributes, in the order of the source. -/
def addBlockEdges (rows : List (List BasicBlock)) (g : Digraph) (bb : BasicBlock) :
    Except String Digraph := do
  -- control flow edge from the previous node of the same task
  let g ← if 1 ≤ bb.nodeID then do
      let last ← blockAt rows bb.taskID (bb.nodeID - 1)
      addBlockEdge last bb g
    else pure g
  -- task creation edge to the first node of the created task
  let g ← if bb.taskCreated ≠ -1 then do
      let created ← blockAt rows bb.taskCreated 0
      addBlockEdge bb created g
    else pure g
  -- synchronisation edges from the last node of every awaited task
  bb.waitFor.foldlM (fun g taskId => do
      let last ← lastBlockOf rows taskId
      addBlockEdge last bb g) g

/-- The edge-building loops over all rows. -/
def buildGraph (rows : List (List BasicBlock)) : Except String Digraph :=
  rows.flatten.foldlM (addBlockEdges rows) Digraph.empty

/-- What `boost::topological_sort` is relied on to do: on an acyclic graph it lists
every vertex once, each after all its successors (the reverse of a topological
order); on a graph with a cycle it throws `not_a_dag`. -/
structure TopologicalSort (topo : Digraph → Option (List Nat)) : Prop where
  acyclic_some : ∀ g, g.Acyclic → ∃ order, topo g = some order
  some_acyclic : ∀ g order, topo g = some order → g.Acyclic
  nodup : ∀ g order, topo g = some order → order.Nodup
  mem_iff : ∀ g order, topo g = some order → ∀ v, v ∈ order ↔ v < g.numVertices
  succ_before : ∀ g order, topo g = some order → ∀ u v, g.Adj u v →
    ∃ i j : Nat, order[i]? = some v ∧ order[j]? = some u ∧ i < j

namespace TopologicalSort

variable {topo : Digraph → Option (List Nat)} {g : Digraph} {order : List Nat}

/-- The first vertex of the sorted container has no successor: all of them would
have to stand before it. -/
theorem head_no_succ (hT : TopologicalSort topo) (ho : topo g = some order) {v : Nat}
    (hv : order.head? = some v) (w : Nat) : ¬ g.Adj v w := by
  intro hvw
  obtain ⟨i, j, -, hj, hij⟩ := hT.succ_before g order ho v w hvw
  rw [List.head?_eq_getElem?] at hv
  have hlen : 0 < order.length := by
    rcases order with _ | _
    · simp at hv
    · simp
  have hj0 : 0 = j := (List.getElem?_inj hlen (hT.nodup g order ho)).mp (hv.trans hj.symm)
  omega

/-- The last vertex of the sorted container has no predecessor. -/
theorem getLast_no_pred (hT : TopologicalSort topo) (ho : topo g = some order) {v : Nat}
    (hv : order.getLast? = some v) (u : Nat) : ¬ g.Adj u v := by
  intro huv
  obtain ⟨i, j, hi, hj, hij⟩ := hT.succ_before g order ho u v huv
  rw [List.getLast?_eq_getElem?] at hv
  have hjlt : j < order.length := (List.getElem?_eq_some_iff.mp hj).1
  have hlast : order.length - 1 = i :=
    (List.getElem?_inj (by omega) (hT.nodup g order ho)).mp (hv.trans hi.symm)
  omega

/-- The sorted container lists every vertex exactly once. -/
theorem length_eq (hT : TopologicalSort topo) (ho : topo g = some order) :
    order.length = g.numVertices := by
  have hperm : order.Perm (List.range g.numVertices) :=
    (List.perm_ext_iff_of_nodup (hT.nodup g order ho) List.nodup_range).mpr
      fun v => by rw [hT.mem_iff g order ho, List.mem_range]
  simpa using hperm.length_eq

end TopologicalSort

/-- The result of `parse_dag`: the graph, its root `r`, its exit `e` and the number
of tasks. -/
structure ParsedDag where
  graph : Digraph
  r : Int
  e : Int
  numTasks : Nat

/-- `parse_dag` on the records of one DAG file. -/
def parseDag (topo : Digraph → Option (List Nat)) (blocks : List BasicBlock) :
    Except String ParsedDag := do
  let rows ← groupTasks (sortBlocks blocks)
  let g ← buildGraph rows
  let first ← match rows.head? >>= List.head? with
    | some bb => pure bb
    | none => throw "assert(!basic_blocks_2d[0].empty())"
  let exit ← match rows.head? >>= List.getLast? with
    | some bb => pure bb
    | none => throw "assert(!basic_blocks_2d[0].empty())"
  match topo g with
  | none => throw "[Error] graph is not a DAG."
  | some container =>
      -- `container.back()` and `container.front()` on an empty container are
      -- undefined behaviour in the source
      match container.getLast?, container.head? with
      | some back, some front =>
          if (back : Int) = first.ID then
            if (front : Int) = exit.ID then
              return ⟨g, first.ID, exit.ID, rows.length⟩
            else throw "assert(container.front() == e)"
          else throw "assert(container.back() == r)"
      | _, _ => throw "container.back() on an empty container"

end ParRP.Analyzer
