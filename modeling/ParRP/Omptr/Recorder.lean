import ParRP.Analyzer.ParseDag
import ParRP.Lib.Except

/-!
# The omptr DAG recorder (`omptr.h`)

An instrumented OpenMP program calls `omptr_task` before each `task` directive and
`omptr_task_wait` before each `taskwait`. Each call closes the caller's current basic
block and opens the next one; `omptr_task` also opens the first block of the new
task. `omptr_print` writes every block opened so far as one JSON record, which the
analyzer's `parse_dag` reads back.

The arrays `BBs` and `Tasks` are total maps here, with the bound checks of the source
as errors carrying its message (the process exits there). A call is one atomic step:
the counter increments inside one call are not interleaved with another thread's.

Above the recorder, a `Layout` keeps only the task and node of every block and the
block each task is in. Every run keeps a layout in which the blocks of each task are
its nodes `0, 1, …` in the order they were opened, which is what `parse_dag`'s
grouping and its control edges rely on.
-/

namespace ParRP

namespace Omptr

open Analyzer

def MAX_NUM_BB : Nat := 10000

def MAX_NUM_TASK : Nat := 10000

def MAX_TASK_CHILDREN : Nat := 10000

/-- The recorder's `struct BasicBlock`; `waitFor` is its first `numTasksWaitingFor`
entries. The defaults are those `omptr_init` writes. -/
structure Block where
  taskID : Int := 0
  nodeID : Int := 0
  taskCreated : Int := -1
  waitFor : List Int := []
  deriving DecidableEq, Repr

/-- The recorder's globals: `BBs`, the `children` of each entry of `Tasks`, and the two
counters. -/
structure Recorder where
  bbs : Nat → Block
  children : Nat → List Int
  taskCounter : Nat
  bbCounter : Nat

/-- `omptr_init`. -/
def omptrInit : Recorder where
  bbs := fun _ => {}
  children := fun _ => []
  taskCounter := 0
  bbCounter := 0

/-- `omptr_task` on the caller's block `bbId`: the first block of the new task, which
the caller passes to it, and the caller's next block. -/
def omptrTask (r : Recorder) (bbId : Nat) : Except String (Recorder × Nat × Nat) := do
  let task := (r.bbs bbId).taskID.toNat
  let newTaskId := r.taskCounter + 1
  if newTaskId ≥ MAX_NUM_TASK then throw "OMPTR ERROR: maximum number of tasks exceeds!"
  let newTaskBbId := r.bbCounter + 1
  let bbs := Function.update r.bbs newTaskBbId { r.bbs newTaskBbId with taskID := newTaskId }
  let newBbId := r.bbCounter + 2
  if newBbId ≥ MAX_NUM_BB then throw "OMPTR ERROR: maximum number of basic blocks exceeds!"
  -- `bb` points into `BBs`, so it reads the blocks as written so far
  let bbs := Function.update bbs newBbId
    { bbs newBbId with taskID := (bbs bbId).taskID, nodeID := (bbs bbId).nodeID + 1 }
  let bbs := Function.update bbs bbId { bbs bbId with taskCreated := newTaskId }
  let children := Function.update r.children task (r.children task ++ [(newTaskId : Int)])
  if (children task).length > MAX_TASK_CHILDREN then
    throw "OMPTR ERROR: maximum number of task children exceeds!"
  return ({ bbs, children, taskCounter := newTaskId, bbCounter := newBbId }, newTaskBbId, newBbId)

/-- `omptr_task_wait` on the caller's block `bbId`: the caller's next block, which waits
for every child created since the task's last `taskwait`. -/
def omptrTaskWait (r : Recorder) (bbId : Nat) : Except String (Recorder × Nat) := do
  let bb := r.bbs bbId
  let task := bb.taskID.toNat
  let newBbId := r.bbCounter + 1
  if newBbId ≥ MAX_NUM_BB then throw "OMPTR ERROR: maximum number of basic blocks exceeds!"
  let bbs := Function.update r.bbs newBbId
    { r.bbs newBbId with taskID := bb.taskID, nodeID := bb.nodeID + 1, waitFor := r.children task }
  let children := Function.update r.children task []
  return ({ r with bbs, children, bbCounter := newBbId }, newBbId)

/-- `printBasicBlockJSON`: the record of block `i`, as `from_json` reads it back. -/
def toRecord (i : Nat) (bb : Block) : BasicBlock :=
  ⟨i, bb.taskID, bb.nodeID, bb.taskCreated, bb.waitFor.length, bb.waitFor⟩

/-- `omptr_print`: the records of blocks `0` to `BB_Counter`. -/
def omptrPrint (r : Recorder) : List BasicBlock :=
  (List.range (r.bbCounter + 1)).map fun i => toRecord i (r.bbs i)

/-- A call of the instrumented program, by the task context at index `ctx`. -/
inductive Call
  | task (ctx : Nat)
  | taskWait (ctx : Nat)
  deriving DecidableEq, Repr

/-- A run of the instrumented program: the recorder and, for every task created so
far, the block its context is in (its `omptr_bb_id`). Context `0` is the main task. -/
structure Run where
  recorder : Recorder
  contexts : List Nat

/-- `OMPTR_INIT()`: the main task starts in block `0`. -/
def Run.init : Run := ⟨omptrInit, [0]⟩

/-- One call; `none` if the calling context does not exist. `OMPTR_BEFORE_TASK` passes
the new task's first block to the new context and `OMPTR_AFTER_TASK` moves the caller
to its next block. -/
def Run.step (run : Run) : Call → Option (Except String Run)
  | .task i => run.contexts[i]?.map fun bbId =>
      (fun (recorder, childBb, nextBb) => ⟨recorder, run.contexts.set i nextBb ++ [childBb]⟩) <$>
        omptrTask run.recorder bbId
  | .taskWait i => run.contexts[i]?.map fun bbId =>
      (fun (recorder, nextBb) => ⟨recorder, run.contexts.set i nextBb⟩) <$> omptrTaskWait run.recorder bbId

/-- A sequence of calls: `none` if one is not enabled, the first error if one fails. -/
def Run.run (run : Run) : List Call → Option (Except String Run)
  | [] => some (.ok run)
  | c :: cs =>
      match run.step c with
      | some (.ok run') => run'.run cs
      | some (.error msg) => some (.error msg)
      | none => none

/-- The records `OMPTR_PRINT` writes after a sequence of calls. -/
def record (calls : List Call) : Option (Except String (List BasicBlock)) :=
  (Run.init.run calls).map (·.map fun run => omptrPrint run.recorder)

/-- A program without `task` or `taskwait` directives writes the main task's one block
and `parse_dag` then fails: the graph has no edge, hence no vertex, so the container
`topological_sort` fills is empty, and `container.back()` reads past it. -/
theorem parseDag_taskless_run :
    record [] = some (.ok [⟨0, 0, 0, -1, 0, []⟩]) ∧
      ∀ topo, TopologicalSort topo →
        parseDag topo [⟨0, 0, 0, -1, 0, []⟩] = .error "container.back() on an empty container" := by
  refine ⟨rfl, fun topo hT => ?_⟩
  have hrows : groupTasks (sortBlocks [⟨0, 0, 0, -1, 0, []⟩]) = .ok [[⟨0, 0, 0, -1, 0, []⟩]] := by decide
  have hg : buildGraph [[⟨0, 0, 0, -1, 0, []⟩]] = .ok Digraph.empty := by decide
  -- the empty graph is acyclic, so the sort returns a container, of no vertex
  have hacyc : Digraph.empty.Acyclic :=
    Digraph.acyclic_of_rank _ id fun u _ h => absurd (Digraph.lt_of_adj h) (by simp [Digraph.empty, Digraph.numVertices])
  obtain ⟨order, ho⟩ := hT.acyclic_some _ hacyc
  have hnil : order = [] := List.eq_nil_of_length_eq_zero (hT.length_eq ho)
  subst hnil
  simp only [parseDag, hrows, bind, Except.bind, hg]
  simp [ho, pure, Except.pure, throw, throwThe, MonadExceptOf.throw]

/-- The task and node of every block, the last block opened, and the block each task's
context is in: what `parse_dag`'s grouping and control edges read. -/
@[ext] structure Layout where
  shape : Nat → Int × Int
  count : Nat
  contexts : List Nat

namespace Layout

/-- Open block `count + 1`, of task and node `v`. -/
def push (l : Layout) (v : Int × Int) : Layout :=
  { l with shape := Function.update l.shape (l.count + 1) v, count := l.count + 1 }

/-- A new task, numbered by its context: its first block is its node `0`. -/
def openTask (l : Layout) : Layout :=
  { l.push (l.contexts.length, 0) with contexts := l.contexts ++ [l.count + 1] }

/-- Context `i`, in block `b`, moves on to the next node of its task. -/
def openNext (l : Layout) (i b : Nat) : Layout :=
  { l.push ((l.shape b).1, (l.shape b).2 + 1) with contexts := l.contexts.set i (l.count + 1) }

/-- The nodes of task `t`'s blocks, in the order the blocks were opened. -/
def nodeIDs (l : Layout) (t : Int) : List Int :=
  ((List.range (l.count + 1)).filter fun j => (l.shape j).1 = t).map fun j => (l.shape j).2

/-- The layout a run keeps: blocks after the last one are untouched, every context is
in an opened block of its own task, every opened block belongs to a task that has a
context, and the blocks of task `t` are its nodes `0, 1, …, k` with the context in
node `k`. -/
structure Inv (l : Layout) : Prop where
  fresh : ∀ j, l.count < j → l.shape j = (0, 0)
  context : ∀ t b : Nat, l.contexts[t]? = some b → b ≤ l.count ∧ (l.shape b).1 = t
  task : ∀ j ≤ l.count, 0 ≤ (l.shape j).1 ∧ (l.shape j).1 < l.contexts.length
  nodes : ∀ t b : Nat, l.contexts[t]? = some b →
    ∃ k : Nat, (l.shape b).2 = k ∧ l.nodeIDs t = (List.range (k + 1)).map Nat.cast

@[simp] theorem push_count (l : Layout) (v : Int × Int) : (l.push v).count = l.count + 1 := rfl

@[simp] theorem push_shape_new (l : Layout) (v : Int × Int) : (l.push v).shape (l.count + 1) = v := by
  simp [push]

theorem push_shape_of_ne (l : Layout) (v : Int × Int) {j : Nat} (hj : j ≠ l.count + 1) :
    (l.push v).shape j = l.shape j := by
  simp [push, hj]

/-- Opening a block adds its node, if it is of task `t`, after `t`'s earlier nodes. -/
theorem nodeIDs_push (l : Layout) (v : Int × Int) (t : Int) :
    (l.push v).nodeIDs t = l.nodeIDs t ++ if v.1 = t then [v.2] else [] := by
  have hold : ∀ j ∈ List.range (l.count + 1), (l.push v).shape j = l.shape j := fun j hj =>
    push_shape_of_ne l v (by simp at hj; omega)
  simp only [nodeIDs, push_count, List.range_succ (n := l.count + 1), List.filter_append,
    List.map_append]
  rw [List.filter_congr fun j hj => by rw [hold j hj], List.map_congr_left fun j hj => by
    rw [hold j (List.mem_of_mem_filter hj)]]
  split <;> simp_all

/-- A task without an opened block has no node. -/
theorem nodeIDs_eq_nil {l : Layout} {t : Int} (h : ∀ j ≤ l.count, (l.shape j).1 ≠ t) :
    l.nodeIDs t = [] := by
  simp only [nodeIDs, List.map_eq_nil_iff, List.filter_eq_nil_iff, List.mem_range, decide_eq_true_eq]
  exact fun j hj => h j (by omega)

@[simp] theorem openTask_count (l : Layout) : l.openTask.count = l.count + 1 := rfl

@[simp] theorem openTask_contexts (l : Layout) : l.openTask.contexts = l.contexts ++ [l.count + 1] := rfl

@[simp] theorem openTask_shape_new (l : Layout) :
    l.openTask.shape (l.count + 1) = ((l.contexts.length : Int), 0) := push_shape_new l _

theorem openTask_shape_of_ne (l : Layout) {j : Nat} (hj : j ≠ l.count + 1) :
    l.openTask.shape j = l.shape j := push_shape_of_ne l _ hj

theorem openTask_nodeIDs (l : Layout) (t : Int) :
    l.openTask.nodeIDs t = l.nodeIDs t ++ if (l.contexts.length : Int) = t then [0] else [] :=
  nodeIDs_push l _ t

@[simp] theorem openNext_count (l : Layout) (i b : Nat) : (l.openNext i b).count = l.count + 1 := rfl

@[simp] theorem openNext_contexts (l : Layout) (i b : Nat) :
    (l.openNext i b).contexts = l.contexts.set i (l.count + 1) := rfl

@[simp] theorem openNext_shape_new (l : Layout) (i b : Nat) :
    (l.openNext i b).shape (l.count + 1) = ((l.shape b).1, (l.shape b).2 + 1) := push_shape_new l _

theorem openNext_shape_of_ne (l : Layout) (i b : Nat) {j : Nat} (hj : j ≠ l.count + 1) :
    (l.openNext i b).shape j = l.shape j := push_shape_of_ne l _ hj

theorem openNext_nodeIDs (l : Layout) (i b : Nat) (t : Int) :
    (l.openNext i b).nodeIDs t =
      l.nodeIDs t ++ if (l.shape b).1 = t then [(l.shape b).2 + 1] else [] :=
  nodeIDs_push l _ t

theorem getElem?_append_singleton {xs : List Nat} {x t b : Nat} (h : (xs ++ [x])[t]? = some b) :
    xs[t]? = some b ∨ (t = xs.length ∧ b = x) := by
  rw [List.getElem?_append] at h
  split at h
  · exact .inl h
  · right
    have ht : t - xs.length = 0 := by
      by_contra hne
      simp [List.getElem?_eq_none (by simp; omega : [x].length ≤ t - xs.length)] at h
    simp only [ht, List.getElem?_cons_zero, Option.some.injEq] at h
    exact ⟨by omega, h.symm⟩

theorem Inv.openTask {l : Layout} (h : l.Inv) : l.openTask.Inv where
  fresh j hj := by
    simp only [openTask_count] at hj
    rw [openTask_shape_of_ne _ (by omega)]
    exact h.fresh j (by omega)
  context t b hb := by
    rcases getElem?_append_singleton hb with hb | ⟨rfl, rfl⟩
    · obtain ⟨hle, htask⟩ := h.context t b hb
      exact ⟨by simp; omega, by rw [openTask_shape_of_ne _ (by omega), htask]⟩
    · simp
  task j hj := by
    simp only [openTask_count, openTask_contexts, List.length_append, List.length_singleton] at hj ⊢
    by_cases hjn : j = l.count + 1
    · subst hjn
      simp only [openTask_shape_new]
      omega
    · rw [openTask_shape_of_ne _ hjn]
      have := h.task j (by omega)
      omega
  nodes t b hb := by
    rcases getElem?_append_singleton hb with hb | ⟨rfl, rfl⟩
    · -- an old task keeps its nodes: the new block is of another task
      obtain ⟨k, hk, hnodes⟩ := h.nodes t b hb
      have ht : t < l.contexts.length := (List.getElem?_eq_some_iff.mp hb).1
      have hle := (h.context t b hb).1
      refine ⟨k, by rw [openTask_shape_of_ne _ (by omega), hk], ?_⟩
      simp [openTask_nodeIDs, hnodes, show ((l.contexts.length : Nat) : Int) ≠ t by omega]
    · -- the new task's only node is its first block
      refine ⟨0, by simp, ?_⟩
      have hnone : ∀ j ≤ l.count, (l.shape j).1 ≠ l.contexts.length := fun j hj =>
        Int.ne_of_lt (h.task j hj).2
      simp [openTask_nodeIDs, nodeIDs_eq_nil hnone]

theorem Inv.openNext {l : Layout} (h : l.Inv) {i b : Nat} (hb : l.contexts[i]? = some b) :
    (l.openNext i b).Inv := by
  obtain ⟨hble, hbtask⟩ := h.context i b hb
  obtain ⟨k, hk, hnodes⟩ := h.nodes i b hb
  have hi : i < l.contexts.length := (List.getElem?_eq_some_iff.mp hb).1
  -- a context of the new layout is context `i` in the new block, or an old one
  have hctx : ∀ t b', (l.openNext i b).contexts[t]? = some b' →
      (t = i ∧ b' = l.count + 1) ∨ (t ≠ i ∧ l.contexts[t]? = some b') := by
    intro t b' h'
    simp only [openNext_contexts, List.getElem?_set] at h'
    split at h'
    · simp only [Option.some.injEq] at h'
      exact .inl ⟨by omega, h'.symm⟩
    · exact .inr ⟨by omega, h'⟩
  refine ⟨fun j hj => ?_, fun t b' hb' => ?_, fun j hj => ?_, fun t b' hb' => ?_⟩
  · simp only [openNext_count] at hj
    rw [openNext_shape_of_ne _ _ _ (by omega)]
    exact h.fresh j (by omega)
  · rcases hctx t b' hb' with ⟨rfl, rfl⟩ | ⟨-, hb'⟩
    · simp [hbtask]
    · obtain ⟨hle, htask⟩ := h.context t b' hb'
      exact ⟨by simp; omega, by rw [openNext_shape_of_ne _ _ _ (by omega), htask]⟩
  · simp only [openNext_count, openNext_contexts, List.length_set] at hj ⊢
    by_cases hjn : j = l.count + 1
    · subst hjn
      simp only [openNext_shape_new, hbtask]
      omega
    · rw [openNext_shape_of_ne _ _ _ hjn]
      exact h.task j (by omega)
  · rcases hctx t b' hb' with ⟨rfl, rfl⟩ | ⟨hti, hb'⟩
    · -- the caller's task gains node `k + 1`
      refine ⟨k + 1, by simp [hk], ?_⟩
      simp [openNext_nodeIDs, hnodes, hbtask, hk, List.range_succ (n := k + 1)]
    · obtain ⟨k', hk', hnodes'⟩ := h.nodes t b' hb'
      have hle := (h.context t b' hb').1
      refine ⟨k', by rw [openNext_shape_of_ne _ _ _ (by omega), hk'], ?_⟩
      simp [openNext_nodeIDs, hnodes', hbtask, show (i : Int) ≠ t by omega]

theorem Inv.init : (⟨fun _ => (0, 0), 0, [0]⟩ : Layout).Inv where
  fresh _ _ := rfl
  context t b hb := by
    match t, hb with
    | 0, rfl => simp
  task _ _ := by simp
  nodes t b hb := by
    match t, hb with
    | 0, rfl => exact ⟨0, rfl, rfl⟩

end Layout

/-- The layout of a run: the task and node of every block. -/
def Run.layout (run : Run) : Layout :=
  ⟨fun j => ((run.recorder.bbs j).taskID, (run.recorder.bbs j).nodeID), run.recorder.bbCounter, run.contexts⟩

@[simp] theorem Run.layout_count (run : Run) : run.layout.count = run.recorder.bbCounter := rfl

@[simp] theorem Run.layout_contexts (run : Run) : run.layout.contexts = run.contexts := rfl

/-- The nodes the layout lists for task `t` are those of `t`'s records, in id order. -/
theorem Run.layout_nodeIDs (run : Run) (t : Int) :
    run.layout.nodeIDs t = ((omptrPrint run.recorder).filter fun rec => rec.taskID = t).map (·.nodeID) := by
  simp only [Layout.nodeIDs, omptrPrint, List.filter_map, List.map_map]
  rfl

/-- What `omptr_task` writes, seen through the layout: the child's first block takes the
new task id and the caller's next block its next node. -/
theorem omptrTask_eq_ok {r r' : Recorder} {b c n : Nat} (hb : b ≤ r.bbCounter)
    (h : omptrTask r b = .ok (r', c, n)) :
    c = r.bbCounter + 1 ∧ n = r.bbCounter + 2 ∧ r'.taskCounter = r.taskCounter + 1 ∧
      r'.bbCounter = r.bbCounter + 2 ∧ ∀ j,
        ((r'.bbs j).taskID, (r'.bbs j).nodeID) =
          if j = r.bbCounter + 1 then (((r.taskCounter + 1 : Nat) : Int), (r.bbs j).nodeID)
          else if j = r.bbCounter + 2 then ((r.bbs b).taskID, (r.bbs b).nodeID + 1)
          else ((r.bbs j).taskID, (r.bbs j).nodeID) := by
  simp only [omptrTask, except_check_eq_ok, except_pure_eq_ok, Prod.mk.injEq] at h
  obtain ⟨-, -, -, ⟨rfl, rfl, rfl, rfl⟩, rfl, rfl⟩ := h
  refine ⟨rfl, rfl, rfl, rfl, fun j => ?_⟩
  -- the caller's block is an old one, apart from both new blocks
  have hb1 : r.bbCounter + 1 ≠ b := by omega
  have hb2 : r.bbCounter + 2 ≠ b := by omega
  by_cases h1 : j = r.bbCounter + 1
  · subst h1
    simp [Function.update_apply, hb1]
  · by_cases h2 : j = r.bbCounter + 2
    · subst h2
      simp [Function.update_apply, hb2, Ne.symm hb1]
    · by_cases h3 : j = b
      · subst h3
        simp [h1, h2]
      · simp [Function.update_apply, h1, h2, h3]

/-- What `omptr_task_wait` writes, seen through the layout: the caller's next block
takes its next node. -/
theorem omptrTaskWait_eq_ok {r r' : Recorder} {b n : Nat} (h : omptrTaskWait r b = .ok (r', n)) :
    n = r.bbCounter + 1 ∧ r'.taskCounter = r.taskCounter ∧ r'.bbCounter = r.bbCounter + 1 ∧ ∀ j,
      ((r'.bbs j).taskID, (r'.bbs j).nodeID) =
        if j = r.bbCounter + 1 then ((r.bbs b).taskID, (r.bbs b).nodeID + 1)
        else ((r.bbs j).taskID, (r.bbs j).nodeID) := by
  simp only [omptrTaskWait, except_check_eq_ok, except_pure_eq_ok, Prod.mk.injEq] at h
  obtain ⟨-, rfl, rfl⟩ := h
  refine ⟨rfl, rfl, rfl, fun j => ?_⟩
  by_cases h1 : j = r.bbCounter + 1
  · subst h1
    simp
  · simp [h1]

/-- The layout after a `task` call: a new task, then the caller's next node. -/
theorem Run.layout_task {run run' : Run} {i b : Nat} (hb : run.contexts[i]? = some b)
    (hle : b ≤ run.recorder.bbCounter) (hlen : run.contexts.length = run.recorder.taskCounter + 1)
    (hfresh : (run.recorder.bbs (run.recorder.bbCounter + 1)).nodeID = 0)
    (h : run.step (.task i) = some (.ok run')) :
    run'.layout = run.layout.openTask.openNext i b ∧
      run'.recorder.taskCounter = run.recorder.taskCounter + 1 := by
  simp only [Run.step, hb, Option.map_some, Option.some.injEq, except_map_eq_ok] at h
  obtain ⟨⟨r', c, n⟩, hr, rfl⟩ := h
  obtain ⟨rfl, rfl, htask, hcount, hbbs⟩ := omptrTask_eq_ok hle hr
  have hi : i < run.contexts.length := (List.getElem?_eq_some_iff.mp hb).1
  set l := run.layout with hl
  have hlc : l.count = run.recorder.bbCounter := rfl
  have hls : ∀ j, l.shape j = ((run.recorder.bbs j).taskID, (run.recorder.bbs j).nodeID) := fun _ => rfl
  refine ⟨Layout.ext (funext fun j => ?_) (by simp [Run.layout, hcount, hlc]) ?_, htask⟩
  · show ((r'.bbs j).taskID, (r'.bbs j).nodeID) = (l.openTask.openNext i b).shape j
    rw [hbbs j]
    by_cases h1 : j = run.recorder.bbCounter + 1
    · -- the new task's first block
      rw [if_pos h1, Layout.openNext_shape_of_ne _ _ _ (by simp; omega), h1, ← hlc, Layout.openTask_shape_new]
      simp [show l.contexts = run.contexts from rfl, hlc, hlen, hfresh]
    · by_cases h2 : j = run.recorder.bbCounter + 2
      · -- the caller's next block
        rw [if_neg h1, if_pos h2, h2, ← hlc]
        rw [show l.count + 2 = l.openTask.count + 1 by simp, Layout.openNext_shape_new,
          Layout.openTask_shape_of_ne _ (by omega), hls]
      · rw [if_neg h1, if_neg h2, Layout.openNext_shape_of_ne _ _ _ (by simp; omega),
          Layout.openTask_shape_of_ne _ (by omega), hls]
  · simp [Run.layout, hl, List.set_append_left _ _ hi]

/-- The layout after a `taskwait` call: the caller's next node. -/
theorem Run.layout_taskWait {run run' : Run} {i b : Nat} (hb : run.contexts[i]? = some b)
    (h : run.step (.taskWait i) = some (.ok run')) :
    run'.layout = run.layout.openNext i b ∧ run'.recorder.taskCounter = run.recorder.taskCounter := by
  simp only [Run.step, hb, Option.map_some, Option.some.injEq, except_map_eq_ok] at h
  obtain ⟨⟨r', n⟩, hr, rfl⟩ := h
  obtain ⟨rfl, htask, hcount, hbbs⟩ := omptrTaskWait_eq_ok hr
  set l := run.layout
  have hlc : l.count = run.recorder.bbCounter := rfl
  have hls : ∀ j, l.shape j = ((run.recorder.bbs j).taskID, (run.recorder.bbs j).nodeID) := fun _ => rfl
  refine ⟨Layout.ext (funext fun j => ?_) (by simp [Run.layout, hcount, hlc]) rfl, htask⟩
  show ((r'.bbs j).taskID, (r'.bbs j).nodeID) = (l.openNext i b).shape j
  rw [hbbs j]
  by_cases h1 : j = run.recorder.bbCounter + 1
  · rw [if_pos h1, h1, ← hlc, Layout.openNext_shape_new, hls]
  · rw [if_neg h1, Layout.openNext_shape_of_ne _ _ _ (by omega), hls]

/-- What every run keeps: its layout's invariant, and one context for each task id
handed out. -/
structure Run.Inv (run : Run) : Prop where
  layout : run.layout.Inv
  contexts_length : run.contexts.length = run.recorder.taskCounter + 1

theorem Run.Inv.init : Run.init.Inv := ⟨Layout.Inv.init, rfl⟩

theorem Run.Inv.step {run run' : Run} {c : Call} (h : run.Inv) (hs : run.step c = some (.ok run')) :
    run'.Inv := by
  -- the calling context exists, or the call is not enabled
  have hctx : ∀ i, (c = .task i ∨ c = .taskWait i) → ∃ b, run.contexts[i]? = some b := by
    rintro i hc
    cases hb : run.contexts[i]? with
    | none => rcases hc with rfl | rfl <;> simp [Run.step, hb] at hs
    | some b => exact ⟨b, rfl⟩
  cases c with
  | task i =>
      obtain ⟨b, hb⟩ := hctx i (.inl rfl)
      have hi : i < run.contexts.length := (List.getElem?_eq_some_iff.mp hb).1
      have hfresh : (run.recorder.bbs (run.recorder.bbCounter + 1)).nodeID = 0 :=
        congrArg Prod.snd (h.layout.fresh _ (Nat.lt_succ_self _))
      obtain ⟨hl, htask⟩ := Run.layout_task hb (h.layout.context i b hb).1 h.contexts_length hfresh hs
      have hb' : run.layout.openTask.contexts[i]? = some b := by
        simp [List.getElem?_append_left hi, hb]
      have hlen : run'.contexts.length = run.contexts.length + 1 := by
        simpa using congrArg (·.contexts.length) hl
      exact ⟨hl ▸ h.layout.openTask.openNext hb', by rw [hlen, htask, h.contexts_length]⟩
  | taskWait i =>
      obtain ⟨b, hb⟩ := hctx i (.inr rfl)
      obtain ⟨hl, htask⟩ := Run.layout_taskWait hb hs
      have hlen : run'.contexts.length = run.contexts.length := by
        simpa using congrArg (·.contexts.length) hl
      exact ⟨hl ▸ h.layout.openNext hb, by rw [hlen, htask, h.contexts_length]⟩

theorem Run.Inv.run {run run' : Run} {cs : List Call} (h : run.Inv) (hr : run.run cs = some (.ok run')) :
    run'.Inv := by
  induction cs generalizing run with
  | nil =>
      cases hr
      exact h
  | cons c cs ih =>
      simp only [Run.run] at hr
      split at hr
      · next run₁ hs => exact ih (h.step hs) hr
      · cases hr
      · cases hr

/-- Every run of an instrumented program writes records numbered `0, 1, …` in order,
of the tasks `0, …, T`, and the records of each task are its nodes `0, 1, …, k` in the
order of their ids: `basic_blocks_2d[taskID][nodeID - 1]`, which `parse_dag` reads as a
block's control predecessor, is the block the task was in before it. -/
theorem record_nodes_contiguous {calls : List Call} {records : List BasicBlock}
    (h : record calls = some (.ok records)) :
    records.map (·.ID) = (List.range records.length).map Nat.cast ∧
      ∃ T : Nat, (∀ rec ∈ records, 0 ≤ rec.taskID ∧ rec.taskID ≤ T) ∧
        ∀ t ≤ T, ∃ k : Nat,
          (records.filter fun rec => rec.taskID = (t : Int)).map (·.nodeID) =
            (List.range (k + 1)).map Nat.cast := by
  simp only [record, Option.map_eq_some_iff] at h
  obtain ⟨r, hrun, hmap⟩ := h
  cases r with
  | error msg => cases hmap
  | ok run =>
  cases hmap
  have hinv := Run.Inv.init.run hrun
  refine ⟨by simp [omptrPrint, toRecord, Function.comp_def], run.recorder.taskCounter, ?_, fun t ht => ?_⟩
  · -- every record is of a task that has a context
    intro rec hrec
    simp only [omptrPrint, List.mem_map, List.mem_range] at hrec
    obtain ⟨j, hj, rfl⟩ := hrec
    have := hinv.layout.task j (by simpa using Nat.lt_succ_iff.mp hj)
    simp only [Run.layout, hinv.contexts_length] at this
    simp only [toRecord]
    omega
  · -- task `t` has a context, whose node is its last one
    obtain ⟨b, hb⟩ : ∃ b, run.contexts[t]? = some b :=
      ⟨_, List.getElem?_eq_getElem (by rw [hinv.contexts_length]; omega)⟩
    obtain ⟨k, -, hnodes⟩ := hinv.layout.nodes t b hb
    exact ⟨k, by rw [← Run.layout_nodeIDs, hnodes]⟩

/-- The main task creates task 1, which creates task 2 and waits for it; then the main
task waits for task 1. -/
def nestedCalls : List Call := [.task 0, .task 1, .taskWait 1, .taskWait 0]

/-- The records of `nestedCalls`: blocks 0, 2, 6 of the main task, 1, 4, 5 of task 1
and 3 of task 2. -/
def nestedRecords : List BasicBlock :=
  [⟨0, 0, 0, 1, 0, []⟩, ⟨1, 1, 0, 2, 0, []⟩, ⟨2, 0, 1, -1, 0, []⟩, ⟨3, 2, 0, -1, 0, []⟩,
    ⟨4, 1, 1, -1, 0, []⟩, ⟨5, 1, 2, -1, 1, [2]⟩, ⟨6, 0, 2, -1, 1, [1]⟩]

theorem nestedRecords_nodes_contiguous :
    record nestedCalls = some (.ok nestedRecords) ∧
      nestedRecords.map (·.ID) = (List.range nestedRecords.length).map Nat.cast ∧
        ∃ T : Nat, (∀ rec ∈ nestedRecords, 0 ≤ rec.taskID ∧ rec.taskID ≤ T) ∧
          ∀ t ≤ T, ∃ k : Nat,
            (nestedRecords.filter fun rec => rec.taskID = (t : Int)).map (·.nodeID) =
              (List.range (k + 1)).map Nat.cast :=
  have h : record nestedCalls = some (.ok nestedRecords) := by decide
  ⟨h, record_nodes_contiguous h⟩

/-! ## The cells the recorder indexes

`BBs`, `Tasks`, the `children` of a task and the `waitFor` of a block are arrays of
`MAX_NUM_BB`, `MAX_NUM_TASK` and `MAX_TASK_CHILDREN` entries. A call touches the cells
below, in this order, until it returns or exits; `bb` and `task` are pointers, so a
cell is touched where a field is read or written through them. -/

/-- The arrays of `omptr.h`. -/
inductive Arr
  | BBs
  | Tasks
  | children
  | waitFor
  deriving DecidableEq, Repr

/-- The number of entries of each array. -/
def Arr.size : Arr → Nat
  | .BBs => MAX_NUM_BB
  | .Tasks => MAX_NUM_TASK
  | .children => MAX_TASK_CHILDREN
  | .waitFor => MAX_TASK_CHILDREN

/-- The cells `omptr_task` touches before it returns or exits. -/
def omptrTaskCells (r : Recorder) (bbId : Nat) : List (Arr × Nat) :=
  let task := (r.bbs bbId).taskID.toNat
  (.BBs, bbId) ::
    if r.taskCounter + 1 ≥ MAX_NUM_TASK then [] else
      -- `new_task_bb->taskID` is written before `new_bb_id` is checked
      (.BBs, r.bbCounter + 1) ::
        if r.bbCounter + 2 ≥ MAX_NUM_BB then [] else
          [(.BBs, r.bbCounter + 2), (.Tasks, task), (.children, (r.children task).length)]

/-- The cells `omptr_task_wait` touches before it returns or exits. -/
def omptrTaskWaitCells (r : Recorder) (bbId : Nat) : List (Arr × Nat) :=
  let task := (r.bbs bbId).taskID.toNat
  (.BBs, bbId) ::
    if r.bbCounter + 1 ≥ MAX_NUM_BB then [] else
      (.BBs, r.bbCounter + 1) :: (.Tasks, task) ::
        (List.range (r.children task).length).flatMap fun i => [(.waitFor, i), (.children, i)]

/-- `taskwait`s of the main task alone: each opens the next block. -/
theorem Run.run_taskWaits (run : Run) (hctx : run.contexts = [run.recorder.bbCounter]) (k : Nat)
    (hk : run.recorder.bbCounter + k < MAX_NUM_BB) :
    ∃ run', run.run (List.replicate k (.taskWait 0)) = some (.ok run') ∧
      run'.recorder.bbCounter = run.recorder.bbCounter + k ∧
      run'.contexts = [run'.recorder.bbCounter] ∧ run'.recorder.taskCounter = run.recorder.taskCounter := by
  induction k generalizing run with
  | zero => exact ⟨run, rfl, rfl, hctx, rfl⟩
  | succ k ih =>
      -- the first `taskwait` opens block `bbCounter + 1`
      have hcheck : ¬ (run.recorder.bbCounter + 1 ≥ MAX_NUM_BB) := by omega
      set run₁ : Run := ⟨{ run.recorder with
          bbs := Function.update run.recorder.bbs (run.recorder.bbCounter + 1)
            { run.recorder.bbs (run.recorder.bbCounter + 1) with
              taskID := (run.recorder.bbs run.recorder.bbCounter).taskID
              nodeID := (run.recorder.bbs run.recorder.bbCounter).nodeID + 1
              waitFor := run.recorder.children (run.recorder.bbs run.recorder.bbCounter).taskID.toNat }
          children := Function.update run.recorder.children
            (run.recorder.bbs run.recorder.bbCounter).taskID.toNat []
          bbCounter := run.recorder.bbCounter + 1 }, [run.recorder.bbCounter + 1]⟩ with hrun₁
      have hstep : run.step (.taskWait 0) = some (.ok run₁) := by
        simp [Run.step, hctx, omptrTaskWait, hcheck, hrun₁, Functor.map, Except.map, pure, Except.pure]
      obtain ⟨run', hrun', hbb, hctx', htask⟩ := ih run₁ rfl (by simp [hrun₁]; omega)
      refine ⟨run', ?_, by rw [hbb]; simp [hrun₁]; omega, hctx', by rw [htask]⟩
      simp only [List.replicate_succ, Run.run, hstep]
      exact hrun'

/-- `MAX_NUM_BB - 1` `taskwait`s of the main task take `BB_Counter` to its last
value. An `omptr_task` call then writes `BBs[MAX_NUM_BB]`, one past the array, for the
child's first block, and only afterwards exits on the check of `new_bb_id`. -/
theorem omptrTask_writes_past_BBs :
    ∃ run : Run, Run.init.run (List.replicate (MAX_NUM_BB - 1) (.taskWait 0)) = some (.ok run) ∧
      run.contexts = [MAX_NUM_BB - 1] ∧
      (Arr.BBs, MAX_NUM_BB) ∈ omptrTaskCells run.recorder (MAX_NUM_BB - 1) ∧
      run.step (.task 0) = some (.error "OMPTR ERROR: maximum number of basic blocks exceeds!") := by
  obtain ⟨run, hrun, hbb, hctx, htask⟩ := Run.run_taskWaits Run.init rfl (MAX_NUM_BB - 1)
    (by decide)
  have hbb' : run.recorder.bbCounter = MAX_NUM_BB - 1 := by simpa [Run.init, omptrInit] using hbb
  have htask' : run.recorder.taskCounter = 0 := by simpa [Run.init, omptrInit] using htask
  refine ⟨run, hrun, by rw [hctx, hbb'], ?_, ?_⟩
  · simp [omptrTaskCells, hbb', htask', MAX_NUM_TASK, MAX_NUM_BB]
  · simp [Run.step, hctx, hbb', omptrTask, htask', MAX_NUM_TASK, MAX_NUM_BB, Functor.map, Except.map,
      bind, Except.bind, throw, throwThe, MonadExceptOf.throw]

/-- What `omptr_task` checks and what it does to the children lists. -/
theorem omptrTask_eq_ok_bounds {r r' : Recorder} {b c n : Nat} (h : omptrTask r b = .ok (r', c, n)) :
    r.taskCounter + 1 < MAX_NUM_TASK ∧ r.bbCounter + 2 < MAX_NUM_BB ∧ ∀ t,
      r'.children t = if t = (r.bbs b).taskID.toNat then r.children t ++ [((r.taskCounter + 1 : Nat) : Int)]
        else r.children t := by
  simp only [omptrTask, except_check_eq_ok, except_pure_eq_ok, Prod.mk.injEq] at h
  obtain ⟨htask, hbb, -, ⟨-, rfl, -, -⟩, -, -⟩ := h
  refine ⟨by omega, by omega, fun t => ?_⟩
  by_cases ht : t = (r.bbs b).taskID.toNat
  · subst ht
    simp
  · simp [ht]

/-- What `omptr_task_wait` checks and what it does to the children lists. -/
theorem omptrTaskWait_eq_ok_bounds {r r' : Recorder} {b n : Nat} (h : omptrTaskWait r b = .ok (r', n)) :
    r.bbCounter + 1 < MAX_NUM_BB ∧
      ∀ t, r'.children t = if t = (r.bbs b).taskID.toNat then [] else r.children t := by
  simp only [omptrTaskWait, except_check_eq_ok, except_pure_eq_ok, Prod.mk.injEq] at h
  obtain ⟨hbb, rfl, -⟩ := h
  exact ⟨by omega, fun t => by simp [Function.update_apply]⟩

/-- What keeps a run's indices in range: both counters below their limits, every
context in an opened block, the task of every block handed out, and no task with more
children than tasks handed out. -/
structure Run.Bounds (run : Run) : Prop where
  bbCounter_lt : run.recorder.bbCounter < MAX_NUM_BB
  taskCounter_lt : run.recorder.taskCounter < MAX_NUM_TASK
  contexts : ∀ b ∈ run.contexts, b ≤ run.recorder.bbCounter
  taskID : ∀ j, 0 ≤ (run.recorder.bbs j).taskID ∧ (run.recorder.bbs j).taskID ≤ run.recorder.taskCounter
  children : ∀ t, (run.recorder.children t).length ≤ run.recorder.taskCounter

theorem Run.Bounds.init : Run.init.Bounds where
  bbCounter_lt := by decide
  taskCounter_lt := by decide
  contexts b hb := by simp_all [Run.init, omptrInit]
  taskID _ := by simp [Run.init, omptrInit]
  children _ := by simp [Run.init, omptrInit]

theorem Run.Bounds.step {run run' : Run} {c : Call} (h : run.Bounds) (hs : run.step c = some (.ok run')) :
    run'.Bounds := by
  cases c with
  | task i =>
      obtain ⟨b, hb, hs⟩ := Option.map_eq_some_iff.mp hs
      obtain ⟨⟨r', c, n⟩, hr, rfl⟩ := except_map_eq_ok.mp hs
      have hble := h.contexts b (List.mem_of_getElem? hb)
      obtain ⟨htask, hbb, hchildren⟩ := omptrTask_eq_ok_bounds hr
      obtain ⟨rfl, rfl, htc, hbc, hbbs⟩ := omptrTask_eq_ok hble hr
      -- the task ids of the new blocks are the new task's and the caller's
      have hid : ∀ j, (r'.bbs j).taskID = if j = run.recorder.bbCounter + 1 then ((run.recorder.taskCounter + 1 : Nat) : Int)
          else if j = run.recorder.bbCounter + 2 then (run.recorder.bbs b).taskID else (run.recorder.bbs j).taskID := by
        intro j
        have := congrArg Prod.fst (hbbs j)
        split_ifs at this ⊢ <;> exact this
      refine ⟨by dsimp only; omega, by dsimp only; omega, fun x hx => ?_, fun j => ?_, fun t => ?_⟩ <;>
        dsimp only at *
      · simp only [List.mem_append, List.mem_singleton] at hx
        rcases hx with hx | rfl
        · rcases List.mem_or_eq_of_mem_set hx with hx | rfl
          · have := h.contexts x hx
            omega
          · omega
        · omega
      · have hb' := h.taskID b
        have hj := h.taskID j
        rw [hid j, htc]
        split_ifs <;> omega
      · rw [hchildren t, htc]
        have := h.children t
        split_ifs <;> simp <;> omega
  | taskWait i =>
      obtain ⟨b, hb, hs⟩ := Option.map_eq_some_iff.mp hs
      obtain ⟨⟨r', n⟩, hr, rfl⟩ := except_map_eq_ok.mp hs
      obtain ⟨hbb, hchildren⟩ := omptrTaskWait_eq_ok_bounds hr
      obtain ⟨rfl, htc, hbc, hbbs⟩ := omptrTaskWait_eq_ok hr
      refine ⟨by dsimp only; omega, by dsimp only; rw [htc]; exact h.taskCounter_lt, fun x hx => ?_,
        fun j => ?_, fun t => ?_⟩ <;> dsimp only at *
      · rcases List.mem_or_eq_of_mem_set hx with hx | rfl
        · have := h.contexts x hx
          omega
        · omega
      · have := congrArg Prod.fst (hbbs j)
        simp only at this
        rw [this, htc]
        split_ifs
        · exact h.taskID b
        · exact h.taskID j
      · rw [hchildren t, htc]
        split_ifs
        · simp
        · exact h.children t

theorem Run.Bounds.run {run run' : Run} {cs : List Call} (h : run.Bounds) (hr : run.run cs = some (.ok run')) :
    run'.Bounds := by
  induction cs generalizing run with
  | nil =>
      cases hr
      exact h
  | cons c cs ih =>
      simp only [Run.run] at hr
      split at hr
      · next run₁ hs => exact ih (h.step hs) hr
      · cases hr
      · cases hr

/-- In every run, every call indexes inside the arrays but for one cell: `omptr_task`
writes `BBs[BB_Counter + 1]` before it checks the counter, and that cell is
`BBs[MAX_NUM_BB]` once `BB_Counter` has reached `MAX_NUM_BB - 1`. `omptr_print` reads
the blocks `0` to `BB_Counter`, all inside `BBs`. -/
theorem recorder_cells_in_bounds {calls : List Call} {run : Run} (h : Run.init.run calls = some (.ok run))
    {b : Nat} (hb : b ∈ run.contexts) :
    (∀ c ∈ omptrTaskCells run.recorder b,
      c.2 < c.1.size ∨ (c = (.BBs, MAX_NUM_BB) ∧ run.recorder.bbCounter = MAX_NUM_BB - 1)) ∧
      (∀ c ∈ omptrTaskWaitCells run.recorder b, c.2 < c.1.size) ∧
      run.recorder.bbCounter < MAX_NUM_BB := by
  have hbd := Run.Bounds.init.run h
  have hble := hbd.contexts b hb
  -- the caller's task, and the number of its children, are below the task limit
  have htask := hbd.taskID b
  have hlen := hbd.children (run.recorder.bbs b).taskID.toNat
  have htc := hbd.taskCounter_lt
  have hbc := hbd.bbCounter_lt
  refine ⟨fun c hc => ?_, fun c hc => ?_, hbc⟩
  · simp only [omptrTaskCells, List.mem_cons] at hc
    rcases hc with rfl | hc
    · exact .inl (lt_of_le_of_lt hble hbc)
    · split_ifs at hc with h1 h2
      · simp at hc
      · simp only [List.mem_cons, List.not_mem_nil, or_false] at hc
        rcases hc with rfl
        by_cases hlast : run.recorder.bbCounter = MAX_NUM_BB - 1
        · exact .inr ⟨by simp [hlast, MAX_NUM_BB], hlast⟩
        · exact .inl (by simp [Arr.size]; omega)
      · simp only [List.mem_cons, List.not_mem_nil, or_false] at hc
        rcases hc with rfl | rfl | rfl | rfl <;> left <;> simp [Arr.size, MAX_TASK_CHILDREN] <;>
          simp [MAX_NUM_TASK, MAX_NUM_BB] at * <;> omega
  · simp only [omptrTaskWaitCells, List.mem_cons] at hc
    rcases hc with rfl | hc
    · exact lt_of_le_of_lt hble hbc
    · split_ifs at hc with h1
      · simp at hc
      · simp only [List.mem_cons, List.mem_flatMap, List.mem_range, List.not_mem_nil, or_false] at hc
        rcases hc with rfl | rfl | ⟨i, hi, rfl | rfl⟩ <;> simp [Arr.size, MAX_TASK_CHILDREN] <;>
          simp [MAX_NUM_TASK, MAX_NUM_BB] at * <;> omega

/-- The run of `nestedCalls`. -/
def nestedRun : Run :=
  match Run.init.run nestedCalls with
  | some (.ok run) => run
  | _ => Run.init

theorem nestedRun_cells_in_bounds :
    Run.init.run nestedCalls = some (.ok nestedRun) ∧ 6 ∈ nestedRun.contexts ∧
      (∀ c ∈ omptrTaskCells nestedRun.recorder 6,
        c.2 < c.1.size ∨ (c = (.BBs, MAX_NUM_BB) ∧ nestedRun.recorder.bbCounter = MAX_NUM_BB - 1)) ∧
      (∀ c ∈ omptrTaskWaitCells nestedRun.recorder 6, c.2 < c.1.size) ∧
      nestedRun.recorder.bbCounter < MAX_NUM_BB :=
  have h : Run.init.run nestedCalls = some (.ok nestedRun) := rfl
  have hb : 6 ∈ nestedRun.contexts := by decide
  ⟨h, hb, recorder_cells_in_bounds h hb⟩

end Omptr

end ParRP
