import ParRP.Analyzer.ParseDag

/-! # The fast transitive-closure routine

`connected_components(g, root, c_map)` runs an explicit-stack DFS from `root`.
Each iteration of its `while` loop looks at the top vertex, pushes every
undiscovered child at once, and finishes the top vertex only when all its
children are done: it then ORs the children's rows into its own row and pops.

The vectors `discovered`, `done` and `c_map` are modelled as functions on vertex
indices; every index the loop reads or writes is a vertex of `g`. The loop is
run with fuel: `ccLoop` returns `none` when the fuel is spent before the stack
empties.
-/

namespace ParRP.Analyzer

open ParRP.Digraph

/-- The local state of `connected_components`; the head of `stack` is its top. -/
structure CcState where
  stack : List Nat
  discovered : Nat → Bool
  done : Nat → Bool
  cMap : Nat → Nat → Bool

/-- One round of the first out-edge loop: an undiscovered target is pushed and marked. -/
def pushChild (acc : List Nat × (Nat → Bool)) (t : Nat) : List Nat × (Nat → Bool) :=
  if acc.2 t then acc else (t :: acc.1, Function.update acc.2 t true)

/-- The first loop over the out-edges. -/
def pushChildren (outs : List Nat) (stack : List Nat) (discovered : Nat → Bool) :
    List Nat × (Nat → Bool) :=
  outs.foldl pushChild (stack, discovered)

/-- One round of the inner loop: `if (c_map[target][i]) c_map[current][i] = true`. -/
def orEntry (current target : Nat) (c : Nat → Nat → Bool) (i : Nat) : Nat → Nat → Bool :=
  if c target i then Function.update c current (Function.update (c current) i true) else c

/-- `c_map[current][target] = true`, then the row of `target` is ORed into the row of
`current` over the indices `0, …, n - 1`. -/
def mergeRow (n current target : Nat) (cMap : Nat → Nat → Bool) : Nat → Nat → Bool :=
  (List.range n).foldl (orEntry current target)
    (Function.update cMap current (Function.update (cMap current) target true))

/-- One iteration of the `while` loop. -/
def ccStep (g : Digraph) (s : CcState) : CcState :=
  match s.stack with
  | [] => s
  | current :: _ =>
      let outs := g.out current
      let pushed := pushChildren outs s.stack s.discovered
      if outs.all s.done then
        { stack := pushed.1.tail, discovered := pushed.2,
          done := Function.update s.done current true,
          cMap := outs.foldl (fun c t => mergeRow g.numVertices current t c) s.cMap }
      else { s with stack := pushed.1, discovered := pushed.2 }

/-- The `while (!dfs_stack.empty())` loop with `fuel` iterations at most. -/
def ccLoop (g : Digraph) : Nat → CcState → Option CcState
  | 0, _ => none
  | fuel + 1, s => if s.stack.isEmpty then some s else ccLoop g fuel (ccStep g s)

/-- The state on entry to the loop: the root is pushed and discovered. -/
def ccInit (root : Nat) (cMap : Nat → Nat → Bool) : CcState :=
  ⟨[root], Function.update (fun _ => false) root true, fun _ => false, cMap⟩

/-- `connected_components(g, root, c_map)`: the final `c_map` when the loop ends
within `fuel` iterations. -/
def connectedComponents (g : Digraph) (root : Nat) (cMap : Nat → Nat → Bool) (fuel : Nat) :
    Option (Nat → Nat → Bool) :=
  (ccLoop g fuel (ccInit root cMap)).map CcState.cMap

end ParRP.Analyzer

namespace ParRP.Analyzer

open ParRP.Digraph

theorem ccLoop_succ_of_ne_nil (g : Digraph) (fuel : Nat) {s : CcState} (hs : s.stack ≠ []) :
    ccLoop g (fuel + 1) s = ccLoop g fuel (ccStep g s) := by
  cases h : s.stack with
  | nil => exact absurd h hs
  | cons _ _ => simp [ccLoop, h]

/-- A loop whose stack never empties never ends, whatever the fuel. -/
theorem ccLoop_eq_none_of_stack_ne_nil (g : Digraph) {s : CcState}
    (hs : ∀ k, ((ccStep g)^[k] s).stack ≠ []) (fuel : Nat) : ccLoop g fuel s = none := by
  induction fuel generalizing s with
  | zero => rfl
  | succ fuel ih =>
      rw [ccLoop_succ_of_ne_nil g fuel (by simpa using hs 0)]
      exact ih fun k => by
        rw [← Function.iterate_succ_apply]
        exact hs (k + 1)

theorem pushChildren_of_discovered {outs stack : List Nat} {discovered : Nat → Bool}
    (h : ∀ t ∈ outs, discovered t = true) :
    pushChildren outs stack discovered = (stack, discovered) := by
  unfold pushChildren
  induction outs with
  | nil => rfl
  | cons t outs ih =>
      rw [List.foldl_cons, pushChild, if_pos (h t List.mem_cons_self)]
      exact ih fun t' ht' => h t' (List.mem_cons_of_mem t ht')

/-- The defect of the fast routine: a top vertex whose children are all discovered,
one of them not yet done, is left exactly as it is, so the loop makes no progress.
A child lying lower on the stack is never brought back to the top. -/
theorem ccStep_stuck (g : Digraph) {s : CcState} {current : Nat} {rest : List Nat}
    (hs : s.stack = current :: rest) (hdisc : ∀ t ∈ g.out current, s.discovered t = true)
    (hpending : ∃ t ∈ g.out current, s.done t = false) : ccStep g s = s := by
  obtain ⟨t, ht, hnd⟩ := hpending
  have hall : (g.out current).all s.done = false := by
    rw [List.all_eq_false]
    exact ⟨t, ht, by simp [hnd]⟩
  simp only [ccStep, hs, hall, pushChildren_of_discovered hdisc]
  simp [← hs]

/-- The records of a task `0` whose nodes `0` and `1` both create task `1` and whose
node `2` waits for it. `parse_dag` turns them into `crossEdgeDag`. -/
def crossEdgeBlocks : List BasicBlock :=
  [⟨0, 0, 0, 1, 0, []⟩, ⟨1, 1, 0, -1, 0, []⟩, ⟨2, 0, 1, 1, 0, []⟩, ⟨3, 0, 2, -1, 1, [1]⟩]

/-- Edges `0 → 1, 0 → 2, 2 → 1, 2 → 3, 1 → 3`: vertex `1` is pushed below `2`, and
`2` waits for it. -/
def crossEdgeDag : Digraph := ⟨[[1, 2], [3], [1, 3], []]⟩

theorem crossEdgeDag_acyclic : crossEdgeDag.Acyclic := by
  apply acyclic_of_rank crossEdgeDag (fun v => [0, 2, 1, 3].getD v 0)
  intro u v h
  have hu : u < 4 := lt_of_adj h
  interval_cases u <;> simp [Adj, out, crossEdgeDag] at h <;> rcases h with rfl | rfl <;> decide

/-- `parse_dag` accepts the records, whichever topological sort `boost` returns:
the sorted container starts at the only sink `3` and ends at the only source `0`. -/
theorem parseDag_crossEdgeBlocks {topo : Digraph → Option (List Nat)}
    (hT : TopologicalSort topo) :
    parseDag topo crossEdgeBlocks = .ok ⟨crossEdgeDag, 0, 3, 2⟩ := by
  have hrows : groupTasks (sortBlocks crossEdgeBlocks) =
      pure [[⟨0, 0, 0, 1, 0, []⟩, ⟨2, 0, 1, 1, 0, []⟩, ⟨3, 0, 2, -1, 1, [1]⟩],
        [⟨1, 1, 0, -1, 0, []⟩]] := by decide
  have hg : buildGraph [[⟨0, 0, 0, 1, 0, []⟩, ⟨2, 0, 1, 1, 0, []⟩, ⟨3, 0, 2, -1, 1, [1]⟩],
      [⟨1, 1, 0, -1, 0, []⟩]] = pure crossEdgeDag := by decide
  obtain ⟨order, ho⟩ := hT.acyclic_some _ crossEdgeDag_acyclic
  have hmem : ∀ v, v ∈ order ↔ v < 4 := hT.mem_iff _ _ ho
  have hne : order ≠ [] := List.ne_nil_of_mem ((hmem 0).mpr (by omega))
  obtain ⟨x, hx⟩ := Option.isSome_iff_exists.mp (List.isSome_head?.mpr hne)
  obtain ⟨y, hy⟩ := Option.isSome_iff_exists.mp (List.getLast?_isSome.mpr hne)
  -- the first vertex is a sink, and only `3` is one
  have hx3 : x = 3 := by
    have hxlt : x < 4 := (hmem x).mp (List.mem_of_mem_head? hx)
    have hsink := hT.head_no_succ ho hx
    interval_cases x
    · exact absurd (by decide) (hsink 1)
    · exact absurd (by decide) (hsink 3)
    · exact absurd (by decide) (hsink 1)
    · rfl
  -- the last vertex is a source, and only `0` is one
  have hy0 : y = 0 := by
    have hylt : y < 4 := (hmem y).mp (List.mem_of_getLast? hy)
    have hsource := hT.getLast_no_pred ho hy
    interval_cases y
    · rfl
    · exact absurd (by decide) (hsource 0)
    · exact absurd (by decide) (hsource 0)
    · exact absurd (by decide) (hsource 2)
  subst hx3 hy0
  simp only [parseDag, hrows, hg, ho, hx, hy, pure_bind]
  rfl

theorem connectedComponents_crossEdgeDag_diverges :
    (∀ topo, TopologicalSort topo → parseDag topo crossEdgeBlocks = .ok ⟨crossEdgeDag, 0, 3, 2⟩) ∧
    crossEdgeDag.Acyclic ∧
    (∀ v, v < crossEdgeDag.numVertices → v ≠ 0 → crossEdgeDag.Reach 0 v) ∧
    ∀ fuel, connectedComponents crossEdgeDag 0 (fun _ _ => false) fuel = none := by
  refine ⟨fun _ hT => parseDag_crossEdgeBlocks hT, crossEdgeDag_acyclic, ?_, ?_⟩
  · intro v hv hv0
    have h02 : crossEdgeDag.Reach 0 2 := Reach.single (by decide)
    have h23 : crossEdgeDag.Reach 2 3 := Reach.single (by decide)
    replace hv : v < 4 := hv
    interval_cases v
    · exact absurd rfl hv0
    · exact Reach.single (by decide)
    · exact h02
    · exact h02.trans h23
  · intro fuel
    let s₃ := (ccStep crossEdgeDag)^[3] (ccInit 0 fun _ _ => false)
    -- after three iterations vertex `2` is on top, and its child `1` is pending below it
    have hfix : ccStep crossEdgeDag s₃ = s₃ :=
      @ccStep_stuck crossEdgeDag s₃ 2 [1, 0] (by decide)
        (by intro t ht; simp [crossEdgeDag, out] at ht; rcases ht with rfl | rfl <;> decide)
        ⟨1, by decide, by decide⟩
    have hstack : ∀ k, ((ccStep crossEdgeDag)^[k] (ccInit 0 fun _ _ => false)).stack ≠ [] := by
      intro k
      by_cases hk : k < 3
      · interval_cases k <;> decide
      · obtain ⟨j, rfl⟩ : ∃ j, k = j + 3 := ⟨k - 3, by omega⟩
        rw [Function.iterate_add_apply, Function.iterate_fixed hfix]
        decide
    simp [connectedComponents, ccLoop_eq_none_of_stack_ne_nil crossEdgeDag hstack fuel]

/-! ## What a finished run computes -/

theorem pushChildren_discovered (outs stack : List Nat) (discovered : Nat → Bool) (x : Nat) :
    (pushChildren outs stack discovered).2 x = (discovered x || decide (x ∈ outs)) := by
  unfold pushChildren
  induction outs generalizing stack discovered with
  | nil => simp
  | cons t outs ih =>
      rw [List.foldl_cons, pushChild]
      split
      · case isTrue ht =>
        rw [ih]
        by_cases hx : x = t
        · subst hx
          simp only at ht
          simp [ht]
        · simp [hx]
      · rw [ih]
        by_cases hx : x = t <;> simp [hx]

/-- The pushed vertices are exactly the undiscovered targets, each pushed once. -/
theorem pushChildren_stack (outs stack : List Nat) (discovered : Nat → Bool) :
    ∃ new, (pushChildren outs stack discovered).1 = new ++ stack ∧ new.Nodup ∧
      (∀ x ∈ new, x ∈ outs ∧ discovered x = false) ∧
      (∀ x ∈ outs, discovered x = false → x ∈ new) := by
  unfold pushChildren
  induction outs generalizing stack discovered with
  | nil => exact ⟨[], rfl, List.nodup_nil, by simp, by simp⟩
  | cons t outs ih =>
      rw [List.foldl_cons, pushChild]
      split
      · case isTrue ht =>
        obtain ⟨new, hs, hnd, hnew, hall⟩ := ih stack discovered
        refine ⟨new, hs, hnd, fun x hx => ⟨List.mem_cons_of_mem t (hnew x hx).1, (hnew x hx).2⟩, ?_⟩
        intro x hx hd
        rcases List.mem_cons.mp hx with rfl | hx
        · simp [hd] at ht
        · exact hall x hx hd
      · case isFalse ht =>
        obtain ⟨new, hs, hnd, hnew, hall⟩ := ih (t :: stack) (Function.update discovered t true)
        have hnt : t ∉ new := fun h => by simpa using (hnew t h).2
        refine ⟨new ++ [t], by simpa using hs, ?_, ?_, ?_⟩
        · refine List.nodup_append.mpr ⟨hnd, List.nodup_singleton t, fun a ha b hb => ?_⟩
          rw [List.mem_singleton.mp hb]
          exact fun h => hnt (h ▸ ha)
        · intro x hx
          rcases List.mem_append.mp hx with hx | hx
          · have hxt : x ≠ t := fun h => hnt (h ▸ hx)
            obtain ⟨hmem, hd⟩ := hnew x hx
            exact ⟨List.mem_cons_of_mem t hmem, by simpa [hxt] using hd⟩
          · obtain rfl := List.mem_singleton.mp hx
            exact ⟨List.mem_cons_self, by simpa using ht⟩
        · intro x hx hd
          by_cases hxt : x = t
          · simp [hxt]
          · have hx' : x ∈ outs := (List.mem_cons.mp hx).resolve_left hxt
            exact List.mem_append_left _ (hall x hx' (by simp [hxt, hd]))

theorem foldl_orEntry {current target : Nat} (hne : target ≠ current) (L : List Nat)
    (c : Nat → Nat → Bool) :
    L.foldl (orEntry current target) c =
      fun u => if u = current then fun i => c current i || (decide (i ∈ L) && c target i)
        else c u := by
  induction L generalizing c with
  | nil =>
      funext u i
      split <;> simp_all
  | cons a L ih =>
      rw [List.foldl_cons, ih]
      funext u i
      by_cases hu : u = current
      · subst hu
        by_cases ha : c target a <;> by_cases hi : i = a <;>
          simp_all [orEntry]
      · by_cases ha : c target a <;> simp [orEntry, ha, hu]

theorem mergeRow_eq {n current target : Nat} (hne : target ≠ current) (c : Nat → Nat → Bool) :
    mergeRow n current target c =
      fun u => if u = current then
          fun i => c current i || decide (i = target) || (decide (i < n) && c target i)
        else c u := by
  rw [mergeRow, foldl_orEntry hne]
  funext u i
  by_cases hu : u = current
  · subst hu
    by_cases hi : i = target <;> simp [hi, hne]
  · simp [hu]

theorem mergeRow_of_ne {n current target u : Nat} (hne : target ≠ current)
    (c : Nat → Nat → Bool) (hu : u ≠ current) : mergeRow n current target c u = c u := by
  rw [mergeRow_eq hne]
  simp [hu]

theorem mergeRow_self {n current target : Nat} (hne : target ≠ current) (c : Nat → Nat → Bool)
    (i : Nat) : mergeRow n current target c current i =
      (c current i || decide (i = target) || (decide (i < n) && c target i)) := by
  rw [mergeRow_eq hne]
  simp

/-- The row loop over all out-edges changes no row but the current vertex's. -/
theorem foldl_mergeRow_of_ne {n current : Nat} {outs : List Nat} (hout : current ∉ outs)
    (c : Nat → Nat → Bool) {u : Nat} (hu : u ≠ current) :
    outs.foldl (fun c t => mergeRow n current t c) c u = c u := by
  induction outs generalizing c with
  | nil => rfl
  | cons t outs ih =>
      have htc : t ≠ current := fun h => hout (h ▸ List.mem_cons_self)
      rw [List.foldl_cons, ih (fun h => hout (List.mem_cons_of_mem t h)), mergeRow_of_ne htc c hu]

/-- The current vertex's row after the loop: its old entries, its children, and the
entries of its children's rows below `n`. -/
theorem foldl_mergeRow_self {n current : Nat} {outs : List Nat} (hout : current ∉ outs)
    (c : Nat → Nat → Bool) (i : Nat) :
    outs.foldl (fun c t => mergeRow n current t c) c current i = true ↔
      c current i = true ∨ ∃ t ∈ outs, i = t ∨ (i < n ∧ c t i = true) := by
  induction outs generalizing c with
  | nil => simp
  | cons t outs ih =>
      have htc : t ≠ current := fun h => hout (h ▸ List.mem_cons_self)
      have hout' : current ∉ outs := fun h => hout (List.mem_cons_of_mem t h)
      have hrow : ∀ t' ∈ outs, mergeRow n current t c t' = c t' :=
        fun t' ht' => mergeRow_of_ne htc c (fun h => hout' (h ▸ ht'))
      rw [List.foldl_cons, ih hout', mergeRow_self htc]
      constructor
      · rintro (h | ⟨t', ht', h⟩)
        · simp only [Bool.or_eq_true, Bool.and_eq_true, decide_eq_true_eq] at h
          rcases h with (h | h) | h
          · exact Or.inl h
          · exact Or.inr ⟨t, List.mem_cons_self, Or.inl h⟩
          · exact Or.inr ⟨t, List.mem_cons_self, Or.inr h⟩
        · rw [hrow t' ht'] at h
          exact Or.inr ⟨t', List.mem_cons_of_mem t ht', h⟩
      · rintro (h | ⟨t', ht', h⟩)
        · exact Or.inl (by simp [h])
        · rcases List.mem_cons.mp ht' with rfl | ht'
          · left
            rcases h with h | h <;> simp [h]
          · exact Or.inr ⟨t', ht', by rw [hrow t' ht']; exact h⟩

/-- The invariant of the `while` loop. Done vertices carry their full closure row,
pending vertices an empty one; the stack holds exactly the pending discovered
vertices, once each. -/
structure CcInv (g : Digraph) (root : Nat) (s : CcState) : Prop where
  root_discovered : s.discovered root = true
  discovered_reach : ∀ u, s.discovered u = true → u = root ∨ g.Reach root u
  done_discovered : ∀ u, s.done u = true → s.discovered u = true
  done_closed : ∀ u, s.done u = true → ∀ t ∈ g.out u, s.done t = true
  done_row : ∀ u, s.done u = true → ∀ v, s.cMap u v = true ↔ g.Reach u v
  pending_row : ∀ u, s.done u = false → ∀ v, s.cMap u v = false
  stack_pending : ∀ u ∈ s.stack, s.discovered u = true ∧ s.done u = false
  pending_stack : ∀ u, s.discovered u = true → s.done u = false → u ∈ s.stack
  stack_nodup : s.stack.Nodup

theorem ccInv_init (g : Digraph) (root : Nat) : CcInv g root (ccInit root fun _ _ => false) where
  root_discovered := by simp [ccInit]
  discovered_reach := fun u hu => by
    by_cases h : u = root
    · exact Or.inl h
    · simp [ccInit, h] at hu
  done_discovered := fun u hu => by simp [ccInit] at hu
  done_closed := fun u hu => by simp [ccInit] at hu
  done_row := fun u hu => by simp [ccInit] at hu
  pending_row := fun _ _ _ => rfl
  stack_pending := fun u hu => by simp_all [ccInit]
  pending_stack := fun u hu _ => by
    by_cases h : u = root
    · simp [ccInit, h]
    · simp [ccInit, h] at hu
  stack_nodup := List.nodup_singleton root

section Preservation

variable {g : Digraph} {root : Nat} {s : CcState} {current : Nat} {rest : List Nat}

/-- The finishing branch: all children of the top vertex are done. -/
theorem ccInv_finish (hg : g.Closed) (hac : g.Acyclic) (hs : CcInv g root s)
    (hst : s.stack = current :: rest) (hchild : ∀ t ∈ g.out current, s.done t = true) :
    CcInv g root ⟨rest, s.discovered, Function.update s.done current true,
      (g.out current).foldl (fun c t => mergeRow g.numVertices current t c) s.cMap⟩ := by
  obtain ⟨hcd, hcnd⟩ := hs.stack_pending current (by simp [hst])
  have hnoself : current ∉ g.out current := fun h => hac current (Reach.single h)
  have hnd : (current :: rest).Nodup := hst ▸ hs.stack_nodup
  have hnotin : current ∉ rest := (List.nodup_cons.mp hnd).1
  constructor
  · exact hs.root_discovered
  · exact hs.discovered_reach
  · intro u hu
    by_cases huc : u = current
    · exact huc ▸ hcd
    · exact hs.done_discovered u (by simpa [huc] using hu)
  · intro u hu t ht
    by_cases htc : t = current
    · simp [htc]
    · by_cases huc : u = current
      · subst huc
        simpa [htc] using hchild t ht
      · simpa [htc] using hs.done_closed u (by simpa [huc] using hu) t ht
  · intro u hu v
    dsimp only at hu ⊢
    by_cases huc : u = current
    · subst huc
      rw [foldl_mergeRow_self hnoself, hs.pending_row u hcnd]
      constructor
      · rintro (h | ⟨t, ht, rfl | ⟨-, htv⟩⟩)
        · simp at h
        · exact Reach.single ht
        · exact Reach.head ht ((hs.done_row t (hchild t ht) v).mp htv)
      · intro h
        obtain ⟨t, ht, htv | htv⟩ := h.cases_head
        · exact Or.inr ⟨t, ht, Or.inl htv.symm⟩
        · exact Or.inr ⟨t, ht, Or.inr ⟨htv.target_lt hg, (hs.done_row t (hchild t ht) v).mpr htv⟩⟩
    · rw [foldl_mergeRow_of_ne hnoself _ huc]
      exact hs.done_row u (by simpa [huc] using hu) v
  · intro u hu v
    dsimp only at hu ⊢
    have huc : u ≠ current := fun h => by simp [h] at hu
    rw [foldl_mergeRow_of_ne hnoself _ huc]
    exact hs.pending_row u (by simpa [huc] using hu) v
  · intro u hu
    have huc : u ≠ current := fun h => hnotin (h ▸ hu)
    obtain ⟨hud, hund⟩ := hs.stack_pending u (by simp [hst, hu])
    exact ⟨hud, by simpa [huc] using hund⟩
  · intro u hu hund
    have huc : u ≠ current := fun h => by simp [h] at hund
    have hmem := hs.pending_stack u hu (by simpa [huc] using hund)
    rw [hst] at hmem
    exact (List.mem_cons.mp hmem).resolve_left huc
  · exact (List.nodup_cons.mp hnd).2

/-- The pushing branch: the undiscovered children go on the stack. -/
theorem ccInv_push (hs : CcInv g root s) (hst : s.stack = current :: rest) {new : List Nat}
    (hnd : new.Nodup) (hnew : ∀ x ∈ new, x ∈ g.out current ∧ s.discovered x = false)
    (hall : ∀ x ∈ g.out current, s.discovered x = false → x ∈ new) :
    CcInv g root ⟨new ++ s.stack, fun x => s.discovered x || decide (x ∈ g.out current), s.done,
      s.cMap⟩ := by
  obtain ⟨hcd, -⟩ := hs.stack_pending current (by simp [hst])
  have hpending : ∀ x, s.discovered x = false → s.done x = false := fun x hx => by
    cases h : s.done x
    · rfl
    · simp [hs.done_discovered x h] at hx
  constructor
  · simp [hs.root_discovered]
  · intro u hu
    rcases Bool.or_eq_true _ _ ▸ hu with hu | hu
    · exact hs.discovered_reach u hu
    · have hadj : g.Adj current u := by simpa [Adj] using hu
      rcases hs.discovered_reach current hcd with rfl | hr
      · exact Or.inr (Reach.single hadj)
      · exact Or.inr (hr.trans (Reach.single hadj))
  · intro u hu
    simp [hs.done_discovered u hu]
  · exact hs.done_closed
  · exact hs.done_row
  · exact hs.pending_row
  · intro u hu
    rcases List.mem_append.mp hu with hu | hu
    · obtain ⟨hout, hud⟩ := hnew u hu
      exact ⟨by simp [hout], hpending u hud⟩
    · obtain ⟨hud, hund⟩ := hs.stack_pending u hu
      exact ⟨by simp [hud], hund⟩
  · intro u hu hund
    cases hud : s.discovered u
    · have hout : u ∈ g.out current := by simpa [hud] using hu
      exact List.mem_append_left _ (hall u hout hud)
    · exact List.mem_append_right _ (hs.pending_stack u hud hund)
  · refine List.nodup_append.mpr ⟨hnd, hs.stack_nodup, fun a ha b hb hab => ?_⟩
    subst hab
    exact absurd (hnew a ha).2 (by simp [(hs.stack_pending a hb).1])

end Preservation

/-- Every iteration of the loop keeps the invariant. -/
theorem ccInv_step {g : Digraph} {root : Nat} (hg : g.Closed) (hac : g.Acyclic) {s : CcState}
    (hs : CcInv g root s) : CcInv g root (ccStep g s) := by
  cases hst : s.stack with
  | nil => simpa [ccStep, hst] using hs
  | cons current rest =>
      by_cases hall : (g.out current).all s.done
      · have hchild : ∀ t ∈ g.out current, s.done t = true := by simpa using hall
        have hpush := @pushChildren_of_discovered (g.out current) s.stack s.discovered
          (fun t ht => hs.done_discovered t (hchild t ht))
        simp only [ccStep, hst, hall, if_true]
        rw [← hst, hpush, hst]
        exact ccInv_finish hg hac hs hst hchild
      · obtain ⟨new, hstack, hnd, hnew, hnewall⟩ :=
          pushChildren_stack (g.out current) s.stack s.discovered
        have hdisc : (pushChildren (g.out current) s.stack s.discovered).2 =
            fun x => s.discovered x || decide (x ∈ g.out current) :=
          funext (pushChildren_discovered _ _ _)
        simp only [ccStep, hst, Bool.not_eq_true] at hall ⊢
        rw [if_neg (by simp [hall]), ← hst, hstack, hdisc]
        exact ccInv_push hs hst hnd hnew hnewall

theorem ccLoop_inv {g : Digraph} {root : Nat} (hg : g.Closed) (hac : g.Acyclic) :
    ∀ (fuel : Nat) {s s' : CcState}, CcInv g root s → ccLoop g fuel s = some s' →
      CcInv g root s' ∧ s'.stack = []
  | 0, _, _, _, h => by simp [ccLoop] at h
  | fuel + 1, s, s', hs, h => by
      by_cases hst : s.stack = []
      · simp [ccLoop, hst] at h
        exact h ▸ ⟨hs, hst⟩
      · rw [ccLoop_succ_of_ne_nil g fuel hst] at h
        exact ccLoop_inv hg hac fuel (ccInv_step hg hac hs) h

/-- Once the stack is empty, every vertex reachable from the root is done. -/
theorem CcInv.done_of_reach {g : Digraph} {root : Nat} {s : CcState} (hs : CcInv g root s)
    (hempty : s.stack = []) {u : Nat} (hu : u = root ∨ g.Reach root u) : s.done u = true := by
  have hroot : s.done root = true := by
    cases h : s.done root
    · simpa [hempty] using hs.pending_stack root hs.root_discovered h
    · rfl
  rcases hu with rfl | hu
  · exact hroot
  · induction hu with
    | single hab => exact hs.done_closed _ hroot _ hab
    | tail _ hbc ih => exact hs.done_closed _ ih _ hbc

/-- When the fast routine does finish on an acyclic graph, started from an all-false
map, the row of every vertex reachable from the root holds exactly its proper
descendants, and every other row stays false. -/
theorem connectedComponents_sound {g : Digraph} (hg : g.Closed) (hac : g.Acyclic)
    {root fuel : Nat} {c : Nat → Nat → Bool}
    (h : connectedComponents g root (fun _ _ => false) fuel = some c) (u v : Nat) :
    ((u = root ∨ g.Reach root u) → (c u v = true ↔ u ≠ v ∧ g.Reach u v)) ∧
    (¬ (u = root ∨ g.Reach root u) → c u v = false) := by
  obtain ⟨s, hrun, rfl⟩ := Option.map_eq_some_iff.mp h
  obtain ⟨hs, hempty⟩ := ccLoop_inv hg hac fuel (ccInv_init g root) hrun
  constructor
  · intro hu
    rw [hs.done_row u (hs.done_of_reach hempty hu) v]
    exact ⟨fun hr => ⟨fun huv => hac u (huv ▸ hr), hr⟩, fun h => h.2⟩
  · intro hu
    apply hs.pending_row u
    cases hd : s.done u
    · rfl
    · exact absurd (hs.discovered_reach u (hs.done_discovered u hd)) hu

end ParRP.Analyzer
