import ParRP.Analyzer.MemStats
import ParRP.Analyzer.Wcrt

/-!
# Vertex weights of the four LLC configurations (`populate_vertex_weight`)

`populate_vertex_weight` charges every access of a block a worst-case latency in each
of four configurations: `SHARE` (a shared LLC, every access at the latency of memory),
`COLOR` (set coloring, which keeps the guarantee for private lines only), `PAR` (the
partitioned LLC) and `COLOR_PRIVATE_INST` (set coloring with instructions private). A
block's weight in a configuration is its execution cycles plus the sum of its
accesses' charges. All of it is `size_t` arithmetic, which wraps modulo `2^64`.

In exact arithmetic every access is charged in the order
`PAR ≤ COLOR_PRIVATE_INST ≤ COLOR ≤ SHARE` (`accessCost_ordered`), because an L1 hit
costs no more than an LLC hit and an LLC hit no more than memory. As long as the
`SHARE` weights, the largest, sum to less than `2^64`, no operation wraps and the
weights are the exact ones (`populateVertexWeight_eq`), so every block's weights are
in that order, and so are the critical paths and volumes `compute_WCRTs` derives from
them, the longest-path recurrence and the sums being monotone in the weights
(`longestPath_le`). A single access count near `2^64 / wcl_mem` already wraps the
`SHARE` weight below the `PAR` one.
-/

namespace ParRP

namespace Analyzer

/-- `wcl_l1`, `wcl_llc` and `wcl_mem`: the worst-case latencies of an access served by
the L1, by the LLC and by memory. -/
structure Wcl where
  l1 : Nat
  llc : Nat
  mem : Nat

/-- The latencies `populate_vertex_weight` picks for `num_cores`. -/
def wclOf (numCores : Int) : Wcl :=
  if numCores = 2 then ⟨1, 87, 568⟩ else if numCores = 4 then ⟨1, 175, 1063⟩ else ⟨1, 431, 2065⟩

/-- `size_t` multiplication. -/
def sizeMul (a b : Nat) : Nat := (a * b) % 2 ^ 64

/-- A block's `bb_wcl_share`, `bb_wcl_color`, `bb_wcl_par` and `bb_wcl_color_pri_inst`. -/
structure BlockWcl where
  share : Nat
  color : Nat
  par : Nat
  colorPriInst : Nat
  deriving DecidableEq, Repr

/-- One iteration of `populate_vertex_weight`'s loop over a block's accesses. -/
def addAccessWcl (wcl : Wcl) (acc : BlockWcl) (s : AddrAccessStats) : BlockWcl :=
  let totalAccessTimes :=
    sizeAdd (sizeAdd (sizeAdd s.numLocalL1Hit s.numRemoteL1Hit) s.numL2Hit) s.numMemoryAccess
  let l1HitTimes := s.numLocalL1Hit
  let llcHitTimes := sizeAdd s.numRemoteL1Hit s.numL2Hit
  let memAccessTimes := s.numMemoryAccess
  let allMem := sizeMul totalAccessTimes wcl.mem
  let tiered := sizeAdd (sizeAdd (sizeMul l1HitTimes wcl.l1) (sizeMul llcHitTimes wcl.llc))
    (sizeMul memAccessTimes wcl.mem)
  if s.isIfetch then
    if s.isShared then
      ⟨sizeAdd acc.share allMem, sizeAdd acc.color allMem, sizeAdd acc.par tiered,
        sizeAdd acc.colorPriInst tiered⟩
    else
      ⟨sizeAdd acc.share allMem, sizeAdd acc.color tiered, sizeAdd acc.par tiered,
        sizeAdd acc.colorPriInst tiered⟩
  else if s.isShared then
    let parShared := sizeAdd (sizeMul (sizeAdd l1HitTimes llcHitTimes) wcl.llc) (sizeMul memAccessTimes wcl.mem)
    ⟨sizeAdd acc.share allMem, sizeAdd acc.color allMem, sizeAdd acc.par parShared,
      sizeAdd acc.colorPriInst allMem⟩
  else
    ⟨sizeAdd acc.share allMem, sizeAdd acc.color tiered, sizeAdd acc.par tiered,
      sizeAdd acc.colorPriInst tiered⟩

/-- The row `weights` of a block, indexed by `Configs`: `SHARE`, `COLOR`, `PAR`,
`COLOR_PRIVATE_INST`. -/
def BlockWcl.weights (b : BlockWcl) (execCycles : Nat) : List Nat :=
  [sizeAdd b.share execCycles, sizeAdd b.color execCycles, sizeAdd b.par execCycles,
    sizeAdd b.colorPriInst execCycles]

/-- `populate_vertex_weight`: one row of weights per block, its accesses in the order
of their line addresses. -/
def populateVertexWeight (memStats : List (OrdMap Nat AddrAccessStats)) (execCyclesMap : List Nat)
    (numCores : Int) : List (List Nat) :=
  memStats.mapIdx fun bbId m =>
    ((m.entries.map (·.2)).foldl (addAccessWcl (wclOf numCores)) ⟨0, 0, 0, 0⟩).weights
      (execCyclesMap.getD bbId 0)

/-! ## The charges in exact arithmetic -/

instance : Zero BlockWcl := ⟨⟨0, 0, 0, 0⟩⟩

instance : Add BlockWcl :=
  ⟨fun a b => ⟨a.share + b.share, a.color + b.color, a.par + b.par, a.colorPriInst + b.colorPriInst⟩⟩

theorem BlockWcl.add_def (a b : BlockWcl) :
    a + b = ⟨a.share + b.share, a.color + b.color, a.par + b.par, a.colorPriInst + b.colorPriInst⟩ := rfl

@[simp] theorem share_add (a b : BlockWcl) : (a + b).share = a.share + b.share := rfl

/-- The sums stand in the order `PAR ≤ COLOR_PRIVATE_INST ≤ COLOR ≤ SHARE`. -/
def BlockWcl.Ordered (b : BlockWcl) : Prop :=
  b.par ≤ b.colorPriInst ∧ b.colorPriInst ≤ b.color ∧ b.color ≤ b.share

/-- A row of weights indexed by `Configs` stands in the order
`PAR ≤ COLOR_PRIVATE_INST ≤ COLOR ≤ SHARE`. -/
def ConfigsOrdered (row : List Nat) : Prop :=
  row.getD 2 0 ≤ row.getD 3 0 ∧ row.getD 3 0 ≤ row.getD 1 0 ∧ row.getD 1 0 ≤ row.getD 0 0

instance : DecidablePred ConfigsOrdered := fun _ => by unfold ConfigsOrdered; infer_instance

/-- Latencies that grow from the L1 to memory, memory's at least one cycle. -/
structure Wcl.Monotone (wcl : Wcl) : Prop where
  l1_le : wcl.l1 ≤ wcl.mem
  llc_le : wcl.llc ≤ wcl.mem
  mem_pos : 0 < wcl.mem

theorem wclOf_monotone (numCores : Int) : (wclOf numCores).Monotone := by
  unfold wclOf
  split_ifs <;> exact ⟨by decide, by decide, by decide⟩

/-- The accesses of an entry. -/
def totalAccess (s : AddrAccessStats) : Nat :=
  s.numLocalL1Hit + s.numRemoteL1Hit + s.numL2Hit + s.numMemoryAccess

/-- What each configuration charges an entry's accesses, in exact arithmetic. -/
def accessCost (wcl : Wcl) (s : AddrAccessStats) : BlockWcl :=
  let allMem := totalAccess s * wcl.mem
  let tiered := s.numLocalL1Hit * wcl.l1 + (s.numRemoteL1Hit + s.numL2Hit) * wcl.llc +
    s.numMemoryAccess * wcl.mem
  let parShared := (s.numLocalL1Hit + (s.numRemoteL1Hit + s.numL2Hit)) * wcl.llc + s.numMemoryAccess * wcl.mem
  if s.isIfetch then
    if s.isShared then ⟨allMem, allMem, tiered, tiered⟩ else ⟨allMem, tiered, tiered, tiered⟩
  else if s.isShared then ⟨allMem, allMem, parShared, allMem⟩ else ⟨allMem, tiered, tiered, tiered⟩

/-- A block's sums in exact arithmetic. -/
def blockCost (wcl : Wcl) (m : OrdMap Nat AddrAccessStats) : BlockWcl :=
  (m.entries.map (·.2)).foldl (fun acc s => acc + accessCost wcl s) 0

/-- The blocks' `SHARE` weights in exact arithmetic. -/
def shareWeights (memStats : List (OrdMap Nat AddrAccessStats)) (execCyclesMap : List Nat)
    (numCores : Int) : List Nat :=
  memStats.mapIdx fun bbId m => (blockCost (wclOf numCores) m).share + execCyclesMap.getD bbId 0

theorem accessCost_share (wcl : Wcl) (s : AddrAccessStats) :
    (accessCost wcl s).share = totalAccess s * wcl.mem := by
  unfold accessCost
  split_ifs <;> rfl

section Charges

variable {wcl : Wcl} (hw : wcl.Monotone) (s : AddrAccessStats)

include hw

theorem tiered_le :
    s.numLocalL1Hit * wcl.l1 + (s.numRemoteL1Hit + s.numL2Hit) * wcl.llc + s.numMemoryAccess * wcl.mem ≤
      totalAccess s * wcl.mem := by
  have h1 := Nat.mul_le_mul_left s.numLocalL1Hit hw.l1_le
  have h2 := Nat.mul_le_mul_left (s.numRemoteL1Hit + s.numL2Hit) hw.llc_le
  calc _ ≤ s.numLocalL1Hit * wcl.mem + (s.numRemoteL1Hit + s.numL2Hit) * wcl.mem +
          s.numMemoryAccess * wcl.mem := by omega
    _ = totalAccess s * wcl.mem := by unfold totalAccess; ring

theorem parShared_le :
    (s.numLocalL1Hit + (s.numRemoteL1Hit + s.numL2Hit)) * wcl.llc + s.numMemoryAccess * wcl.mem ≤
      totalAccess s * wcl.mem := by
  have h := Nat.mul_le_mul_left (s.numLocalL1Hit + (s.numRemoteL1Hit + s.numL2Hit)) hw.llc_le
  calc _ ≤ (s.numLocalL1Hit + (s.numRemoteL1Hit + s.numL2Hit)) * wcl.mem + s.numMemoryAccess * wcl.mem := by
        omega
    _ = totalAccess s * wcl.mem := by unfold totalAccess; ring

/-- Each configuration charges an access in the order `PAR ≤ COLOR_PRIVATE_INST ≤ COLOR ≤ SHARE`. -/
theorem accessCost_ordered : (accessCost wcl s).Ordered := by
  have ht := tiered_le hw s
  have hp := parShared_le hw s
  unfold accessCost BlockWcl.Ordered
  split_ifs <;> simp only <;> omega

end Charges

theorem Ordered.add {a b : BlockWcl} (ha : a.Ordered) (hb : b.Ordered) : (a + b).Ordered := by
  obtain ⟨ha₁, ha₂, ha₃⟩ := ha
  obtain ⟨hb₁, hb₂, hb₃⟩ := hb
  exact ⟨Nat.add_le_add ha₁ hb₁, Nat.add_le_add ha₂ hb₂, Nat.add_le_add ha₃ hb₃⟩

/-! ## No wrap below `2^64` -/

theorem sizeAdd_of_lt {a b : Nat} (h : a + b < 2 ^ 64) : sizeAdd a b = a + b := Nat.mod_eq_of_lt h

theorem sizeMul_of_lt {a b : Nat} (h : a * b < 2 ^ 64) : sizeMul a b = a * b := Nat.mod_eq_of_lt h

/-- While the `SHARE` sum stays below `2^64`, an iteration adds the exact charges. -/
theorem addAccessWcl_eq {wcl : Wcl} (hw : wcl.Monotone) {acc : BlockWcl} (hacc : acc.Ordered)
    {s : AddrAccessStats} (hfit : acc.share + totalAccess s * wcl.mem < 2 ^ 64) :
    addAccessWcl wcl acc s = acc + accessCost wcl s := by
  have hT : totalAccess s ≤ totalAccess s * wcl.mem := Nat.le_mul_of_pos_right _ hw.mem_pos
  have ht := tiered_le hw s
  have hp := parShared_le hw s
  have hl1 := Nat.mul_le_mul_left s.numLocalL1Hit hw.l1_le
  have hllc := Nat.mul_le_mul_left (s.numRemoteL1Hit + s.numL2Hit) hw.llc_le
  have hllc' := Nat.mul_le_mul_left (s.numLocalL1Hit + (s.numRemoteL1Hit + s.numL2Hit)) hw.llc_le
  have hTdef : totalAccess s = s.numLocalL1Hit + s.numRemoteL1Hit + s.numL2Hit + s.numMemoryAccess := rfl
  obtain ⟨h₁, h₂, h₃⟩ := hacc
  -- every intermediate value is below the new `SHARE` sum
  have hsum₁ : sizeAdd s.numLocalL1Hit s.numRemoteL1Hit = s.numLocalL1Hit + s.numRemoteL1Hit :=
    sizeAdd_of_lt (by omega)
  have hsum₂ : sizeAdd (s.numLocalL1Hit + s.numRemoteL1Hit) s.numL2Hit =
      s.numLocalL1Hit + s.numRemoteL1Hit + s.numL2Hit := sizeAdd_of_lt (by omega)
  have htotal : sizeAdd (sizeAdd (sizeAdd s.numLocalL1Hit s.numRemoteL1Hit) s.numL2Hit) s.numMemoryAccess =
      totalAccess s := by
    rw [hsum₁, hsum₂, sizeAdd_of_lt (by omega), hTdef]
  have hllcHit : sizeAdd s.numRemoteL1Hit s.numL2Hit = s.numRemoteL1Hit + s.numL2Hit := sizeAdd_of_lt (by omega)
  have hallMem : sizeMul (totalAccess s) wcl.mem = totalAccess s * wcl.mem := sizeMul_of_lt (by omega)
  have hmul₁ : sizeMul s.numLocalL1Hit wcl.l1 = s.numLocalL1Hit * wcl.l1 := sizeMul_of_lt (by omega)
  have hmul₂ : sizeMul (s.numRemoteL1Hit + s.numL2Hit) wcl.llc = (s.numRemoteL1Hit + s.numL2Hit) * wcl.llc :=
    sizeMul_of_lt (by omega)
  have hmul₃ : sizeMul s.numMemoryAccess wcl.mem = s.numMemoryAccess * wcl.mem := sizeMul_of_lt (by omega)
  have htiered : sizeAdd (sizeAdd (sizeMul s.numLocalL1Hit wcl.l1) (sizeMul (s.numRemoteL1Hit + s.numL2Hit) wcl.llc))
      (sizeMul s.numMemoryAccess wcl.mem) = s.numLocalL1Hit * wcl.l1 + (s.numRemoteL1Hit + s.numL2Hit) * wcl.llc +
        s.numMemoryAccess * wcl.mem := by
    have hpart : sizeAdd (s.numLocalL1Hit * wcl.l1) ((s.numRemoteL1Hit + s.numL2Hit) * wcl.llc) =
        s.numLocalL1Hit * wcl.l1 + (s.numRemoteL1Hit + s.numL2Hit) * wcl.llc := sizeAdd_of_lt (by omega)
    rw [hmul₁, hmul₂, hmul₃, hpart, sizeAdd_of_lt (by omega)]
  have hparShared : sizeAdd (sizeMul (sizeAdd s.numLocalL1Hit (s.numRemoteL1Hit + s.numL2Hit)) wcl.llc)
      (sizeMul s.numMemoryAccess wcl.mem) = (s.numLocalL1Hit + (s.numRemoteL1Hit + s.numL2Hit)) * wcl.llc +
        s.numMemoryAccess * wcl.mem := by
    have hhits : sizeAdd s.numLocalL1Hit (s.numRemoteL1Hit + s.numL2Hit) =
        s.numLocalL1Hit + (s.numRemoteL1Hit + s.numL2Hit) := sizeAdd_of_lt (by omega)
    have hmul : sizeMul (s.numLocalL1Hit + (s.numRemoteL1Hit + s.numL2Hit)) wcl.llc =
        (s.numLocalL1Hit + (s.numRemoteL1Hit + s.numL2Hit)) * wcl.llc := sizeMul_of_lt (by omega)
    rw [hhits, hmul, hmul₃, sizeAdd_of_lt (by omega)]
  unfold addAccessWcl accessCost
  simp only [htotal, hllcHit, hallMem, htiered, hparShared]
  split_ifs <;> simp only [BlockWcl.add_def, BlockWcl.mk.injEq] <;>
    exact ⟨sizeAdd_of_lt (by omega), sizeAdd_of_lt (by omega), sizeAdd_of_lt (by omega), sizeAdd_of_lt (by omega)⟩

theorem foldl_cost_share (wcl : Wcl) (l : List AddrAccessStats) (acc : BlockWcl) :
    (l.foldl (fun acc s => acc + accessCost wcl s) acc).share =
      acc.share + (l.map fun s => totalAccess s * wcl.mem).sum := by
  induction l generalizing acc with
  | nil => simp
  | cons s l ih =>
      rw [List.foldl_cons, ih, share_add, accessCost_share, List.map_cons, List.sum_cons]
      omega

theorem foldl_cost_ordered {wcl : Wcl} (hw : wcl.Monotone) (l : List AddrAccessStats) {acc : BlockWcl}
    (hacc : acc.Ordered) : (l.foldl (fun acc s => acc + accessCost wcl s) acc).Ordered := by
  induction l generalizing acc with
  | nil => exact hacc
  | cons s l ih => exact ih (Ordered.add hacc (accessCost_ordered hw s))

/-- The loop over a block's accesses adds the exact charges while the `SHARE` sum fits. -/
theorem foldl_addAccessWcl {wcl : Wcl} (hw : wcl.Monotone) (l : List AddrAccessStats) {acc : BlockWcl}
    (hacc : acc.Ordered) (hfit : acc.share + (l.map fun s => totalAccess s * wcl.mem).sum < 2 ^ 64) :
    l.foldl (addAccessWcl wcl) acc = l.foldl (fun acc s => acc + accessCost wcl s) acc := by
  induction l generalizing acc with
  | nil => rfl
  | cons s l ih =>
      rw [List.map_cons, List.sum_cons] at hfit
      have hstep := addAccessWcl_eq hw hacc (s := s) (by omega)
      have hfit' : (acc + accessCost wcl s).share + (l.map fun s => totalAccess s * wcl.mem).sum < 2 ^ 64 := by
        rw [share_add, accessCost_share]
        omega
      rw [List.foldl_cons, List.foldl_cons, hstep]
      exact ih (Ordered.add hacc (accessCost_ordered hw s)) hfit'

/-- A block's row in exact arithmetic. -/
def exactRow (wcl : Wcl) (m : OrdMap Nat AddrAccessStats) (execCycles : Nat) : List Nat :=
  [(blockCost wcl m).share + execCycles, (blockCost wcl m).color + execCycles,
    (blockCost wcl m).par + execCycles, (blockCost wcl m).colorPriInst + execCycles]

theorem zero_ordered : (0 : BlockWcl).Ordered := ⟨le_refl 0, le_refl 0, le_refl 0⟩

theorem blockCost_ordered {wcl : Wcl} (hw : wcl.Monotone) (m : OrdMap Nat AddrAccessStats) :
    (blockCost wcl m).Ordered :=
  foldl_cost_ordered hw _ zero_ordered

theorem exactRow_ordered {wcl : Wcl} (hw : wcl.Monotone) (m : OrdMap Nat AddrAccessStats) (execCycles : Nat) :
    ConfigsOrdered (exactRow wcl m execCycles) := by
  obtain ⟨h₁, h₂, h₃⟩ := blockCost_ordered hw m
  simp only [ConfigsOrdered, exactRow, List.getD_cons_succ, List.getD_cons_zero]
  omega

/-- A block whose exact `SHARE` weight fits gets its exact row. -/
theorem weights_eq_exactRow {wcl : Wcl} (hw : wcl.Monotone) (m : OrdMap Nat AddrAccessStats) {execCycles : Nat}
    (hfit : (blockCost wcl m).share + execCycles < 2 ^ 64) :
    ((m.entries.map (·.2)).foldl (addAccessWcl wcl) ⟨0, 0, 0, 0⟩).weights execCycles = exactRow wcl m execCycles := by
  have hshare := foldl_cost_share wcl (m.entries.map (·.2)) 0
  have hfold := foldl_addAccessWcl hw (m.entries.map (·.2)) zero_ordered (by
    rw [← hshare]
    exact Nat.lt_of_le_of_lt (Nat.le_add_right _ _) hfit)
  obtain ⟨h₁, h₂, h₃⟩ := blockCost_ordered hw m
  change ((m.entries.map (·.2)).foldl (addAccessWcl wcl) 0).weights execCycles = _
  rw [hfold]
  change (blockCost wcl m).weights execCycles = _
  simp only [BlockWcl.weights, exactRow, List.cons.injEq, and_true]
  exact ⟨sizeAdd_of_lt hfit, sizeAdd_of_lt (by omega), sizeAdd_of_lt (by omega), sizeAdd_of_lt (by omega)⟩

/-- While the exact `SHARE` weights sum to less than `2^64`, `populate_vertex_weight`
computes the exact rows. -/
theorem populateVertexWeight_eq {memStats : List (OrdMap Nat AddrAccessStats)} {execCyclesMap : List Nat}
    {numCores : Int} (hfit : (shareWeights memStats execCyclesMap numCores).sum < 2 ^ 64) :
    populateVertexWeight memStats execCyclesMap numCores =
      memStats.mapIdx fun bbId m => exactRow (wclOf numCores) m (execCyclesMap.getD bbId 0) := by
  refine List.mapIdx_eq_mapIdx_iff.mpr fun i h => weights_eq_exactRow (wclOf_monotone numCores) _ ?_
  have hlen : i < (shareWeights memStats execCyclesMap numCores).length := by
    simpa [shareWeights] using h
  have hmem := List.getElem_mem hlen
  simp only [shareWeights, List.getElem_mapIdx] at hmem
  exact Nat.lt_of_le_of_lt (List.le_sum_of_mem hmem) hfit

theorem map_getD_zero_exactRows (memStats : List (OrdMap Nat AddrAccessStats)) (execCyclesMap : List Nat)
    (numCores : Int) :
    (memStats.mapIdx fun bbId m => exactRow (wclOf numCores) m (execCyclesMap.getD bbId 0)).map (·.getD 0 0) =
      shareWeights memStats execCyclesMap numCores :=
  List.ext_getElem (by simp [shareWeights]) fun i _ _ => by simp [shareWeights, exactRow]

/-! ## Monotonicity of `compute_WCRTs` in the weights -/

/-- The rows of a weight map, and the missing rows read as zero, are in order. -/
theorem getD_ordered {rows : List (List Nat)} (h : ∀ row ∈ rows, ConfigsOrdered row) (v : Nat) :
    ConfigsOrdered (rows.getD v []) := by
  rcases Nat.lt_or_ge v rows.length with hv | hv
  · rw [List.getD_eq_getElem _ _ hv]
    exact h _ (List.getElem_mem hv)
  · rw [List.getD_eq_default _ _ hv]
    exact ⟨le_refl 0, le_refl 0, le_refl 0⟩

section LongestPath

variable {g : Digraph} {w₁ w₂ : Nat → Nat}

/-- The inner loop of one vertex `v` without a self-loop, run on two weightings: `v`'s
entry grows to at most the bound `S` of the others plus `w₂ v`, and it stays no larger
under the smaller weights. -/
theorem foldl_relax_le (hw : ∀ x, w₁ x ≤ w₂ x) {v S : Nat} (hS : S + w₂ v < 2 ^ 64) :
    ∀ (ts : List Nat), v ∉ ts → ∀ lp₁ lp₂ : Nat → Nat, (∀ x, lp₁ x ≤ lp₂ x) → (∀ x, x ≠ v → lp₂ x ≤ S) →
      lp₂ v ≤ S + w₂ v →
      let r₁ := ts.foldl (fun lp t => Function.update lp v (max (lp v) (sizeAdd (w₁ v) (lp t)))) lp₁
      let r₂ := ts.foldl (fun lp t => Function.update lp v (max (lp v) (sizeAdd (w₂ v) (lp t)))) lp₂
      (∀ x, r₁ x ≤ r₂ x) ∧ (∀ x, x ≠ v → r₂ x ≤ S) ∧ r₂ v ≤ S + w₂ v := by
  intro ts
  induction ts with
  | nil => exact fun _ _ _ h₁ h₂ h₃ => ⟨h₁, h₂, h₃⟩
  | cons t ts ih =>
      intro hv lp₁ lp₂ hle hS₂ hv₂
      have htv : t ≠ v := fun h => hv (h ▸ .head _)
      have ht₂ := hS₂ t htv
      have ht₁ := (hle t).trans ht₂
      -- the sums with the targets' entries do not wrap
      have hadd₂ : sizeAdd (w₂ v) (lp₂ t) = w₂ v + lp₂ t := sizeAdd_of_lt (by omega)
      have hadd₁ : sizeAdd (w₁ v) (lp₁ t) = w₁ v + lp₁ t := sizeAdd_of_lt (by have := hw v; omega)
      refine ih (fun h => hv (.tail _ h)) _ _ (fun x => ?_) (fun x hx => ?_) ?_
      · rcases eq_or_ne x v with rfl | hx
        · simp only [Function.update_self, hadd₁, hadd₂]
          exact max_le_max (hle x) (Nat.add_le_add (hw x) (hle t))
        · simp only [Function.update_of_ne hx]
          exact hle x
      · simp only [Function.update_of_ne hx]
        exact hS₂ x hx
      · simp only [Function.update_self, hadd₂]
        exact max_le hv₂ (by omega)

/-- Over a prefix of the order, every entry is at most the weights of the vertices
relaxed so far; so while those sum below `2^64`, the recurrence is monotone in the
weights. -/
theorem foldl_relaxVertex_le (hg : ∀ v, ¬ g.Adj v v) (hw : ∀ x, w₁ x ≤ w₂ x) :
    ∀ (vs : List Nat) (lp₁ lp₂ : Nat → Nat) (S : Nat), (∀ x, lp₁ x ≤ lp₂ x) → (∀ x, lp₂ x ≤ S) →
      S + (vs.map w₂).sum < 2 ^ 64 →
      ∀ x, vs.foldl (relaxVertex g w₁) lp₁ x ≤ vs.foldl (relaxVertex g w₂) lp₂ x := by
  intro vs
  induction vs with
  | nil => exact fun _ _ _ hle _ _ => hle
  | cons v vs ih =>
      intro lp₁ lp₂ S hle hS hfit
      rw [List.map_cons, List.sum_cons] at hfit
      obtain ⟨hle', hS', hv'⟩ := foldl_relax_le hw (v := v) (by omega) (g.out v) (hg v) lp₁ lp₂ hle
        (fun x _ => hS x) ((hS v).trans (Nat.le_add_right _ _))
      refine ih _ _ (S + w₂ v) hle' (fun x => ?_) (by omega)
      rcases eq_or_ne x v with rfl | hx
      · exact hv'
      · exact (hS' x hx).trans (Nat.le_add_right _ _)

/-- On a graph without self-loops, the longest paths under smaller weights are no
longer, as long as the larger weights of the order sum below `2^64`. -/
theorem longestPath_le (hg : ∀ v, ¬ g.Adj v v) (hw : ∀ x, w₁ x ≤ w₂ x) {sorted : List Nat}
    (hfit : (sorted.map w₂).sum < 2 ^ 64) (x : Nat) :
    longestPath g w₁ sorted x ≤ longestPath g w₂ sorted x :=
  foldl_relaxVertex_le hg hw sorted _ _ 0 (fun _ => le_refl 0) (fun _ => le_refl 0) (by omega) x

end LongestPath

/-- `size_t` sums that do not wrap. -/
theorem foldl_sizeAdd {β : Type} (f : β → Nat) (l : List β) {a : Nat} (h : a + (l.map f).sum < 2 ^ 64) :
    l.foldl (fun acc x => sizeAdd acc (f x)) a = a + (l.map f).sum := by
  induction l generalizing a with
  | nil => simp
  | cons x l ih =>
      rw [List.map_cons, List.sum_cons] at h
      rw [List.foldl_cons, sizeAdd_of_lt (by omega), ih (by omega), List.map_cons, List.sum_cons]
      omega

/-- The sum of a weighting over the first `n` vertices is at most its sum over the
first `m` when every vertex from `m` on weighs nothing. -/
theorem sum_range_le {w : Nat → Nat} {m : Nat} (hw : ∀ v, m ≤ v → w v = 0) (n : Nat) :
    ((List.range n).map w).sum ≤ ((List.range m).map w).sum := by
  rcases Nat.le_total n m with hnm | hmn
  · exact List.Sublist.sum_le_sum ((List.range_sublist.mpr hnm).map w) fun _ _ => Nat.zero_le _
  · obtain ⟨k, rfl⟩ := Nat.exists_eq_add_of_le hmn
    have hzero : ((List.range k).map fun i => w (m + i)).sum = 0 :=
      List.sum_eq_zero fun x hx => by
        obtain ⟨i, -, rfl⟩ := List.mem_map.mp hx
        exact hw _ (Nat.le_add_right _ _)
    rw [List.range_add, List.map_append, List.sum_append, List.map_map]
    exact le_of_eq (by rw [Function.comp_def, hzero, Nat.add_zero])

/-- What a run of `compute_WCRTs` that returns computed: the longest paths from vertex
`0` over the sorted vertices, and the volumes. -/
theorem computeWCRTs_eq_ok {topo : Digraph → Option (List Nat)} {g : Digraph} {rows : List (List Nat)}
    {paths vols : List Nat} (h : computeWCRTs topo g rows = .ok (paths, vols)) :
    ∃ sorted, topo g = some sorted ∧
      paths = (List.range numConfigs).map (fun i => longestPath g (weightAt rows · i) sorted 0) ∧
      vols = volumes rows := by
  unfold computeWCRTs at h
  cases hs : topo g with
  | none => simp [hs, bind, Except.bind, throw, throwThe, MonadExceptOf.throw] at h
  | some sorted =>
      simp only [hs, pure_bind, except_bind_eq_ok, except_pure_eq_ok, Prod.mk.injEq] at h
      obtain ⟨paths', hpaths, rfl, rfl⟩ := h
      refine ⟨sorted, rfl, except_mapM_eq_ok_map (fun i _ b hb => ?_) hpaths, rfl⟩
      simp only at hb
      split at hb
      · exact (Except.ok.inj hb).symm
      · cases hb

/-- The entries `0` to `3` of a row in order, each at most the `SHARE` entry. -/
theorem ConfigsOrdered.le_share {row : List Nat} (h : ConfigsOrdered row) {i : Nat} (hi : i < numConfigs) :
    row.getD i 0 ≤ row.getD 0 0 := by
  obtain ⟨h₁, h₂, h₃⟩ := h
  unfold numConfigs at hi
  interval_cases i <;> omega

theorem getD_map_range_configs (f : Nat → Nat) {i : Nat} (hi : i < numConfigs) :
    ((List.range numConfigs).map f).getD i 0 = f i := by
  rw [List.getD_eq_getElem _ _ (by simpa using hi), List.getElem_map, List.getElem_range]

/-- The pipeline of the analyzer keeps the order of the configurations: with rows in
order whose `SHARE` column sums below `2^64`, the critical paths and the volumes of
every run of `compute_WCRTs` are in the same order. -/
theorem computeWCRTs_ordered {rows : List (List Nat)} (hord : ∀ row ∈ rows, ConfigsOrdered row)
    (hfit : (rows.map (·.getD 0 0)).sum < 2 ^ 64) {topo : Digraph → Option (List Nat)} (hT : TopologicalSort topo)
    {g : Digraph} {paths vols : List Nat} (h : computeWCRTs topo g rows = .ok (paths, vols)) :
    ConfigsOrdered paths ∧ ConfigsOrdered vols := by
  obtain ⟨sorted, hs, rfl, rfl⟩ := computeWCRTs_eq_ok h
  have hcol : ∀ i < numConfigs, ∀ v, weightAt rows v i ≤ weightAt rows v 0 := fun i hi v =>
    (getD_ordered hord v).le_share hi
  -- the `SHARE` column over the sorted vertices is at most its sum over the rows
  have hperm : sorted.Perm (List.range g.numVertices) :=
    (List.perm_ext_iff_of_nodup (hT.nodup g sorted hs) List.nodup_range).mpr
      fun v => by rw [hT.mem_iff g sorted hs, List.mem_range]
  have hrows : (List.range rows.length).map (weightAt rows · 0) = rows.map (·.getD 0 0) :=
    List.ext_getElem (by simp) fun v h₁ _ => by
      simp only [List.length_map, List.length_range] at h₁
      simp [weightAt, List.getElem?_eq_getElem h₁]
  have hshare : (sorted.map (weightAt rows · 0)).sum < 2 ^ 64 := by
    rw [(hperm.map _).sum_eq]
    refine Nat.lt_of_le_of_lt ?_ hfit
    rw [← hrows]
    exact sum_range_le (fun v hv => by simp [weightAt, List.getElem?_eq_none hv]) _
  have hfitCol : ∀ i < numConfigs, (sorted.map (weightAt rows · i)).sum < 2 ^ 64 := fun i hi =>
    Nat.lt_of_le_of_lt (List.sum_le_sum fun v _ => hcol i hi v) hshare
  have hvol : ∀ i < numConfigs, rows.foldl (fun acc row => sizeAdd acc (row.getD i 0)) 0 =
      (rows.map (·.getD i 0)).sum := fun i hi => by
    have hle : (rows.map (·.getD i 0)).sum ≤ (rows.map (·.getD 0 0)).sum :=
      List.sum_le_sum fun row hrow => (hord row hrow).le_share hi
    rw [foldl_sizeAdd (·.getD i 0) rows (by omega), Nat.zero_add]
  have hg : ∀ v, ¬ g.Adj v v := fun v hv => hT.some_acyclic g sorted hs v (Digraph.Reach.single hv)
  have hlp : ∀ i j, i < numConfigs → j < numConfigs → (∀ v, weightAt rows v i ≤ weightAt rows v j) →
      longestPath g (weightAt rows · i) sorted 0 ≤ longestPath g (weightAt rows · j) sorted 0 :=
    fun i j _ hj hij => longestPath_le hg hij (hfitCol j hj) 0
  have hvolLe : ∀ i j, i < numConfigs → j < numConfigs → (∀ row ∈ rows, row.getD i 0 ≤ row.getD j 0) →
      (volumes rows).getD i 0 ≤ (volumes rows).getD j 0 := fun i j hi hj hij => by
    unfold volumes
    rw [getD_map_range_configs _ hi, getD_map_range_configs _ hj, hvol i hi, hvol j hj]
    exact List.sum_le_sum hij
  refine ⟨?_, ?_⟩
  · simp only [ConfigsOrdered, getD_map_range_configs _ (by decide : 2 < numConfigs),
      getD_map_range_configs _ (by decide : 3 < numConfigs), getD_map_range_configs _ (by decide : 1 < numConfigs),
      getD_map_range_configs _ (by decide : 0 < numConfigs)]
    exact ⟨hlp 2 3 (by decide) (by decide) fun v => (getD_ordered hord v).1,
      hlp 3 1 (by decide) (by decide) fun v => (getD_ordered hord v).2.1,
      hlp 1 0 (by decide) (by decide) fun v => (getD_ordered hord v).2.2⟩
  · exact ⟨hvolLe 2 3 (by decide) (by decide) fun row hrow => (hord row hrow).1,
      hvolLe 3 1 (by decide) (by decide) fun row hrow => (hord row hrow).2.1,
      hvolLe 1 0 (by decide) (by decide) fun row hrow => (hord row hrow).2.2⟩

end Analyzer

end ParRP