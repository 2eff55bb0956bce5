import ParRP.Policy.Par

/-!
# The replacement data `CacheMemory::init` instantiates

`CacheMemory::init` asks the policy for the replacement data of every way, the sets
in turn and within a set the ways in turn. `Par::instantiateEntry` recovers the way
from its counter `m_count` modulo `num_way`; at way `0` it allocates a new
`ParTable` and `OwnerTable`, and every `ParReplData` it returns points to the tables
allocated last. The tables live in a heap of allocations, a pointer being the index
of one.

With `num_way` equal to the associativity the counter wraps exactly at the set
boundaries: the data of way `j` of set `i` has way index `j` and points to the
`i`-th pair of tables, which hold the tables `newTables` of a fresh set
(`init_shares_tables_by_set`). This is why the one-set model of `CacheMemory` may
keep a set's tables as one value.
-/

namespace ParRP

namespace Policy

variable {ρ : Type}

/-- `ParReplData`: pointers to the set's tables (`none` for `nullptr`) and the way. -/
structure ParReplData where
  parTable : Option Nat
  ownerTable : Option Nat
  wayIndex : Nat
  deriving DecidableEq, Repr

/-- The members of a `Par` object that `instantiateEntry` uses, with every `ParTable`
and `OwnerTable` it has allocated, in allocation order. -/
structure Par (ρ : Type) where
  mCount : Nat
  parTableInstance : Option Nat
  ownerTableInstance : Option Nat
  parTables : List (List (List (ParEntry ρ)))
  ownerTables : List (List (List Bool))

namespace Par

/-- A `Par` as its constructor leaves it. -/
def fresh : Par ρ := ⟨0, none, none, [], []⟩

@[simp] theorem fresh_parTables : (fresh : Par ρ).parTables = [] := rfl

@[simp] theorem fresh_ownerTables : (fresh : Par ρ).ownerTables = [] := rfl

/-- The tables a `ParReplData` points to. -/
def deref (par : Par ρ) (d : ParReplData) : Option (ParTables ρ) := do
  let parTable ← par.parTables[← d.parTable]?
  let ownerTable ← par.ownerTables[← d.ownerTable]?
  return ⟨parTable, ownerTable⟩

variable (policy : ReplacementPolicy ρ) (parConfig : List Int) (numWay : Nat)

/-- `new ParTable()` and `new OwnerTable()`, filled as `newTables`, become the
instances. -/
def newInstances (par : Par ρ) : Par ρ :=
  { par with
    parTableInstance := some par.parTables.length
    parTables := par.parTables ++ [(newTables policy parConfig numWay).parTable]
    ownerTableInstance := some par.ownerTables.length
    ownerTables := par.ownerTables ++ [(newTables policy parConfig numWay).ownerTable] }

end Par

variable (policy : ReplacementPolicy ρ) (parConfig : List Int) (numWay : Nat)

/-- `Par::instantiateEntry`. -/
def instantiateEntry (par : Par ρ) : ParReplData × Par ρ :=
  let wayIndex := par.mCount % numWay
  let par := if wayIndex = 0 then par.newInstances policy parConfig numWay else par
  (⟨par.parTableInstance, par.ownerTableInstance, wayIndex⟩, { par with mCount := par.mCount + 1 })

theorem instantiateEntry_of_mod_eq_zero {par : Par ρ} (h : par.mCount % numWay = 0) :
    instantiateEntry policy parConfig numWay par =
      (⟨some par.parTables.length, some par.ownerTables.length, 0⟩,
        { par.newInstances policy parConfig numWay with mCount := par.mCount + 1 }) := by
  simp [instantiateEntry, h, Par.newInstances]

theorem instantiateEntry_of_mod_ne_zero {par : Par ρ} (h : par.mCount % numWay ≠ 0) :
    instantiateEntry policy parConfig numWay par =
      (⟨par.parTableInstance, par.ownerTableInstance, par.mCount % numWay⟩,
        { par with mCount := par.mCount + 1 }) := by
  simp [instantiateEntry, h]

end Policy

namespace Ruby

namespace CacheMemory

variable {σ δ : Type} (instantiateEntry : σ → δ × σ)

/-- The inner loop of `CacheMemory::init`: `n` ways of one set. -/
def instantiateWays : Nat → σ → List δ × σ
  | 0, s => ([], s)
  | n + 1, s =>
      let (d, s) := instantiateEntry s
      let (ds, s) := instantiateWays n s
      (d :: ds, s)

/-- The loops of `CacheMemory::init` that fill `replacement_data[i][j]`: `numSets`
sets of `assoc` ways, in row-major order. -/
def init (assoc : Nat) : Nat → σ → List (List δ) × σ
  | 0, s => ([], s)
  | numSets + 1, s =>
      let (row, s) := instantiateWays instantiateEntry assoc s
      let (rows, s) := init assoc numSets s
      (row :: rows, s)

/-- With no ways, `init` instantiates nothing. -/
theorem init_zero_ways (numSets : Nat) (s : σ) :
    init instantiateEntry 0 numSets s = (List.replicate numSets [], s) := by
  induction numSets with
  | zero => rfl
  | succ n ih => simp [init, instantiateWays, ih, List.replicate_succ]

end CacheMemory

open Policy

variable {ρ : Type} (policy : ReplacementPolicy ρ) (parConfig : List Int) (numWay : Nat)

theorem mod_add_of_mod_eq_zero {m n i : Nat} (h : m % n = 0) (hi : i < n) : (m + i) % n = i := by
  rw [Nat.add_mod, h, Nat.zero_add, Nat.mod_mod, Nat.mod_eq_of_lt hi]

/-- Past way `0` the counter does not wrap, so the ways keep the tables allocated last. -/
theorem instantiateWays_of_mod_ne_zero (k : Nat) {par : Par ρ}
    (h : ∀ i < k, (par.mCount + i) % numWay ≠ 0) :
    CacheMemory.instantiateWays (instantiateEntry policy parConfig numWay) k par =
      ((List.range k).map fun i => ⟨par.parTableInstance, par.ownerTableInstance, (par.mCount + i) % numWay⟩,
        { par with mCount := par.mCount + k }) := by
  induction k generalizing par with
  | zero => rfl
  | succ k ih =>
      have h0 : par.mCount % numWay ≠ 0 := by simpa using h 0 (Nat.succ_pos k)
      have hrest : ∀ i < k, (par.mCount + 1 + i) % numWay ≠ 0 := fun i hi => by
        rw [Nat.add_assoc, Nat.add_comm 1 i, ← Nat.add_assoc]
        exact h (i + 1) (by omega)
      simp only [CacheMemory.instantiateWays, instantiateEntry_of_mod_ne_zero policy parConfig numWay h0,
        @ih { par with mCount := par.mCount + 1 } hrest, List.range_succ_eq_map, List.map_cons, List.map_map]
      refine Prod.ext ?_ (by simp [Nat.add_assoc, Nat.add_comm 1 k])
      simp [Function.comp_def, Nat.add_assoc, Nat.add_comm 1]

/-- One set: way `0` allocates the set's tables and every way points to them. -/
theorem instantiateWays_set {par : Par ρ} (h : par.mCount % numWay = 0) (hpos : 0 < numWay) :
    CacheMemory.instantiateWays (instantiateEntry policy parConfig numWay) numWay par =
      ((List.range numWay).map fun j => ⟨some par.parTables.length, some par.ownerTables.length, j⟩,
        { par.newInstances policy parConfig numWay with mCount := par.mCount + numWay }) := by
  obtain ⟨k, rfl⟩ : ∃ k, numWay = k + 1 := ⟨numWay - 1, by omega⟩
  -- after way `0` the counter runs through `1, …, k` of the same set
  have hnext : ∀ i < k, (par.mCount + 1 + i) % (k + 1) = 1 + i := fun i hi => by
    rw [Nat.add_assoc]
    exact mod_add_of_mod_eq_zero h (by omega)
  have hrest := @instantiateWays_of_mod_ne_zero ρ policy parConfig (k + 1) k
    { par.newInstances policy parConfig (k + 1) with mCount := par.mCount + 1 }
    fun i hi => by simp [hnext i hi]
  simp only [CacheMemory.instantiateWays, instantiateEntry_of_mod_eq_zero policy parConfig _ h, hrest]
  refine Prod.ext ?_ (by simp [Nat.add_assoc, Nat.add_comm 1 k])
  simp only [List.range_succ_eq_map, List.map_cons, List.map_map]
  congr 1
  refine List.map_congr_left fun i hi => ?_
  simp [Par.newInstances, hnext i (List.mem_range.mp hi), Nat.add_comm 1 i]

/-- Set after set from a counter at a set boundary: set `i` gets the `i`-th new pair of
tables. -/
theorem init_of_mod_eq_zero (hpos : 0 < numWay) (n : Nat) {par : Par ρ} (h : par.mCount % numWay = 0) :
    (CacheMemory.init (instantiateEntry policy parConfig numWay) numWay n par).1 =
        (List.range n).map (fun i => (List.range numWay).map fun j =>
          ⟨some (par.parTables.length + i), some (par.ownerTables.length + i), j⟩) ∧
      (CacheMemory.init (instantiateEntry policy parConfig numWay) numWay n par).2.parTables =
        par.parTables ++ List.replicate n (newTables policy parConfig numWay).parTable ∧
      (CacheMemory.init (instantiateEntry policy parConfig numWay) numWay n par).2.ownerTables =
        par.ownerTables ++ List.replicate n (newTables policy parConfig numWay).ownerTable := by
  induction n generalizing par with
  | zero => simp [CacheMemory.init]
  | succ n ih =>
      -- the next set starts where the counter wraps again
      have h' : (par.mCount + numWay) % numWay = 0 := by rw [Nat.add_mod_right, h]
      obtain ⟨hrows, hpar, howner⟩ :=
        @ih { par.newInstances policy parConfig numWay with mCount := par.mCount + numWay } h'
      simp only [CacheMemory.init, instantiateWays_set policy parConfig numWay h hpos, hrows, hpar, howner]
      refine ⟨?_, ?_, ?_⟩
      · simp [List.range_succ_eq_map, Par.newInstances, Nat.add_assoc, Nat.add_comm 1]
      · simp [Par.newInstances, List.replicate_succ]
      · simp [Par.newInstances, List.replicate_succ]

theorem init_shares_tables_by_set (policy : ReplacementPolicy ρ) (parConfig : List Int)
    (numSets assoc : Nat) :
    let r := CacheMemory.init (instantiateEntry policy parConfig assoc) assoc numSets Par.fresh
    r.1 = (List.range numSets).map (fun i => (List.range assoc).map fun j => ⟨some i, some i, j⟩) ∧
      ∀ d ∈ r.1.flatten, r.2.deref d = some (newTables policy parConfig assoc) := by
  intro r
  rcases Nat.eq_zero_or_pos assoc with rfl | hpos
  · -- no ways: every row is empty
    have hr : r.1 = List.replicate numSets [] := by simp [r, CacheMemory.init_zero_ways]
    refine ⟨by simp [hr], fun d hd => ?_⟩
    simp [hr] at hd
  · obtain ⟨hrows, hpar, howner⟩ := @init_of_mod_eq_zero ρ policy parConfig assoc hpos numSets Par.fresh rfl
    simp only [Par.fresh_parTables, Par.fresh_ownerTables, List.length_nil, Nat.zero_add,
      List.nil_append] at hrows hpar howner
    refine ⟨hrows, fun d hd => ?_⟩
    rw [hrows] at hd
    simp only [List.mem_flatten, List.mem_map, List.mem_range] at hd
    obtain ⟨_, ⟨i, hi, rfl⟩, hd⟩ := hd
    obtain ⟨j, -, rfl⟩ := List.mem_map.mp hd
    simp [Par.deref, r, hpar, howner, hi]

end Ruby

end ParRP
