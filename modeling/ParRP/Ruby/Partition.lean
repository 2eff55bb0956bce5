import ParRP.Ruby.System
import ParRP.Ruby.L2Partition
import ParRP.Policy.Par

/-!
# Partition mode over whole runs

What the LLC's partitions keep along every run of the system: the `Par` tables of the
set stay well formed, and a partition's rows change only in an LLC step that handles
a request of its own core, or the memory data for one.

Two runs show where partition mode breaks. A partition replacement back-invalidates
the requestor only, and the invalidation can reach a line on which the core has
opened a new transaction. And an L1 keeps, as a retained `I` entry, a line the LLC no
longer holds in its partition: the `fromI` request it later sends replaces within its
own partition and then trips the assertion of `sendMemRead`.
-/

namespace ParRP

namespace Ruby

namespace System

open Policy

variable {σ : Type} {P : SetPolicy σ} {llcUseParRp : Bool} {numberOfTBEs : Nat}

/-- The partition an event names: that of the LLC step it is, if any. -/
def namesPar (s : System σ) : SysStep → Option Nat
  | .l2 port => L2Cache.stepPar s.l2 port
  | _ => none

/-- One event keeps a property of the LLC's set that the plain calls and the calls of
the partition the event names keep. -/
theorem holds_next {J : σ → Prop} {n q : Nat} (hp : P.KeepsPlain n J) (hq : P.KeepsPar n q J)
    {s s' : System σ} {e : SysStep} (hname : ∀ p, namesPar s e = some p → p = q)
    (hs : s.l2.cacheMemory.Holds J n) (h : next P llcUseParRp numberOfTBEs s e = some (.ok s')) :
    s'.l2.cacheMemory.Holds J n := by
  obtain ⟨s₁, hstep, rfl⟩ := next_eq_ok.mp h
  show s₁.l2.cacheMemory.Holds J n
  rcases l2_step hstep with ⟨heq, -⟩ | ⟨port, l2', rfl, hl2, heq, -⟩
  · rw [heq]
    exact hs
  · rw [heq]
    exact CacheSet.holds_of_reflTransGen hp hq hs (L2Cache.step_changes hname hl2)

/-- A property of the LLC's set that the calls of every partition keep holds in every
reachable state. -/
theorem holds_of_reachable {J : σ → Prop} {n : Nat} (hp : P.KeepsPlain n J)
    (hq : ∀ q, P.KeepsPar n q J) {s₀ s : System σ} (h₀ : s₀.l2.cacheMemory.Holds J n)
    (h : Reachable P llcUseParRp numberOfTBEs s₀ s) : s.l2.cacheMemory.Holds J n := by
  induction h with
  | init => exact h₀
  | @step s s' e _ hnext ih =>
      exact holds_next (q := (namesPar s e).getD 0) hp (hq _) (fun p hp => by simp [hp]) ih hnext

/-- The `Par` tables of the LLC's set agree with each other in every run of the
system, whatever the partition sizes. -/
theorem tablesInv_of_reachable {ρ : Type} (policy : ReplacementPolicy ρ) (parConfig : List Int)
    {numCores l1Assoc n : Nat} {s : System (ParTables ρ)}
    (h : Reachable (parSet policy parConfig) llcUseParRp numberOfTBEs
      (init numCores l1Assoc (CacheSet.empty n (newTables policy parConfig n))) s) :
    TablesInv parConfig n s.l2.cacheMemory.repl ∧ s.l2.cacheMemory.ways.length = n :=
  holds_of_reachable (parSet_keepsPlain policy parConfig n _)
    (parSet_keepsPar_tablesInv policy parConfig) ⟨tablesInv_newTables policy, by simp [init, L2Cache.init, CacheSet.empty]⟩ h

/-- One core with a partition of one way in a one-way LLC, and an L1 of two ways. -/
def singleWaySystem : System (ParTables Nat) :=
  init 1 2 (CacheSet.empty 1 (newTables lru [1] 1))

/-- The steps of a load by core `i` of line `a` up to its request on the bus, snooped by
the core itself. -/
def requestSteps (i a : Nat) (type : RubyRequestType) : List SysStep :=
  [.issue i { lineAddress := a, type }, .l1 i .mandatory, .busGrant i, .l1 i .busGrant, .l1 i .request]

/-- The LLC takes core 0's load of line 1 into the core's partition, with the tables
still well formed. -/
theorem loadInPartition_tablesInv :
    ∃ s, Reachable (parSet lru [1]) true 1 singleWaySystem s ∧ s.l2.cacheMemory.isTagPresent 1 ∧
      TablesInv [1] 1 s.l2.cacheMemory.repl ∧ s.l2.cacheMemory.ways.length = 1 := by
  obtain ⟨s, hs, hpresent⟩ : ∃ s, Reachable (parSet lru [1]) true 1 singleWaySystem s ∧
      s.l2.cacheMemory.isTagPresent 1 :=
    exists_reachable_of_run (requestSteps 0 1 .LD ++ [.l2 .request]) (by decide +kernel)
  exact ⟨s, hs, hpresent, tablesInv_of_reachable lru [1] hs⟩

/-- The core loads line 1, then line 2, whose request replaces line 1 in the core's
partition and then in the set; the back-invalidation of line 1 stays in the L1's queue
while the core completes the load and starts a store to line 1. -/
def delayedInvSteps : List SysStep :=
  requestSteps 0 1 .LD ++ [.l2 .request, .memory 0, .l2 .responseFromDir, .l1 0 .response, .l1 0 .trigger] ++
  requestSteps 0 2 .LD ++ [.l2 .request, .l2 .request, .l2 .request, .memory 0, .l2 .responseFromDir,
    .l1 0 .response, .l1 0 .trigger] ++
  [.issue 0 { lineAddress := 1, type := .ST }, .l1 0 .mandatory]

/-- An `Inv_Par` can reach a line that the L1 holds in `S` with a TBE open for a store,
and `deallocateCacheEntry`'s `assert(is_invalid(tbe))` fails. -/
theorem invPar_meets_open_tbe :
    ∃ s, Reachable (parSet lru [1]) true 1 singleWaySystem s ∧
      ((s.l1s.head?).any fun c => c.backInvIn.head?.any fun m =>
        c.getState m.addr = .S ∧ (c.tbeOf m.addr).isSome) ∧
      errorOf (next (parSet lru [1]) true 1 s (.l1 0 .backInv)) = some "assert(is_invalid(tbe))" :=
  exists_reachable_of_run delayedInvSteps (by decide +kernel)

/-- The events that keep partition `p`'s rows: those that succeed and name no
partition, or another one. -/
def KeepsRows (P : SetPolicy σ) (llcUseParRp : Bool) (numberOfTBEs p : Nat) (s s' : System σ) : Prop :=
  ∃ e, next P llcUseParRp numberOfTBEs s e = some (.ok s') ∧ namesPar s e ≠ some p

/-- Partition isolation: along any run in which the LLC handles no request of core `p`
and no memory data for one, partition `p`'s `ParTable` row and owner row stay as they
are. -/
theorem rowsOf_of_keepsRows {ρ : Type} (policy : ReplacementPolicy ρ) (parConfig : List Int)
    {p : Nat} {s s' : System (ParTables ρ)}
    (h : Relation.ReflTransGen (KeepsRows (parSet policy parConfig) llcUseParRp numberOfTBEs p) s s') :
    s'.l2.cacheMemory.repl.rowsOf p = s.l2.cacheMemory.repl.rowsOf p := by
  -- the row and the number of ways are carried together, as `Holds` pairs them
  suffices hs : s'.l2.cacheMemory.Holds (fun t => t.rowsOf p = s.l2.cacheMemory.repl.rowsOf p)
      s.l2.cacheMemory.ways.length from hs.1
  induction h with
  | refl => exact ⟨rfl, rfl⟩
  | @tail b c _ hbc ih =>
      obtain ⟨e, hnext, hne⟩ := hbc
      -- a step that names no partition is checked against partition `p + 1`
      have hpq : p ≠ (namesPar b e).getD (p + 1) := by
        cases hname : namesPar b e with
        | none => simp
        | some q => simpa [hname, eq_comm] using hne
      exact holds_next (parSet_keepsPlain policy parConfig _ _)
        (parSet_keepsPar_rowsOf policy parConfig hpq _ _) (fun q hq => by simp [hq]) ih hnext

/-- Two cores with a partition of one way each in a two-way LLC, and L1s of two ways. -/
def twoPartitionSystem : System (ParTables Nat) :=
  init 2 2 (CacheSet.empty 2 (newTables lru [1, 1] 2))

/-- Core 0 loads line 1. Core 1 stores to it, and core 0 keeps its entry as a retained
`I` entry. Core 0 loads line 2, which takes line 1 out of partition 0; the
back-invalidation stays queued. Core 1 loads line 3, which takes line 1 out of
partition 1 and then out of the set, with its writeback. Core 0 loads line 1 again,
and its request carries `fromI`. -/
def retainedEntrySteps : List SysStep :=
  requestSteps 0 1 .LD ++ [.l2 .request, .memory 0, .l2 .responseFromDir, .l1 0 .response, .l1 0 .trigger] ++
  [.l1 1 .request] ++ requestSteps 1 1 .ST ++
  [.l1 0 .request, .l2 .request, .l1 1 .response, .l1 1 .trigger] ++
  requestSteps 0 2 .LD ++ [.l2 .request, .l2 .request, .memory 0, .l2 .responseFromDir,
    .l1 0 .response, .l1 0 .trigger] ++
  [.l1 1 .request] ++ requestSteps 1 3 .LD ++
  [.l2 .request, .l2 .request, .l2 .request, .l1 1 .backInv, .l2 .response, .memory 0,
    .l2 .responseFromDir] ++
  [.l1 0 .request, .issue 0 { lineAddress := 1, type := .LD }, .l1 0 .mandatory, .busGrant 0,
    .l1 0 .busGrant]

/-- A `fromI` request of core 0 changes partition 0's rows: the line is no longer in
the partition, which is full, so the LLC replaces within it. -/
theorem fromI_request_changes_own_rows :
    ∃ s, Reachable (parSet lru [1, 1]) true 1 twoPartitionSystem s ∧
      (s.l2.requestIn.head?.any fun m => m.requestor = l1Machine 0 ∧ m.fromI) ∧
      ((okOf (next (parSet lru [1, 1]) true 1 s (.l2 .request))).any fun s' =>
        s'.l2.cacheMemory.repl.rowsOf 0 ≠ s.l2.cacheMemory.repl.rowsOf 0) :=
  exists_reachable_of_run retainedEntrySteps (by decide +kernel)

/-- A `fromI` request of core 0 reaches a line the LLC does not hold, and
`sendMemRead`'s `assert(!in_msg.fromI)` fails. -/
theorem fromI_request_misses_llc :
    ∃ s, Reachable (parSet lru [1, 1]) true 1 twoPartitionSystem s ∧
      (s.l2.requestIn.head?.any fun m =>
        m.requestor = l1Machine 0 ∧ m.fromI ∧ (s.l2.directory m.addr).state = .InMem) ∧
      errorOf (next (parSet lru [1, 1]) true 1 s (.l2 .request)) = some "assert(!in_msg.fromI)" :=
  exists_reachable_of_run (retainedEntrySteps ++ [.l2 .request, .l2 .request]) (by decide +kernel)

end System

end Ruby

end ParRP
