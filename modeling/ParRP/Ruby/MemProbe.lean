import ParRP.Lib.OrdMap
import ParRP.Lib.Except

/-!
# The omptr memory probe (`CustomMemProbe`)

The sequencer reports every completed access as a `CustomMemTrace`; the `write`
syscall turns the `[OMPTR] BB n starts.` and `ends.` lines that an instrumented program
prints into `start_bb_scope` and `end_bb_scope`. The probe keeps, per basic block and
line address, the number of accesses by where they hit, and, under the key of line
address `0`, the block's execution cycles as a metadata entry. `closeStreams` writes
the entries in key order.

Above the probe, `Recorded` is what a run is meant to record: the block each thread is
in, the thread and cycles with which each block ended, and the accesses made in each
block to each line. `Simulates` relates the two, and every run keeps it as long as no
access made inside a block is to line address `0`.
-/

namespace ParRP

namespace Ruby

inductive AccessType
  | IFETCH
  | READ
  | WRITE
  deriving DecidableEq, Repr

inductive DataRegion
  | GLOBAL
  | STACK
  | HEAP
  deriving DecidableEq, Repr

inductive HitStatus
  | Local_L1Cache
  | Remote_L1Cache
  | L2Cache
  | Memory
  deriving DecidableEq, Repr

/-- `struct CustomMemTrace`, as the sequencer's hit callback fills it. -/
structure CustomMemTrace where
  address : Nat
  lineAddress : Nat
  accessType : AccessType
  hitStatus : HitStatus
  dataRegion : DataRegion
  threadId : Nat
  deriving DecidableEq, Repr

/-- The probe's `struct AddrAccessStats`. -/
structure AddrAccessStats where
  bbId : Int
  threadId : Nat
  address : Nat
  lineAddress : Nat
  isIfetch : Bool
  numLocalL1Hit : Nat
  numRemoteL1Hit : Nat
  numL2Hit : Nat
  numMemoryAccess : Nat
  dataRegion : DataRegion
  isMetadata : Bool
  execCycles : Nat
  deriving DecidableEq, Repr

/-- `AddrAccessStats::record`. -/
def AddrAccessStats.record (e : AddrAccessStats) : HitStatus → AddrAccessStats
  | .Local_L1Cache => { e with numLocalL1Hit := e.numLocalL1Hit + 1 }
  | .Remote_L1Cache => { e with numRemoteL1Hit := e.numRemoteL1Hit + 1 }
  | .L2Cache => { e with numL2Hit := e.numL2Hit + 1 }
  | .Memory => { e with numMemoryAccess := e.numMemoryAccess + 1 }

/-- `struct AddrAccessKey`. -/
structure AddrAccessKey where
  bbId : Int
  address : Nat
  deriving DecidableEq, Repr

/-- `AddrAccessKey::operator<`. -/
def AddrAccessKey.lt (a b : AddrAccessKey) : Bool :=
  if a.bbId < b.bbId then true
  else if a.bbId > b.bbId then false
  else a.address < b.address

/-- The order of `std::map<AddrAccessKey, AddrAccessStats>`: by block, then by address. -/
instance : LinearOrder AddrAccessKey :=
  LinearOrder.lift' (fun k => toLex (k.bbId, k.address)) fun a b h => by
    cases a
    cases b
    simp_all

theorem AddrAccessKey.lt_iff {a b : AddrAccessKey} :
    a < b ↔ a.bbId < b.bbId ∨ a.bbId = b.bbId ∧ a.address < b.address :=
  Prod.Lex.toLex_lt_toLex

/-- The map orders keys as `operator<` does. -/
theorem AddrAccessKey.lt_iff_lt {a b : AddrAccessKey} : a < b ↔ a.lt b = true := by
  rw [AddrAccessKey.lt_iff, AddrAccessKey.lt]
  split_ifs <;> simp <;> omega

/-- `ProtoMessage::AddrAccessStats`, one record of the stats stream. -/
structure ProtoAddrAccessStats where
  bbId : Int
  address : Nat
  lineAddress : Nat
  isIfetch : Bool
  numLocalL1Hit : Nat
  numRemoteL1Hit : Nat
  numL2Hit : Nat
  numMemoryAccess : Nat
  threadId : Nat
  dataRegion : DataRegion
  isMetadata : Bool
  execCycles : Nat
  deriving DecidableEq, Repr

/-- `ProtoMessage::CustomMemTrace`, one record of the raw trace. -/
structure ProtoCustomMemTrace where
  bbId : Int
  address : Nat
  lineAddress : Nat
  accessType : AccessType
  hitStatus : HitStatus
  threadId : Nat
  dataRegion : DataRegion
  deriving DecidableEq, Repr

/-- The probe's parameters. -/
structure ProbeConfig where
  useTrafficGen : Bool
  enableRawTrace : Bool

/-- The probe's state: `m_bb_id_map`, `m_done_bb`, `m_addr_stats`, and what the raw
trace stream has received. -/
structure CustomMemProbe where
  bbIdMap : Nat → Option Int
  doneBb : List Int
  addrStats : OrdMap AddrAccessKey AddrAccessStats
  rawTrace : List ProtoCustomMemTrace

namespace CustomMemProbe

def init : CustomMemProbe := ⟨fun _ => none, [], .empty, []⟩

/-- `start_bb_scope`. -/
def startBbScope (p : CustomMemProbe) (bbId : Int) (threadId : Nat) : CustomMemProbe :=
  { p with bbIdMap := Function.update p.bbIdMap threadId (some bbId) }

/-- The entry `recordMemTrace` creates for the first access to a line in a block. -/
def newEntry (bbId : Int) (tr : CustomMemTrace) : AddrAccessStats :=
  AddrAccessStats.record
    { bbId, threadId := tr.threadId, address := tr.lineAddress, lineAddress := tr.lineAddress,
      dataRegion := tr.dataRegion, isIfetch := tr.accessType == .IFETCH, numLocalL1Hit := 0,
      numRemoteL1Hit := 0, numL2Hit := 0, numMemoryAccess := 0, isMetadata := false,
      execCycles := 0 }
    tr.hitStatus

/-- The entry `recordExecCycles` creates for a block none of whose accesses was to line
address `0`. -/
def metadataEntry (bbId : Int) (threadId execCycles : Nat) : AddrAccessStats where
  bbId := bbId
  threadId := threadId
  address := 0
  lineAddress := 0
  dataRegion := .GLOBAL
  isIfetch := false
  numLocalL1Hit := 0
  numRemoteL1Hit := 0
  numL2Hit := 0
  numMemoryAccess := 0
  isMetadata := true
  execCycles := execCycles

/-- `recordMemTrace`. -/
def recordMemTrace (cfg : ProbeConfig) (p : CustomMemProbe) (tr : CustomMemTrace) : CustomMemProbe :=
  let bbId : Int := if cfg.useTrafficGen then tr.threadId else (p.bbIdMap tr.threadId).getD (-1)
  if cfg.enableRawTrace then
    { p with rawTrace := p.rawTrace ++
        [⟨bbId, tr.address, tr.lineAddress, tr.accessType, tr.hitStatus, tr.threadId, tr.dataRegion⟩] }
  else if bbId ≠ -1 then
    -- statistics per line address
    let key : AddrAccessKey := ⟨bbId, tr.lineAddress⟩
    match p.addrStats.find? key with
    | some _ => { p with addrStats := p.addrStats.modify key (·.record tr.hitStatus) }
    | none => { p with addrStats := p.addrStats.emplace key (newEntry bbId tr) }
  else p

/-- `recordExecCycles`: the metadata entry of a block is the entry at address `0`. -/
def recordExecCycles (p : CustomMemProbe) (bbId : Int) (threadId execCycles : Nat) : CustomMemProbe :=
  let key : AddrAccessKey := ⟨bbId, 0⟩
  match p.addrStats.find? key with
  | some _ => { p with addrStats := p.addrStats.modify key fun e => { e with isMetadata := true, execCycles } }
  | none => { p with addrStats := p.addrStats.emplace key (metadataEntry bbId threadId execCycles) }

/-- `end_bb_scope`, with the execution cycles the thread's CPU statistics give. -/
def endBbScope (p : CustomMemProbe) (threadId execCycles : Nat) : Except String CustomMemProbe := do
  let bbId ← match p.bbIdMap threadId with
    | some b => pure b
    | none => throw "assert(it != m_bb_id_map.end())"
  unless bbId ≠ -1 do throw "assert(it->second != -1)"
  unless bbId ∉ p.doneBb do throw "assert(m_done_bb.find(it->second) == m_done_bb.end())"
  let p := { p with doneBb := bbId :: p.doneBb, bbIdMap := Function.update p.bbIdMap threadId (some (-1)) }
  return p.recordExecCycles bbId threadId execCycles

/-- One `AddrAccessStats` message from an entry. -/
def toProto (e : AddrAccessStats) : ProtoAddrAccessStats :=
  ⟨e.bbId, e.address, e.lineAddress, e.isIfetch, e.numLocalL1Hit, e.numRemoteL1Hit, e.numL2Hit,
    e.numMemoryAccess, e.threadId, e.dataRegion, e.isMetadata, e.execCycles⟩

/-- `closeStreams`: the stats stream, one message per entry in key order. -/
def closeStreams (cfg : ProbeConfig) (p : CustomMemProbe) : List ProtoAddrAccessStats :=
  if cfg.enableRawTrace = false then p.addrStats.entries.map fun e => toProto e.2 else []

end CustomMemProbe

/-- A call the probe receives. -/
inductive ProbeCall
  | startBbScope (bbId : Int) (threadId : Nat)
  | endBbScope (threadId execCycles : Nat)
  | recordMemTrace (tr : CustomMemTrace)
  deriving DecidableEq, Repr

namespace CustomMemProbe

def step (cfg : ProbeConfig) (p : CustomMemProbe) : ProbeCall → Except String CustomMemProbe
  | .startBbScope bbId threadId => pure (p.startBbScope bbId threadId)
  | .endBbScope threadId execCycles => p.endBbScope threadId execCycles
  | .recordMemTrace tr => pure (p.recordMemTrace cfg tr)

/-- A run of the simulation: the first failing assertion, or the probe at its end. -/
def run (cfg : ProbeConfig) (p : CustomMemProbe) (calls : List ProbeCall) : Except String CustomMemProbe :=
  calls.foldlM (step cfg) p

end CustomMemProbe

/-- What a run of the probe is meant to record: the block each thread is in (`-1`
outside any), the thread and cycles with which each block ended, and the accesses made
in each block to each line, in the order they were made. -/
structure Recorded where
  scope : Nat → Int
  ended : Int → Option (Nat × Nat)
  accesses : Int → Nat → List CustomMemTrace

namespace Recorded

def init : Recorded := ⟨fun _ => -1, fun _ => none, fun _ _ => []⟩

/-- An access to its line, made in block `b`. -/
def addAccess (r : Recorded) (b : Int) (tr : CustomMemTrace) : Recorded :=
  { r with
    accesses := Function.update r.accesses b
      (Function.update (r.accesses b) tr.lineAddress (r.accesses b tr.lineAddress ++ [tr])) }

def step (r : Recorded) : ProbeCall → Recorded
  | .startBbScope bbId threadId => { r with scope := Function.update r.scope threadId bbId }
  | .endBbScope threadId execCycles =>
      if r.scope threadId = -1 then r
      else
        { r with
          scope := Function.update r.scope threadId (-1)
          ended := Function.update r.ended (r.scope threadId) (some (threadId, execCycles)) }
  | .recordMemTrace tr =>
      if r.scope tr.threadId = -1 then r else r.addAccess (r.scope tr.threadId) tr

@[simp] theorem addAccess_scope (r : Recorded) (b : Int) (tr : CustomMemTrace) :
    (r.addAccess b tr).scope = r.scope := rfl

@[simp] theorem addAccess_ended (r : Recorded) (b : Int) (tr : CustomMemTrace) :
    (r.addAccess b tr).ended = r.ended := rfl

theorem addAccess_accesses (r : Recorded) (b : Int) (tr : CustomMemTrace) (b' : Int) (a : Nat) :
    (r.addAccess b tr).accesses b' a =
      if b' = b ∧ a = tr.lineAddress then r.accesses b a ++ [tr] else r.accesses b' a := by
  by_cases hb : b' = b
  · subst hb
    by_cases ha : a = tr.lineAddress
    · subst ha
      simp [addAccess]
    · simp [addAccess, ha]
  · simp [addAccess, hb]

def run (r : Recorded) (calls : List ProbeCall) : Recorded := calls.foldl step r

/-- No access made inside a block is to line address `0`, the address of the blocks'
metadata entries. -/
def NoLineZero (r : Recorded) : Prop := ∀ b, r.accesses b 0 = []

/-- A call only adds accesses. -/
theorem accesses_step_of_eq_nil {r : Recorded} {c : ProbeCall} {b : Int} {a : Nat}
    (h : (r.step c).accesses b a = []) : r.accesses b a = [] := by
  cases c with
  | startBbScope => exact h
  | endBbScope =>
      simp only [step] at h
      split at h <;> exact h
  | recordMemTrace tr =>
      simp only [step] at h
      split at h
      · exact h
      · rw [addAccess_accesses] at h
        split at h
        · simp at h
        · exact h

theorem noLineZero_of_step {r : Recorded} {c : ProbeCall} (h : (r.step c).NoLineZero) : r.NoLineZero :=
  fun b => accesses_step_of_eq_nil (h b)

theorem noLineZero_of_run {r : Recorded} {calls : List ProbeCall} (h : (r.run calls).NoLineZero) :
    r.NoLineZero := by
  induction calls generalizing r with
  | nil => exact h
  | cons c calls ih => exact noLineZero_of_step (ih h)

/-- Calls that make no access to line address `0` record none. -/
theorem noLineZero_run {r : Recorded} (h : r.NoLineZero) {calls : List ProbeCall}
    (hcalls : ∀ c ∈ calls, ∀ tr, c = .recordMemTrace tr → tr.lineAddress ≠ 0) : (r.run calls).NoLineZero := by
  induction calls generalizing r with
  | nil => exact h
  | cons c calls ih =>
      refine ih (fun b => ?_) fun c' hc' => hcalls c' (.tail _ hc')
      cases c with
      | startBbScope => exact h b
      | endBbScope => simp only [step]; split <;> exact h b
      | recordMemTrace tr =>
          have hline := hcalls _ (.head _) tr rfl
          simp only [step]
          split
          · exact h b
          · rw [addAccess_accesses, if_neg fun hba => hline hba.2.symm]
            exact h b

/-- A call that starts a block starts one of `0, …, n - 1`. -/
def StartsBelow (n : Nat) : ProbeCall → Prop
  | .startBbScope bbId _ => 0 ≤ bbId ∧ bbId < n
  | _ => True

instance (n : Nat) : DecidablePred (StartsBelow n) := fun c =>
  match c with
  | .startBbScope bbId _ => inferInstanceAs (Decidable (0 ≤ bbId ∧ bbId < n))
  | .endBbScope _ _ => isTrue trivial
  | .recordMemTrace _ => isTrue trivial

/-- What a run records is about blocks `0, …, n - 1`, and the accesses listed for a line
are to that line. -/
structure Wf (n : Nat) (r : Recorded) : Prop where
  scope : ∀ t, r.scope t = -1 ∨ (0 ≤ r.scope t ∧ r.scope t < n)
  ended : ∀ b, (r.ended b).isSome → 0 ≤ b ∧ b < n
  accesses : ∀ b a, r.accesses b a ≠ [] → 0 ≤ b ∧ b < n
  lines : ∀ b a, ∀ tr ∈ r.accesses b a, tr.lineAddress = a

theorem wf_init (n : Nat) : Wf n init where
  scope _ := .inl rfl
  ended _ h := by simp [init] at h
  accesses _ _ h := absurd rfl h
  lines _ _ _ h := by simp [init] at h

theorem Wf.step {n : Nat} {r : Recorded} (h : Wf n r) {c : ProbeCall} (hc : StartsBelow n c) :
    Wf n (r.step c) := by
  cases c with
  | startBbScope bbId threadId =>
      refine ⟨fun t => ?_, h.ended, h.accesses, h.lines⟩
      by_cases ht : t = threadId
      · subst ht
        have hin : 0 ≤ bbId ∧ bbId < n := hc
        simp [Recorded.step, hin]
      · simpa [Recorded.step, ht] using h.scope t
  | endBbScope threadId execCycles =>
      simp only [Recorded.step]
      split
      · exact h
      · next hin =>
          refine ⟨fun t => ?_, fun b hb => ?_, h.accesses, h.lines⟩
          · by_cases ht : t = threadId
            · subst ht
              simp
            · simpa [ht] using h.scope t
          · by_cases hb' : b = r.scope threadId
            · subst hb'
              exact (h.scope threadId).resolve_left hin
            · exact h.ended b (by simpa [hb'] using hb)
  | recordMemTrace tr =>
      simp only [Recorded.step]
      split
      · exact h
      · next hin =>
          refine ⟨h.scope, h.ended, fun b a hne => ?_, fun b a tr' htr => ?_⟩
          · rw [addAccess_accesses] at hne
            split at hne
            · next hba =>
                rw [hba.1]
                exact (h.scope tr.threadId).resolve_left hin
            · exact h.accesses b a hne
          · rw [addAccess_accesses] at htr
            split at htr
            · next hba =>
                rcases List.mem_append.mp htr with htr | htr
                · exact h.lines _ _ tr' (hba.1 ▸ htr)
                · simp only [List.mem_singleton] at htr
                  rw [htr, hba.2]
            · exact h.lines b a tr' htr

theorem Wf.run {n : Nat} {r : Recorded} (h : Wf n r) {calls : List ProbeCall}
    (hcalls : ∀ c ∈ calls, StartsBelow n c) : Wf n (r.run calls) := by
  induction calls generalizing r with
  | nil => exact h
  | cons c calls ih =>
      exact ih (h.step (hcalls c (.head _))) fun c' hc' => hcalls c' (.tail _ hc')

end Recorded

namespace CustomMemProbe

/-- The entry of a line accessed in a block: created by the first access, counted by
every one. -/
def statsOf (bbId : Int) : List CustomMemTrace → Option AddrAccessStats
  | [] => none
  | tr :: trs => some (trs.foldl (fun e t => e.record t.hitStatus) (newEntry bbId tr))

theorem statsOf_append_singleton (bbId : Int) (trs : List CustomMemTrace) (tr : CustomMemTrace) :
    statsOf bbId (trs ++ [tr]) =
      some (((statsOf bbId trs).map (·.record tr.hitStatus)).getD (newEntry bbId tr)) := by
  cases trs with
  | nil => rfl
  | cons t ts => simp [statsOf, List.foldl_append]

/-- Counting a run of accesses adds, to each counter, the accesses that hit there. -/
theorem foldl_record (e : AddrAccessStats) (trs : List CustomMemTrace) :
    trs.foldl (fun e t => e.record t.hitStatus) e =
      { e with
        numLocalL1Hit := e.numLocalL1Hit + trs.countP (·.hitStatus = .Local_L1Cache)
        numRemoteL1Hit := e.numRemoteL1Hit + trs.countP (·.hitStatus = .Remote_L1Cache)
        numL2Hit := e.numL2Hit + trs.countP (·.hitStatus = .L2Cache)
        numMemoryAccess := e.numMemoryAccess + trs.countP (·.hitStatus = .Memory) } := by
  induction trs generalizing e with
  | nil => simp
  | cons tr trs ih =>
      rw [List.foldl_cons, ih]
      cases h : tr.hitStatus <;> simp [AddrAccessStats.record, h] <;> omega

/-- The entry of the accesses `tr :: trs` to one line of block `b`: the first access's
thread, kind and region, and the number of them by where they hit. -/
theorem statsOf_cons (bbId : Int) (tr : CustomMemTrace) (trs : List CustomMemTrace) :
    statsOf bbId (tr :: trs) = some
      { bbId, threadId := tr.threadId, address := tr.lineAddress, lineAddress := tr.lineAddress,
        isIfetch := tr.accessType == .IFETCH,
        numLocalL1Hit := (tr :: trs).countP (·.hitStatus = .Local_L1Cache)
        numRemoteL1Hit := (tr :: trs).countP (·.hitStatus = .Remote_L1Cache)
        numL2Hit := (tr :: trs).countP (·.hitStatus = .L2Cache)
        numMemoryAccess := (tr :: trs).countP (·.hitStatus = .Memory)
        dataRegion := tr.dataRegion, isMetadata := false, execCycles := 0 } := by
  rw [statsOf, foldl_record]
  cases h : tr.hitStatus <;> simp [newEntry, AddrAccessStats.record, h] <;> omega

/-- The entry a run should leave at key `(b, A)`: the metadata entry of an ended block at
address `0`, and the counts of the accesses to `A` made in `b` elsewhere. -/
def expectedEntry (r : Recorded) (b : Int) (a : Nat) : Option AddrAccessStats :=
  if a = 0 then (r.ended b).map fun e => metadataEntry b e.1 e.2 else statsOf b (r.accesses b a)

/-- The probe holds what the run recorded. -/
structure Simulates (p : CustomMemProbe) (r : Recorded) : Prop where
  scope : ∀ t, (p.bbIdMap t).getD (-1) = r.scope t
  done : ∀ b, b ∈ p.doneBb ↔ (r.ended b).isSome
  stats : ∀ b a, p.addrStats.find? ⟨b, a⟩ = expectedEntry r b a

theorem simulates_init : Simulates init Recorded.init where
  scope _ := rfl
  done _ := by simp [init, Recorded.init]
  stats b a := by
    unfold expectedEntry
    split <;> simp [init, Recorded.init, statsOf]

/-- What an expected entry is: in a block below `n`, of that block, metadata exactly at
address `0`, and of its own line elsewhere. -/
theorem expectedEntry_eq_some {n : Nat} {r : Recorded} (hwf : r.Wf n) {b : Int} {a : Nat}
    {v : AddrAccessStats} (h : expectedEntry r b a = some v) :
    0 ≤ b ∧ b < n ∧ v.bbId = b ∧ v.isMetadata = decide (a = 0) ∧ (a ≠ 0 → v.lineAddress = a) := by
  unfold expectedEntry at h
  split at h
  · next ha =>
      obtain ⟨e, he, rfl⟩ := Option.map_eq_some_iff.mp h
      obtain ⟨h0, hn⟩ := hwf.ended b (by simp [he])
      exact ⟨h0, hn, rfl, by simp [metadataEntry, ha], fun h => absurd ha h⟩
  · next ha =>
      cases hacc : r.accesses b a with
      | nil => simp [hacc, statsOf] at h
      | cons tr trs =>
          rw [hacc, statsOf_cons] at h
          cases h
          obtain ⟨h0, hn⟩ := hwf.accesses b a (by simp [hacc])
          have hline : tr.lineAddress = a := hwf.lines b a tr (by simp [hacc])
          exact ⟨h0, hn, rfl, by simp [ha], fun _ => hline⟩

/-- The normal configuration: statistics per basic block, no raw trace. -/
def normalConfig : ProbeConfig := ⟨false, false⟩

@[simp] theorem recordMemTrace_bbIdMap (cfg : ProbeConfig) (p : CustomMemProbe) (tr : CustomMemTrace) :
    (p.recordMemTrace cfg tr).bbIdMap = p.bbIdMap := by
  unfold recordMemTrace
  dsimp only
  split_ifs <;> (try split) <;> rfl

@[simp] theorem recordMemTrace_doneBb (cfg : ProbeConfig) (p : CustomMemProbe) (tr : CustomMemTrace) :
    (p.recordMemTrace cfg tr).doneBb = p.doneBb := by
  unfold recordMemTrace
  dsimp only
  split_ifs <;> (try split) <;> rfl

section Step

variable {p : CustomMemProbe} {r : Recorded}

theorem simulates_startBbScope (h : Simulates p r) (bbId : Int) (threadId : Nat) :
    Simulates (p.startBbScope bbId threadId) (r.step (.startBbScope bbId threadId)) where
  scope t := by
    by_cases ht : t = threadId
    · subst ht
      simp [startBbScope, Recorded.step]
    · simp [startBbScope, Recorded.step, ht, h.scope t]
  done := h.done
  stats := h.stats

/-- A successful `end_bb_scope` ends the block the thread is in, which is a block and has
not ended before; its metadata entry is then the only entry at its address `0`. -/
theorem simulates_endBbScope (h : Simulates p r) {threadId execCycles : Nat} {p' : CustomMemProbe}
    (hend : p.endBbScope threadId execCycles = .ok p') :
    Simulates p' (r.step (.endBbScope threadId execCycles)) ∧ r.scope threadId ≠ -1 := by
  simp only [endBbScope] at hend
  split at hend
  case h_2 => simp [except_bind_eq_ok] at hend
  rename_i b hmap
  simp only [pure_bind, except_assert_eq_ok, except_pure_eq_ok] at hend
  obtain ⟨hne, hnew, rfl⟩ := hend
  have hscope : r.scope threadId = b := by rw [← h.scope threadId, hmap]; rfl
  have hnone : r.ended b = none := by
    simpa using (h.done b).not.mp hnew
  -- the metadata key was free: no access to line `0` and no earlier end
  have hfree : p.addrStats.find? ⟨b, 0⟩ = none := by
    rw [h.stats b 0, expectedEntry, if_pos rfl, hnone]
    rfl
  have hstep : r.step (.endBbScope threadId execCycles) =
      { r with
        scope := Function.update r.scope threadId (-1)
        ended := Function.update r.ended b (some (threadId, execCycles)) } := by
    simp [Recorded.step, hscope, hne]
  rw [hstep]
  refine ⟨⟨fun t => ?_, fun b' => ?_, fun b' a => ?_⟩, by rw [hscope]; exact hne⟩
  · by_cases ht : t = threadId
    · subst ht
      simp [recordExecCycles, hfree]
    · simp [recordExecCycles, hfree, ht, h.scope t]
  · by_cases hb' : b' = b
    · subst hb'
      simp [recordExecCycles, hfree]
    · simp [recordExecCycles, hfree, hb', h.done b']
  · simp only [recordExecCycles, hfree]
    rw [OrdMap.find?_emplace]
    by_cases hk : (⟨b', a⟩ : AddrAccessKey) = ⟨b, 0⟩
    · obtain ⟨rfl, rfl⟩ := AddrAccessKey.mk.inj hk
      simp [hfree, expectedEntry]
    · rw [if_neg hk, h.stats b' a]
      have : ¬ (b' = b ∧ a = 0) := fun h => hk (by rw [h.1, h.2])
      unfold expectedEntry
      split
      · next ha =>
          have hb' : b' ≠ b := fun e => this ⟨e, ha⟩
          simp [hb']
      · rfl

/-- An access made inside a block, to a line other than `0`, is counted in its entry. -/
theorem simulates_recordMemTrace (h : Simulates p r) (tr : CustomMemTrace)
    (hzero : (r.step (.recordMemTrace tr)).NoLineZero) :
    Simulates (p.recordMemTrace normalConfig tr) (r.step (.recordMemTrace tr)) := by
  have hb : (p.bbIdMap tr.threadId).getD (-1) = r.scope tr.threadId := h.scope tr.threadId
  by_cases hout : r.scope tr.threadId = -1
  · -- outside any block the access is not recorded
    have hp : p.recordMemTrace normalConfig tr = p := by
      simp [recordMemTrace, normalConfig, hb, hout]
    have hr : r.step (.recordMemTrace tr) = r := by simp [Recorded.step, hout]
    rw [hp, hr]
    exact h
  · set b := r.scope tr.threadId
    have hstep : r.step (.recordMemTrace tr) = r.addAccess b tr := by simp [Recorded.step, hout, b]
    rw [hstep] at hzero ⊢
    have hline : tr.lineAddress ≠ 0 := by
      intro h0
      have := hzero b
      simp [Recorded.addAccess_accesses, h0] at this
    -- the entry of the line, before and after
    have hafter : (p.recordMemTrace normalConfig tr).addrStats =
        match p.addrStats.find? ⟨b, tr.lineAddress⟩ with
        | some _ => p.addrStats.modify ⟨b, tr.lineAddress⟩ (·.record tr.hitStatus)
        | none => p.addrStats.emplace ⟨b, tr.lineAddress⟩ (newEntry b tr) := by
      simp only [recordMemTrace, normalConfig, hb, Bool.false_eq_true, if_false, ne_eq, hout,
        not_false_eq_true, if_true]
      split <;> rfl
    have hold := h.stats b tr.lineAddress
    rw [expectedEntry, if_neg hline] at hold
    refine ⟨fun t => by simpa using h.scope t, fun b' => by simpa using h.done b', fun b' a => ?_⟩
    rw [hafter]
    by_cases hk : (⟨b', a⟩ : AddrAccessKey) = ⟨b, tr.lineAddress⟩
    · obtain ⟨rfl, rfl⟩ := AddrAccessKey.mk.inj hk
      rw [expectedEntry, if_neg hline, Recorded.addAccess_accesses, if_pos ⟨rfl, rfl⟩,
        statsOf_append_singleton, ← hold]
      split
      · next e he => simp [OrdMap.find?_modify, he]
      · next he => simp [OrdMap.find?_emplace, he]
    · have hne : ¬ (b' = b ∧ a = tr.lineAddress) := fun ⟨h1, h2⟩ => hk (by rw [h1, h2])
      have hsame : expectedEntry (r.addAccess b tr) b' a = expectedEntry r b' a := by
        unfold expectedEntry
        split
        · rfl
        · rw [Recorded.addAccess_accesses, if_neg hne]
      rw [hsame, ← h.stats b' a]
      split
      · simp [OrdMap.find?_modify, hk]
      · simp [OrdMap.find?_emplace, hk]

end Step

/-- Every successful run keeps the simulation, as long as no access it makes inside a
block is to line address `0`. -/
theorem simulates_run {calls : List ProbeCall} {p p' : CustomMemProbe} {r : Recorded}
    (h : Simulates p r) (hrun : p.run normalConfig calls = .ok p')
    (hzero : (r.run calls).NoLineZero) : Simulates p' (r.run calls) := by
  induction calls generalizing p r with
  | nil =>
      cases hrun
      exact h
  | cons c calls ih =>
      simp only [run, List.foldlM_cons, except_bind_eq_ok] at hrun
      obtain ⟨p₁, hstep, hrest⟩ := hrun
      have hzero₁ : (r.step c).NoLineZero := @Recorded.noLineZero_of_run (r.step c) calls hzero
      refine ih ?_ hrest hzero
      cases c with
      | startBbScope bbId threadId =>
          rw [step, except_pure_eq_ok] at hstep
          subst hstep
          exact simulates_startBbScope h bbId threadId
      | endBbScope threadId execCycles => exact (simulates_endBbScope h hstep).1
      | recordMemTrace tr =>
          rw [step, except_pure_eq_ok] at hstep
          subst hstep
          exact simulates_recordMemTrace h tr hzero₁

end CustomMemProbe

end Ruby

end ParRP
