import ParRP.Ruby.MemProbe

/-!
# The analyzer's reader of memory statistics (`parse_mem_stats`)

`parse_mem_stats` reads the messages `CustomMemProbe::closeStreams` wrote. It takes a
block to start where the block id goes up by one, keeps the execution cycles of every
metadata message, and files every other message under its block and line address.

A stream made of blocks `0, 1, …, n - 1`, each a metadata message followed by the
block's accesses by increasing line address, is read back exactly. Every run of the
probe writes such a stream, so the statistics the analyzer gets are the counts of the
accesses each block made to each line — except for line address `0`, whose entry is
the block's metadata entry.
-/

namespace ParRP

namespace Analyzer

open Ruby

/-- The analyzer's `struct AddrAccessStats`. -/
structure AddrAccessStats where
  bbId : Int
  threadId : Nat
  address : Nat
  lineAddress : Nat
  isIfetch : Bool
  numLocalL1Hit : Nat
  numRemoteL1Hit : Nat
  numL2Hit : Nat
  numMemoryAccess : Nat
  dataRegion : DataRegion
  isShared : Bool
  deriving DecidableEq, Repr

/-- The entry `parse_mem_stats` files for a message; `is_shared` is filled in later. -/
def entryOf (msg : ProtoAddrAccessStats) : AddrAccessStats where
  bbId := msg.bbId
  threadId := msg.threadId
  address := msg.lineAddress
  lineAddress := msg.lineAddress
  dataRegion := msg.dataRegion
  isIfetch := msg.isIfetch
  numLocalL1Hit := msg.numLocalL1Hit
  numRemoteL1Hit := msg.numRemoteL1Hit
  numL2Hit := msg.numL2Hit
  numMemoryAccess := msg.numMemoryAccess
  isShared := false

/-- The variables of `parse_mem_stats`' loop: `mem_stats`, `exec_cycles_map` and
`bb_id_counter`. -/
structure ParseState where
  memStats : List (OrdMap Nat AddrAccessStats)
  execCyclesMap : List Nat
  bbIdCounter : Int

/-- One iteration of `parse_mem_stats`' loop. -/
def parseMemStatsStep (st : ParseState) (msg : ProtoAddrAccessStats) : Except String ParseState := do
  let bbId := msg.bbId
  let st := if bbId = st.bbIdCounter + 1 then
      { st with bbIdCounter := st.bbIdCounter + 1, memStats := st.memStats ++ [OrdMap.empty] }
    else st
  unless bbId = st.bbIdCounter do throw "assert(bb_id == bb_id_counter)"
  if msg.isMetadata then
    return { st with execCyclesMap := st.execCyclesMap ++ [msg.execCycles] }
  -- `mem_stats[bb_id]` out of range is undefined behaviour in the source
  let m ← match (if 0 ≤ bbId then st.memStats[bbId.toNat]? else none) with
    | some m => pure m
    | none => throw "mem_stats index out of range"
  match m.find? msg.lineAddress with
  | some _ => throw "assert(false)"
  | none => return { st with memStats := st.memStats.set bbId.toNat (m.emplace msg.lineAddress (entryOf msg)) }

/-- `parse_mem_stats` on the messages of the stats stream. -/
def parseMemStats (msgs : List ProtoAddrAccessStats) :
    Except String (List (OrdMap Nat AddrAccessStats) × List Nat) := do
  let st ← msgs.foldlM parseMemStatsStep ⟨[], [], -1⟩
  unless st.memStats.length = st.execCyclesMap.length do
    throw "assert(mem_stats.size() == exec_cycles_map.size())"
  return (st.memStats, st.execCyclesMap)

/-- The messages of block `b`: its metadata message, then its accesses by increasing
line address. -/
structure BlockMsgs (b : Nat) (metaMsg : ProtoAddrAccessStats) (accs : List ProtoAddrAccessStats) : Prop where
  meta_bbId : metaMsg.bbId = b
  meta_isMetadata : metaMsg.isMetadata = true
  accs_bbId : ∀ m ∈ accs, m.bbId = b
  accs_isMetadata : ∀ m ∈ accs, m.isMetadata = false
  accs_sorted : accs.Pairwise fun m m' => m.lineAddress < m'.lineAddress

/-- An access message of the current block is filed under its line, which is free. -/
theorem parseMemStatsStep_access {ms : List (OrdMap Nat AddrAccessStats)} {m : OrdMap Nat AddrAccessStats}
    (cs : List Nat) {b : Nat} (hlen : ms.length = b) {msg : ProtoAddrAccessStats}
    (hb : msg.bbId = b) (hmeta : msg.isMetadata = false) (hfree : m.find? msg.lineAddress = none) :
    parseMemStatsStep ⟨ms ++ [m], cs, b⟩ msg =
      .ok ⟨ms ++ [m.emplace msg.lineAddress (entryOf msg)], cs, b⟩ := by
  have hnext : ¬ ((b : Int) = b + 1) := by omega
  simp [parseMemStatsStep, hb, hmeta, hnext, hfree, List.set_append_right, hlen, pure,
    Except.pure, bind, Except.bind]

/-- The accesses of the current block fill its map. -/
theorem foldlM_accesses {ms : List (OrdMap Nat AddrAccessStats)} (cs : List Nat) {b : Nat}
    (hlen : ms.length = b) {accs : List ProtoAddrAccessStats} (hbb : ∀ m ∈ accs, m.bbId = b)
    (hmeta : ∀ m ∈ accs, m.isMetadata = false)
    (hsorted : accs.Pairwise fun m m' => m.lineAddress < m'.lineAddress) :
    ∀ m₀ : OrdMap Nat AddrAccessStats, (∀ m ∈ accs, m₀.find? m.lineAddress = none) →
      ∃ m, accs.foldlM parseMemStatsStep ⟨ms ++ [m₀], cs, b⟩ = .ok ⟨ms ++ [m], cs, b⟩ ∧
        ∀ a, m.find? a = ((accs.find? fun msg => msg.lineAddress = a).map entryOf).or (m₀.find? a) := by
  induction accs with
  | nil => exact fun m₀ _ => ⟨m₀, rfl, fun a => by simp⟩
  | cons msg rest ih =>
      intro m₀ hfree
      have hrest := List.pairwise_cons.mp hsorted
      -- the message's line is free, and stays free of the later lines
      have hstep := parseMemStatsStep_access cs hlen (hbb msg (.head _)) (hmeta msg (.head _))
        (hfree msg (.head _))
      obtain ⟨m, hrun, hfind⟩ := ih (fun m hm => hbb m (.tail _ hm)) (fun m hm => hmeta m (.tail _ hm))
        hrest.2 (m₀.emplace msg.lineAddress (entryOf msg)) fun m' hm' => by
          rw [OrdMap.find?_emplace, if_neg (Nat.ne_of_gt (hrest.1 m' hm'))]
          exact hfree m' (.tail _ hm')
      refine ⟨m, by rw [List.foldlM_cons, hstep]; exact hrun, fun a => ?_⟩
      rw [hfind a, OrdMap.find?_emplace, List.find?_cons]
      by_cases ha : msg.lineAddress = a
      · -- no later message has the same line
        subst ha
        have hnone : (rest.find? fun m' => m'.lineAddress = msg.lineAddress) = none :=
          List.find?_eq_none.mpr fun m' hm' => by simpa using Nat.ne_of_gt (hrest.1 m' hm')
        simp [hnone, hfree msg (.head _)]
      · simp [ha, Ne.symm ha]

/-- One block: the metadata message starts it, its accesses fill its map. -/
theorem foldlM_block {ms : List (OrdMap Nat AddrAccessStats)} (cs : List Nat) {b : Nat}
    (hlen : ms.length = b) {metaMsg : ProtoAddrAccessStats} {accs : List ProtoAddrAccessStats}
    (hblock : BlockMsgs b metaMsg accs) :
    ∃ m, (metaMsg :: accs).foldlM parseMemStatsStep ⟨ms, cs, (b : Int) - 1⟩ =
        .ok ⟨ms ++ [m], cs ++ [metaMsg.execCycles], b⟩ ∧
      ∀ a, m.find? a = (accs.find? fun msg => msg.lineAddress = a).map entryOf := by
  have hmeta : parseMemStatsStep ⟨ms, cs, (b : Int) - 1⟩ metaMsg = .ok ⟨ms ++ [OrdMap.empty], cs ++ [metaMsg.execCycles], b⟩ := by
    simp [parseMemStatsStep, hblock.meta_bbId, hblock.meta_isMetadata, pure, Except.pure]
  obtain ⟨m, hrun, hfind⟩ := foldlM_accesses (cs ++ [metaMsg.execCycles]) hlen
    hblock.accs_bbId hblock.accs_isMetadata hblock.accs_sorted OrdMap.empty fun _ _ => rfl
  exact ⟨m, by rw [List.foldlM_cons, hmeta]; exact hrun, fun a => by simpa using hfind a⟩

/-- Blocks `0, …, n - 1` in turn: one map and one cycle count per block. -/
theorem foldlM_blocks (metaMsg : Nat → ProtoAddrAccessStats) (accs : Nat → List ProtoAddrAccessStats) (n : Nat)
    (hblocks : ∀ b < n, BlockMsgs b (metaMsg b) (accs b)) :
    ∃ ms : List (OrdMap Nat AddrAccessStats),
      ((List.range n).flatMap fun b => metaMsg b :: accs b).foldlM parseMemStatsStep ⟨[], [], -1⟩ =
        .ok ⟨ms, (List.range n).map fun b => (metaMsg b).execCycles, n - 1⟩ ∧
      ms.length = n ∧ ∀ b < n, ∀ a,
        (ms[b]?).bind (·.find? a) = ((accs b).find? fun msg => msg.lineAddress = a).map entryOf := by
  induction n with
  | zero => exact ⟨[], rfl, rfl, fun b hb => absurd hb (Nat.not_lt_zero b)⟩
  | succ n ih =>
      obtain ⟨ms, hrun, hlen, hfind⟩ := ih fun b hb => hblocks b (by omega)
      obtain ⟨m, hblock, hm⟩ := foldlM_block ((List.range n).map fun b => (metaMsg b).execCycles)
        hlen (hblocks n (by omega))
      refine ⟨ms ++ [m], ?_, by simp [hlen], fun b hb a => ?_⟩
      · rw [List.range_succ, List.flatMap_append, List.flatMap_singleton, List.foldlM_append, hrun]
        simp only [bind, Except.bind]
        rw [hblock]
        simp
      · by_cases hbn : b < n
        · rw [List.getElem?_append_left (by omega)]
          exact hfind b hbn a
        · have hb' : b = n := by omega
          subst hb'
          simp [hlen, hm a]

/-- A stream of blocks `0, …, n - 1` in turn is read back: the cycles of every block,
and per block the entries of its accesses. -/
theorem parseMemStats_blocks (metaMsg : Nat → ProtoAddrAccessStats) (accs : Nat → List ProtoAddrAccessStats)
    (n : Nat) (hblocks : ∀ b < n, BlockMsgs b (metaMsg b) (accs b)) :
    ∃ ms : List (OrdMap Nat AddrAccessStats),
      parseMemStats ((List.range n).flatMap fun b => metaMsg b :: accs b) =
        .ok (ms, (List.range n).map fun b => (metaMsg b).execCycles) ∧
      ms.length = n ∧ ∀ b < n, ∀ a,
        (ms[b]?).bind (·.find? a) = ((accs b).find? fun msg => msg.lineAddress = a).map entryOf := by
  obtain ⟨ms, hrun, hlen, hfind⟩ := foldlM_blocks metaMsg accs n hblocks
  refine ⟨ms, ?_, hlen, hfind⟩
  simp [parseMemStats, hrun, bind, Except.bind, hlen, pure, Except.pure]

/-! ## The probe's stream, read back -/

/-- What the analyzer should file for the accesses `trs` that block `b` made to line `a`:
the first access's thread, kind and region, and the number of them by where they hit. -/
def ofAccesses (b : Int) (a : Nat) : List CustomMemTrace → Option AddrAccessStats
  | [] => none
  | tr :: trs => some
      { bbId := b, threadId := tr.threadId, address := a, lineAddress := a,
        isIfetch := tr.accessType == .IFETCH,
        numLocalL1Hit := (tr :: trs).countP (·.hitStatus = .Local_L1Cache)
        numRemoteL1Hit := (tr :: trs).countP (·.hitStatus = .Remote_L1Cache)
        numL2Hit := (tr :: trs).countP (·.hitStatus = .L2Cache)
        numMemoryAccess := (tr :: trs).countP (·.hitStatus = .Memory)
        dataRegion := tr.dataRegion, isShared := false }

namespace RoundTrip

open CustomMemProbe

variable {n : Nat} {r : Recorded} {p : CustomMemProbe}

/-- The probe's entries of block `b`. -/
def blockEntries (p : CustomMemProbe) (b : Nat) : List ((_ : AddrAccessKey) × Ruby.AddrAccessStats) :=
  p.addrStats.entries.filter fun e => e.1.bbId.toNat = b

/-- The metadata message of block `b`. -/
def blockMeta (r : Recorded) (b : Nat) : ProtoAddrAccessStats :=
  let e := (r.ended b).getD (0, 0)
  toProto (metadataEntry b e.1 e.2)

/-- The access messages of block `b`. -/
def blockAccs (p : CustomMemProbe) (b : Nat) : List ProtoAddrAccessStats :=
  ((blockEntries p b).filter fun e => e.1.address ≠ 0).map fun e => toProto e.2

/-- Every entry of the probe is in a block below `n`, of its key's block, a metadata
entry exactly at address `0`, and of its key's line elsewhere. -/
theorem entry_fields (hsim : Simulates p r) (hwf : r.Wf n) {e : (_ : AddrAccessKey) × Ruby.AddrAccessStats}
    (he : e ∈ p.addrStats.entries) :
    0 ≤ e.1.bbId ∧ e.1.bbId < n ∧ e.2.bbId = e.1.bbId ∧ e.2.isMetadata = decide (e.1.address = 0) ∧
      (e.1.address ≠ 0 → e.2.lineAddress = e.1.address) := by
  obtain ⟨⟨b, a⟩, v⟩ := e
  have hfind : p.addrStats.find? ⟨b, a⟩ = some v := OrdMap.mem_entries_iff.mp he
  rw [hsim.stats] at hfind
  exact expectedEntry_eq_some hwf hfind

/-- Within one block, keys are ordered by address. -/
theorem address_lt_of_key_lt {k k' : AddrAccessKey} (hlt : k < k') (hb : k.bbId = k'.bbId) :
    k.address < k'.address := by
  rcases AddrAccessKey.lt_iff.mp hlt with h | ⟨-, h⟩
  · exact absurd hb (Int.ne_of_lt h)
  · exact h

/-- Entries of block `b` have the block id `b`. -/
theorem bbId_of_mem_blockEntries (hsim : Simulates p r) (hwf : r.Wf n) {b : Nat}
    {e : (_ : AddrAccessKey) × Ruby.AddrAccessStats} (he : e ∈ blockEntries p b) : e.1.bbId = b := by
  obtain ⟨hmem, hb⟩ := List.mem_filter.mp he
  have h0 := (entry_fields hsim hwf hmem).1
  simp only [decide_eq_true_eq] at hb
  omega

/-- Block `b` is its metadata entry, then its access entries. -/
theorem blockEntries_eq (hsim : Simulates p r) (hwf : r.Wf n) {b : Nat}
    (hended : (r.ended b).isSome) :
    (blockEntries p b).map (fun e => toProto e.2) = blockMeta r b :: blockAccs p b := by
  have hsorted : (blockEntries p b).Pairwise fun x y => x.1 < y.1 := p.addrStats.sorted.filter _
  -- the metadata entry comes first: every other key of the block has a larger address
  have hsplit := List.eq_filter_append_filter (fun e : (_ : AddrAccessKey) × Ruby.AddrAccessStats => e.1.address = 0)
    (fun e => e.1.address ≠ 0) (fun x _ => em _) (fun x _ h h' => h' h)
    (List.Pairwise.imp_of_mem (fun {x y} hx hy hxy hx0 hy0 => by
      have hxb := bbId_of_mem_blockEntries hsim hwf hx
      have hyb := bbId_of_mem_blockEntries hsim hwf hy
      have := address_lt_of_key_lt hxy (hxb.trans hyb.symm)
      omega) hsorted)
  -- the only entry at address `0` is the metadata entry the end of the block left
  obtain ⟨⟨t, c⟩, htc⟩ := Option.isSome_iff_exists.mp hended
  have hmem : (⟨⟨b, 0⟩, metadataEntry b t c⟩ : (_ : AddrAccessKey) × Ruby.AddrAccessStats) ∈
      (blockEntries p b).filter fun e => e.1.address = 0 := by
    refine List.mem_filter.mpr ⟨List.mem_filter.mpr ⟨OrdMap.mem_entries_iff.mpr ?_, by simp⟩, by simp⟩
    rw [hsim.stats, expectedEntry, if_pos rfl, htc]
    rfl
  have hsingle : ((blockEntries p b).filter fun e => e.1.address = 0) = [⟨⟨b, 0⟩, metadataEntry b t c⟩] :=
    List.eq_singleton_of_sorted (fun e => e.1) (k := ⟨b, 0⟩) (hsorted.filter _) (fun y hy => by
      obtain ⟨hy, hy0⟩ := List.mem_filter.mp hy
      have hyb := bbId_of_mem_blockEntries hsim hwf hy
      obtain ⟨⟨yb, ya⟩, yv⟩ := y
      simp only [decide_eq_true_eq] at hy0 hyb
      simp [hyb, hy0]) hmem
  conv_lhs => rw [hsplit, List.map_append, hsingle]
  simp [blockMeta, blockAccs, htc]

theorem blockMsgs (hsim : Simulates p r) (hwf : r.Wf n) (b : Nat) :
    BlockMsgs b (blockMeta r b) (blockAccs p b) := by
  -- an access message comes from an entry of the block at an address other than `0`
  have hacc : ∀ m ∈ blockAccs p b, ∃ e ∈ blockEntries p b, e.1.address ≠ 0 ∧ m = toProto e.2 := by
    intro m hm
    obtain ⟨e, he, rfl⟩ := List.mem_map.mp hm
    obtain ⟨he, ha⟩ := List.mem_filter.mp he
    exact ⟨e, he, by simpa using ha, rfl⟩
  refine ⟨rfl, rfl, fun m hm => ?_, fun m hm => ?_, ?_⟩
  · obtain ⟨e, he, -, rfl⟩ := hacc m hm
    rw [← bbId_of_mem_blockEntries hsim hwf he]
    exact (entry_fields hsim hwf (List.mem_filter.mp he).1).2.2.1
  · obtain ⟨e, he, ha, rfl⟩ := hacc m hm
    simpa [ha, toProto] using (entry_fields hsim hwf (List.mem_filter.mp he).1).2.2.2.1
  · -- keys of one block increase with the address, which is the line
    refine List.pairwise_map.mpr (List.Pairwise.imp_of_mem (fun {x y} hx hy hxy => ?_)
      ((p.addrStats.sorted.filter _).filter _))
    obtain ⟨hx, hx0⟩ := List.mem_filter.mp hx
    obtain ⟨hy, hy0⟩ := List.mem_filter.mp hy
    have hlt := address_lt_of_key_lt hxy
      ((bbId_of_mem_blockEntries hsim hwf hx).trans (bbId_of_mem_blockEntries hsim hwf hy).symm)
    simp only [decide_eq_true_eq] at hx0 hy0
    have hxl := (entry_fields hsim hwf (List.mem_filter.mp hx).1).2.2.2.2 hx0
    have hyl := (entry_fields hsim hwf (List.mem_filter.mp hy).1).2.2.2.2 hy0
    simpa [toProto, hxl, hyl] using hlt

/-- The probe's stream is its blocks `0, …, n - 1` in turn. -/
theorem entries_eq_blocks (hsim : Simulates p r) (hwf : r.Wf n)
    (hended : ∀ b < n, (r.ended b).isSome) :
    p.addrStats.entries.map (fun e => toProto e.2) =
      (List.range n).flatMap fun b => blockMeta r b :: blockAccs p b := by
  have hblocks := List.eq_flatMap_blocks (fun e : (_ : AddrAccessKey) × Ruby.AddrAccessStats => e.1.bbId.toNat) n
    (List.Pairwise.imp_of_mem (fun {x y} hx hy hxy => by
      rcases AddrAccessKey.lt_iff.mp hxy with h | ⟨h, -⟩ <;> omega) p.addrStats.sorted)
    (fun e he => by have := entry_fields hsim hwf he; omega)
  rw [hblocks, List.map_flatMap]
  refine List.flatMap_congr fun b hb => ?_
  exact blockEntries_eq hsim hwf (hended b (List.mem_range.mp hb))

/-- The access message of line `a` in block `b` carries the probe's entry of `(b, a)`. -/
theorem mem_blockAccs (hsim : Simulates p r) (hwf : r.Wf n) {b : Nat} {m : ProtoAddrAccessStats}
    (hm : m ∈ blockAccs p b) :
    m.lineAddress ≠ 0 ∧ ∃ v, p.addrStats.find? ⟨b, m.lineAddress⟩ = some v ∧ m = toProto v := by
  obtain ⟨e, he, rfl⟩ := List.mem_map.mp hm
  obtain ⟨he, ha⟩ := List.mem_filter.mp he
  simp only [decide_eq_true_eq] at ha
  have hb := bbId_of_mem_blockEntries hsim hwf he
  have hline := (entry_fields hsim hwf (List.mem_filter.mp he).1).2.2.2.2 ha
  obtain ⟨⟨b', a'⟩, v⟩ := e
  simp only at hb ha hline
  subst hb
  refine ⟨by simpa [toProto, hline] using ha, v, ?_, rfl⟩
  rw [show (toProto v).lineAddress = a' from hline]
  exact OrdMap.mem_entries_iff.mp (List.mem_filter.mp he).1

theorem toProto_mem_blockAccs {b a : Nat} {v : Ruby.AddrAccessStats} (ha : a ≠ 0)
    (hv : p.addrStats.find? ⟨b, a⟩ = some v) : toProto v ∈ blockAccs p b :=
  List.mem_map.mpr ⟨⟨⟨b, a⟩, v⟩, List.mem_filter.mpr
    ⟨List.mem_filter.mpr ⟨OrdMap.mem_entries_iff.mpr hv, by simp⟩, by simpa using ha⟩, rfl⟩

/-- What the analyzer files for line `a` of block `b` is what the accesses to it were. -/
theorem find?_blockAccs (hsim : Simulates p r) (hwf : r.Wf n) (hzero : r.NoLineZero) (b a : Nat) :
    ((blockAccs p b).find? fun msg => msg.lineAddress = a).map entryOf = ofAccesses b a (r.accesses b a) := by
  cases hacc : r.accesses b a with
  | nil =>
      -- no entry at `(b, a)`, so no message of that line
      rw [show ofAccesses b a [] = none from rfl, Option.map_eq_none_iff, List.find?_eq_none]
      intro m hm hline
      obtain ⟨hm0, v, hv, -⟩ := mem_blockAccs hsim hwf hm
      simp only [decide_eq_true_eq] at hline
      rw [hline] at hm0 hv
      rw [hsim.stats] at hv
      simp [expectedEntry, hm0, hacc, statsOf] at hv
  | cons tr trs =>
      have ha : a ≠ 0 := fun h => by
        have := hzero b
        rw [← h, hacc] at this
        cases this
      have hline : tr.lineAddress = a := hwf.lines b a tr (by simp [hacc])
      obtain ⟨v, hv⟩ : ∃ v, p.addrStats.find? ⟨b, a⟩ = some v :=
        ⟨_, by rw [hsim.stats, expectedEntry, if_neg ha, hacc, statsOf_cons]⟩
      have hvs : v = _ := Option.some.inj (hv.symm.trans (by rw [hsim.stats, expectedEntry, if_neg ha, hacc, statsOf_cons]))
      -- the message found is the one of the entry at `(b, a)`
      have hfound : ((blockAccs p b).find? fun msg => msg.lineAddress = a) = some (toProto v) := by
        cases hf : (blockAccs p b).find? fun msg => msg.lineAddress = a with
        | none =>
            have := List.find?_eq_none.mp hf (toProto v) (toProto_mem_blockAccs ha hv)
            simp [toProto, hvs, hline] at this
        | some m =>
            have hm := List.mem_of_find?_eq_some hf
            have hma : m.lineAddress = a := by simpa using List.find?_some hf
            obtain ⟨-, v', hv', rfl⟩ := mem_blockAccs hsim hwf hm
            rw [hma, hv] at hv'
            rw [Option.some.inj hv']
      rw [hfound, hvs]
      simp [entryOf, toProto, ofAccesses, hline]

end RoundTrip

open CustomMemProbe RoundTrip in
/-- The statistics round trip. Take a run of the probe in which no assertion fails,
every block started is one of `0, …, n - 1` and each of them is ended, and no access
made inside a block is to line address `0`. `parse_mem_stats` then reads the stream
`closeStreams` writes without a failed assertion; the execution cycles of block `b` are
those with which it ended, and the entry of line `a` in block `b` carries the number of
the block's accesses to `a` by where they hit, with the first access's thread, kind and
region; a line the block did not access, or accessed only outside any block, has none. -/
theorem parseMemStats_closeStreams {calls : List ProbeCall} {p : CustomMemProbe} {n : Nat}
    (hrun : CustomMemProbe.init.run normalConfig calls = .ok p)
    (hstart : ∀ c ∈ calls, Recorded.StartsBelow n c)
    (hended : ∀ b < n, ((Recorded.init.run calls).ended b).isSome)
    (hzero : (Recorded.init.run calls).NoLineZero) :
    ∃ memStats : List (OrdMap Nat AddrAccessStats),
      parseMemStats (p.closeStreams normalConfig) =
        .ok (memStats, (List.range n).map fun b : Nat => (((Recorded.init.run calls).ended b).map Prod.snd).getD 0) ∧
      memStats.length = n ∧ ∀ b < n, ∀ a,
        (memStats[b]?).bind (·.find? a) = ofAccesses b a ((Recorded.init.run calls).accesses b a) := by
  set r := Recorded.init.run calls
  have hsim : Simulates p r := simulates_run simulates_init hrun hzero
  have hwf : r.Wf n := (Recorded.wf_init n).run hstart
  -- the stream is the blocks `0, …, n - 1`, each well formed
  have hstream : p.closeStreams normalConfig = (List.range n).flatMap fun b => blockMeta r b :: blockAccs p b := by
    have hstats : normalConfig.enableRawTrace = false := rfl
    rw [closeStreams, if_pos hstats]
    exact entries_eq_blocks hsim hwf hended
  obtain ⟨ms, hparse, hlen, hfind⟩ := parseMemStats_blocks (blockMeta r) (blockAccs p) n
    fun b _ => blockMsgs hsim hwf b
  have hcycles : ((List.range n).map fun b => (blockMeta r b).execCycles) =
      (List.range n).map fun b : Nat => ((r.ended b).map Prod.snd).getD 0 :=
    List.map_congr_left fun b _ => by cases h : r.ended b <;> simp [blockMeta, h, metadataEntry, toProto]
  refine ⟨ms, by rw [hstream, hparse, hcycles], hlen, fun b hb a => ?_⟩
  rw [hfind b hb a]
  exact find?_blockAccs hsim hwf hzero b a

/-- Block `0` reads line `64`; an access outside any block follows; block `1` writes it. -/
def twoBlockCalls : List ProbeCall :=
  [.startBbScope 0 0, .recordMemTrace ⟨64, 64, .READ, .Local_L1Cache, .GLOBAL, 0⟩, .endBbScope 0 10,
    .recordMemTrace ⟨64, 64, .READ, .Memory, .GLOBAL, 0⟩, .startBbScope 1 0,
    .recordMemTrace ⟨72, 64, .WRITE, .L2Cache, .HEAP, 0⟩, .endBbScope 0 20]

def twoBlockProbe : CustomMemProbe :=
  match CustomMemProbe.init.run CustomMemProbe.normalConfig twoBlockCalls with
  | .ok p => p
  | .error _ => CustomMemProbe.init

theorem twoBlockCalls_read_back :
    CustomMemProbe.init.run CustomMemProbe.normalConfig twoBlockCalls = .ok twoBlockProbe ∧
      (∀ c ∈ twoBlockCalls, Recorded.StartsBelow 2 c) ∧
      (∀ b < (2 : Nat), ((Recorded.init.run twoBlockCalls).ended b).isSome) ∧
      (Recorded.init.run twoBlockCalls).NoLineZero ∧
      ∃ memStats : List (OrdMap Nat AddrAccessStats),
        parseMemStats (twoBlockProbe.closeStreams CustomMemProbe.normalConfig) =
          .ok (memStats, (List.range 2).map fun b : Nat =>
            (((Recorded.init.run twoBlockCalls).ended b).map Prod.snd).getD 0) ∧
        memStats.length = 2 ∧ ∀ b < (2 : Nat), ∀ a,
          (memStats[b]?).bind (·.find? a) = ofAccesses b a ((Recorded.init.run twoBlockCalls).accesses b a) := by
  have hrun : CustomMemProbe.init.run CustomMemProbe.normalConfig twoBlockCalls = .ok twoBlockProbe := rfl
  have hstart : ∀ c ∈ twoBlockCalls, Recorded.StartsBelow 2 c := by decide
  have hended : ∀ b < (2 : Nat), ((Recorded.init.run twoBlockCalls).ended b).isSome := by decide
  have hzero : (Recorded.init.run twoBlockCalls).NoLineZero :=
    Recorded.noLineZero_run (fun _ => rfl) fun c hc tr htr => by
      subst htr
      simp only [twoBlockCalls, List.mem_cons, List.not_mem_nil, or_false, reduceCtorEq,
        ProbeCall.recordMemTrace.injEq, false_or] at hc
      rcases hc with rfl | rfl | rfl <;> decide
  exact ⟨hrun, hstart, hended, hzero, parseMemStats_closeStreams hrun hstart hended hzero⟩

/-- An access to line address `0` inside block `0`. -/
def lineZeroAccess : CustomMemTrace := ⟨0, 0, .READ, .Local_L1Cache, .GLOBAL, 0⟩

def lineZeroCalls : List ProbeCall :=
  [.startBbScope 0 0, .recordMemTrace lineZeroAccess, .endBbScope 0 5]

/-- The access to line `0` shares its key with the block's metadata entry, which then
carries its counts; the analyzer skips that entry as metadata, so the access is lost. -/
theorem lineZero_access_lost :
    ((CustomMemProbe.init.run CustomMemProbe.normalConfig lineZeroCalls).bind fun p =>
        parseMemStats (p.closeStreams CustomMemProbe.normalConfig)).map (fun res => (res.1.map (·.entries), res.2)) =
      .ok ([[]], [5]) ∧
    (Recorded.init.run lineZeroCalls).accesses 0 0 = [lineZeroAccess] := by
  decide

end Analyzer

end ParRP
