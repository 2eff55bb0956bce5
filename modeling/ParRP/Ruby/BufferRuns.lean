import ParRP.Ruby.BufferState

/-!
# Runs of a `MessageBuffer`

What a buffer keeps over every run of its calls.

* No message is lost or duplicated: the messages of the heap and the stall map, with those
  dequeued, are those the buffer held and those enqueued (`buffer_conserves_messages`).
* Over a run in time order from construction, `m_stall_map_size` counts the stalled
  messages, every stalled message has arrived, and within the cycle of the last pop the
  buffer holds no more than it held at that pop plus what was enqueued since (`Accounted`).
  So `areNSlotsAvailable` never under-counts: once it finds `n` slots, the calls that
  follow pass the capacity assertion of `enqueue` while they enqueue at most `n` messages
  (`areNSlotsAvailable_sound`); and reanalyzing stalled messages never trips an assertion
  (`stalled_messages_reanalyze`).
* An ordered buffer is a FIFO channel, with random delays or without
  (`ordered_buffer_fifo`).
-/

open scoped List

namespace ParRP

namespace Ruby

open Run

variable {α : Type}

namespace BufferState

variable {p : BufferParams}

/-- Every message the buffer holds: the heap, then the stall map. -/
def contents (b : BufferState α) : List (Message α) := b.heap.prioHeap ++ b.stalled

/-! ## Each call on the messages held -/

@[simp] theorem stalled_recordPop (b : BufferState α) (t : Nat) : (b.recordPop t).stalled = b.stalled := by
  simp [stalled]

@[simp] theorem stalled_enqueued (b : BufferState α) (m : Message α) (t a l : Nat) :
    (b.enqueued p m t a l).stalled = b.stalled := rfl

theorem enqueue_contents {b b' : BufferState α} {m : Message α} {t d r : Nat}
    (h : b.enqueue p m t d r = .ok b') :
    ∃ m', m'.payload = m.payload ∧ b'.contents ~ m' :: b.contents := by
  obtain ⟨-, -, -, -, rfl⟩ := enqueue_eq_ok h
  refine ⟨m.stamp (b.arrival p t d r).1 (b.heap.msgCounter + 1), rfl, ?_⟩
  simp only [contents, stalled_enqueued]
  exact (MessageBuffer.push_perm _ _).append_right _

theorem dequeue_contents {b b' : BufferState α} {m : Message α} {t : Nat} (h : b.dequeue p t = .ok (m, b')) :
    b.contents = m :: b'.contents := by
  obtain ⟨-, ⟨rest, hheap⟩, -, rfl⟩ := dequeue_eq_ok h
  simp [contents, hheap]

/-- A message goes back into the heap where another stood, with its payload. -/
theorem delayHead_contents {b b' : BufferState α} {t d r : Nat} (h : b.delayHead p t d r = .ok b') :
    ∃ m m' rest, b.heap.prioHeap = m :: rest ∧ m'.payload = m.payload ∧
      b'.contents ~ m' :: rest ++ b.stalled := by
  obtain ⟨m, rest, hheap, henq⟩ := delayHead_eq_ok h
  obtain ⟨m', hm', hperm⟩ := enqueue_contents henq
  refine ⟨m, m', rest, hheap, hm', ?_⟩
  simpa [contents, hheap, stalled] using hperm

theorem recycle_contents {b b' : BufferState α} {t l : Nat} (h : b.recycle p t l = .ok b') :
    ∃ m m' rest, b.heap.prioHeap = m :: rest ∧ m'.payload = m.payload ∧
      b'.heap.prioHeap ~ m' :: rest ∧ b'.stalled = b.stalled := by
  obtain ⟨m, rest, hheap, rfl⟩ := recycle_eq_ok h
  refine ⟨m, { m with lastEnqueueTime := t + l }, rest, hheap, rfl, ?_, rfl⟩
  simpa [hheap] using MessageBuffer.push_perm b.heap.popFront _

theorem stallMessage_contents {b b' : BufferState α} {a t : Nat} (h : b.stallMessage p a t = .ok b') :
    ∃ m rest, b.heap.prioHeap = m :: rest ∧ m.lastEnqueueTime ≤ t ∧ b'.heap.prioHeap = rest ∧
      b'.stalled ~ b.stalled ++ [m] ∧ b'.stallMapSize = b.stallMapSize + 1 := by
  obtain ⟨m, hdeq, rfl⟩ := stallMessage_eq_ok h
  obtain ⟨-, ⟨rest, hheap⟩, hm, -⟩ := dequeue_eq_ok hdeq
  refine ⟨m, rest, hheap, hm, by simp [hheap], ?_, rfl⟩
  simpa [stalled] using OrdMap.flatValues_emplace_modify b.stallMsgMap a m

theorem reanalyzeMessages_contents {b b' : BufferState α} {a t : Nat} (h : b.reanalyzeMessages a t = .ok b') :
    ∃ lt, b'.heap.prioHeap ~ b.heap.prioHeap ++ lt ∧ b.stalled ~ lt ++ b'.stalled ∧
      b'.stallMapSize = b.stallMapSize - lt.length ∧ (∀ m ∈ lt, m.lastEnqueueTime ≤ t) := by
  obtain ⟨lt, heap, hfind, hheap, rfl⟩ := reanalyzeMessages_eq_ok h
  obtain ⟨hperm, -, hall⟩ := reanalyzeList_eq_ok hheap
  refine ⟨lt, hperm.symm, ?_, rfl, hall⟩
  simpa [stalled, hfind] using OrdMap.flatValues_perm_erase b.stallMsgMap a

theorem reanalyzeAllMessages_contents {b b' : BufferState α} {t : Nat} (h : b.reanalyzeAllMessages t = .ok b') :
    b'.heap.prioHeap ~ b.heap.prioHeap ++ b.stalled ∧ b'.stalled = [] ∧
      b'.stallMapSize = b.stallMapSize - b.stalled.length := by
  obtain ⟨heap, hperm, -, rfl⟩ := reanalyzeAllMessages_eq_ok h
  exact ⟨hperm.symm, rfl, rfl⟩

@[simp] theorem input_length (o : BufferOp α) : o.input.length = o.enqueues := by
  cases o <;> rfl

/-- One call keeps the messages held, up to order and to the stamps it puts on them, but
for the one it enqueues and the one it dequeues. -/
theorem apply_payloads_perm {b b' : BufferState α} {o : BufferOp α} {out : List (Message α)}
    (h : b.apply p o = .ok (b', out)) :
    (b.contents.map (·.payload) ++ o.input) ~ out.map (·.payload) ++ b'.contents.map (·.payload) := by
  cases o with
  | enqueue m t d r =>
      obtain ⟨b₁, h₁, hb⟩ := except_map_eq_ok.mp h
      cases hb
      obtain ⟨m', hm', hperm⟩ := enqueue_contents h₁
      calc b.contents.map (·.payload) ++ [m.payload]
          _ ~ m.payload :: b.contents.map (·.payload) := List.perm_append_singleton _ _
          _ = (m' :: b.contents).map (·.payload) := by simp [hm']
          _ ~ [] ++ b'.contents.map (·.payload) := (hperm.map _).symm
  | dequeue t =>
      obtain ⟨⟨m, b₁⟩, h₁, hb⟩ := except_map_eq_ok.mp h
      cases hb
      simp [BufferOp.input, dequeue_contents h₁]
  | delayHead t d r =>
      obtain ⟨b₁, h₁, hb⟩ := except_map_eq_ok.mp h
      cases hb
      obtain ⟨m, m', rest, hheap, hm', hperm⟩ := delayHead_contents h₁
      calc b.contents.map (·.payload) ++ []
          _ = (m' :: rest ++ b.stalled).map (·.payload) := by simp [contents, hheap, hm']
          _ ~ [] ++ b'.contents.map (·.payload) := (hperm.map _).symm
  | recycle t l =>
      obtain ⟨b₁, h₁, hb⟩ := except_map_eq_ok.mp h
      cases hb
      obtain ⟨m, m', rest, hheap, hm', hperm, hmap⟩ := recycle_contents h₁
      calc b.contents.map (·.payload) ++ []
          _ = (m' :: rest ++ b.stalled).map (·.payload) := by simp [contents, hheap, hm']
          _ ~ [] ++ b'.contents.map (·.payload) := by
              rw [List.nil_append, contents, hmap]
              exact ((hperm.append_right _).map _).symm
  | stallMessage a t =>
      obtain ⟨b₁, h₁, hb⟩ := except_map_eq_ok.mp h
      cases hb
      obtain ⟨m, rest, hheap, -, hheap', hstalled, -⟩ := stallMessage_contents h₁
      calc b.contents.map (·.payload) ++ []
          _ = (m :: (rest ++ b.stalled)).map (·.payload) := by simp [contents, hheap]
          _ ~ (rest ++ (b.stalled ++ [m])).map (·.payload) := by
              rw [← List.append_assoc]
              exact (List.perm_append_singleton _ _).symm.map _
          _ ~ [] ++ b'.contents.map (·.payload) := by
              rw [List.nil_append, contents, hheap']
              exact ((hstalled.append_left _).map _).symm
  | reanalyzeMessages a t =>
      obtain ⟨b₁, h₁, hb⟩ := except_map_eq_ok.mp h
      cases hb
      obtain ⟨lt, hheap, hstalled, -, -⟩ := reanalyzeMessages_contents h₁
      calc b.contents.map (·.payload) ++ []
          _ ~ (b.heap.prioHeap ++ lt ++ b'.stalled).map (·.payload) := by
              rw [List.append_nil, contents, List.append_assoc]
              exact (hstalled.append_left _).map _
          _ ~ [] ++ b'.contents.map (·.payload) := by
              rw [List.nil_append, contents]
              exact ((hheap.append_right _).map _).symm
  | reanalyzeAllMessages t =>
      obtain ⟨b₁, h₁, hb⟩ := except_map_eq_ok.mp h
      cases hb
      obtain ⟨hheap, hstalled, -⟩ := reanalyzeAllMessages_contents h₁
      simp only [BufferOp.input, List.append_nil, List.map_nil, List.nil_append, contents, hstalled]
      exact hheap.symm.map _

/-- No message is lost or duplicated: in every run of calls that raises no error, the
payloads held at the start and those enqueued are, up to order, those dequeued and those
held at the end, in the heap or in the stall map. -/
theorem buffer_conserves_messages {b b' : BufferState α} {os : List (BufferOp α)} {outs : List (Message α)}
    (h : runOps (apply p) b os = .ok (b', outs)) :
    ((b.heap.prioHeap ++ b.stalled).map (·.payload) ++ os.flatMap BufferOp.input) ~
      outs.map (·.payload) ++ (b'.heap.prioHeap ++ b'.stalled).map (·.payload) :=
  runOps_perm (fun b => b.contents.map (·.payload)) BufferOp.input (·.payload) apply_payloads_perm h

/-- A buffer of two slots, ordered, without random delays. -/
def twoSlotParams : BufferParams := ⟨2, 0, true, .disabled, false, false⟩

/-- Two messages enqueued for time 1, both stalled on line 64, put back, and one dequeued. -/
def stallRequeueDequeue : List (BufferOp Nat) :=
  [.enqueue ⟨0, 0, 0⟩ 0 1 0, .enqueue ⟨1, 0, 0⟩ 0 1 0, .stallMessage 64 2, .stallMessage 64 3,
    .reanalyzeAllMessages 3, .dequeue 3]

/-- The buffer and the messages dequeued after `stallRequeueDequeue`. -/
def afterStallRequeueDequeue : BufferState Nat × List (Message Nat) :=
  match runOps (apply twoSlotParams) (init false) stallRequeueDequeue with
  | .ok r => r
  | .error _ => (init false, [])

theorem stallRequeueDequeue_conserves :
    runOps (apply twoSlotParams) (init false) stallRequeueDequeue = .ok afterStallRequeueDequeue ∧
      (((init false : BufferState Nat).heap.prioHeap ++ (init false : BufferState Nat).stalled).map (·.payload) ++
          stallRequeueDequeue.flatMap BufferOp.input) ~
        afterStallRequeueDequeue.2.map (·.payload) ++
          (afterStallRequeueDequeue.1.heap.prioHeap ++ afterStallRequeueDequeue.1.stalled).map (·.payload) :=
  ⟨rfl, buffer_conserves_messages
    (show runOps (apply twoSlotParams) (init false) stallRequeueDequeue =
      .ok (afterStallRequeueDequeue.1, afterStallRequeueDequeue.2) from rfl)⟩

/-! ## The count of stalled messages -/

/-- Every call keeps `m_stall_map_size` equal to the number of stalled messages. -/
theorem apply_stallMapSize {b b' : BufferState α} {o : BufferOp α} {out : List (Message α)}
    (hs : b.stallMapSize = b.stalled.length) (h : b.apply p o = .ok (b', out)) :
    b'.stallMapSize = b'.stalled.length := by
  cases o with
  | enqueue m t d r =>
      obtain ⟨b₁, h₁, hb⟩ := except_map_eq_ok.mp h
      cases hb
      obtain ⟨-, -, -, -, rfl⟩ := enqueue_eq_ok h₁
      simpa using hs
  | dequeue t =>
      obtain ⟨⟨m, b₁⟩, h₁, hb⟩ := except_map_eq_ok.mp h
      cases hb
      obtain ⟨-, -, -, rfl⟩ := dequeue_eq_ok h₁
      simpa using hs
  | delayHead t d r =>
      obtain ⟨b₁, h₁, hb⟩ := except_map_eq_ok.mp h
      cases hb
      obtain ⟨m, rest, -, henq⟩ := delayHead_eq_ok h₁
      obtain ⟨-, -, -, -, rfl⟩ := enqueue_eq_ok henq
      simpa [stalled] using hs
  | recycle t l =>
      obtain ⟨b₁, h₁, hb⟩ := except_map_eq_ok.mp h
      cases hb
      obtain ⟨m, rest, -, rfl⟩ := recycle_eq_ok h₁
      simpa [stalled] using hs
  | stallMessage a t =>
      obtain ⟨b₁, h₁, hb⟩ := except_map_eq_ok.mp h
      cases hb
      obtain ⟨m, rest, -, -, -, hstalled, hsize⟩ := stallMessage_contents h₁
      rw [hsize, hstalled.length_eq, List.length_append, hs]
      simp
  | reanalyzeMessages a t =>
      obtain ⟨b₁, h₁, hb⟩ := except_map_eq_ok.mp h
      cases hb
      obtain ⟨lt, -, hstalled, hsize, -⟩ := reanalyzeMessages_contents h₁
      rw [hsize, hs, hstalled.length_eq, List.length_append]
      omega
  | reanalyzeAllMessages t =>
      obtain ⟨b₁, h₁, hb⟩ := except_map_eq_ok.mp h
      cases hb
      obtain ⟨-, hstalled, hsize⟩ := reanalyzeAllMessages_contents h₁
      rw [hsize, hs, hstalled]
      simp

theorem apply_contents_length {b b' : BufferState α} {o : BufferOp α} {out : List (Message α)}
    (h : b.apply p o = .ok (b', out)) : b'.contents.length + out.length = b.contents.length + o.enqueues := by
  have hlen := (apply_payloads_perm h).length_eq
  simp only [List.length_append, List.length_map, input_length] at hlen
  omega

/-! ## Runs in time order -/

/-- What the buffer may hold within the cycle of its last pop: what it held at the
cycle's first pop, plus the messages enqueued in that cycle. -/
def cycleBound (b : BufferState α) : Nat :=
  b.sizeAtCycleStart + b.stalledAtCycleStart +
    if b.timeLastTimeEnqueue = b.timeLastTimePop then b.msgsThisCycle else 0

/-- What a buffer keeps over a run in time order, as of a time `t` not before any call:
`m_stall_map_size` counts the stalled messages, each of which had arrived when it was
stalled; and when no enqueue came after the last pop, the buffer holds no more than
`cycleBound`. -/
structure Accounted (t : Nat) (b : BufferState α) : Prop where
  stallMapSize_eq : b.stallMapSize = b.stalled.length
  stalled_arrived : ∀ m ∈ b.stalled, m.lastEnqueueTime ≤ t
  pop_le : b.timeLastTimePop ≤ t
  enqueue_le : b.timeLastTimeEnqueue ≤ t
  within_cycle : b.timeLastTimeEnqueue ≤ b.timeLastTimePop → b.contents.length ≤ b.cycleBound

theorem Accounted.mono {t t' : Nat} {b : BufferState α} (ht : t ≤ t') (hb : b.Accounted t) :
    b.Accounted t' :=
  ⟨hb.stallMapSize_eq, fun m hm => (hb.stalled_arrived m hm).trans ht, hb.pop_le.trans ht,
    hb.enqueue_le.trans ht, hb.within_cycle⟩

theorem accounted_init (z : Bool) : (init z : BufferState α).Accounted 0 :=
  ⟨rfl, by simp [init, stalled], le_rfl, le_rfl, fun _ => by simp [init, contents, stalled]⟩

theorem contents_length (b : BufferState α) : b.contents.length = b.heap.prioHeap.length + b.stalled.length := by
  simp [contents]

/-- A call that keeps the clock and the cycle's counters, moves messages only between the
heap and the stall map, and adds none keeps the invariant. -/
theorem Accounted.of_clock {t : Nat} {b b' : BufferState α} (hb : b.Accounted t)
    (hpop : b'.timeLastTimePop = b.timeLastTimePop) (henq : b'.timeLastTimeEnqueue = b.timeLastTimeEnqueue)
    (hbound : b'.cycleBound = b.cycleBound) (hsize : b'.stallMapSize = b'.stalled.length)
    (hsub : ∀ m ∈ b'.stalled, m ∈ b.stalled) (hlen : b'.contents.length ≤ b.contents.length) :
    b'.Accounted t := by
  refine ⟨hsize, fun m hm => hb.stalled_arrived m (hsub m hm), hpop ▸ hb.pop_le, henq ▸ hb.enqueue_le,
    fun hle => ?_⟩
  rw [hpop, henq] at hle
  exact hbound ▸ hlen.trans (hb.within_cycle hle)

/-- An enqueue at `t'` counts its message in the cycle of `t'`. -/
theorem Accounted.enqueued {t t' : Nat} {b : BufferState α} {m : Message α} {a l : Nat}
    (hb : b.Accounted t) (ht : t ≤ t') : (b.enqueued p m t' a l).Accounted t' := by
  obtain ⟨hsize, harr, hpop, henq, hcyc⟩ := hb
  have hlen : (b.enqueued p m t' a l).contents.length = b.contents.length + 1 := by
    simp [contents_length, List.orderedInsert_length]
    omega
  refine ⟨by simpa using hsize, fun x hx => (harr x (by simpa using hx)).trans ht,
    by simp only [enqueued_timeLastTimePop]; omega, by simp only [enqueued_timeLastTimeEnqueue]; split_ifs <;> omega, ?_⟩
  intro hle
  simp only [cycleBound, enqueued_timeLastTimeEnqueue, enqueued_timeLastTimePop, enqueued_msgsThisCycle,
    enqueued_sizeAtCycleStart, enqueued_stalledAtCycleStart, hlen] at hle hcyc ⊢
  -- the enqueue is in the cycle of the last pop, so that pop was at `t'`
  have hcyc' := hcyc (by split_ifs at hle <;> omega)
  split_ifs at hle hcyc' ⊢ <;> omega

/-- After a pop at `t'`, the buffer before the pop is within the bound of the cycle. -/
theorem Accounted.le_cycleBound_recordPop {t t' : Nat} {b : BufferState α} (hb : b.Accounted t)
    (hle : (b.recordPop t').timeLastTimeEnqueue ≤ (b.recordPop t').timeLastTimePop) :
    b.contents.length ≤ (b.recordPop t').cycleBound := by
  have hsz : b.stallMapSize.toNat = b.stalled.length := by simp [hb.stallMapSize_eq]
  have henq := hb.enqueue_le
  simp only [cycleBound, recordPop_timeLastTimeEnqueue, recordPop_timeLastTimePop, recordPop_msgsThisCycle,
    recordPop_sizeAtCycleStart, recordPop_stalledAtCycleStart, hsz] at hle ⊢
  rw [contents_length]
  by_cases hlt : b.timeLastTimePop < t'
  · -- the first pop of the cycle of `t'` records the sizes the cycle starts from
    simp only [if_pos hlt]
    omega
  · simp only [if_neg hlt] at hle ⊢
    have hold := hb.within_cycle hle
    rwa [contents_length] at hold

/-- A pop at `t'`. -/
theorem Accounted.recordPop {t t' : Nat} {b : BufferState α} (hb : b.Accounted t) (ht : t ≤ t') :
    (b.recordPop t').Accounted t' := by
  have hlen : (b.recordPop t').contents.length ≤ b.contents.length := by
    simp [contents_length]
  refine ⟨by simpa using hb.stallMapSize_eq, fun x hx => (hb.stalled_arrived x (by simpa using hx)).trans ht,
    by simp only [recordPop_timeLastTimePop]; have := hb.pop_le; split_ifs <;> omega,
    by simp only [recordPop_timeLastTimeEnqueue]; exact hb.enqueue_le.trans ht,
    fun hle => hlen.trans (hb.le_cycleBound_recordPop hle)⟩

/-- A call made at a time not before `t` keeps the invariant, as of its own time. -/
theorem Accounted.apply {t : Nat} {b b' : BufferState α} {o : BufferOp α} {out : List (Message α)}
    (hb : b.Accounted t) (ht : t ≤ o.time) (h : b.apply p o = .ok (b', out)) : b'.Accounted o.time := by
  have hsize := apply_stallMapSize hb.stallMapSize_eq h
  have hlen := apply_contents_length h
  cases o with
  | enqueue m t' d r =>
      obtain ⟨b₁, h₁, hb'⟩ := except_map_eq_ok.mp h
      cases hb'
      obtain ⟨-, -, -, -, rfl⟩ := enqueue_eq_ok h₁
      exact hb.enqueued ht
  | dequeue t' =>
      obtain ⟨⟨m, b₁⟩, h₁, hb'⟩ := except_map_eq_ok.mp h
      cases hb'
      obtain ⟨-, ⟨rest, hheap⟩, -, rfl⟩ := dequeue_eq_ok h₁
      exact hb.recordPop ht
  | delayHead t' d r =>
      obtain ⟨b₁, h₁, hb'⟩ := except_map_eq_ok.mp h
      cases hb'
      obtain ⟨m, rest, hheap, henq⟩ := delayHead_eq_ok h₁
      obtain ⟨-, -, -, -, rfl⟩ := enqueue_eq_ok henq
      -- the front leaves without a recorded pop, then is enqueued again
      have hpopped : ({ b with heap := b.heap.popFront } : BufferState α).Accounted t :=
        hb.of_clock rfl rfl rfl hb.stallMapSize_eq (fun _ hm => hm) (by simp [contents_length, hheap, stalled])
      exact hpopped.enqueued ht
  | recycle t' l =>
      obtain ⟨b₁, h₁, hb'⟩ := except_map_eq_ok.mp h
      cases hb'
      obtain ⟨m, rest, -, rfl⟩ := recycle_eq_ok h₁
      refine Accounted.mono ht (hb.of_clock rfl rfl rfl hsize (fun _ hm => hm) ?_)
      simp only [List.length_nil, BufferOp.enqueues] at hlen
      omega
  | stallMessage a t' =>
      obtain ⟨b₁, h₁, hb'⟩ := except_map_eq_ok.mp h
      cases hb'
      obtain ⟨m, hdeq, rfl⟩ := stallMessage_eq_ok h₁
      obtain ⟨-, ⟨rest, hheap⟩, hm, -⟩ := dequeue_eq_ok hdeq
      have hstalled := OrdMap.flatValues_emplace_modify b.stallMsgMap a m
      have hpop := hb.recordPop ht
      refine ⟨hsize, fun x hx => ?_, hpop.pop_le, hpop.enqueue_le, fun hle => ?_⟩
      · rcases List.mem_append.mp (hstalled.subset hx) with hx | hx
        · exact (hb.stalled_arrived x hx).trans ht
        · rw [List.mem_singleton.mp hx]
          exact hm
      · simp only [List.length_nil, BufferOp.enqueues, Nat.add_zero] at hlen
        rw [hlen]
        exact hb.le_cycleBound_recordPop hle
  | reanalyzeMessages a t' =>
      obtain ⟨b₁, h₁, hb'⟩ := except_map_eq_ok.mp h
      cases hb'
      obtain ⟨lt', -, hstalled, -, -⟩ := reanalyzeMessages_contents h₁
      obtain ⟨lt, heap, -, -, rfl⟩ := reanalyzeMessages_eq_ok h₁
      simp only [List.length_nil, BufferOp.enqueues, Nat.add_zero] at hlen
      refine Accounted.mono ht (hb.of_clock rfl rfl rfl hsize (fun x hx => ?_) hlen.le)
      exact hstalled.symm.subset (List.mem_append_right _ hx)
  | reanalyzeAllMessages t' =>
      obtain ⟨b₁, h₁, hb'⟩ := except_map_eq_ok.mp h
      cases hb'
      obtain ⟨heap, -, -, rfl⟩ := reanalyzeAllMessages_eq_ok h₁
      simp only [List.length_nil, BufferOp.enqueues, Nat.add_zero] at hlen
      exact Accounted.mono ht (hb.of_clock rfl rfl rfl hsize (by simp [stalled]) hlen.le)

/-- Over a run in time order, the size `areNSlotsAvailable` reckons with is never below
what the buffer holds. -/
theorem Accounted.contents_length_le_visibleSize {t : Nat} {b : BufferState α} (hb : b.Accounted t) :
    b.contents.length ≤ b.visibleSize t := by
  have hpop := hb.pop_le
  have henq := hb.enqueue_le
  unfold visibleSize
  split_ifs with hlt hlt'
  · rw [contents_length, hb.stallMapSize_eq]
    simp
  · -- the last pop was at `t`, after the last enqueue
    have hcyc := hb.within_cycle (by omega)
    rw [cycleBound, if_neg (by omega)] at hcyc
    omega
  · have hcyc := hb.within_cycle (by omega)
    rw [cycleBound, if_pos (by omega)] at hcyc
    omega

/-! ## The capacity assertion -/

theorem isReady_ne_capacity (b : BufferState α) (t : Nat) : b.isReady p t ≠ .error capacityMessage := by
  unfold isReady
  split_ifs <;> simp [throw, throwThe, MonadExceptOf.throw, Functor.map, Except.map, capacityMessage]

theorem dequeue_ne_capacity (b : BufferState α) (t : Nat) : b.dequeue p t ≠ .error capacityMessage := by
  simp only [dequeue, ne_eq, except_bind_eq_error, isReady_ne_capacity, false_or, not_exists, not_and]
  intro r _
  cases r <;> simp only [Bool.false_eq_true, if_true, if_false] <;> (try split) <;>
    simp [bind, Except.bind, throw, throwThe, MonadExceptOf.throw, capacityMessage]

theorem enqueue_ne_capacity {b : BufferState α} {m : Message α} {t d r : Nat}
    (hroom : p.maxSize = 0 ∨ ((b.heap.prioHeap.length + 1 : Nat) : Int) + b.stallMapSize ≤ p.maxSize) :
    b.enqueue p m t d r ≠ .error capacityMessage := by
  intro h
  simp only [enqueue, except_check_eq_error, except_assert_eq_error, except_pure_ne_error, and_false,
    false_or] at h
  simp [capacityMessage, List.orderedInsert_length] at h
  omega

theorem recycle_ne_capacity (b : BufferState α) (t l : Nat) : b.recycle p t l ≠ .error capacityMessage := by
  simp only [recycle, ne_eq, except_bind_eq_error, isReady_ne_capacity, false_or, not_exists, not_and]
  intro r _
  cases r <;> simp only [Bool.false_eq_true, if_true, if_false] <;> (try split) <;>
    simp [bind, Except.bind, throw, throwThe, MonadExceptOf.throw, capacityMessage]

theorem stallMessage_ne_capacity (b : BufferState α) (a t : Nat) :
    b.stallMessage p a t ≠ .error capacityMessage := by
  simp only [stallMessage, ne_eq, except_bind_eq_error, dequeue_ne_capacity, except_pure_ne_error,
    and_false, exists_false, or_self, not_false_eq_true]

theorem reanalyzeList_ne_capacity (heap : MessageBuffer α) (s : Nat) (lt : List (Message α)) :
    reanalyzeList heap s lt ≠ .error capacityMessage := by
  induction lt generalizing heap with
  | nil => simp [reanalyzeList]
  | cons m lt ih =>
      simp only [reanalyzeList, ne_eq, except_assert_eq_error, ih, and_false, false_or, not_and]
      simp [capacityMessage]

theorem reanalyzeMessages_ne_capacity (b : BufferState α) (a t : Nat) :
    b.reanalyzeMessages a t ≠ .error capacityMessage := by
  unfold reanalyzeMessages
  split
  · simp only [ne_eq, except_assert_eq_error, except_bind_eq_error, reanalyzeList_ne_capacity,
      except_pure_ne_error, false_or, and_false]
    simp [capacityMessage]
  · simp [throw, throwThe, MonadExceptOf.throw, capacityMessage]

theorem reanalyzeAllMessages_ne_capacity (b : BufferState α) (t : Nat) :
    b.reanalyzeAllMessages t ≠ .error capacityMessage := by
  have hline : ∀ (l : List ((_ : Nat) × List (Message α))) acc,
      l.foldlM (reanalyzeLine t) acc ≠ .error capacityMessage := by
    intro l
    induction l with
    | nil => simp
    | cons e l ih =>
        intro acc
        simp only [List.foldlM_cons, ne_eq, except_bind_eq_error, not_or, not_exists, not_and]
        refine ⟨?_, fun acc' _ => ih acc'⟩
        simp only [reanalyzeLine, except_assert_eq_error, except_bind_eq_error, reanalyzeList_ne_capacity,
          except_pure_ne_error, false_or, and_false]
        simp [capacityMessage]
  simp only [reanalyzeAllMessages, ne_eq, except_bind_eq_error, hline, except_pure_ne_error, and_false,
    exists_false, or_self, not_false_eq_true]

/-- A delayed front goes back into the room it left. -/
theorem delayHead_ne_capacity {b : BufferState α} {t d r : Nat}
    (hroom : p.maxSize = 0 ∨ (b.heap.prioHeap.length : Int) + b.stallMapSize ≤ p.maxSize) :
    b.delayHead p t d r ≠ .error capacityMessage := by
  unfold delayHead
  split
  · simp [throw, throwThe, MonadExceptOf.throw, capacityMessage]
  · rename_i m rest hheap
    apply enqueue_ne_capacity
    simpa [hheap] using hroom

/-- Only an enqueue, or the enqueue of a `delayHead`, raises the capacity assertion, and
not while the buffer has room for what it enqueues. -/
theorem apply_ne_capacity {b : BufferState α} {o : BufferOp α} (hs : b.stallMapSize = b.stalled.length)
    (hroom : p.maxSize = 0 ∨ b.contents.length + o.enqueues ≤ p.maxSize) :
    b.apply p o ≠ .error capacityMessage := by
  have hroom' : p.maxSize = 0 ∨ ((b.heap.prioHeap.length + o.enqueues : Nat) : Int) + b.stallMapSize ≤ p.maxSize := by
    rw [hs, contents_length] at *
    omega
  cases o <;> simp only [apply, ne_eq, except_map_eq_error]
  · exact enqueue_ne_capacity hroom'
  · exact dequeue_ne_capacity b _
  · exact delayHead_ne_capacity hroom'
  · exact recycle_ne_capacity b _ _
  · exact stallMessage_ne_capacity b _ _
  · exact reanalyzeMessages_ne_capacity b _ _
  · exact reanalyzeAllMessages_ne_capacity b _

/-! ## Admission -/

/-- `areNSlotsAvailable` is a sound admission check. Take a buffer run from its
construction with its calls in time order, and a time `t` not before any of them at which
it finds `n` free slots. Then the calls that follow, whatever they are and whenever they
are made, never fail the capacity assertion of `enqueue` while they enqueue at most `n`
new messages. -/
theorem areNSlotsAvailable_sound {z : Bool} {pre post : List (BufferOp α)} {b : BufferState α}
    {outs : List (Message α)} {n t : Nat}
    (hpre : runOps (apply p) (init z) pre = .ok (b, outs))
    (hsorted : (pre.map BufferOp.time).Pairwise (· ≤ ·)) (hlate : ∀ o ∈ pre, o.time ≤ t)
    (havail : b.areNSlotsAvailable p n t = true) (hpost : (post.map BufferOp.enqueues).sum ≤ n) :
    runOps (apply p) b post ≠ .error capacityMessage := by
  have hacc : b.Accounted t :=
    runOps_clocked BufferOp.time (fun ht hb => hb.mono ht) (fun ht hb h => hb.apply ht h)
      (accounted_init z) (fun _ _ => Nat.zero_le _) hsorted hpre (Nat.zero_le t) hlate
  have hvis := hacc.contents_length_le_visibleSize
  have hroom : p.maxSize = 0 ∨ b.contents.length + n ≤ p.maxSize := by
    simp only [areNSlotsAvailable, Bool.or_eq_true, decide_eq_true_eq] at havail
    omega
  -- each enqueue spends one slot of the `n` found free
  apply runOps_ne_error BufferOp.enqueues
    (I := fun k b => b.stallMapSize = b.stalled.length ∧ (p.maxSize = 0 ∨ b.contents.length + k ≤ p.maxSize))
  · intro k b o hk hb
    exact apply_ne_capacity hb.1 (by omega)
  · intro k b o b' out hk hb h
    have hlen := apply_contents_length h
    exact ⟨apply_stallMapSize hb.1 h, by omega⟩
  · exact ⟨hacc.stallMapSize_eq, hroom⟩
  · exact hpost

/-- Two messages enqueued at time 0 for time 1, and one of them dequeued at time 1. -/
def twoEnqueuesOneDequeue : List (BufferOp Nat) :=
  [.enqueue ⟨0, 0, 0⟩ 0 1 0, .enqueue ⟨1, 0, 0⟩ 0 1 0, .dequeue 1]

/-- The buffer and the messages dequeued after `twoEnqueuesOneDequeue`. -/
def afterOneDequeue : BufferState Nat × List (Message Nat) :=
  match runOps (apply twoSlotParams) (init false) twoEnqueuesOneDequeue with
  | .ok r => r
  | .error _ => (init false, [])

theorem twoSlot_admits_one_after_pop :
    runOps (apply twoSlotParams) (init false) twoEnqueuesOneDequeue = .ok afterOneDequeue ∧
      afterOneDequeue.1.areNSlotsAvailable twoSlotParams 1 2 = true ∧
      runOps (apply twoSlotParams) afterOneDequeue.1 [.enqueue ⟨2, 0, 0⟩ 2 1 0] ≠ .error capacityMessage :=
  ⟨rfl, rfl, areNSlotsAvailable_sound (n := 1) (t := 2)
    (show runOps (apply twoSlotParams) (init false) twoEnqueuesOneDequeue = .ok (afterOneDequeue.1, afterOneDequeue.2)
      from rfl) (by decide) (by decide) rfl (by decide)⟩

/-! ## Reanalysis -/

theorem reanalyzeMessages_isOk {b : BufferState α} {a t : Nat} {lt : List (Message α)}
    (hfind : b.stallMsgMap.find? a = some lt) (hsize : (lt.length : Int) ≤ b.stallMapSize)
    (harr : ∀ m ∈ lt, m.lastEnqueueTime ≤ t) : ∃ b', b.reanalyzeMessages a t = .ok b' := by
  obtain ⟨heap, hheap⟩ := reanalyzeList_isOk b.heap harr
  refine ⟨{ b with heap, stallMapSize := b.stallMapSize - lt.length, stallMsgMap := b.stallMsgMap.erase a }, ?_⟩
  simp only [reanalyzeMessages, hfind, except_assert_eq_ok, except_bind_eq_ok, hheap]
  exact ⟨by omega, heap, rfl, rfl⟩

theorem foldlM_reanalyzeLine_isOk {t : Nat} {l : List ((_ : Nat) × List (Message α))}
    (acc : MessageBuffer α × Int) (harr : ∀ m ∈ l.flatMap (·.2), m.lastEnqueueTime ≤ t)
    (hsize : ((l.flatMap (·.2)).length : Int) ≤ acc.2) : ∃ acc', l.foldlM (reanalyzeLine t) acc = .ok acc' := by
  induction l generalizing acc with
  | nil => exact ⟨acc, rfl⟩
  | cons e l ih =>
      simp only [List.flatMap_cons, List.mem_append, List.length_append, Nat.cast_add] at harr hsize
      obtain ⟨heap, hheap⟩ := reanalyzeList_isOk acc.1 fun m hm => harr m (.inl hm)
      obtain ⟨acc', hacc'⟩ := ih (heap, acc.2 - e.2.length) (fun m hm => harr m (.inr hm))
        (by simp only; omega)
      refine ⟨acc', ?_⟩
      simp only [List.foldlM_cons, reanalyzeLine, except_bind_eq_ok, except_assert_eq_ok, except_pure_eq_ok, hheap]
      exact ⟨_, ⟨by omega, heap, rfl, rfl⟩, hacc'⟩

/-- Reanalysis never trips an assertion. Over a buffer run from its construction with its
calls in time order, `m_stall_map_size` counts the stalled messages; and at a time not
before any call, `reanalyzeMessages` of a line with stalled messages and
`reanalyzeAllMessages` both succeed. -/
theorem stalled_messages_reanalyze {z : Bool} {os : List (BufferOp α)} {b : BufferState α}
    {outs : List (Message α)} {t : Nat} (hrun : runOps (apply p) (init z) os = .ok (b, outs))
    (hsorted : (os.map BufferOp.time).Pairwise (· ≤ ·)) (hlate : ∀ o ∈ os, o.time ≤ t) :
    b.stallMapSize = b.stalled.length ∧
      (∀ a, (b.stallMsgMap.find? a).isSome → ∃ b', b.reanalyzeMessages a t = .ok b') ∧
      ∃ b', b.reanalyzeAllMessages t = .ok b' := by
  have hacc : b.Accounted t :=
    runOps_clocked BufferOp.time (fun ht hb => hb.mono ht) (fun ht hb h => hb.apply ht h)
      (accounted_init z) (fun _ _ => Nat.zero_le _) hsorted hrun (Nat.zero_le t) hlate
  refine ⟨hacc.stallMapSize_eq, fun a ha => ?_, ?_⟩
  · obtain ⟨lt, hfind⟩ := Option.isSome_iff_exists.mp ha
    -- the line's messages are among the stalled ones
    have hperm := OrdMap.flatValues_perm_erase b.stallMsgMap a
    rw [hfind, Option.getD_some] at hperm
    have hsub : ∀ m ∈ lt, m ∈ b.stalled := fun m hm => hperm.symm.subset (List.mem_append_left _ hm)
    refine reanalyzeMessages_isOk hfind ?_ fun m hm => hacc.stalled_arrived m (hsub m hm)
    rw [hacc.stallMapSize_eq, stalled, hperm.length_eq, List.length_append]
    omega
  · obtain ⟨acc, hacc'⟩ := foldlM_reanalyzeLine_isOk (t := t) (l := b.stallMsgMap.entries)
      (b.heap, b.stallMapSize) hacc.stalled_arrived (by rw [hacc.stallMapSize_eq]; rfl)
    refine ⟨{ b with heap := acc.1, stallMapSize := acc.2, stallMsgMap := OrdMap.empty }, ?_⟩
    simp only [reanalyzeAllMessages, except_bind_eq_ok, hacc', except_pure_eq_ok]
    exact ⟨acc, rfl, rfl⟩

/-- A buffer that stalls two messages of line 64 at times 2 and 3. -/
def stallTwice : List (BufferOp Nat) :=
  [.enqueue ⟨0, 0, 0⟩ 0 1 0, .enqueue ⟨1, 0, 0⟩ 0 1 0, .stallMessage 64 2, .stallMessage 64 3]

/-- The buffer and the messages dequeued after `stallTwice`. -/
def afterStallTwice : BufferState Nat × List (Message Nat) :=
  match runOps (apply twoSlotParams) (init false) stallTwice with
  | .ok r => r
  | .error _ => (init false, [])

theorem stallTwice_reanalyzes :
    runOps (apply twoSlotParams) (init false) stallTwice = .ok afterStallTwice ∧
      afterStallTwice.1.stallMapSize = afterStallTwice.1.stalled.length ∧
      (∀ a, (afterStallTwice.1.stallMsgMap.find? a).isSome →
        ∃ b', afterStallTwice.1.reanalyzeMessages a 3 = .ok b') ∧
      ∃ b', afterStallTwice.1.reanalyzeAllMessages 3 = .ok b' :=
  ⟨rfl, stalled_messages_reanalyze
    (show runOps (apply twoSlotParams) (init false) stallTwice = .ok (afterStallTwice.1, afterStallTwice.2)
      from rfl) (by decide) (by decide)⟩

/-! ## Ordered buffers -/

/-- Every message stands behind those enqueued before it: its arrival time and counter
are bounded by the buffer's last arrival and counter. -/
def InOrder (b : BufferState α) : Prop :=
  ∀ m ∈ b.heap.prioHeap, m.lastEnqueueTime ≤ b.lastArrivalTime ∧ m.msgCounter ≤ b.heap.msgCounter

theorem inOrder_init (z : Bool) : (init z : BufferState α).InOrder := by
  simp [InOrder, init]

section Ordered

variable (hfifo : p.strictFifo = true) (hwarm : p.warmupEnabled = false)
include hfifo hwarm

/-- An ordered buffer appends what it enqueues. -/
theorem InOrder.enqueue {b b' : BufferState α} {m : Message α} {t d r : Nat} (hb : b.InOrder)
    (h : b.enqueue p m t d r = .ok b') :
    b'.InOrder ∧ b'.heap.prioHeap = b.heap.prioHeap ++ [m.stamp (b.arrival p t d r).1 (b.heap.msgCounter + 1)] := by
  obtain ⟨-, hcheck, -, -, rfl⟩ := enqueue_eq_ok h
  -- the strict FIFO check puts the arrival after the last one
  have hla : b.lastArrivalTime ≤ (b.arrival p t d r).1 :=
    (lastArrivalTime_le_arrival (p := p) b t d r).trans (by simp only [hfifo, true_and] at hcheck; omega)
  have hbehind : ∀ y ∈ b.heap.prioHeap, ¬ (m.stamp (b.arrival p t d r).1 (b.heap.msgCounter + 1)).le y :=
    fun y hy => by
      have hy' := hb y hy
      rw [Message.le_iff]
      simp only [Message.stamp_lastEnqueueTime]
      simp only [Message.stamp]
      omega
  have happend : (b.enqueued p m t (b.arrival p t d r).1 (b.arrival p t d r).2).heap.prioHeap =
      b.heap.prioHeap ++ [m.stamp (b.arrival p t d r).1 (b.heap.msgCounter + 1)] := by
    rw [enqueued_prioHeap]
    simpa using Priority.orderedInsert_append Message.le hbehind []
  refine ⟨fun x hx => ?_, happend⟩
  rw [happend] at hx
  simp only [enqueued_lastArrivalTime, hwarm, enqueued_msgCounter, Bool.false_eq_true, if_false]
  rcases List.mem_append.mp hx with hx | hx
  · have := hb x hx
    omega
  · rw [List.mem_singleton.mp hx]
    simp [Message.stamp]

/-- A call of a channel keeps the order, and moves its message in at the back or out at
the front. -/
theorem InOrder.apply {b b' : BufferState α} {o : BufferOp α} {out : List (Message α)} (hb : b.InOrder)
    (ho : o.isChannel = true) (h : b.apply p o = .ok (b', out)) :
    b'.InOrder ∧ b.heap.prioHeap.map (·.payload) ++ o.input = out.map (·.payload) ++ b'.heap.prioHeap.map (·.payload) := by
  cases o with
  | enqueue m t d r =>
      obtain ⟨b₁, h₁, hb'⟩ := except_map_eq_ok.mp h
      cases hb'
      obtain ⟨hin, happend⟩ := hb.enqueue hfifo hwarm h₁
      exact ⟨hin, by simp [happend, BufferOp.input]⟩
  | dequeue t =>
      obtain ⟨⟨m, b₁⟩, h₁, hb'⟩ := except_map_eq_ok.mp h
      cases hb'
      obtain ⟨-, ⟨rest, hheap⟩, -, rfl⟩ := dequeue_eq_ok h₁
      refine ⟨fun x hx => ?_, by simp [hheap, BufferOp.input]⟩
      simp only [recordPop_prioHeap, hheap, List.tail_cons] at hx
      simpa using hb x (by simp [hheap, hx])
  | _ => cases ho

/-- An ordered buffer (`m_strict_fifo`) is a FIFO channel, with random delays or without:
in every run of enqueues and dequeues from its construction that raises no error, with
warmup off, the payloads dequeued, then those still held, are exactly those enqueued, in
order. -/
theorem ordered_buffer_fifo {z : Bool} {os : List (BufferOp α)}
    {b : BufferState α} {outs : List (Message α)} (hops : ∀ o ∈ os, o.isChannel = true)
    (h : runOps (apply p) (init z) os = .ok (b, outs)) :
    os.flatMap BufferOp.input = outs.map (·.payload) ++ b.heap.prioHeap.map (·.payload) := by
  have hstep : ∀ {b : BufferState α} {o b' out}, b.InOrder → o.isChannel = true → b.apply p o = .ok (b', out) →
      b'.InOrder ∧ b.heap.prioHeap.map (·.payload) ++ o.input = out.map (·.payload) ++ b'.heap.prioHeap.map (·.payload) :=
    fun hb ho h => hb.apply hfifo hwarm ho h
  have hrun := runOps_fifo _ _ _ hstep (inOrder_init z) hops h
  simpa [init] using hrun

end Ordered

/-- An ordered buffer of unbounded size with random delays: the first message draws the
longer delay. -/
def randomFifoParams : BufferParams := ⟨0, 0, true, .enabled, false, false⟩

/-- Two messages enqueued at time 0 with random delays 3 and 1, then two dequeues. -/
def randomDelays : List (BufferOp Nat) :=
  [.enqueue ⟨0, 0, 0⟩ 0 1 3, .enqueue ⟨1, 0, 0⟩ 0 1 1, .dequeue 3, .dequeue 4]

/-- The buffer and the messages dequeued after `randomDelays`. -/
def afterRandomDelays : BufferState Nat × List (Message Nat) :=
  match runOps (apply randomFifoParams) (init false) randomDelays with
  | .ok r => r
  | .error _ => (init false, [])

theorem randomDelays_in_order :
    runOps (apply randomFifoParams) (init false) randomDelays = .ok afterRandomDelays ∧
      randomDelays.flatMap BufferOp.input =
        afterRandomDelays.2.map (·.payload) ++ afterRandomDelays.1.heap.prioHeap.map (·.payload) :=
  ⟨rfl, ordered_buffer_fifo rfl rfl (by decide)
    (show runOps (apply randomFifoParams) (init false) randomDelays = .ok (afterRandomDelays.1, afterRandomDelays.2)
      from rfl)⟩

end BufferState

end Ruby

end ParRP
