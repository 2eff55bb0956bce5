import ParRP.Ruby.MessageBuffer
import ParRP.Lib.OrdMap
import ParRP.Lib.Run
import ParRP.Lib.Except

/-!
# `MessageBuffer` as a whole

The heap of a `MessageBuffer` (`Ruby.MessageBuffer`) with everything else its operations
read and write: the stall map, in which a controller parks messages by line address until
it reanalyzes them; the counters from which `areNSlotsAvailable` reckons the buffer's
size; and the last arrival time an ordered buffer checks each enqueue against.

Pops do not change the size that producers see until the next cycle, while enqueues
change it at once: within a cycle that has seen a pop, `areNSlotsAvailable` counts the
buffer as it stood at the cycle's first pop, plus every message enqueued in the cycle.

Every operation is a step of a run (`apply`), so that the run lemmas of `Lib.Run` apply;
each has one lemma saying what a successful call does.
-/

open scoped List

namespace ParRP

namespace Ruby

open Run

variable {α : Type}

namespace MessageBuffer

/-- `push_back` and `push_heap`: the message joins the heap at its place. -/
def push (b : MessageBuffer α) (m : Message α) : MessageBuffer α :=
  { b with prioHeap := b.prioHeap.orderedInsert Message.le m, sorted := b.sorted.orderedInsert m b.prioHeap }

@[simp] theorem push_prioHeap (b : MessageBuffer α) (m : Message α) :
    (b.push m).prioHeap = b.prioHeap.orderedInsert Message.le m := rfl

@[simp] theorem push_msgCounter (b : MessageBuffer α) (m : Message α) : (b.push m).msgCounter = b.msgCounter := rfl

@[simp] theorem push_allowZeroLatency (b : MessageBuffer α) (m : Message α) :
    (b.push m).allowZeroLatency = b.allowZeroLatency := rfl

theorem push_perm (b : MessageBuffer α) (m : Message α) : (b.push m).prioHeap ~ m :: b.prioHeap :=
  List.perm_orderedInsert _ m _

@[simp] theorem push_length (b : MessageBuffer α) (m : Message α) :
    (b.push m).prioHeap.length = b.prioHeap.length + 1 :=
  (push_perm b m).length_eq

/-- `enqueue` without randomization is the stamp and the push. -/
theorem enqueue_eq_push {b : MessageBuffer α} {message : Message α} {currentTime delta : Nat}
    {b' : MessageBuffer α} (h : b.enqueue message currentTime delta = .ok b') :
    b' = { b with msgCounter := b.msgCounter + 1 }.push
      (message.stamp (currentTime + delta) (b.msgCounter + 1)) := by
  simp only [enqueue, except_check_eq_ok, except_assert_eq_ok, except_pure_eq_ok] at h
  obtain ⟨-, -, rfl⟩ := h
  rfl

end MessageBuffer

/-- `MessageRandomization`. -/
inductive MessageRandomization
  | disabled
  | enabled
  | ruby_system
  deriving DecidableEq, Repr

/-- The members of `MessageBuffer` fixed when it is built, and the two flags of the
`RubySystem` that `enqueue` reads. -/
structure BufferParams where
  maxSize : Nat
  maxDequeueRate : Nat
  strictFifo : Bool
  randomization : MessageRandomization
  rubySystemRandomization : Bool
  warmupEnabled : Bool

/-- The members of `MessageBuffer` its operations keep. `heap` holds `m_prio_heap`,
`m_msg_counter` and `m_allow_zero_latency`. -/
structure BufferState (α : Type) where
  heap : MessageBuffer α
  stallMsgMap : OrdMap Nat (List (Message α))
  stallMapSize : Int
  dequeuesThisCy : Nat
  timeLastTimeEnqueue : Nat
  timeLastTimePop : Nat
  lastArrivalTime : Nat
  sizeAtCycleStart : Nat
  stalledAtCycleStart : Nat
  msgsThisCycle : Nat

/-- The failure of the capacity assertion at the end of `enqueue`. -/
def capacityMessage : String :=
  "assert((m_max_size == 0) || ((m_prio_heap.size() + m_stall_map_size) <= m_max_size))"

namespace BufferState

variable (p : BufferParams)

/-- A buffer as its constructor leaves it. -/
def init (allowZeroLatency : Bool) : BufferState α where
  heap := ⟨[], 0, allowZeroLatency, .nil⟩
  stallMsgMap := OrdMap.empty
  stallMapSize := 0
  dequeuesThisCy := 0
  timeLastTimeEnqueue := 0
  timeLastTimePop := 0
  lastArrivalTime := 0
  sizeAtCycleStart := 0
  stalledAtCycleStart := 0
  msgsThisCycle := 0

/-- The messages parked in the stall map, line by line. -/
def stalled (b : BufferState α) : List (Message α) := b.stallMsgMap.flatValues

/-- The size `areNSlotsAvailable` reckons with at `currentTime`: heap and stall map as
they are when nothing was popped this cycle, else as they were at the cycle's first pop,
plus the messages enqueued this cycle. -/
def visibleSize (b : BufferState α) (currentTime : Nat) : Nat :=
  if b.timeLastTimePop < currentTime then b.heap.prioHeap.length + b.stallMapSize.toNat
  else if b.timeLastTimeEnqueue < currentTime then b.sizeAtCycleStart + b.stalledAtCycleStart
  else b.sizeAtCycleStart + b.msgsThisCycle + b.stalledAtCycleStart

/-- `areNSlotsAvailable`. -/
def areNSlotsAvailable (b : BufferState α) (n currentTime : Nat) : Bool :=
  p.maxSize = 0 || b.visibleSize currentTime + n ≤ p.maxSize

/-- `isReady`: the front has arrived, and the buffer may still dequeue this cycle. -/
def isReady (b : BufferState α) (currentTime : Nat) : Except String Bool := do
  unless b.timeLastTimePop ≤ currentTime do throw "assert(m_time_last_time_pop <= current_time)"
  let canDequeue := p.maxDequeueRate = 0 || b.timeLastTimePop < currentTime ||
    b.dequeuesThisCy < p.maxDequeueRate
  return canDequeue && b.heap.isReady currentTime

/-- The pop of `dequeue` at `currentTime`: the first pop of a cycle records the sizes the
cycle starts from. -/
def recordPop (b : BufferState α) (currentTime : Nat) : BufferState α :=
  let b := if b.timeLastTimePop < currentTime then
      { b with sizeAtCycleStart := b.heap.prioHeap.length, stalledAtCycleStart := b.stallMapSize.toNat,
               timeLastTimePop := currentTime, dequeuesThisCy := 0 }
    else b
  { b with dequeuesThisCy := b.dequeuesThisCy + 1, heap := b.heap.popFront }

/-- `dequeue`: the front, which must be ready, leaves the heap. The model returns it, as
the caller's `peek` before the call sees it. -/
def dequeue (b : BufferState α) (currentTime : Nat) : Except String (Message α × BufferState α) := do
  unless ← b.isReady p currentTime do throw "assert(isReady(current_time))"
  match b.heap.prioHeap with
  | [] => throw "m_prio_heap.front() of an empty heap"
  | m :: _ => return (m, b.recordPop currentTime)

/-- The arrival time of a message enqueued at `currentTime`, and the last arrival time an
ordered buffer checks it against: `delta` later, or `randomTime` (the value of
`random_time()`) later when the buffer randomizes, and then after the last arrival if the
buffer is ordered. -/
def arrival (b : BufferState α) (currentTime delta randomTime : Nat) : Nat × Nat :=
  if p.randomization = .disabled ∨
      (p.randomization = .ruby_system ∧ p.rubySystemRandomization = false) then
    (currentTime + delta, b.lastArrivalTime)
  else if p.strictFifo then
    (max b.lastArrivalTime currentTime + randomTime, max b.lastArrivalTime currentTime)
  else (currentTime + randomTime, b.lastArrivalTime)

/-- The buffer after `enqueue` at `currentTime` has stamped `message` with `arrivalTime`
and the next counter and pushed it. -/
def enqueued (b : BufferState α) (message : Message α) (currentTime arrivalTime lastArrivalTime : Nat) :
    BufferState α :=
  { b with
    heap := { b.heap with msgCounter := b.heap.msgCounter + 1 }.push
      (message.stamp arrivalTime (b.heap.msgCounter + 1))
    timeLastTimeEnqueue := if b.timeLastTimeEnqueue < currentTime then currentTime else b.timeLastTimeEnqueue
    msgsThisCycle := (if b.timeLastTimeEnqueue < currentTime then 0 else b.msgsThisCycle) + 1
    lastArrivalTime := if p.warmupEnabled then lastArrivalTime else arrivalTime }

/-- `enqueue`. -/
def enqueue (b : BufferState α) (message : Message α) (currentTime delta randomTime : Nat) :
    Except String (BufferState α) := do
  if delta = 0 ∧ b.heap.allowZeroLatency = false then
    throw "Delta equals zero and allow_zero_latency is false during enqueue"
  let arr := b.arrival p currentTime delta randomTime
  unless currentTime ≤ arr.1 do throw "assert(arrival_time >= current_time)"
  if p.strictFifo ∧ arr.1 < arr.2 then throw "FIFO ordering violated"
  unless message.lastEnqueueTime ≤ currentTime do throw "ensure we aren't dequeued early"
  let b := b.enqueued p message currentTime arr.1 arr.2
  unless p.maxSize = 0 ∨ (b.heap.prioHeap.length : Int) + b.stallMapSize ≤ p.maxSize do
    throw capacityMessage
  return b

/-- `delayHead`: the front leaves the heap, with no pop recorded, and is enqueued again. -/
def delayHead (b : BufferState α) (currentTime delta randomTime : Nat) : Except String (BufferState α) :=
  match b.heap.prioHeap with
  | [] => throw "m_prio_heap.front() of an empty heap"
  | m :: _ => { b with heap := b.heap.popFront }.enqueue p m currentTime delta randomTime

/-- `recycle`: the ready front goes back into the heap `recycleLatency` later, with its
counter. -/
def recycle (b : BufferState α) (currentTime recycleLatency : Nat) : Except String (BufferState α) := do
  unless ← b.isReady p currentTime do throw "assert(isReady(current_time))"
  match b.heap.prioHeap with
  | [] => throw "m_prio_heap.front() of an empty heap"
  | m :: _ =>
      return { b with heap := b.heap.popFront.push { m with lastEnqueueTime := currentTime + recycleLatency } }

/-- `stallMessage`: the ready front is dequeued into the list of line `addr`. -/
def stallMessage (b : BufferState α) (addr currentTime : Nat) : Except String (BufferState α) := do
  let (message, b) ← b.dequeue p currentTime
  return { b with
    stallMsgMap := (b.stallMsgMap.emplace addr []).modify addr (· ++ [message])
    stallMapSize := b.stallMapSize + 1 }

/-- `reanalyzeList`: the messages go back into the heap in turn, as they are. -/
def reanalyzeList (heap : MessageBuffer α) (schdTick : Nat) : List (Message α) → Except String (MessageBuffer α)
  | [] => return heap
  | m :: lt => do
      unless m.lastEnqueueTime ≤ schdTick do throw "assert(m->getLastEnqueueTime() <= schdTick)"
      reanalyzeList (heap.push m) schdTick lt

/-- `reanalyzeMessages`: the messages stalled on line `addr` go back into the heap. -/
def reanalyzeMessages (b : BufferState α) (addr currentTime : Nat) : Except String (BufferState α) := do
  let some lt := b.stallMsgMap.find? addr | throw "assert(m_stall_msg_map.count(addr) > 0)"
  let stallMapSize := b.stallMapSize - lt.length
  unless 0 ≤ stallMapSize do throw "assert(m_stall_map_size >= 0)"
  let heap ← reanalyzeList b.heap currentTime lt
  return { b with heap, stallMapSize, stallMsgMap := b.stallMsgMap.erase addr }

/-- One line of the loop of `reanalyzeAllMessages`, on the heap and `m_stall_map_size`. -/
def reanalyzeLine (currentTime : Nat) (acc : MessageBuffer α × Int) (e : (_ : Nat) × List (Message α)) :
    Except String (MessageBuffer α × Int) := do
  let stallMapSize := acc.2 - e.2.length
  unless 0 ≤ stallMapSize do throw "assert(m_stall_map_size >= 0)"
  return (← reanalyzeList acc.1 currentTime e.2, stallMapSize)

/-- `reanalyzeAllMessages`: every stalled message goes back into the heap, line by line. -/
def reanalyzeAllMessages (b : BufferState α) (currentTime : Nat) : Except String (BufferState α) := do
  let acc ← b.stallMsgMap.entries.foldlM (reanalyzeLine currentTime) (b.heap, b.stallMapSize)
  return { b with heap := acc.1, stallMapSize := acc.2, stallMsgMap := OrdMap.empty }

end BufferState

/-- The calls a buffer serves. -/
inductive BufferOp (α : Type)
  | enqueue (message : Message α) (currentTime delta randomTime : Nat)
  | dequeue (currentTime : Nat)
  | delayHead (currentTime delta randomTime : Nat)
  | recycle (currentTime recycleLatency : Nat)
  | stallMessage (addr currentTime : Nat)
  | reanalyzeMessages (addr currentTime : Nat)
  | reanalyzeAllMessages (currentTime : Nat)

namespace BufferOp

/-- The time a call is made at. -/
def time : BufferOp α → Nat
  | .enqueue _ t _ _ | .dequeue t | .delayHead t _ _ | .recycle t _ | .stallMessage _ t
  | .reanalyzeMessages _ t | .reanalyzeAllMessages t => t

/-- The payload a call brings into the buffer. -/
def input : BufferOp α → List α
  | .enqueue m _ _ _ => [m.payload]
  | _ => []

/-- The number of new messages a call enqueues. -/
def enqueues : BufferOp α → Nat
  | .enqueue .. => 1
  | _ => 0

/-- The calls of a buffer used as a channel: enqueues at one end, dequeues at the
other. -/
def isChannel : BufferOp α → Bool
  | .enqueue .. | .dequeue _ => true
  | _ => false

end BufferOp

namespace BufferState

variable (p : BufferParams)

/-- One call, with the message a dequeue returns. -/
def apply (b : BufferState α) : BufferOp α → Except String (BufferState α × List (Message α))
  | .enqueue m t d r => (·, []) <$> b.enqueue p m t d r
  | .dequeue t => (fun r => (r.2, [r.1])) <$> b.dequeue p t
  | .delayHead t d r => (·, []) <$> b.delayHead p t d r
  | .recycle t l => (·, []) <$> b.recycle p t l
  | .stallMessage a t => (·, []) <$> b.stallMessage p a t
  | .reanalyzeMessages a t => (·, []) <$> b.reanalyzeMessages a t
  | .reanalyzeAllMessages t => (·, []) <$> b.reanalyzeAllMessages t

variable {p}

/-! ## What a call does -/

@[simp] theorem recordPop_prioHeap (b : BufferState α) (t : Nat) :
    (b.recordPop t).heap.prioHeap = b.heap.prioHeap.tail := by
  unfold recordPop; split <;> rfl

@[simp] theorem recordPop_heap_msgCounter (b : BufferState α) (t : Nat) :
    (b.recordPop t).heap.msgCounter = b.heap.msgCounter := by
  unfold recordPop; split <;> rfl

@[simp] theorem recordPop_stallMsgMap (b : BufferState α) (t : Nat) :
    (b.recordPop t).stallMsgMap = b.stallMsgMap := by
  unfold recordPop; split <;> rfl

@[simp] theorem recordPop_stallMapSize (b : BufferState α) (t : Nat) :
    (b.recordPop t).stallMapSize = b.stallMapSize := by
  unfold recordPop; split <;> rfl

@[simp] theorem recordPop_lastArrivalTime (b : BufferState α) (t : Nat) :
    (b.recordPop t).lastArrivalTime = b.lastArrivalTime := by
  unfold recordPop; split <;> rfl

@[simp] theorem recordPop_timeLastTimeEnqueue (b : BufferState α) (t : Nat) :
    (b.recordPop t).timeLastTimeEnqueue = b.timeLastTimeEnqueue := by
  unfold recordPop; split <;> rfl

@[simp] theorem recordPop_msgsThisCycle (b : BufferState α) (t : Nat) :
    (b.recordPop t).msgsThisCycle = b.msgsThisCycle := by
  unfold recordPop; split <;> rfl

@[simp] theorem recordPop_timeLastTimePop (b : BufferState α) (t : Nat) :
    (b.recordPop t).timeLastTimePop = if b.timeLastTimePop < t then t else b.timeLastTimePop := by
  unfold recordPop; split <;> simp [*]

@[simp] theorem recordPop_sizeAtCycleStart (b : BufferState α) (t : Nat) :
    (b.recordPop t).sizeAtCycleStart =
      if b.timeLastTimePop < t then b.heap.prioHeap.length else b.sizeAtCycleStart := by
  unfold recordPop; split <;> simp [*]

@[simp] theorem recordPop_stalledAtCycleStart (b : BufferState α) (t : Nat) :
    (b.recordPop t).stalledAtCycleStart =
      if b.timeLastTimePop < t then b.stallMapSize.toNat else b.stalledAtCycleStart := by
  unfold recordPop; split <;> simp [*]

@[simp] theorem enqueued_stallMsgMap (b : BufferState α) (m : Message α) (t a l : Nat) :
    (b.enqueued p m t a l).stallMsgMap = b.stallMsgMap := rfl

@[simp] theorem enqueued_stallMapSize (b : BufferState α) (m : Message α) (t a l : Nat) :
    (b.enqueued p m t a l).stallMapSize = b.stallMapSize := rfl

@[simp] theorem enqueued_prioHeap (b : BufferState α) (m : Message α) (t a l : Nat) :
    (b.enqueued p m t a l).heap.prioHeap =
      b.heap.prioHeap.orderedInsert Message.le (m.stamp a (b.heap.msgCounter + 1)) := rfl

@[simp] theorem enqueued_msgCounter (b : BufferState α) (m : Message α) (t a l : Nat) :
    (b.enqueued p m t a l).heap.msgCounter = b.heap.msgCounter + 1 := rfl

@[simp] theorem enqueued_timeLastTimePop (b : BufferState α) (m : Message α) (t a l : Nat) :
    (b.enqueued p m t a l).timeLastTimePop = b.timeLastTimePop := rfl

@[simp] theorem enqueued_timeLastTimeEnqueue (b : BufferState α) (m : Message α) (t a l : Nat) :
    (b.enqueued p m t a l).timeLastTimeEnqueue =
      if b.timeLastTimeEnqueue < t then t else b.timeLastTimeEnqueue := rfl

@[simp] theorem enqueued_msgsThisCycle (b : BufferState α) (m : Message α) (t a l : Nat) :
    (b.enqueued p m t a l).msgsThisCycle = (if b.timeLastTimeEnqueue < t then 0 else b.msgsThisCycle) + 1 := rfl

@[simp] theorem enqueued_sizeAtCycleStart (b : BufferState α) (m : Message α) (t a l : Nat) :
    (b.enqueued p m t a l).sizeAtCycleStart = b.sizeAtCycleStart := rfl

@[simp] theorem enqueued_stalledAtCycleStart (b : BufferState α) (m : Message α) (t a l : Nat) :
    (b.enqueued p m t a l).stalledAtCycleStart = b.stalledAtCycleStart := rfl

@[simp] theorem enqueued_lastArrivalTime (b : BufferState α) (m : Message α) (t a l : Nat) :
    (b.enqueued p m t a l).lastArrivalTime = if p.warmupEnabled then l else a := rfl

/-- An ordered buffer compares a new arrival with a time not before its last arrival. -/
theorem lastArrivalTime_le_arrival (b : BufferState α) (t d r : Nat) :
    b.lastArrivalTime ≤ (b.arrival p t d r).2 := by
  unfold arrival
  split_ifs <;> simp

theorem isReady_eq_ok_true {b : BufferState α} {t : Nat} (h : b.isReady p t = .ok true) :
    b.timeLastTimePop ≤ t ∧ ∃ m rest, b.heap.prioHeap = m :: rest ∧ m.lastEnqueueTime ≤ t := by
  simp only [isReady, except_assert_eq_ok, except_pure_eq_ok, Bool.and_eq_true] at h
  obtain ⟨hpop, -, hready⟩ := h
  refine ⟨hpop, ?_⟩
  unfold MessageBuffer.isReady at hready
  split at hready
  · cases hready
  · exact ⟨_, _, ‹_›, by simpa using hready⟩

theorem dequeue_eq_ok {b b' : BufferState α} {t : Nat} {m : Message α} (h : b.dequeue p t = .ok (m, b')) :
    b.timeLastTimePop ≤ t ∧ (∃ rest, b.heap.prioHeap = m :: rest) ∧ m.lastEnqueueTime ≤ t ∧
      b' = b.recordPop t := by
  simp only [dequeue, except_bind_eq_ok] at h
  obtain ⟨ready, hready, h⟩ := h
  cases ready
  · simp [bind, Except.bind, throw, throwThe, MonadExceptOf.throw] at h
  · obtain ⟨hpop, m', rest, hheap, hm'⟩ := isReady_eq_ok_true hready
    simp only [if_true, hheap, pure, Except.pure] at h
    cases h
    exact ⟨hpop, ⟨rest, hheap⟩, hm', rfl⟩

theorem enqueue_eq_ok {b b' : BufferState α} {m : Message α} {t d r : Nat}
    (h : b.enqueue p m t d r = .ok b') :
    t ≤ (b.arrival p t d r).1 ∧ ¬ (p.strictFifo ∧ (b.arrival p t d r).1 < (b.arrival p t d r).2) ∧
      m.lastEnqueueTime ≤ t ∧
      (p.maxSize = 0 ∨ ((b.heap.prioHeap.length + 1 : Nat) : Int) + b.stallMapSize ≤ p.maxSize) ∧
      b' = b.enqueued p m t (b.arrival p t d r).1 (b.arrival p t d r).2 := by
  simp only [enqueue, except_check_eq_ok, except_assert_eq_ok, except_pure_eq_ok] at h
  obtain ⟨-, harr, hfifo, hm, hcap, rfl⟩ := h
  rw [enqueued_stallMapSize, show (b.enqueued p m t _ _).heap.prioHeap.length = b.heap.prioHeap.length + 1 from
    MessageBuffer.push_length _ _] at hcap
  exact ⟨harr, hfifo, hm, hcap, rfl⟩

theorem delayHead_eq_ok {b b' : BufferState α} {t d r : Nat} (h : b.delayHead p t d r = .ok b') :
    ∃ m rest, b.heap.prioHeap = m :: rest ∧ { b with heap := b.heap.popFront }.enqueue p m t d r = .ok b' := by
  unfold delayHead at h
  split at h
  · simp at h
  · exact ⟨_, _, ‹_›, h⟩

theorem recycle_eq_ok {b b' : BufferState α} {t l : Nat} (h : b.recycle p t l = .ok b') :
    ∃ m rest, b.heap.prioHeap = m :: rest ∧
      b' = { b with heap := b.heap.popFront.push { m with lastEnqueueTime := t + l } } := by
  simp only [recycle, except_bind_eq_ok] at h
  obtain ⟨ready, hready, h⟩ := h
  cases ready
  · simp [bind, Except.bind, throw, throwThe, MonadExceptOf.throw] at h
  · obtain ⟨-, m, rest, hheap, -⟩ := isReady_eq_ok_true hready
    simp only [if_true, hheap, pure, Except.pure] at h
    cases h
    exact ⟨m, rest, hheap, rfl⟩

theorem stallMessage_eq_ok {b b' : BufferState α} {a t : Nat} (h : b.stallMessage p a t = .ok b') :
    ∃ m, b.dequeue p t = .ok (m, b.recordPop t) ∧
      b' = { b.recordPop t with
        stallMsgMap := (b.stallMsgMap.emplace a []).modify a (· ++ [m])
        stallMapSize := b.stallMapSize + 1 } := by
  simp only [stallMessage, except_bind_eq_ok, except_pure_eq_ok] at h
  obtain ⟨⟨m, b₁⟩, hdeq, rfl⟩ := h
  obtain ⟨-, -, -, rfl⟩ := dequeue_eq_ok hdeq
  exact ⟨m, hdeq, by simp⟩

theorem reanalyzeList_eq_ok {heap heap' : MessageBuffer α} {s : Nat} {lt : List (Message α)}
    (h : reanalyzeList heap s lt = .ok heap') :
    (heap.prioHeap ++ lt) ~ heap'.prioHeap ∧ heap'.msgCounter = heap.msgCounter ∧
      ∀ m ∈ lt, m.lastEnqueueTime ≤ s := by
  induction lt generalizing heap with
  | nil =>
      cases h
      simp
  | cons m lt ih =>
      simp only [reanalyzeList, except_assert_eq_ok] at h
      obtain ⟨hm, h⟩ := h
      obtain ⟨hperm, hcounter, hall⟩ := ih h
      refine ⟨?_, hcounter, List.forall_mem_cons.mpr ⟨hm, hall⟩⟩
      calc heap.prioHeap ++ m :: lt
          _ ~ (m :: heap.prioHeap) ++ lt := List.perm_middle
          _ ~ (heap.push m).prioHeap ++ lt := (MessageBuffer.push_perm heap m).symm.append_right _
          _ ~ heap'.prioHeap := hperm

/-- Messages that have all arrived by `s` all go back. -/
theorem reanalyzeList_isOk (heap : MessageBuffer α) {s : Nat} {lt : List (Message α)}
    (h : ∀ m ∈ lt, m.lastEnqueueTime ≤ s) : ∃ heap', reanalyzeList heap s lt = .ok heap' := by
  induction lt generalizing heap with
  | nil => exact ⟨heap, rfl⟩
  | cons m lt ih =>
      obtain ⟨heap', h'⟩ := ih (heap.push m) fun x hx => h x (.tail _ hx)
      refine ⟨heap', ?_⟩
      simp only [reanalyzeList, except_assert_eq_ok]
      exact ⟨h m (.head _), h'⟩

theorem reanalyzeMessages_eq_ok {b b' : BufferState α} {a t : Nat} (h : b.reanalyzeMessages a t = .ok b') :
    ∃ lt heap, b.stallMsgMap.find? a = some lt ∧ reanalyzeList b.heap t lt = .ok heap ∧
      b' = { b with heap, stallMapSize := b.stallMapSize - lt.length, stallMsgMap := b.stallMsgMap.erase a } := by
  unfold reanalyzeMessages at h
  split at h
  · rename_i lt hfind
    simp only [except_assert_eq_ok, except_bind_eq_ok, except_pure_eq_ok] at h
    obtain ⟨-, heap, hheap, rfl⟩ := h
    exact ⟨lt, heap, hfind, hheap, rfl⟩
  · simp at h

theorem foldlM_reanalyzeLine_eq_ok {t : Nat} {l : List ((_ : Nat) × List (Message α))}
    {acc acc' : MessageBuffer α × Int} (h : l.foldlM (reanalyzeLine t) acc = .ok acc') :
    (acc.1.prioHeap ++ l.flatMap (·.2)) ~ acc'.1.prioHeap ∧ acc'.1.msgCounter = acc.1.msgCounter ∧
      acc'.2 = acc.2 - (l.flatMap (·.2)).length := by
  induction l generalizing acc with
  | nil =>
      cases h
      simp
  | cons e l ih =>
      simp only [List.foldlM_cons, except_bind_eq_ok] at h
      obtain ⟨acc₁, h₁, h⟩ := h
      simp only [reanalyzeLine, except_assert_eq_ok, except_bind_eq_ok, except_pure_eq_ok] at h₁
      obtain ⟨-, heap, hheap, rfl⟩ := h₁
      obtain ⟨hperm₁, hcounter₁, -⟩ := reanalyzeList_eq_ok hheap
      obtain ⟨hperm, hcounter, hsize⟩ := ih h
      refine ⟨?_, hcounter.trans hcounter₁, ?_⟩
      · calc acc.1.prioHeap ++ (e :: l).flatMap (·.2)
            _ = (acc.1.prioHeap ++ e.2) ++ l.flatMap (·.2) := by simp
            _ ~ heap.prioHeap ++ l.flatMap (·.2) := hperm₁.append_right _
            _ ~ acc'.1.prioHeap := hperm
      · rw [hsize]
        simp only [List.flatMap_cons, List.length_append, Nat.cast_add]
        ring

theorem reanalyzeAllMessages_eq_ok {b b' : BufferState α} {t : Nat} (h : b.reanalyzeAllMessages t = .ok b') :
    ∃ heap, (b.heap.prioHeap ++ b.stalled) ~ heap.prioHeap ∧ heap.msgCounter = b.heap.msgCounter ∧
      b' = { b with heap, stallMapSize := b.stallMapSize - b.stalled.length, stallMsgMap := OrdMap.empty } := by
  simp only [reanalyzeAllMessages, except_bind_eq_ok, except_pure_eq_ok] at h
  obtain ⟨acc, hacc, rfl⟩ := h
  obtain ⟨hperm, hcounter, hsize⟩ := foldlM_reanalyzeLine_eq_ok hacc
  exact ⟨acc.1, hperm, hcounter, by rw [hsize]; rfl⟩

end BufferState

end Ruby

end ParRP
