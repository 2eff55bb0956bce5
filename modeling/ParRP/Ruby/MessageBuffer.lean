import ParRP.Lib.Priority

/-!
# `MessageBuffer`

A message buffer keeps its messages in `m_prio_heap`, a binary heap under
`std::greater<MsgPtr>`: its front is the message of least `(LastEnqueueTime,
MsgCounter)`. Only the heap order is modelled: the heap is the list of its messages in
that order, kept sorted by the buffer itself (`MessageBuffer.sorted`), and a message
enqueued is inserted at its place. Every enqueue stamps the message with the arrival
time and the next value of `m_msg_counter`.

Without randomization, `enqueue` makes a message arrive `delta` ticks after the current
time; `delayHead` re-enqueues the front one tick later, so a delayed message lands behind
every message that is ready now (`delayHead_eq_ok`).
-/

namespace ParRP

namespace Ruby

open Priority

/-- The members of `Message` that a buffer reads and writes, with the rest of the
message as `payload`. -/
structure Message (α : Type) where
  payload : α
  lastEnqueueTime : Nat
  msgCounter : Nat
  deriving DecidableEq, Repr

namespace Message

variable {α : Type}

/-- `operator>(MsgPtr, MsgPtr)`. -/
def gt (l r : Message α) : Bool :=
  if l.lastEnqueueTime = r.lastEnqueueTime then l.msgCounter > r.msgCounter
  else l.lastEnqueueTime > r.lastEnqueueTime

/-- `l` may stand before `r` in the heap: it is not greater. -/
def le (l r : Message α) : Prop := l.gt r = false

instance : DecidableRel (le (α := α)) := fun l r => inferInstanceAs (Decidable (l.gt r = false))

theorem le_iff {l r : Message α} :
    l.le r ↔ l.lastEnqueueTime < r.lastEnqueueTime ∨
      (l.lastEnqueueTime = r.lastEnqueueTime ∧ l.msgCounter ≤ r.msgCounter) := by
  unfold le gt
  split_ifs <;> simp <;> omega

instance : Std.Total (le (α := α)) :=
  ⟨fun a b => by simp only [le_iff]; omega⟩

instance : IsTrans (Message α) le :=
  ⟨fun a b c => by simp only [le_iff]; omega⟩

/-- The message as `enqueue` stamps it, with its arrival time and counter. -/
def stamp (m : Message α) (arrivalTime msgCounter : Nat) : Message α :=
  { m with lastEnqueueTime := arrivalTime, msgCounter := msgCounter }

@[simp] theorem stamp_payload (m : Message α) (arrivalTime msgCounter : Nat) :
    (m.stamp arrivalTime msgCounter).payload = m.payload := rfl

@[simp] theorem stamp_lastEnqueueTime (m : Message α) (arrivalTime msgCounter : Nat) :
    (m.stamp arrivalTime msgCounter).lastEnqueueTime = arrivalTime := rfl

theorem lastEnqueueTime_le_of_le {l r : Message α} (h : l.le r) : l.lastEnqueueTime ≤ r.lastEnqueueTime := by
  rw [le_iff] at h
  omega

/-- A message that arrives later stands behind. -/
theorem not_le_of_lt {l r : Message α} (h : r.lastEnqueueTime < l.lastEnqueueTime) : ¬ l.le r := by
  rw [le_iff]
  omega

end Message

/-- The members of `MessageBuffer` its heap operations use. -/
structure MessageBuffer (α : Type) where
  prioHeap : List (Message α)
  msgCounter : Nat
  allowZeroLatency : Bool
  sorted : prioHeap.Pairwise Message.le

namespace MessageBuffer

variable {α : Type}

/-- `isReady` with no limit on dequeues per cycle: the front has arrived. -/
def isReady (b : MessageBuffer α) (currentTime : Nat) : Bool :=
  match b.prioHeap with
  | [] => false
  | m :: _ => m.lastEnqueueTime ≤ currentTime

/-- `pop_heap` and `pop_back`: the front leaves the heap. -/
def popFront (b : MessageBuffer α) : MessageBuffer α :=
  { b with prioHeap := b.prioHeap.tail, sorted := b.sorted.tail }

@[simp] theorem popFront_prioHeap (b : MessageBuffer α) : b.popFront.prioHeap = b.prioHeap.tail := rfl

@[simp] theorem popFront_msgCounter (b : MessageBuffer α) : b.popFront.msgCounter = b.msgCounter := rfl

@[simp] theorem popFront_allowZeroLatency (b : MessageBuffer α) :
    b.popFront.allowZeroLatency = b.allowZeroLatency := rfl

/-- `MessageBuffer::enqueue` without randomization. -/
def enqueue (b : MessageBuffer α) (message : Message α) (currentTime delta : Nat) :
    Except String (MessageBuffer α) := do
  let msgCounter := b.msgCounter + 1
  if delta = 0 ∧ b.allowZeroLatency = false then
    throw "Delta equals zero and allow_zero_latency is false during enqueue"
  let arrivalTime := currentTime + delta
  unless message.lastEnqueueTime ≤ currentTime do throw "ensure we aren't dequeued early"
  let message := { message with lastEnqueueTime := arrivalTime, msgCounter := msgCounter }
  pure { b with
    prioHeap := b.prioHeap.orderedInsert Message.le message
    msgCounter := msgCounter
    sorted := b.sorted.orderedInsert message b.prioHeap }

/-- `MessageBuffer::dequeue`: the front, which must be ready, leaves the heap. -/
def dequeue (b : MessageBuffer α) (currentTime : Nat) : Except String (Message α × MessageBuffer α) := do
  unless b.isReady currentTime do throw "assert(isReady(current_time))"
  match b.prioHeap with
  | [] => throw "m_prio_heap.front() of an empty heap"
  | m :: _ => pure (m, b.popFront)

/-- `MessageBuffer::delayHead`: the front is taken out and enqueued again. -/
def delayHead (b : MessageBuffer α) (currentTime delta : Nat) : Except String (MessageBuffer α) :=
  match b.prioHeap with
  | [] => throw "m_prio_heap.front() of an empty heap"
  | m :: _ => b.popFront.enqueue m currentTime delta

theorem enqueue_eq_ok {b : MessageBuffer α} {message : Message α} {currentTime delta : Nat}
    (hdelta : 0 < delta) (hm : message.lastEnqueueTime ≤ currentTime) :
    ∃ b', b.enqueue message currentTime delta = .ok b' ∧
      b'.prioHeap = b.prioHeap.orderedInsert Message.le (message.stamp (currentTime + delta) (b.msgCounter + 1)) ∧
      b'.msgCounter = b.msgCounter + 1 ∧ b'.allowZeroLatency = b.allowZeroLatency := by
  have hne : ¬ (delta = 0 ∧ b.allowZeroLatency = false) := fun h => by omega
  refine ⟨⟨_, b.msgCounter + 1, b.allowZeroLatency, b.sorted.orderedInsert _ b.prioHeap⟩, ?_, rfl, rfl, rfl⟩
  simp [enqueue, Message.stamp, hne, hm, pure, Except.pure]

/-- `delayHead` at a ready front: the front goes behind every message that has arrived,
stamped one `delta` later with the next counter. -/
theorem delayHead_eq_ok {b : MessageBuffer α} {m : Message α} {ready rest : List (Message α)}
    {currentTime delta : Nat} (hheap : b.prioHeap = m :: ready ++ rest) (hdelta : 0 < delta)
    (hready : ∀ x ∈ m :: ready, x.lastEnqueueTime ≤ currentTime) :
    ∃ b', b.delayHead currentTime delta = .ok b' ∧
      b'.prioHeap = ready ++ rest.orderedInsert Message.le (m.stamp (currentTime + delta) (b.msgCounter + 1)) ∧
      b'.msgCounter = b.msgCounter + 1 ∧ b'.allowZeroLatency = b.allowZeroLatency := by
  obtain ⟨b', henq, hheap', hcounter, hallow⟩ :=
    @enqueue_eq_ok α b.popFront m currentTime delta hdelta (hready m (.head _))
  have hbehind : ∀ x ∈ ready, ¬ (m.stamp (currentTime + delta) (b.msgCounter + 1)).le x := fun x hx =>
    Message.not_le_of_lt (by have := hready x (.tail _ hx); simp only [Message.stamp_lastEnqueueTime]; omega)
  refine ⟨b', ?_, ?_, hcounter, hallow⟩
  · unfold delayHead
    rw [hheap]
    exact henq
  · rw [hheap', popFront_prioHeap, popFront_msgCounter, hheap, List.cons_append, List.tail_cons,
      orderedInsert_append Message.le hbehind]

theorem dequeue_eq_ok {b : MessageBuffer α} {m : Message α} {rest : List (Message α)} {currentTime : Nat}
    (hheap : b.prioHeap = m :: rest) (hm : m.lastEnqueueTime ≤ currentTime) :
    b.dequeue currentTime = .ok (m, b.popFront) := by
  have hready : b.isReady currentTime = true := by simp [isReady, hheap, hm]
  simp [dequeue, hready, hheap, pure, Except.pure]

end MessageBuffer

end Ruby

end ParRP
