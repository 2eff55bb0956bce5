import ParRP.Ruby.MessageBuffer

/-!
# The oldest-age response bus of the `PerfectSwitch`

With `SNOOPING_BUS`, switch 0 runs virtual network 2 as a response bus arbitrated by
request age. When the bus is free, `operateOARespBus` scans every message of every input
port for the ready response of lowest `m_reqID` and the first port that holds one. It
then brings such a message to the front of that port's buffer by re-enqueueing the front
one tick later (`delayHead`) while the front has another request id, at most as many
times as the buffer holds messages and once more, and moves the front to the output with
`operateMessageBufferOnce`. The bus is next free one slot later.

A delayed message arrives after every message that is ready, so the ready messages stay
at the front of the heap and the loop reaches the first message of the lowest request id
after one `delayHead` for each message before it (`delayToLowest_eq_ok`). The message
sent is a ready response of least request id over all ports, and the buffer keeps every
other message, the delayed ones in their order (`operateOARespBus_sends_lowest_ready`).
-/

open scoped List

namespace ParRP

namespace Ruby

open Priority

/-- The members of `PerfectSwitch` that `operateOARespBus` uses: the bus's next free
cycle and the input buffers of virtual network 2, in port order. -/
structure RespBus (α : Type) where
  respBusNextFreeCycle : Nat
  inBuffers : List (MessageBuffer α)

variable {α : Type} (reqID : α → Nat)

/-- `PerfectSwitch::operateMessageBufferOnce`: the ready front moves to the output if
every output buffer on its route has room (`room`), and the call asserts that it sent
one message. -/
def operateMessageBufferOnce (currentTime : Nat) (room : Bool) (buffer : MessageBuffer α) :
    Except String (Message α × MessageBuffer α) := do
  unless buffer.isReady currentTime && room do throw "assert(msg_sent)"
  buffer.dequeue currentTime

/-- The scan of `operateOARespBus` for the ready response of lowest `m_reqID`:
`first_found`, `lowest_ID` and `found_port` as one option. A message replaces the one
found only with a strictly lower id, so the port found is the first that holds one. -/
def scanInPorts (currentTime : Nat) (inBuffers : List (MessageBuffer α)) : Option (Nat × Nat) :=
  inBuffers.zipIdx.foldl (fun found p =>
    p.1.prioHeap.foldl (fun found m =>
      if m.lastEnqueueTime ≤ currentTime then minStep found (reqID m.payload, p.2) else found) found) none

/-- The `while (true)` loop of `operateOARespBus`: `bufSize` counts the iterations left,
and the loop breaks with `found` false once they are spent. -/
def delayToLowest (currentTime lowestID : Nat) : Nat → MessageBuffer α → Except String (Bool × MessageBuffer α)
  | 0, buffer => pure (false, buffer)
  | bufSize + 1, buffer =>
      match buffer.prioHeap with
      | [] => throw "m_prio_heap.front() of an empty heap"
      | m :: _ =>
          if reqID m.payload = lowestID then pure (true, buffer)
          else do
            unless m.lastEnqueueTime ≤ currentTime do
              throw "assert(in_msg_ptr->getLastEnqueueTime() <= current_time)"
            delayToLowest currentTime lowestID bufSize (← buffer.delayHead currentTime 1)

/-- `PerfectSwitch::operateOARespBus`: the port and message sent, if any, and the bus
after the call. -/
def operateOARespBus (respBusSlotWidth : Nat) (bus : RespBus α) (currentCycle currentTime : Nat)
    (room : Bool) : Except String (Option (Nat × Message α) × RespBus α) := do
  if bus.respBusNextFreeCycle > currentCycle then return (none, bus)
  match scanInPorts reqID currentTime bus.inBuffers with
  | none => return (none, bus)
  | some (lowestID, foundPort) =>
      match bus.inBuffers[foundPort]? with
      | none => throw "in[found_port] out of range"
      | some inBuffer =>
          let (found, inBuffer) ←
            delayToLowest reqID currentTime lowestID (inBuffer.prioHeap.length + 1) inBuffer
          unless found do throw "assert(found == true)"
          let (msg, inBuffer) ← operateMessageBufferOnce currentTime room inBuffer
          return (some (foundPort, msg), ⟨currentCycle + respBusSlotWidth, bus.inBuffers.set foundPort inBuffer⟩)

/-- The messages that `delayHead` re-enqueues at `arrivalTime`, in turn, from a buffer
whose counter stood at `msgCounter`. -/
def delayedFrom (arrivalTime : Nat) : Nat → List (Message α) → List (Message α)
  | _, [] => []
  | msgCounter, m :: ms => m.stamp arrivalTime (msgCounter + 1) :: delayedFrom arrivalTime (msgCounter + 1) ms

/-- The ready responses, as request id and port, in the order the scan reads them. -/
def readyReqIDs (currentTime : Nat) (inBuffers : List (MessageBuffer α)) : List (Nat × Nat) :=
  inBuffers.zipIdx.flatMap fun p =>
    (p.1.prioHeap.filter (·.lastEnqueueTime ≤ currentTime)).map fun m => (reqID m.payload, p.2)

@[simp] theorem map_payload_delayedFrom (arrivalTime msgCounter : Nat) (l : List (Message α)) :
    (delayedFrom arrivalTime msgCounter l).map (·.payload) = l.map (·.payload) := by
  induction l generalizing msgCounter with
  | nil => rfl
  | cons m l ih => simp [delayedFrom, ih]

theorem mem_delayedFrom {arrivalTime msgCounter : Nat} {l : List (Message α)} {x : Message α}
    (hx : x ∈ delayedFrom arrivalTime msgCounter l) :
    x.lastEnqueueTime = arrivalTime ∧ msgCounter < x.msgCounter := by
  induction l generalizing msgCounter with
  | nil => cases hx
  | cons m l ih =>
      rcases List.mem_cons.mp hx with rfl | hx
      · exact ⟨rfl, Nat.lt_succ_self _⟩
      · have h := ih hx
        exact ⟨h.1, by omega⟩

/-- The delayed messages stand in the heap order they are delayed in. -/
theorem delayedFrom_pairwise (arrivalTime msgCounter : Nat) (l : List (Message α)) :
    (delayedFrom arrivalTime msgCounter l).Pairwise fun a b => ¬ b.le a := by
  induction l generalizing msgCounter with
  | nil => exact .nil
  | cons m l ih =>
      refine List.Pairwise.cons (fun b hb => ?_) (ih _)
      obtain ⟨htime, hcounter⟩ := mem_delayedFrom hb
      rw [Message.le_iff]
      simp only [Message.stamp] at htime ⊢
      omega

theorem scanInPorts_eq (currentTime : Nat) (inBuffers : List (MessageBuffer α)) :
    scanInPorts reqID currentTime inBuffers = (readyReqIDs reqID currentTime inBuffers).foldl minStep none := by
  simp only [scanInPorts, readyReqIDs, List.foldl_flatMap, List.foldl_map, List.foldl_filter,
    decide_eq_true_eq]

/-- With a ready response at some port, the scan finds a port that holds a ready response
of least request id over all ports. -/
theorem scanInPorts_spec {currentTime : Nat} {inBuffers : List (MessageBuffer α)}
    (hready : ∃ b ∈ inBuffers, ∃ m ∈ b.prioHeap, m.lastEnqueueTime ≤ currentTime) :
    ∃ lowestID foundPort inBuffer, scanInPorts reqID currentTime inBuffers = some (lowestID, foundPort) ∧
      inBuffers[foundPort]? = some inBuffer ∧
      (∃ m ∈ inBuffer.prioHeap, m.lastEnqueueTime ≤ currentTime ∧ reqID m.payload = lowestID) ∧
      ∀ b ∈ inBuffers, ∀ m ∈ b.prioHeap, m.lastEnqueueTime ≤ currentTime → lowestID ≤ reqID m.payload := by
  obtain ⟨b, hb, m, hm, hmready⟩ := hready
  obtain ⟨i, hi⟩ := List.mem_iff_getElem?.mp hb
  have hmem : ∀ {b i m}, inBuffers[i]? = some b → m ∈ b.prioHeap → m.lastEnqueueTime ≤ currentTime →
      (reqID m.payload, i) ∈ readyReqIDs reqID currentTime inBuffers := fun hi hm hmready => by
    simp only [readyReqIDs, List.mem_flatMap, List.mem_map, List.mem_filter, decide_eq_true_eq]
    exact ⟨(_, _), List.mem_zipIdx_iff_getElem?.mpr hi, _, ⟨hm, hmready⟩, rfl⟩
  have hne : readyReqIDs reqID currentTime inBuffers ≠ [] := List.ne_nil_of_mem (hmem hi hm hmready)
  obtain ⟨⟨lowestID, foundPort⟩, hfound⟩ := Option.isSome_iff_exists.mp (foldl_minStep_isSome hne none)
  obtain ⟨hy, -, hleast⟩ := foldl_minStep_spec hfound
  simp only [reduceCtorEq, false_or, readyReqIDs, List.mem_flatMap, List.mem_map, List.mem_filter,
    decide_eq_true_eq] at hy
  obtain ⟨⟨inBuffer, port⟩, hp, m', ⟨hm', hm'ready⟩, heq⟩ := hy
  simp only [Prod.mk.injEq] at heq
  obtain ⟨rfl, rfl⟩ := heq
  refine ⟨_, _, inBuffer, by rw [scanInPorts_eq]; exact hfound, List.mem_zipIdx_iff_getElem?.mp hp,
    ⟨m', hm', hm'ready, rfl⟩, fun b hb m hm hmready => ?_⟩
  obtain ⟨j, hj⟩ := List.mem_iff_getElem?.mp hb
  exact hleast _ (hmem hj hm hmready)

/-- In a heap with a ready response of id `lowestID`, the first message of that id is
ready, and so is every message before it. -/
theorem exists_first_lowest {heap : List (Message α)} (hsorted : heap.Pairwise Message.le)
    {currentTime lowestID : Nat} {m : Message α} (hm : m ∈ heap) (hmready : m.lastEnqueueTime ≤ currentTime)
    (hmid : reqID m.payload = lowestID) :
    ∃ pre msg post, heap = pre ++ msg :: post ∧ reqID msg.payload = lowestID ∧
      msg.lastEnqueueTime ≤ currentTime ∧ ∀ x ∈ pre, x.lastEnqueueTime ≤ currentTime ∧ reqID x.payload ≠ lowestID := by
  obtain ⟨msg, hfind⟩ := Option.isSome_iff_exists.mp
    (List.find?_isSome.mpr ⟨m, hm, by simpa using hmid⟩ : (heap.find? fun x => reqID x.payload = lowestID).isSome)
  obtain ⟨hmsg, pre, post, rfl, hpre⟩ := List.find?_eq_some_iff_append.mp hfind
  simp only [decide_eq_true_eq] at hmsg
  simp only [Bool.not_eq_eq_eq_not, Bool.not_true, decide_eq_false_iff_not] at hpre
  have hsorted' := List.pairwise_append.mp hsorted
  -- `m` is `msg` or behind it, so `msg` has arrived
  have hmsgready : msg.lastEnqueueTime ≤ currentTime := by
    rcases List.mem_append.mp hm with hm | hm
    · exact absurd hmid (hpre m hm)
    · rcases List.mem_cons.mp hm with rfl | hm
      · exact hmready
      · exact (Message.lastEnqueueTime_le_of_le (List.rel_of_pairwise_cons hsorted'.2.1 hm)).trans hmready
  refine ⟨pre, msg, post, rfl, hmsg, hmsgready, fun x hx => ⟨?_, hpre x hx⟩⟩
  exact (Message.lastEnqueueTime_le_of_le (hsorted'.2.2 x hx msg (.head _))).trans hmsgready

/-- The loop from a heap whose messages before the first of id `lowestID` are ready:
one `delayHead` for each of them, after which that message is the front. -/
theorem delayToLowest_eq_ok {currentTime lowestID : Nat} {msg : Message α}
    (hmsg : msg.lastEnqueueTime ≤ currentTime) (hmsgid : reqID msg.payload = lowestID) :
    ∀ {pre Y : List (Message α)} {buffer : MessageBuffer α} {bufSize : Nat},
      buffer.prioHeap = pre ++ msg :: Y → pre.length < bufSize →
      (∀ x ∈ pre, x.lastEnqueueTime ≤ currentTime ∧ reqID x.payload ≠ lowestID) →
      ∃ buffer', delayToLowest reqID currentTime lowestID bufSize buffer = .ok (true, buffer') ∧
        buffer'.prioHeap = msg :: (delayedFrom (currentTime + 1) buffer.msgCounter pre).foldl
          (fun Y a => Y.orderedInsert Message.le a) Y ∧
        buffer'.msgCounter = buffer.msgCounter + pre.length := by
  intro pre
  induction pre with
  | nil =>
      intro Y buffer bufSize hheap hsize _
      obtain ⟨k, rfl⟩ : ∃ k, bufSize = k + 1 := ⟨bufSize - 1, by simp at hsize; omega⟩
      refine ⟨buffer, ?_, by simpa [delayedFrom] using hheap, rfl⟩
      simp [delayToLowest, hheap, hmsgid, pure, Except.pure]
  | cons x pre ih =>
      intro Y buffer bufSize hheap hsize hpre
      obtain ⟨k, rfl⟩ : ∃ k, bufSize = k + 1 := ⟨bufSize - 1, by simp at hsize; omega⟩
      obtain ⟨hx, hxid⟩ := hpre x (.head _)
      have hready : ∀ z ∈ x :: (pre ++ [msg]), z.lastEnqueueTime ≤ currentTime := fun z hz => by
        simp only [List.mem_cons, List.mem_append, List.not_mem_nil, or_false] at hz
        rcases hz with rfl | hz | rfl
        · exact hx
        · exact (hpre z (.tail _ hz)).1
        · exact hmsg
      obtain ⟨buffer₁, hdelay, hheap₁, hcounter₁, -⟩ :=
        @MessageBuffer.delayHead_eq_ok α buffer x (pre ++ [msg]) Y currentTime 1 (by rw [hheap]; simp) Nat.one_pos hready
      rw [List.append_assoc, List.singleton_append] at hheap₁
      obtain ⟨buffer', hloop, hheap', hcounter'⟩ :=
        ih hheap₁ (by simp at hsize; omega) fun z hz => hpre z (.tail _ hz)
      refine ⟨buffer', ?_, ?_, ?_⟩
      · simp only [delayToLowest, hheap, List.cons_append, hxid, if_false]
        simp [hx, hdelay, hloop, bind, Except.bind]
      · rw [hheap', hcounter₁]
        rfl
      · rw [hcounter', hcounter₁, List.length_cons]
        omega

theorem operateMessageBufferOnce_eq_ok {buffer : MessageBuffer α} {msg : Message α} {rest : List (Message α)}
    {currentTime : Nat} (hheap : buffer.prioHeap = msg :: rest) (hmsg : msg.lastEnqueueTime ≤ currentTime) :
    operateMessageBufferOnce currentTime true buffer = .ok (msg, buffer.popFront) := by
  have hready : buffer.isReady currentTime = true := by simp [MessageBuffer.isReady, hheap, hmsg]
  simp [operateMessageBufferOnce, hready, MessageBuffer.dequeue_eq_ok hheap hmsg]

/-- A call of `operateOARespBus` with the bus free, a ready response at some port and
room at the output sends one message: a ready response of least request id over all
ports, the first of that id in its port's heap. Each message before it in the heap is
delayed once, and the buffer keeps every other message, the delayed ones stamped anew
and in their order. -/
theorem operateOARespBus_sends_lowest_ready (respBusSlotWidth : Nat) {bus : RespBus α}
    {currentCycle currentTime : Nat} (hfree : bus.respBusNextFreeCycle ≤ currentCycle)
    (hready : ∃ b ∈ bus.inBuffers, ∃ m ∈ b.prioHeap, m.lastEnqueueTime ≤ currentTime) :
    ∃ foundPort inBuffer msg pre post inBuffer',
      bus.inBuffers[foundPort]? = some inBuffer ∧
      operateOARespBus reqID respBusSlotWidth bus currentCycle currentTime true =
        .ok (some (foundPort, msg), ⟨currentCycle + respBusSlotWidth, bus.inBuffers.set foundPort inBuffer'⟩) ∧
      inBuffer.prioHeap = pre ++ msg :: post ∧ msg.lastEnqueueTime ≤ currentTime ∧
      (∀ b ∈ bus.inBuffers, ∀ m ∈ b.prioHeap, m.lastEnqueueTime ≤ currentTime → reqID msg.payload ≤ reqID m.payload) ∧
      (∀ x ∈ pre, x.lastEnqueueTime ≤ currentTime ∧ reqID x.payload ≠ reqID msg.payload) ∧
      inBuffer'.prioHeap.Perm (post ++ delayedFrom (currentTime + 1) inBuffer.msgCounter pre) ∧
      delayedFrom (currentTime + 1) inBuffer.msgCounter pre <+ inBuffer'.prioHeap ∧
      inBuffer'.msgCounter = inBuffer.msgCounter + pre.length := by
  obtain ⟨lowestID, foundPort, inBuffer, hscan, hget, ⟨m, hm, hmready, hmid⟩, hleast⟩ :=
    scanInPorts_spec reqID hready
  obtain ⟨pre, msg, post, hheap, hmsgid, hmsgready, hpre⟩ :=
    exists_first_lowest reqID inBuffer.sorted hm hmready hmid
  obtain ⟨buffer₁, hloop, hheap₁, hcounter₁⟩ :=
    @delayToLowest_eq_ok α reqID currentTime lowestID msg hmsgready hmsgid pre post inBuffer
      (inBuffer.prioHeap.length + 1) hheap (by simp [hheap]) hpre
  have hsend := operateMessageBufferOnce_eq_ok hheap₁ hmsgready
  have hop : operateOARespBus reqID respBusSlotWidth bus currentCycle currentTime true =
      .ok (some (foundPort, msg), ⟨currentCycle + respBusSlotWidth, bus.inBuffers.set foundPort buffer₁.popFront⟩) := by
    simp [operateOARespBus, Nat.not_lt.mpr hfree, hscan, hget, hloop, hsend, bind, Except.bind, pure, Except.pure]
  have hpost : post.Pairwise Message.le := by
    have hsorted := inBuffer.sorted
    rw [hheap] at hsorted
    exact (List.pairwise_append.mp hsorted).2.1.of_cons
  have hheap' : buffer₁.popFront.prioHeap =
      (delayedFrom (currentTime + 1) inBuffer.msgCounter pre).foldl (fun Y a => Y.orderedInsert Message.le a) post := by
    rw [MessageBuffer.popFront_prioHeap, hheap₁, List.tail_cons]
  refine ⟨foundPort, inBuffer, msg, pre, post, buffer₁.popFront, hget, hop, hheap, hmsgready,
    fun b hb m hm hmr => hmsgid ▸ hleast b hb m hm hmr, fun x hx => hmsgid ▸ hpre x hx, ?_, ?_, ?_⟩
  · rw [hheap']
    exact foldl_orderedInsert_perm Message.le _ post
  · rw [hheap']
    simpa using append_sublist_foldl_orderedInsert Message.le hpost (List.nil_sublist post)
      (delayedFrom_pairwise _ _ pre) (by simp)
  · rw [MessageBuffer.popFront_msgCounter, hcounter₁]

/-- Port 0 holds responses to requests 5 and 3, in that heap order, and port 1 one to
request 4, all arrived at tick 0. -/
def exampleRespBus : RespBus Nat :=
  ⟨0, [⟨[⟨5, 0, 1⟩, ⟨3, 0, 2⟩], 2, false, by decide⟩, ⟨[⟨4, 0, 1⟩], 1, false, by decide⟩]⟩

theorem exampleRespBus_sends_lowest :
    exampleRespBus.respBusNextFreeCycle ≤ 0 ∧
      (∃ b ∈ exampleRespBus.inBuffers, ∃ m ∈ b.prioHeap, m.lastEnqueueTime ≤ 0) ∧
      ∃ foundPort inBuffer msg pre post inBuffer',
        exampleRespBus.inBuffers[foundPort]? = some inBuffer ∧
        operateOARespBus id 4 exampleRespBus 0 0 true =
          .ok (some (foundPort, msg), ⟨0 + 4, exampleRespBus.inBuffers.set foundPort inBuffer'⟩) ∧
        inBuffer.prioHeap = pre ++ msg :: post ∧ msg.lastEnqueueTime ≤ 0 ∧
        (∀ b ∈ exampleRespBus.inBuffers, ∀ m ∈ b.prioHeap, m.lastEnqueueTime ≤ 0 → id msg.payload ≤ id m.payload) ∧
        (∀ x ∈ pre, x.lastEnqueueTime ≤ 0 ∧ id x.payload ≠ id msg.payload) ∧
        inBuffer'.prioHeap.Perm (post ++ delayedFrom (0 + 1) inBuffer.msgCounter pre) ∧
        delayedFrom (0 + 1) inBuffer.msgCounter pre <+ inBuffer'.prioHeap ∧
        inBuffer'.msgCounter = inBuffer.msgCounter + pre.length :=
  ⟨by decide, by decide, operateOARespBus_sends_lowest_ready id 4 (by decide) (by decide)⟩

/-- Request 3 is sent from port 0 after the response to request 5 is delayed to tick 1
with counter 3. -/
example : (operateOARespBus id 4 exampleRespBus 0 0 true).map (fun r => (r.1, r.2.inBuffers.map (·.prioHeap))) =
    .ok (some (0, ⟨3, 0, 2⟩), [[⟨5, 1, 3⟩], [⟨4, 0, 1⟩]]) := rfl

end Ruby

end ParRP
