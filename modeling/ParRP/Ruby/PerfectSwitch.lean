import ParRP.Lib.RoundRobin
import ParRP.Lib.Except

/-!
# The request bus of the `PerfectSwitch`

With `SNOOPING_BUS`, switch 0 runs virtual network 0 as a TDM request bus. A call of
`operateTDMRequestBus` does nothing before `m_req_bus_next_free_cycle`; otherwise it
searches the input ports in cyclic order from `m_request_bus_owner` for one whose
buffer is ready, and, at the start of a slot of `m_tdm_slot_width` cycles, forwards
that port's message and passes ownership to the next port. Either way it then waits
for the next slot start.

What the arbiter sees of the network at a call is its input: the cycle, the ports
whose buffers are ready, and whether the output buffers have room for the message.
Forwarding asserts that the message was sent, so a full output buffer at a grant is
an assertion failure.

A grant is at a slot start and pushes the next free cycle to the next slot start, so
there is at most one grant per slot (`runTDM_grants`). A grant to another port brings
a ready port strictly closer to ownership in cyclic order, so a port ready at every
slot start is served within `n` of them (`runTDM_serves`).
-/

namespace ParRP

namespace Ruby

open RoundRobin

/-- The request-bus members of `PerfectSwitch`. -/
structure TdmBus where
  requestBusOwner : Nat
  reqBusNextFreeCycle : Nat
  deriving DecidableEq, Repr

def TdmBus.init : TdmBus := ⟨0, 0⟩

/-- The network as one call of `operateTDMRequestBus` sees it. -/
structure TdmInput where
  cycle : Nat
  ready : Nat → Bool
  room : Bool

def isStartOfSlot (tdmSlotWidth cycle : Nat) : Bool := cycle % tdmSlotWidth = 0

def getNextSlotStartCycle (tdmSlotWidth cycle : Nat) : Nat := (cycle / tdmSlotWidth + 1) * tdmSlotWidth

variable (numInPort tdmSlotWidth : Nat)

/-- `PerfectSwitch::operateTDMRequestBus`: the port whose message is forwarded, if any,
and the bus after the call. -/
def operateTDMRequestBus (bus : TdmBus) (input : TdmInput) : Except String (Option Nat × TdmBus) := do
  if bus.reqBusNextFreeCycle > input.cycle then return (none, bus)
  match search input.ready numInPort numInPort bus.requestBusOwner with
  | none => return (none, bus)
  | some j =>
      let (grant, bus) ←
        if isStartOfSlot tdmSlotWidth input.cycle then do
          unless input.room do throw "assert(msg_sent)"
          pure (some j, { bus with requestBusOwner := (j + 1) % numInPort })
        else pure (none, bus)
      let nextSlotStartCycle := getNextSlotStartCycle tdmSlotWidth input.cycle
      unless nextSlotStartCycle > input.cycle do throw "assert(next_slot_start_cycle > current_cycle)"
      return (grant, { bus with reqBusNextFreeCycle := nextSlotStartCycle })

/-- Calls in turn; the grants, with their cycles, in order. -/
def runTDM : TdmBus → List TdmInput → Except String (List (Nat × Nat) × TdmBus)
  | bus, [] => .ok ([], bus)
  | bus, input :: inputs => do
      let (grant, bus) ← operateTDMRequestBus numInPort tdmSlotWidth bus input
      let (grants, bus) ← runTDM bus inputs
      return ((grant.map fun j => (input.cycle, j)).toList ++ grants, bus)

theorem getNextSlotStartCycle_gt (hw : 0 < tdmSlotWidth) (cycle : Nat) :
    cycle < getNextSlotStartCycle tdmSlotWidth cycle := by
  have h := Nat.lt_div_mul_add (a := cycle) hw
  simp only [getNextSlotStartCycle, Nat.add_mul, Nat.one_mul]
  exact h

theorem getNextSlotStartCycle_of_start {cycle : Nat} (h : cycle % tdmSlotWidth = 0) : getNextSlotStartCycle tdmSlotWidth cycle = cycle + tdmSlotWidth := by
  have hdiv := Nat.div_add_mod cycle tdmSlotWidth
  rw [h, Nat.add_zero] at hdiv
  rw [getNextSlotStartCycle, Nat.mul_comm, Nat.mul_add, Nat.mul_one, hdiv]

/-- A later slot start is no earlier than the slot start after `last`. -/
theorem getNextSlotStartCycle_le {last cycle : Nat} (hw : 0 < tdmSlotWidth) (h : cycle % tdmSlotWidth = 0)
    (hlt : last < cycle) : getNextSlotStartCycle tdmSlotWidth last ≤ cycle := by
  have hdiv := Nat.div_add_mod cycle tdmSlotWidth
  rw [h, Nat.add_zero] at hdiv
  have hq : last / tdmSlotWidth < cycle / tdmSlotWidth :=
    (Nat.div_lt_iff_lt_mul hw).mpr (by rw [Nat.mul_comm, hdiv]; exact hlt)
  calc getNextSlotStartCycle tdmSlotWidth last
      = tdmSlotWidth * (last / tdmSlotWidth + 1) := Nat.mul_comm _ _
    _ ≤ tdmSlotWidth * (cycle / tdmSlotWidth) := Nat.mul_le_mul_left _ hq
    _ = cycle := hdiv

/-- What a call does: nothing before the next free cycle or with no port ready; else,
at a slot start, it grants the first ready port from the owner and passes ownership
past it, and it waits for the next slot start. -/
theorem operateTDMRequestBus_eq_ok {bus bus' : TdmBus} {input : TdmInput} {grant : Option Nat}
    (h : operateTDMRequestBus numInPort tdmSlotWidth bus input = .ok (grant, bus')) :
    (grant = none ∧ bus' = bus) ∨
      ∃ j, bus.reqBusNextFreeCycle ≤ input.cycle ∧
        search input.ready numInPort numInPort bus.requestBusOwner = some j ∧
        bus'.reqBusNextFreeCycle = getNextSlotStartCycle tdmSlotWidth input.cycle ∧
        input.cycle < bus'.reqBusNextFreeCycle ∧
        ((input.cycle % tdmSlotWidth = 0 ∧ input.room = true ∧ grant = some j ∧
            bus'.requestBusOwner = (j + 1) % numInPort) ∨
          (input.cycle % tdmSlotWidth ≠ 0 ∧ grant = none ∧ bus'.requestBusOwner = bus.requestBusOwner)) := by
  simp only [operateTDMRequestBus] at h
  split at h
  · exact .inl (by simp_all [pure, Except.pure])
  · next hfree =>
      split at h
      · exact .inl (by simp_all [pure, Except.pure])
      · next j hj =>
          refine .inr ⟨j, by omega, hj, ?_⟩
          by_cases hs : input.cycle % tdmSlotWidth = 0
          · simp only [isStartOfSlot, hs, decide_true, if_true, except_bind_eq_ok, except_assert_eq_ok,
              except_pure_eq_ok] at h
            obtain ⟨hroom, _, rfl, hgt, heq⟩ := h
            simp only [Prod.mk.injEq] at heq
            obtain ⟨rfl, rfl⟩ := heq
            exact ⟨rfl, hgt, .inl ⟨hs, hroom, rfl, rfl⟩⟩
          · simp only [isStartOfSlot, hs, decide_false, Bool.false_eq_true, if_false, except_bind_eq_ok,
              except_assert_eq_ok, except_pure_eq_ok] at h
            obtain ⟨_, rfl, hgt, heq⟩ := h
            simp only [Prod.mk.injEq] at heq
            obtain ⟨rfl, rfl⟩ := heq
            exact ⟨rfl, hgt, .inr ⟨hs, rfl, rfl⟩⟩

theorem nextFreeCycle_le_of_eq_ok {bus bus' : TdmBus} {input : TdmInput} {grant : Option Nat}
    (h : operateTDMRequestBus numInPort tdmSlotWidth bus input = .ok (grant, bus')) :
    bus.reqBusNextFreeCycle ≤ bus'.reqBusNextFreeCycle := by
  rcases operateTDMRequestBus_eq_ok numInPort tdmSlotWidth h with ⟨-, rfl⟩ | ⟨j, hfree, -, -, hgt, -⟩
  · exact le_refl _
  · omega

/-- A grant is at a slot start, and the bus is next free one slot later. -/
theorem grant_of_eq_ok {bus bus' : TdmBus} {input : TdmInput} {j : Nat}
    (h : operateTDMRequestBus numInPort tdmSlotWidth bus input = .ok (some j, bus')) :
    input.cycle % tdmSlotWidth = 0 ∧ bus.reqBusNextFreeCycle ≤ input.cycle ∧
      search input.ready numInPort numInPort bus.requestBusOwner = some j ∧
      bus'.requestBusOwner = (j + 1) % numInPort ∧ bus'.reqBusNextFreeCycle = input.cycle + tdmSlotWidth := by
  rcases operateTDMRequestBus_eq_ok numInPort tdmSlotWidth h with ⟨h, -⟩ | ⟨j', hfree, hj, hnext, -, hgrant⟩
  · cases h
  · rcases hgrant with ⟨hs, -, hj', howner⟩ | ⟨-, h, -⟩
    · cases hj'
      exact ⟨hs, hfree, hj, howner, by rw [hnext, getNextSlotStartCycle_of_start _ hs]⟩
    · cases h

/-- The owner stays a port. -/
theorem owner_lt_of_eq_ok (hn : 0 < numInPort) {bus bus' : TdmBus} {input : TdmInput} {grant : Option Nat}
    (howner : bus.requestBusOwner < numInPort)
    (h : operateTDMRequestBus numInPort tdmSlotWidth bus input = .ok (grant, bus')) :
    bus'.requestBusOwner < numInPort := by
  rcases operateTDMRequestBus_eq_ok numInPort tdmSlotWidth h with ⟨-, rfl⟩ | ⟨j, -, -, -, -, hgrant⟩
  · exact howner
  · rcases hgrant with ⟨-, -, -, h⟩ | ⟨-, -, h⟩
    · rw [h]
      exact Nat.mod_lt _ hn
    · rw [h]
      exact howner

/-- With room in the output buffers, no assertion of a call fails. -/
theorem operateTDMRequestBus_ok (hw : 0 < tdmSlotWidth) (bus : TdmBus) {input : TdmInput}
    (hroom : input.room = true) : ∃ grant bus', operateTDMRequestBus numInPort tdmSlotWidth bus input = .ok (grant, bus') := by
  have hgt := getNextSlotStartCycle_gt tdmSlotWidth hw input.cycle
  unfold operateTDMRequestBus
  split
  · exact ⟨_, _, rfl⟩
  · split
    · exact ⟨_, _, rfl⟩
    · split <;> simp [hgt, bind, Except.bind, pure, Except.pure]

/-- One call at a slot start, with the bus free and port `i` ready: some port is granted,
and it is `i` or a port before `i`, which brings `i` closer to ownership. -/
theorem operateTDMRequestBus_serves (hw : 0 < tdmSlotWidth) {i : Nat}
    (hi : i < numInPort) {bus : TdmBus} (howner : bus.requestBusOwner < numInPort) {input : TdmInput}
    (hs : input.cycle % tdmSlotWidth = 0) (hfree : bus.reqBusNextFreeCycle ≤ input.cycle)
    (hr : input.ready i = true) (hroom : input.room = true) :
    ∃ j bus', operateTDMRequestBus numInPort tdmSlotWidth bus input = .ok (some j, bus') ∧
      (j = i ∨ cyclicDist numInPort bus'.requestBusOwner i < cyclicDist numInPort bus.requestBusOwner i) := by
  -- a free bus with a ready port finds one
  obtain ⟨j, hj⟩ := search_isSome howner hi hr (cyclicDist_lt howner hi)
  have hstart : isStartOfSlot tdmSlotWidth input.cycle = true := by simp [isStartOfSlot, hs]
  have hgt := getNextSlotStartCycle_gt tdmSlotWidth hw input.cycle
  have hop : operateTDMRequestBus numInPort tdmSlotWidth bus input =
      .ok (some j, ⟨(j + 1) % numInPort, getNextSlotStartCycle tdmSlotWidth input.cycle⟩) := by
    simp [operateTDMRequestBus, Nat.not_lt.mpr hfree, hj, hstart, hroom, hgt, bind, Except.bind, pure,
      Except.pure]
  refine ⟨j, _, hop, ?_⟩
  by_cases hji : j = i
  · exact .inl hji
  · exact .inr (search_next_closer howner hi hr hj hji)

/-- Off a slot start a call grants nothing and keeps the owner; it leaves the next free
cycle or moves it to the next slot start. -/
theorem operateTDMRequestBus_of_not_start {bus bus' : TdmBus} {input : TdmInput} {grant : Option Nat}
    (hs : input.cycle % tdmSlotWidth ≠ 0)
    (h : operateTDMRequestBus numInPort tdmSlotWidth bus input = .ok (grant, bus')) :
    grant = none ∧ bus'.requestBusOwner = bus.requestBusOwner ∧
      (bus'.reqBusNextFreeCycle = bus.reqBusNextFreeCycle ∨
        bus'.reqBusNextFreeCycle = getNextSlotStartCycle tdmSlotWidth input.cycle) := by
  rcases operateTDMRequestBus_eq_ok numInPort tdmSlotWidth h with ⟨rfl, rfl⟩ | ⟨j, -, -, hnext, -, hgrant⟩
  · exact ⟨rfl, rfl, .inl rfl⟩
  · rcases hgrant with ⟨hs', -⟩ | ⟨-, rfl, howner⟩
    · exact absurd hs' hs
    · exact ⟨rfl, howner, .inr hnext⟩

theorem runTDM_cons_eq_ok {bus bus' : TdmBus} {input : TdmInput} {inputs : List TdmInput}
    {grants : List (Nat × Nat)} (h : runTDM numInPort tdmSlotWidth bus (input :: inputs) = .ok (grants, bus')) :
    ∃ grant bus₁ rest, operateTDMRequestBus numInPort tdmSlotWidth bus input = .ok (grant, bus₁) ∧
      runTDM numInPort tdmSlotWidth bus₁ inputs = .ok (rest, bus') ∧
      grants = (grant.map fun j => (input.cycle, j)).toList ++ rest := by
  simp only [runTDM, except_bind_eq_ok, except_pure_eq_ok] at h
  obtain ⟨⟨grant, bus₁⟩, h₁, ⟨rest, bus₂⟩, h₂, heq⟩ := h
  simp only [Prod.mk.injEq] at heq
  obtain ⟨rfl, rfl⟩ := heq
  exact ⟨grant, bus₁, rest, h₁, h₂, rfl⟩

theorem runTDM_cons_of_eq_ok {bus bus₁ bus' : TdmBus} {input : TdmInput} {inputs : List TdmInput}
    {grant : Option Nat} {rest : List (Nat × Nat)}
    (h₁ : operateTDMRequestBus numInPort tdmSlotWidth bus input = .ok (grant, bus₁))
    (h₂ : runTDM numInPort tdmSlotWidth bus₁ inputs = .ok (rest, bus')) :
    runTDM numInPort tdmSlotWidth bus (input :: inputs) =
      .ok ((grant.map fun j => (input.cycle, j)).toList ++ rest, bus') := by
  simp [runTDM, h₁, h₂, bind, Except.bind, pure, Except.pure]

/-- Over any run, every grant is at a slot start no earlier than the bus is free, and
each grant is at least a slot after the one before. -/
theorem runTDM_grants {bus bus' : TdmBus} {inputs : List TdmInput} {grants : List (Nat × Nat)}
    (h : runTDM numInPort tdmSlotWidth bus inputs = .ok (grants, bus')) :
    (∀ g ∈ grants, bus.reqBusNextFreeCycle ≤ g.1 ∧ g.1 % tdmSlotWidth = 0) ∧
      grants.Pairwise (fun a b => a.1 + tdmSlotWidth ≤ b.1) := by
  induction inputs generalizing bus grants with
  | nil =>
      simp only [runTDM, Except.ok.injEq, Prod.mk.injEq] at h
      obtain ⟨rfl, -⟩ := h
      simp
  | cons input inputs ih =>
      obtain ⟨grant, bus₁, rest, h₁, h₂, rfl⟩ := runTDM_cons_eq_ok numInPort tdmSlotWidth h
      obtain ⟨hrest, hpair⟩ := ih h₂
      have hmono := nextFreeCycle_le_of_eq_ok numInPort tdmSlotWidth h₁
      cases grant with
      | none =>
          exact ⟨fun g hg => ⟨hmono.trans (hrest g hg).1, (hrest g hg).2⟩, hpair⟩
      | some j =>
          -- the grant makes the bus free only a slot later
          obtain ⟨hs, hfree, -, -, hnext⟩ := grant_of_eq_ok numInPort tdmSlotWidth h₁
          refine ⟨fun g hg => ?_, ?_⟩
          · rcases List.mem_cons.mp hg with rfl | hg
            · exact ⟨hfree, hs⟩
            · exact ⟨hmono.trans (hrest g hg).1, (hrest g hg).2⟩
          · exact List.Pairwise.cons (fun g hg => hnext ▸ (hrest g hg).1) hpair

/-- With room in the output buffers, no call of a run fails. -/
theorem runTDM_ok (hw : 0 < tdmSlotWidth) {inputs : List TdmInput} (hroom : ∀ x ∈ inputs, x.room = true)
    (bus : TdmBus) : ∃ grants bus', runTDM numInPort tdmSlotWidth bus inputs = .ok (grants, bus') := by
  induction inputs generalizing bus with
  | nil => exact ⟨[], bus, rfl⟩
  | cons input inputs ih =>
      obtain ⟨grant, bus₁, h₁⟩ := operateTDMRequestBus_ok numInPort tdmSlotWidth hw bus (hroom input (.head _))
      obtain ⟨rest, bus', h₂⟩ := ih (fun x hx => hroom x (.tail _ hx)) bus₁
      exact ⟨_, bus', runTDM_cons_of_eq_ok numInPort tdmSlotWidth h₁ h₂⟩

/-- A run whose calls come at increasing cycles, with room in the output buffers and
port `i` ready at every slot start, grants `i` once it has had more slot starts than the
cyclic distance from the owner to `i`. -/
theorem runTDM_serves (hw : 0 < tdmSlotWidth) {i : Nat} (hi : i < numInPort) {inputs : List TdmInput}
    (hcycles : inputs.Pairwise (fun a b => a.cycle < b.cycle)) (hroom : ∀ x ∈ inputs, x.room = true)
    (hready : ∀ x ∈ inputs, isStartOfSlot tdmSlotWidth x.cycle = true → x.ready i = true) :
    ∀ {bus : TdmBus}, bus.requestBusOwner < numInPort →
      (∀ x ∈ inputs, isStartOfSlot tdmSlotWidth x.cycle = true → bus.reqBusNextFreeCycle ≤ x.cycle) →
      cyclicDist numInPort bus.requestBusOwner i < (inputs.filter (isStartOfSlot tdmSlotWidth ·.cycle)).length →
      ∃ grants bus', runTDM numInPort tdmSlotWidth bus inputs = .ok (grants, bus') ∧ i ∈ grants.map Prod.snd := by
  induction inputs with
  | nil => intro bus _ _ hcount; simp at hcount
  | cons input inputs ih =>
      intro bus howner hfree hcount
      have hcycles' := List.pairwise_cons.mp hcycles
      have hroom' : ∀ x ∈ inputs, x.room = true := fun x hx => hroom x (.tail _ hx)
      have hready' := fun x hx => hready x (List.Mem.tail input hx)
      -- every later slot start is at or past the next slot start after this call
      have hlater : ∀ x ∈ inputs, isStartOfSlot tdmSlotWidth x.cycle = true →
          getNextSlotStartCycle tdmSlotWidth input.cycle ≤ x.cycle := fun x hx hs =>
        getNextSlotStartCycle_le tdmSlotWidth hw (by simpa [isStartOfSlot] using hs) (hcycles'.1 x hx)
      by_cases hs : isStartOfSlot tdmSlotWidth input.cycle = true
      · have hs' : input.cycle % tdmSlotWidth = 0 := by simpa [isStartOfSlot] using hs
        obtain ⟨j, bus₁, h₁, hji⟩ := operateTDMRequestBus_serves numInPort tdmSlotWidth hw hi howner hs'
          (hfree input (.head _) hs) (hready input (.head _) hs) (hroom input (.head _))
        obtain ⟨-, -, -, howner₁, hnext⟩ := grant_of_eq_ok numInPort tdmSlotWidth h₁
        have hfree₁ : ∀ x ∈ inputs, isStartOfSlot tdmSlotWidth x.cycle = true → bus₁.reqBusNextFreeCycle ≤ x.cycle :=
          fun x hx hxs => by
            rw [hnext, ← getNextSlotStartCycle_of_start _ hs']
            exact hlater x hx hxs
        have hlen : (input :: inputs).filter (isStartOfSlot tdmSlotWidth ·.cycle) =
            input :: inputs.filter (isStartOfSlot tdmSlotWidth ·.cycle) := List.filter_cons_of_pos hs
        rcases hji with rfl | hcloser
        · obtain ⟨rest, bus', h₂⟩ := runTDM_ok numInPort tdmSlotWidth hw hroom' bus₁
          exact ⟨_, bus', runTDM_cons_of_eq_ok numInPort tdmSlotWidth h₁ h₂, by simp⟩
        · rw [hlen, List.length_cons] at hcount
          have howner₁' : bus₁.requestBusOwner < numInPort := howner₁ ▸ Nat.mod_lt _ (by omega)
          obtain ⟨rest, bus', h₂, hmem⟩ := ih hcycles'.2 hroom' hready' howner₁' hfree₁ (by omega)
          exact ⟨_, bus', runTDM_cons_of_eq_ok numInPort tdmSlotWidth h₁ h₂,
            by simp only [List.map_append, List.mem_append]; exact .inr hmem⟩
      · -- off a slot start nothing is granted and the owner stays
        have hs' : input.cycle % tdmSlotWidth ≠ 0 := by simpa [isStartOfSlot] using hs
        obtain ⟨grant, bus₁, h₁⟩ := operateTDMRequestBus_ok numInPort tdmSlotWidth hw bus (hroom input (.head _))
        obtain ⟨rfl, howner₁, hnext⟩ := operateTDMRequestBus_of_not_start numInPort tdmSlotWidth hs' h₁
        have hfree₁ : ∀ x ∈ inputs, isStartOfSlot tdmSlotWidth x.cycle = true → bus₁.reqBusNextFreeCycle ≤ x.cycle :=
          fun x hx hxs => by
            rcases hnext with hnext | hnext
            · rw [hnext]; exact hfree x (.tail _ hx) hxs
            · rw [hnext]; exact hlater x hx hxs
        have hlen : (input :: inputs).filter (isStartOfSlot tdmSlotWidth ·.cycle) =
            inputs.filter (isStartOfSlot tdmSlotWidth ·.cycle) := List.filter_cons_of_neg hs
        rw [hlen] at hcount
        obtain ⟨rest, bus', h₂, hmem⟩ := ih hcycles'.2 hroom' hready' (howner₁ ▸ howner) hfree₁ (howner₁ ▸ hcount)
        exact ⟨_, bus', runTDM_cons_of_eq_ok numInPort tdmSlotWidth h₁ h₂, by simpa using hmem⟩

theorem tdmRequestBus_round_robin (hw : 0 < tdmSlotWidth) :
    (∀ (bus bus' : TdmBus) (inputs : List TdmInput) (grants : List (Nat × Nat)),
      runTDM numInPort tdmSlotWidth bus inputs = .ok (grants, bus') →
        (∀ g ∈ grants, g.1 % tdmSlotWidth = 0) ∧ grants.Pairwise (fun a b => a.1 + tdmSlotWidth ≤ b.1)) ∧
    (∀ (bus bus' : TdmBus) (input : TdmInput) (j : Nat), bus.requestBusOwner < numInPort →
      operateTDMRequestBus numInPort tdmSlotWidth bus input = .ok (some j, bus') →
        j < numInPort ∧ input.ready j = true ∧
        (∀ q < numInPort, cyclicDist numInPort bus.requestBusOwner q < cyclicDist numInPort bus.requestBusOwner j →
          input.ready q = false) ∧
        bus'.requestBusOwner = (j + 1) % numInPort) ∧
    (∀ (bus bus' : TdmBus) (input : TdmInput) (i j : Nat), i < numInPort → bus.requestBusOwner < numInPort →
      input.ready i = true → operateTDMRequestBus numInPort tdmSlotWidth bus input = .ok (some j, bus') → j ≠ i →
        cyclicDist numInPort bus'.requestBusOwner i < cyclicDist numInPort bus.requestBusOwner i) ∧
    (∀ (i : Nat) (bus : TdmBus) (inputs : List TdmInput), i < numInPort → bus.requestBusOwner < numInPort →
      inputs.Pairwise (fun a b => a.cycle < b.cycle) → (∀ x ∈ inputs, x.room = true) →
      (∀ x ∈ inputs, isStartOfSlot tdmSlotWidth x.cycle = true →
        bus.reqBusNextFreeCycle ≤ x.cycle ∧ x.ready i = true) →
      numInPort ≤ (inputs.filter (isStartOfSlot tdmSlotWidth ·.cycle)).length →
        ∃ grants bus', runTDM numInPort tdmSlotWidth bus inputs = .ok (grants, bus') ∧
          i ∈ grants.map Prod.snd) := by
  refine ⟨fun bus bus' inputs grants h => ?_, fun bus bus' input j howner h => ?_,
    fun bus bus' input i j hi howner hr h hne => ?_, fun i bus inputs hi howner hcycles hroom hslots hcount => ?_⟩
  · obtain ⟨hat, hpair⟩ := runTDM_grants numInPort tdmSlotWidth h
    exact ⟨fun g hg => (hat g hg).2, hpair⟩
  · obtain ⟨-, -, hj, howner', -⟩ := grant_of_eq_ok numInPort tdmSlotWidth h
    obtain ⟨hj', hrj, -, hbefore⟩ := search_spec howner hj
    exact ⟨hj', hrj, hbefore, howner'⟩
  · obtain ⟨-, -, hj, howner', -⟩ := grant_of_eq_ok numInPort tdmSlotWidth h
    rw [howner']
    exact search_next_closer howner hi hr hj hne
  · -- the owner is within `n - 1` ports of `i`
    exact runTDM_serves numInPort tdmSlotWidth hw hi hcycles hroom (fun x hx hs => (hslots x hx hs).2) howner
      (fun x hx hs => (hslots x hx hs).1) (by have := cyclicDist_lt howner hi; omega)

/-- Two ports, each always ready, slots of two cycles: port `0` is served at cycle `0`
and port `1` at the next slot start. -/
theorem tdmRequestBus_serves_second_port :
    0 < 2 ∧ ∃ grants bus', runTDM 2 2 TdmBus.init [⟨0, fun _ => true, true⟩, ⟨1, fun _ => true, true⟩,
        ⟨2, fun _ => true, true⟩] = .ok (grants, bus') ∧ 1 ∈ grants.map Prod.snd :=
  ⟨by decide, (tdmRequestBus_round_robin 2 2 (by decide)).2.2.2 1 TdmBus.init _ (by decide) (by decide)
    (by decide) (by decide) (by decide) (by decide)⟩

end Ruby

end ParRP
