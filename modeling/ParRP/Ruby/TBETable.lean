import ParRP.Ruby.Coherence

/-!
# The L1's TBE table over whole runs

`TBETable` asserts in `isPresent` that it holds at most `m_number_of_TBEs` TBEs, and in
`allocate` that the line has no TBE yet and that a slot is free. The L1 model does not
repeat these assertions: the protocol keeps them. A transition that allocates a TBE
stalls while the table is full (`check_allocate`), `allocateTBE` asserts that the line
has no TBE, only `finalizeTransaction` removes one, and only an L1's own steps touch its
table. So in every state the system reaches, each L1 holds at most `m_number_of_TBEs`
TBEs, at most one for each line (`tbes_bounded_of_reachable`).
-/

open scoped List

namespace ParRP

namespace Ruby

open Policy

namespace L1Cache

variable {llcUseParRp : Bool} {numberOfTBEs now address : Nat} {l1 l1' : L1Cache}

/-- The lines that have a TBE, in the order the TBEs were allocated. -/
def tbeLines (l1 : L1Cache) : List Nat := l1.tbes.map (·.1)

/-- The table as `TBETable` keeps it: at most `numberOfTBEs` TBEs, one for each line. -/
structure TBEsWf (numberOfTBEs : Nat) (l1 : L1Cache) : Prop where
  length_le : l1.tbes.length ≤ numberOfTBEs
  nodup : l1.tbeLines.Nodup

theorem TBEsWf.of_tbes_eq {c : L1Cache} (hc : c.TBEsWf numberOfTBEs) (h : l1'.tbes = c.tbes) :
    l1'.TBEsWf numberOfTBEs :=
  ⟨h ▸ hc.length_le, by simpa only [tbeLines, h] using hc.nodup⟩

theorem tbeLines_sublist_of_tbes_eq (h : l1'.tbes = l1.tbes) : l1'.tbeLines <+ l1.tbeLines := by
  simp only [tbeLines, h]
  exact .refl _

theorem not_mem_tbeLines_of_tbeOf {a : Nat} (h : (l1.tbeOf a).isNone = true) : a ∉ l1.tbeLines := by
  simp only [tbeOf, Option.isNone_iff_eq_none, List.lookup_eq_none_iff, bne_iff_ne, ne_eq] at h
  intro hmem
  obtain ⟨⟨k, t⟩, hk, rfl⟩ := List.mem_map.mp hmem
  exact h _ hk rfl

@[simp] theorem setEntry_tbes (a : Nat) (f : L1Entry → L1Entry) : (l1.setEntry a f).tbes = l1.tbes := rfl

@[simp] theorem tbeLines_setEntry (a : Nat) (f : L1Entry → L1Entry) :
    (l1.setEntry a f).tbeLines = l1.tbeLines := rfl

@[simp] theorem tbeLines_setTBE (a : Nat) (f : TBE → TBE) : (l1.setTBE a f).tbeLines = l1.tbeLines := by
  simp only [tbeLines, setTBE, List.map_map]
  apply List.map_congr_left
  intro bt _
  simp only [Function.comp_apply]
  split <;> rfl

@[simp] theorem tbeLines_setState (a : Nat) (s : L1State) : (l1.setState a s).tbeLines = l1.tbeLines := by
  simp only [setState, tbeLines_setEntry, tbeLines_setTBE]

/-! ## The helpers of the actions keep the table -/

theorem touch_tbes {a : Nat} (h : l1.touch now a = .ok l1') : l1'.tbes = l1.tbes := by
  obtain ⟨c, -, h⟩ := except_bind_eq_ok.mp h
  cases h
  rfl

theorem deallocateEntry_tbes {a : Nat} (h : l1.deallocateEntry a = .ok l1') : l1'.tbes = l1.tbes := by
  simp only [deallocateEntry] at h
  split at h
  · obtain ⟨c, -, h⟩ := except_bind_eq_ok.mp h
    cases h
    rfl
  · cases h
    rfl

theorem sendGet_tbes {type : CoherenceRequestType} (h : sendGet type now address l1 = .ok l1') :
    l1'.tbes = l1.tbes := by
  simp only [sendGet, except_bind_eq_ok, except_pure_eq_ok] at h
  obtain ⟨-, -, -, -, rfl⟩ := h
  rfl

theorem sendWriteback_tbes {queue : List RequestMsg} (h : sendWriteback queue address l1 = .ok l1') :
    l1'.tbes = l1.tbes := by
  simp only [sendWriteback, except_bind_eq_ok, except_assert_eq_ok, except_pure_eq_ok] at h
  obtain ⟨-, -, -, -, -, rfl⟩ := h
  rfl

theorem storeHitWith_tbes (h : storeHitWith now address l1 = .ok l1') : l1'.tbes = l1.tbes := by
  simp only [storeHitWith, except_bind_eq_ok, except_pure_eq_ok] at h
  obtain ⟨-, -, l2, h2, sq, -, rfl⟩ := h
  have hl2 := touch_tbes h2
  exact hl2

/-- `finalizeTransaction` removes the line's TBE and keeps the others. -/
theorem finalizeTransaction_tbes (h : finalizeTransaction llcUseParRp address l1 = .ok l1') :
    l1'.tbes = l1.tbes.filter (·.1 ≠ address) := by
  simp only [finalizeTransaction, except_bind_eq_ok] at h
  obtain ⟨tbe, -, h⟩ := h
  split at h
  · simp only [except_bind_eq_ok, except_pure_eq_ok] at h
    obtain ⟨l2, h2, -, rfl, rfl⟩ := h
    rw [← deallocateEntry_tbes h2]
    rfl
  · obtain ⟨e, -, h⟩ := except_bind_eq_ok.mp h
    split_ifs at h <;> simp only [except_bind_eq_ok, except_pure_eq_ok] at h
    -- each branch deallocates the entry or resets it, and neither touches the table
    all_goals
      obtain ⟨l2, h2, rfl⟩ := h
      first
        | have hl2 := deallocateEntry_tbes h2
          exact congrArg (List.filter _) hl2
        | subst h2
          rfl

/-! ## Actions and transitions -/

/-- What an action does to the table: `allocateTBE` adds a TBE for a line that has
none, and every other action keeps some of the TBEs. -/
theorem doAction_tbeLines {a : L1Action} (h : doAction llcUseParRp now address l1 a = .ok l1') :
    (a = .allocateTBE ∧ address ∉ l1.tbeLines ∧ l1'.tbeLines = l1.tbeLines ++ [address]) ∨
      (a ≠ .allocateTBE ∧ l1'.tbeLines <+ l1.tbeLines) := by
  cases a with
  | allocateTBE =>
      simp only [doAction, except_assert_eq_ok, except_pure_eq_ok] at h
      obtain ⟨hnone, rfl⟩ := h
      exact .inl ⟨rfl, not_mem_tbeLines_of_tbeOf hnone, by simp [tbeLines]⟩
  | finalizeTransaction =>
      refine .inr ⟨by decide, ?_⟩
      simp only [tbeLines, finalizeTransaction_tbes h]
      exact List.filter_sublist.map _
  | initiateReplacement =>
      simp only [doAction, except_bind_eq_ok, except_pure_eq_ok] at h
      obtain ⟨t, -, m, -, rfl⟩ := h
      exact .inr ⟨by decide, by rw [tbeLines_setTBE]; exact .refl _⟩
  | initiateGetS | initiateGetM | initiateGetMLocked | setToI | setIsBI =>
      simp only [doAction, except_bind_eq_ok, except_pure_eq_ok] at h
      obtain ⟨t, -, rfl⟩ := h
      exact .inr ⟨by decide, by rw [tbeLines_setTBE]⟩
  | setWriteback =>
      simp only [doAction, except_bind_eq_ok] at h
      obtain ⟨t, -, h⟩ := h
      refine .inr ⟨by decide, ?_⟩
      split at h
      · obtain ⟨m, -, h⟩ := except_bind_eq_ok.mp h
        rw [except_pure_eq_ok] at h
        rw [← h, tbeLines_setTBE]
      · rw [except_pure_eq_ok] at h
        rw [← h]
  | invalidateCacheEntry =>
      simp only [doAction] at h
      refine .inr ⟨by decide, tbeLines_sublist_of_tbes_eq ?_⟩
      split at h
      · exact (deallocateEntry_tbes h).trans rfl
      · cases h
        rfl
  | deallocateCacheEntry =>
      simp only [doAction, except_assert_eq_ok] at h
      exact .inr ⟨by decide, tbeLines_sublist_of_tbes_eq (deallocateEntry_tbes h.2)⟩
  | sendGetS | sendGetM =>
      exact .inr ⟨by decide, tbeLines_sublist_of_tbes_eq (sendGet_tbes h)⟩
  | sendDataResponse | sendBIResponse =>
      exact .inr ⟨by decide, tbeLines_sublist_of_tbes_eq (sendWriteback_tbes h)⟩
  | storeHit | upgStoreHit =>
      exact .inr ⟨by decide, tbeLines_sublist_of_tbes_eq (storeHitWith_tbes h)⟩
  | externalStoreHit =>
      obtain ⟨-, -, h⟩ := except_bind_eq_ok.mp h
      exact .inr ⟨by decide, tbeLines_sublist_of_tbes_eq (storeHitWith_tbes h)⟩
  | _ =>
      -- the rest only read the line and the queues, and write fields other than `tbes`
      refine .inr ⟨by decide, tbeLines_sublist_of_tbes_eq ?_⟩
      simp only [doAction, except_bind_eq_ok, except_assert_eq_ok, except_pure_eq_ok] at h
      grind [touch_tbes, setEntry_tbes]

/-- The actions of a transition, in turn: the table keeps one TBE per line, and gains
at most the line's own, and only when the actions allocate it. -/
theorem foldlM_tbeLines {acts : List L1Action}
    (h : acts.foldlM (doAction llcUseParRp now address) l1 = .ok l1') (hnd : l1.tbeLines.Nodup) :
    l1'.tbeLines.Nodup ∧ ∀ k ∈ l1'.tbeLines, k ∈ l1.tbeLines ∨ (.allocateTBE ∈ acts ∧ k = address) := by
  induction acts generalizing l1 with
  | nil =>
      cases h
      exact ⟨hnd, fun k hk => .inl hk⟩
  | cons a acts ih =>
      rw [List.foldlM_cons] at h
      obtain ⟨l2, h2, h⟩ := except_bind_eq_ok.mp h
      -- the first action keeps one TBE per line and adds at most the line's own
      have hstep : l2.tbeLines.Nodup ∧ ∀ k ∈ l2.tbeLines, k ∈ l1.tbeLines ∨ (a = .allocateTBE ∧ k = address) := by
        rcases doAction_tbeLines h2 with ⟨ha, hfresh, hlines⟩ | ⟨-, hsub⟩
        · rw [hlines]
          refine ⟨List.nodup_append.mpr ⟨hnd, List.nodup_singleton _, ?_⟩, fun k hk => ?_⟩
          · intro x hx y hy
            rw [List.mem_singleton.mp hy]
            exact fun hxy => hfresh (hxy ▸ hx)
          · rcases List.mem_append.mp hk with hk | hk
            · exact .inl hk
            · exact .inr ⟨ha, List.mem_singleton.mp hk⟩
        · exact ⟨hsub.nodup hnd, fun k hk => .inl (hsub.subset hk)⟩
      obtain ⟨hnd', hmem⟩ := ih h hstep.1
      refine ⟨hnd', fun k hk => ?_⟩
      rcases hmem k hk with hk | ⟨hacts, rfl⟩
      · rcases hstep.2 k hk with hk | ⟨rfl, rfl⟩
        · exact .inl hk
        · exact .inr ⟨.head _, rfl⟩
      · exact .inr ⟨.tail _ hacts, rfl⟩

/-- `doTransition` stalls a transition that allocates while the table is full, and
otherwise runs the transition's actions and sets the next state. -/
theorem doTransition_eq_ok {event : L1Event}
    (h : doTransition llcUseParRp numberOfTBEs now event address l1 = .ok l1') :
    (l1' = l1 ∧ ∃ target actions, l1Transition (l1.getState address) event = some (target, actions) ∧
        .allocateTBE ∈ actions ∧ numberOfTBEs ≤ l1.tbes.length) ∨
      ∃ target actions next l2, l1Transition (l1.getState address) event = some (target, actions) ∧
        (target = .state next ∨ target = .star ∧ l1.getNextState address = .ok next) ∧
        (.allocateTBE ∈ actions → l1.tbes.length < numberOfTBEs) ∧
        actions.foldlM (doAction llcUseParRp now address) l1 = .ok l2 ∧ l1' = l2.setState address next := by
  unfold L1Cache.doTransition at h
  split at h
  · cases h
  · rename_i target actions htrans
    split at h
    · rename_i hfull
      cases h
      simp only [Bool.and_eq_true, List.contains_iff_mem, Bool.not_eq_eq_eq_not, Bool.not_true,
        decide_eq_false_iff_not, not_lt] at hfull
      exact .inl ⟨rfl, target, actions, htrans, hfull⟩
    · rename_i hroom
      have hfree : .allocateTBE ∈ actions → l1.tbes.length < numberOfTBEs := by
        intro halloc
        simpa [halloc] using hroom
      split at h
      · obtain ⟨next, hnext, h⟩ := except_bind_eq_ok.mp h
        obtain ⟨l2, h2, h⟩ := except_bind_eq_ok.mp h
        exact .inr ⟨_, actions, next, l2, htrans, .inl (by rw [except_pure_eq_ok.mp hnext]), hfree, h2,
          (except_pure_eq_ok.mp h).symm⟩
      · obtain ⟨next, hnext, h⟩ := except_bind_eq_ok.mp h
        obtain ⟨l2, h2, h⟩ := except_bind_eq_ok.mp h
        exact .inr ⟨_, actions, next, l2, htrans, .inr ⟨rfl, hnext⟩, hfree, h2, (except_pure_eq_ok.mp h).symm⟩

/-- A transition keeps the table well formed: one that allocates stalls while the
table is full, and otherwise adds at most one TBE, for a line that had none. -/
theorem TBEsWf.doTransition {event : L1Event} (hwf : l1.TBEsWf numberOfTBEs)
    (h : doTransition llcUseParRp numberOfTBEs now event address l1 = .ok l1') :
    l1'.TBEsWf numberOfTBEs := by
  rcases doTransition_eq_ok h with ⟨rfl, -⟩ | ⟨-, actions, next, l2, -, -, hfree, h2, rfl⟩
  · exact hwf
  obtain ⟨hnd, hmem⟩ := foldlM_tbeLines h2 hwf.nodup
  rw [← tbeLines_setState address next] at hnd hmem
  refine ⟨?_, hnd⟩
  -- the new lines lie among the old ones and, if the actions allocate, the line's own
  by_cases halloc : L1Action.allocateTBE ∈ actions
  · have hsub : (l2.setState address next).tbeLines ⊆ address :: l1.tbeLines := fun k hk => by
      rcases hmem k hk with hk | ⟨-, rfl⟩
      · exact .tail _ hk
      · exact .head _
    have hlen := (List.subperm_of_subset hnd hsub).length_le
    simp only [tbeLines, List.length_map, List.length_cons] at hlen
    have := hfree halloc
    omega
  · have hsub : (l2.setState address next).tbeLines ⊆ l1.tbeLines := fun k hk => by
      rcases hmem k hk with hk | ⟨hin, -⟩
      · exact hk
      · exact absurd hin halloc
    have hlen := (List.subperm_of_subset hnd hsub).length_le
    simp only [tbeLines, List.length_map] at hlen
    exact hlen.trans hwf.length_le

/-- Every in-port hands its line to `doTransition`, on the L1 as it is or, for a miss
of the mandatory queue, with the line allocated in the data cache. -/
theorem step_doTransition {port : Port}
    (h : step llcUseParRp numberOfTBEs now l1 port = some (.ok l1')) :
    ∃ event a l0, doTransition llcUseParRp numberOfTBEs now event a l0 = .ok l1' ∧ l0.tbes = l1.tbes := by
  cases port with
  | trigger =>
      simp only [step] at h
      split at h
      · cases h
      · obtain ⟨a, -, h⟩ := except_bind_eq_ok.mp (Option.some.inj h)
        exact ⟨_, _, _, h, rfl⟩
  | busGrant =>
      simp only [step] at h
      split at h
      · cases h
      · simp only [busGrantInPort, except_bind_eq_ok, except_assert_eq_ok, Option.some.injEq] at h
        obtain ⟨m, -, -, h⟩ := h
        -- the pending request of the line's TBE picks the event
        split at h
        all_goals
          obtain ⟨tbe, -, h⟩ := except_bind_eq_ok.mp h
          split at h
          all_goals
            obtain ⟨event, -, h⟩ := except_bind_eq_ok.mp h
            exact ⟨_, _, _, h, rfl⟩
  | response =>
      simp only [step] at h
      split at h
      · cases h
      · simp only [responseInPort, except_bind_eq_ok, except_assert_eq_ok, Option.some.injEq] at h
        obtain ⟨m, -, -, h⟩ := h
        split at h
        all_goals
          obtain ⟨event, -, h⟩ := except_bind_eq_ok.mp h
          exact ⟨_, _, _, h, rfl⟩
  | request =>
      simp only [step] at h
      split at h
      · cases h
      · simp only [requestInPort, except_bind_eq_ok, Option.some.injEq] at h
        obtain ⟨m, -, h⟩ := h
        split at h
        all_goals
          obtain ⟨event, -, h⟩ := except_bind_eq_ok.mp h
          exact ⟨_, _, _, h, rfl⟩
  | backInv =>
      simp only [step] at h
      split at h
      · cases h
      · simp only [backInvInPort, except_bind_eq_ok, except_assert_eq_ok, Option.some.injEq] at h
        obtain ⟨m, -, -, h⟩ := h
        exact ⟨_, _, _, h, rfl⟩
  | mandatory =>
      simp only [step] at h
      split at h
      · cases h
      · simp only [mandatoryInPort, except_bind_eq_ok, Option.some.injEq] at h
        obtain ⟨m, -, h⟩ := h
        split at h
        · split at h
          · -- a miss with room: the line is allocated in the data cache first
            obtain ⟨cache, -, h⟩ := except_bind_eq_ok.mp h
            rw [except_assert_eq_ok] at h
            exact ⟨_, _, _, h.2, rfl⟩
          · simp only [except_bind_eq_ok, except_assert_eq_ok] at h
            obtain ⟨v, -, -, -, h⟩ := h
            exact ⟨_, _, _, h, rfl⟩
        · exact ⟨_, _, _, h, rfl⟩

theorem TBEsWf.step {port : Port} (hwf : l1.TBEsWf numberOfTBEs)
    (h : step llcUseParRp numberOfTBEs now l1 port = some (.ok l1')) : l1'.TBEsWf numberOfTBEs := by
  obtain ⟨event, a, l0, h, hl0⟩ := step_doTransition h
  exact (hwf.of_tbes_eq hl0).doTransition h

end L1Cache

namespace System

variable {σ : Type} {P : SetPolicy σ} {llcUseParRp : Bool} {numberOfTBEs : Nat}

/-- Every L1 of the system has a well-formed table. -/
def L1TBEsWf (numberOfTBEs : Nat) (s : System σ) : Prop :=
  ∀ (i : Nat) (c : L1Cache), s.l1s[i]? = some c → c.TBEsWf numberOfTBEs

theorem l1TBEsWf_init (numCores l1Assoc numberOfTBEs : Nat) (cacheMemory : CacheSet Unit σ) :
    (init numCores l1Assoc cacheMemory).L1TBEsWf numberOfTBEs := by
  intro i c hc
  simp only [init, List.getElem?_map, Option.map_eq_some_iff] at hc
  obtain ⟨j, -, rfl⟩ := hc
  exact ⟨Nat.zero_le _, List.nodup_nil⟩

/-- One event keeps every table well formed: an L1's own step by `TBEsWf.step`, and
any other event leaves the tables as they were (`l1Core_step`). -/
theorem L1TBEsWf.next {s s' : System σ} {e : SysStep} (hwf : s.L1TBEsWf numberOfTBEs)
    (h : next P llcUseParRp numberOfTBEs s e = some (.ok s')) : s'.L1TBEsWf numberOfTBEs := by
  obtain ⟨s₁, hstep, rfl⟩ := next_eq_ok.mp h
  intro i c₁ hc₁
  by_cases hown : ∃ port, e = .l1 i port
  · obtain ⟨port, rfl⟩ := hown
    simp only [step, Option.bind_eq_bind, Option.bind_eq_some_iff] at hstep
    obtain ⟨c, hc, r, hr, hstep⟩ := hstep
    cases r with
    | error msg => cases hstep
    | ok c' =>
        cases hstep
        obtain ⟨hi, -⟩ := List.getElem?_eq_some_iff.mp hc
        simp only [deliverL1, List.getElem?_map, List.getElem?_set_self hi, Option.map_some,
          Option.some.injEq] at hc₁
        subst hc₁
        have hc' := (hwf i c hc).step hr
        exact hc'.of_tbes_eq rfl
  · have hframe := l1Core_step hstep fun port he => hown ⟨port, he⟩
    rw [hc₁] at hframe
    obtain ⟨c, hc, hcore⟩ := Option.map_eq_some_iff.mp hframe.symm
    exact (hwf i c hc).of_tbes_eq (congrArg Prod.snd hcore).symm

/-- In every state the system reaches from reset, each L1's TBE table holds at most
`m_number_of_TBEs` TBEs and at most one for each line: the assertions of
`TBETable::isPresent` and `TBETable::allocate` on the table's size never fail, and a
line never has two TBEs. -/
theorem tbes_bounded_of_reachable {numCores l1Assoc : Nat} {cacheMemory : CacheSet Unit σ}
    {s : System σ} (h : Reachable P llcUseParRp numberOfTBEs (init numCores l1Assoc cacheMemory) s) :
    ∀ c ∈ s.l1s, c.tbes.length ≤ numberOfTBEs ∧ (c.tbes.map (·.1)).Nodup := by
  have hwf : s.L1TBEsWf numberOfTBEs := by
    induction h with
    | init => exact l1TBEsWf_init numCores l1Assoc numberOfTBEs cacheMemory
    | step _ hnext ih => exact ih.next hnext
  intro c hc
  obtain ⟨i, hi, rfl⟩ := List.mem_iff_getElem.mp hc
  have hwfc := hwf i _ (List.getElem?_eq_getElem hi)
  exact ⟨hwfc.length_le, hwfc.nodup⟩

/-- Core 0's load of line 1 opens a TBE, which fills a table of one TBE. -/
theorem load_fills_tbeTable :
    ∃ s, Reachable (baseSet lru) false 1 twoCoreNormalSystem s ∧
      (s.l1s.head?.any fun c => c.tbes.length = 1) ∧
      ∀ c ∈ s.l1s, c.tbes.length ≤ 1 ∧ (c.tbes.map (·.1)).Nodup := by
  obtain ⟨s, hs, hfull⟩ : ∃ s, Reachable (baseSet lru) false 1 twoCoreNormalSystem s ∧
      (s.l1s.head?.any fun c => c.tbes.length = 1) :=
    exists_reachable_of_run [.issue 0 { lineAddress := 1, type := .LD }, .l1 0 .mandatory] (by decide +kernel)
  exact ⟨s, hs, hfull, tbes_bounded_of_reachable hs⟩

end System

end Ruby

end ParRP
