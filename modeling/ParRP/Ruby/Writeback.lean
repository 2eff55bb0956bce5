import ParRP.Ruby.L2Partition
import ParRP.Ruby.System

/-!
# The memory read deferred onto a dirty victim's writeback

When a request needs a way held by a dirty line, `initiateWriteback` marks the
requested line `writebackTriggered` and records it as the victim's
`dependentMemReadAddr`; `sendMemRead` then sends no read, and the victim's
`completeMemWriteback` sends it when memory acknowledges the writeback. The flag is
cleared only by the line's own `completeMemRead`, that is, by a memory read response
for the line, in every run of the system.

That does not keep the read in step with the line's state: two writebacks in flight
can be acknowledged in either order, and the read a second victim sends for a line
whose own writeback is still pending returns while the line is in `MemWritePending`,
where the table has no transition.
-/

namespace ParRP

namespace Ruby

open Policy

namespace L2Cache

variable {σ : Type} {P : SetPolicy σ} {llcUseParRp : Bool} {now address : Nat}
  {l2 l2' : L2Cache σ}

@[simp] theorem directory_wakeup (l2 : L2Cache σ) (a : Nat) : (l2.wakeup a).directory = l2.directory :=
  rfl

@[simp] theorem writebackTriggered_setDir {f : DirEntry → DirEntry}
    (hf : ∀ d, (f d).writebackTriggered = d.writebackTriggered) (a b : Nat) :
    ((l2.setDir a f).directory b).writebackTriggered = (l2.directory b).writebackTriggered := by
  by_cases hba : b = a
  · subst hba
    simp [hf]
  · simp [directory_setDir_of_ne _ hba]

/-- Only `completeMemRead` clears `writebackTriggered`, and only on the line of its
transition. -/
theorem doAction_writebackTriggered {a : L2Action} {b : Nat}
    (h : doAction P llcUseParRp now address l2 a = .ok l2')
    (hb : (l2.directory b).writebackTriggered = true)
    (hb' : (l2'.directory b).writebackTriggered = false) :
    a = .completeMemRead ∧ b = address := by
  -- every other action leaves the flag of `b`, which contradicts `hb` and `hb'`
  suffices hkeep : a ≠ .completeMemRead →
      (l2.directory b).writebackTriggered = true → (l2'.directory b).writebackTriggered = true by
    by_cases ha : a = .completeMemRead
    · subst ha
      refine ⟨rfl, ?_⟩
      by_contra hba
      cases llcUseParRp <;>
      · simp only [doAction, except_assert_eq_ok, except_bind_eq_ok, Bool.false_eq_true,
          if_false, if_true] at h
        obtain ⟨-, c, -, m, -, h⟩ := h
        rw [except_pure_eq_ok] at h
        subst h
        simp [directory_setDir_of_ne _ hba, hb] at hb'
    · simp [hkeep ha hb] at hb'
  intro ha hb
  cases a with
  | markCacheEntryAsBusy | markCacheEntryAsFree =>
      obtain ⟨c, -, h⟩ := except_bind_eq_ok.mp h
      rw [except_pure_eq_ok] at h
      subst h
      exact hb
  | markCacheEntryAsBusyIfInNormalMode =>
      simp only [doAction] at h
      split at h
      · obtain ⟨c, -, h⟩ := except_bind_eq_ok.mp h
        rw [except_pure_eq_ok] at h
        subst h
        exact hb
      · rw [except_pure_eq_ok] at h
        subst h
        exact hb
  | initiatePutRequest | forwardL1Writeback | stallAndWaitRequestQueue =>
      obtain ⟨m, -, h⟩ := except_bind_eq_ok.mp h
      rw [except_pure_eq_ok] at h
      subst h
      simpa using hb
  | completeL1Writeback =>
      obtain ⟨m, -, h⟩ := except_bind_eq_ok.mp h
      rw [except_pure_eq_ok] at h
      subst h
      simpa using hb
  | initiateWriteback =>
      -- the one action that writes the flag sets it, on the requested line
      simp only [doAction, except_assert_eq_ok, except_bind_eq_ok] at h
      obtain ⟨m, -, -, -, h⟩ := h
      rw [except_pure_eq_ok] at h
      subst h
      by_cases hbm : b = m.addr
      · subst hbm
        simp
      · simp [directory_setDir_of_ne _ hbm, hb]
  | performParReplacement =>
      simp only [doAction, except_assert_eq_ok, except_bind_eq_ok] at h
      obtain ⟨m, -, -, -, c, -, h⟩ := h
      rw [except_pure_eq_ok] at h
      subst h
      exact hb
  | setDirty | unsetDirty =>
      simp only [doAction, except_assert_eq_ok] at h
      obtain ⟨-, h⟩ := h
      rw [except_pure_eq_ok] at h
      subst h
      simpa using hb
  | setOwner =>
      simp only [doAction, except_assert_eq_ok, except_bind_eq_ok] at h
      obtain ⟨-, m, -, h⟩ := h
      rw [except_pure_eq_ok] at h
      subst h
      simpa using hb
  | deallocateCacheEntry =>
      simp only [doAction, except_assert_eq_ok] at h
      obtain ⟨-, h⟩ := h
      split at h
      · obtain ⟨c, -, h⟩ := except_bind_eq_ok.mp h
        rw [except_pure_eq_ok] at h
        subst h
        exact hb
      · rw [except_pure_eq_ok] at h
        subst h
        exact hb
  | sendInv =>
      simp only [doAction, except_assert_eq_ok, except_bind_eq_ok] at h
      obtain ⟨-, m, -, h⟩ := h
      rw [except_pure_eq_ok] at h
      subst h
      exact hb
  | sendMemRead =>
      simp only [doAction, except_assert_eq_ok, except_bind_eq_ok] at h
      obtain ⟨m, -, -, h⟩ := h
      split at h <;>
      · rw [except_pure_eq_ok] at h
        subst h
        simpa using hb
  | completeMemWriteback =>
      simp only [doAction, except_assert_eq_ok] at h
      obtain ⟨-, h⟩ := h
      rw [except_pure_eq_ok] at h
      subst h
      simpa using hb
  | sendAckIfPutPending =>
      simp only [doAction, except_bind_eq_ok] at h
      obtain ⟨m, -, h⟩ := h
      split at h <;>
      · rw [except_pure_eq_ok] at h
        subst h
        simpa using hb
  | sendMemWrite =>
      simp only [doAction, except_assert_eq_ok] at h
      obtain ⟨-, -, h⟩ := h
      rw [except_pure_eq_ok] at h
      subst h
      exact hb
  | sendData =>
      cases llcUseParRp
      · simp only [doAction, except_assert_eq_ok, except_bind_eq_ok, Bool.false_eq_true,
          if_false] at h
        obtain ⟨-, m, -, hit, -, c, -, h⟩ := h
        rw [except_pure_eq_ok] at h
        subst h
        exact hb
      · simp only [doAction, except_assert_eq_ok, except_bind_eq_ok, if_true] at h
        obtain ⟨-, m, -, hit, -, h⟩ := h
        split at h
        · obtain ⟨c, -, h⟩ := except_bind_eq_ok.mp h
          rw [except_pure_eq_ok] at h
          subst h
          exact hb
        · rw [except_pure_eq_ok] at h
          subst h
          exact hb
  | completeMemRead => exact absurd rfl ha
  | popMemResponseQueue | popResponseQueue | popRequestQueue =>
      rw [doAction, except_pure_eq_ok] at h
      subst h
      exact hb

theorem foldlM_writebackTriggered {as : List L2Action} {b : Nat} :
    ∀ {l2 l2' : L2Cache σ}, as.foldlM (doAction P llcUseParRp now address) l2 = .ok l2' →
      (l2.directory b).writebackTriggered = true → (l2'.directory b).writebackTriggered = false →
      L2Action.completeMemRead ∈ as ∧ b = address := by
  induction as with
  | nil =>
      intro l2 l2' h hb hb'
      rw [List.foldlM_nil, except_pure_eq_ok] at h
      subst h
      simp [hb] at hb'
  | cons a as ih =>
      intro l2 l2' h hb hb'
      rw [List.foldlM_cons] at h
      obtain ⟨l1, h1, h2⟩ := except_bind_eq_ok.mp h
      -- the flag is cleared either by the first action or by the rest
      cases hl1 : (l1.directory b).writebackTriggered with
      | false =>
          obtain ⟨rfl, hba⟩ := doAction_writebackTriggered h1 hb hl1
          exact ⟨List.mem_cons_self, hba⟩
      | true =>
          obtain ⟨hmem, hba⟩ := ih h2 hl1 hb'
          exact ⟨List.mem_cons_of_mem _ hmem, hba⟩

/-- Only the transitions of `Mem_Response` complete a memory read. -/
theorem l2Transition_completeMemRead (s : L2State) (e : L2Event) :
    ((l2Transition s e).all fun x => !(x.2.contains .completeMemRead) || e == .Mem_Response) = true := by
  cases s <;> cases e <;> rfl

theorem doTransition_writebackTriggered {e : L2Event} {b : Nat}
    (h : doTransition P llcUseParRp now e address l2 = .ok l2')
    (hb : (l2.directory b).writebackTriggered = true)
    (hb' : (l2'.directory b).writebackTriggered = false) :
    e = .Mem_Response ∧ b = address := by
  obtain ⟨next, as, l1, htab, hfold, rfl⟩ := doTransition_eq_ok h
  obtain ⟨hmem, hba⟩ := foldlM_writebackTriggered hfold hb (by simpa using hb')
  have htable := l2Transition_completeMemRead (l2.directory address).state e
  rw [htab, Option.all_some] at htable
  simp only [Bool.or_eq_true, Bool.not_eq_eq_eq_not, Bool.not_true,
    beq_iff_eq] at htable
  exact ⟨htable.resolve_left (by simpa using hmem), hba⟩

theorem allocateIfAbsent_directory {alloc : CacheSet Unit σ → Nat → Except String (CacheSet Unit σ)}
    {a : Nat} (h : allocateIfAbsent alloc a l2 = .ok l2') : l2'.directory = l2.directory := by
  unfold allocateIfAbsent at h
  split at h
  · rw [except_pure_eq_ok] at h
    subst h
    rfl
  · simp only [except_bind_eq_ok, except_assert_eq_ok] at h
    obtain ⟨c, -, -, c', -, h⟩ := h
    rw [except_pure_eq_ok] at h
    subst h
    rfl

theorem getRequestInPort_writebackTriggered {m : RequestMsg} {b : Nat}
    (h : getRequestInPort P llcUseParRp now m l2 = .ok l2')
    (hb : (l2.directory b).writebackTriggered = true) :
    (l2'.directory b).writebackTriggered = true := by
  -- every branch ends in a request or replacement event, never in `Mem_Response`
  have hev : ∀ {e a l₁}, e ≠ .Mem_Response → l₁.directory = l2.directory →
      doTransition P llcUseParRp now e a l₁ = .ok l2' → (l2'.directory b).writebackTriggered = true := by
    intro e a l₁ he hdir ht
    by_contra hb'
    exact he (doTransition_writebackTriggered ht (hdir ▸ hb) (by simpa using hb')).1
  have hget : ∀ t : CoherenceRequestType, getEvent t ≠ .Mem_Response := by
    intro t
    cases t <;> simp [getEvent]
  cases llcUseParRp
  · simp only [getRequestInPort, Bool.false_eq_true, if_false] at h
    split at h
    · obtain ⟨v, -, h⟩ := except_bind_eq_ok.mp h
      exact hev (by simp) rfl h
    · obtain ⟨l1, h1, h2⟩ := except_bind_eq_ok.mp h
      exact hev (hget _) (allocateIfAbsent_directory h1) h2
  · simp only [getRequestInPort, if_true] at h
    obtain ⟨c, -, h⟩ := except_bind_eq_ok.mp h
    split at h
    · simp only [except_bind_eq_ok, except_assert_eq_ok] at h
      obtain ⟨v, -, -, h⟩ := h
      split at h <;> exact hev (by simp) rfl h
    · split at h
      · obtain ⟨v, -, h⟩ := except_bind_eq_ok.mp h
        exact hev (by simp) rfl h
      · obtain ⟨l1, h1, h2⟩ := except_bind_eq_ok.mp h
        exact hev (hget _) (allocateIfAbsent_directory h1) h2

/-- A controller step clears `writebackTriggered` on line `b` only when it handles a
memory read response for `b`. -/
theorem step_writebackTriggered {port : Port} {b : Nat}
    (h : step P llcUseParRp now l2 port = some (.ok l2'))
    (hb : (l2.directory b).writebackTriggered = true)
    (hb' : (l2'.directory b).writebackTriggered = false) :
    port = .responseFromDir ∧ l2.responseFromDir.head?.any fun m => m.type = .MEMORY_READ ∧ m.addr = b := by
  cases port with
  | responseFromDir =>
      simp only [L2Cache.step] at h
      split at h
      · cases h
      · obtain ⟨m, hm, h⟩ := except_bind_eq_ok.mp (Option.some.inj h)
        rw [peek_eq_ok] at hm
        split at h
        · next hread =>
          rw [except_assert_eq_ok] at h
          obtain ⟨-, hba⟩ := doTransition_writebackTriggered h.2 hb hb'
          simp [hm, hread, hba]
        · cases (doTransition_writebackTriggered h hb hb').1
  | response =>
      simp only [L2Cache.step] at h
      split at h
      · cases h
      · obtain ⟨m, -, h⟩ := except_bind_eq_ok.mp (Option.some.inj h)
        rw [except_assert_eq_ok] at h
        cases (doTransition_writebackTriggered h.2 hb hb').1
  | request =>
      simp only [L2Cache.step] at h
      split at h
      · cases h
      · obtain ⟨m, -, h⟩ := except_bind_eq_ok.mp (Option.some.inj h)
        split at h
        · simp [getRequestInPort_writebackTriggered h hb] at hb'
        · simp [getRequestInPort_writebackTriggered h hb] at hb'
        · cases (doTransition_writebackTriggered h hb hb').1
        · cases (doTransition_writebackTriggered h hb hb').1
        · exact absurd h except_throw_ne_ok

end L2Cache

namespace System

variable {σ : Type} {P : SetPolicy σ} {llcUseParRp : Bool} {numberOfTBEs : Nat}

/-- In every run, a line's `writebackTriggered` is cleared only in the step in which
the LLC handles a memory read response for that line. -/
theorem next_writebackTriggered {s s' : System σ} {e : SysStep} {b : Nat}
    (h : next P llcUseParRp numberOfTBEs s e = some (.ok s'))
    (hb : (s.l2.directory b).writebackTriggered = true)
    (hb' : (s'.l2.directory b).writebackTriggered = false) :
    e = .l2 .responseFromDir ∧
      s.l2.responseFromDir.head?.any fun m => m.type = .MEMORY_READ ∧ m.addr = b := by
  obtain ⟨s₁, hstep, rfl⟩ := next_eq_ok.mp h
  rcases l2_step hstep with ⟨-, hdir⟩ | ⟨port, l2', rfl, hl2, -, hdir⟩
  · simp [show s₁.l2.directory = s.l2.directory from hdir, hb] at hb'
  · obtain ⟨rfl, hhead⟩ := L2Cache.step_writebackTriggered hl2 hb (hdir ▸ hb')
    exact ⟨rfl, hhead⟩

/-- Two cores, a two-way LLC in normal mode, and L1s of four ways. -/
def twoWayNormalSystem : System (List Nat) :=
  init 2 4 (CacheSet.empty 2 (baseSetInit lru 2))

/-- Core 0 stores to lines 1 and 2, which the LLC then holds in `M`. Core 0 loads
line 3: the LLC replaces line 1, whose writeback defers the read of line 3. Core 1
loads line 1: the LLC replaces line 2, whose writeback now defers the read of line 1,
and line 1 is allocated and waits in `MemWritePending`. Memory acknowledges the
writeback of line 2 first, and the read of line 1 it triggers returns. -/
def twoWritebacksSteps : List SysStep :=
  [.issue 0 { lineAddress := 1, type := .ST }, .l1 0 .mandatory, .busGrant 0, .l1 0 .busGrant,
    .l1 0 .request, .l2 .request, .memory 0, .l2 .responseFromDir, .l1 0 .response, .l1 0 .trigger] ++
  [.issue 0 { lineAddress := 2, type := .ST }, .l1 0 .mandatory, .busGrant 0, .l1 0 .busGrant,
    .l1 0 .request, .l2 .request, .memory 0, .l2 .responseFromDir, .l1 0 .response, .l1 0 .trigger] ++
  [.issue 0 { lineAddress := 3, type := .LD }, .l1 0 .mandatory, .busGrant 0, .l1 0 .busGrant,
    .l2 .request, .l1 0 .backInv, .l2 .response, .l2 .request] ++
  [.issue 1 { lineAddress := 1, type := .LD }, .l1 1 .mandatory, .busGrant 1, .l1 1 .busGrant,
    .l2 .request, .l1 0 .backInv, .l2 .response, .l2 .request,
    .memory 1, .l2 .responseFromDir, .memory 1]

/-- A memory read response for a line can reach the LLC while the line waits for its
own writeback in `MemWritePending`, which has no transition for `Mem_Response`. -/
theorem memResponse_meets_memWritePending :
    ∃ s, Reachable (baseSet lru) false 1 twoWayNormalSystem s ∧
      (s.l2.responseFromDir.head?.any fun m =>
        m.type = .MEMORY_READ ∧ (s.l2.directory m.addr).state = .MemWritePending) ∧
      errorOf (next (baseSet lru) false 1 s (.l2 .responseFromDir)) = some "Invalid transition" :=
  exists_reachable_of_run twoWritebacksSteps (by decide +kernel)

end System

end Ruby

end ParRP
