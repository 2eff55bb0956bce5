import ParRP.Ruby.L2Cache

/-!
# What an L2 step does to the replacement state

Every step of the L2 controller changes its set through a few `CacheMemory`
operations (`CacheSet.Changes`), and every call it makes with a partition names one
partition: the requestor of the request at the head of `requestIn` for a request
event, the requestor of the memory read for `Mem_Response`. The transition table is
ordered so that this holds: a request event calls the policy only while its request
is still at the head of the queue, and a response event calls it only in
`completeMemRead`, its first action. These facts of the table are checked by
evaluation (`l2Transition_ordered`), so the lemmas below do not look at single
transitions.
-/

namespace ParRP

namespace Ruby

open Policy

namespace L2Action

/-- The actions that call the replacement policy with a partition. -/
def callsPar : L2Action → Bool
  | sendData | performParReplacement | completeMemRead => true
  | _ => false

/-- The actions after which another request is at the head of `requestIn`. -/
def movesHead : L2Action → Bool
  | popRequestQueue | stallAndWaitRequestQueue => true
  | _ => false

/-- The actions that wake the requests stalled on the line. -/
def wakes : L2Action → Bool
  | completeMemWriteback | completeL1Writeback | completeMemRead => true
  | _ => false

end L2Action

/-- The actions of a request event: none wakes a stalled request, and none after the
request leaves the head of the queue calls the policy with a partition. -/
def requestOrdered : List L2Action → Bool
  | [] => true
  | a :: as => !a.wakes && if a.movesHead then as.all (!·.callsPar) else requestOrdered as

/-- The actions of `Mem_Response`: only a leading `completeMemRead` calls the policy
with a partition. -/
def responseOrdered : List L2Action → Bool
  | [] => true
  | a :: as => (a == .completeMemRead || !a.callsPar) && as.all (!·.callsPar)

/-- What the actions of an event must satisfy: request events are `requestOrdered`,
`Mem_Response` is `responseOrdered`, and the other responses call the policy with no
partition at all. -/
def eventOrdered : L2Event → List L2Action → Bool
  | .L1_Writeback_Data, as | .Mem_Ack, as => as.all (!·.callsPar)
  | .Mem_Response, as => responseOrdered as
  | _, as => requestOrdered as

/-- The events the request port triggers. -/
def L2Event.isRequest : L2Event → Bool
  | .L1_Writeback_Data | .Mem_Response | .Mem_Ack => false
  | _ => true

theorem l2Transition_ordered (s : L2State) (e : L2Event) :
    ((l2Transition s e).all fun x => eventOrdered e x.2) = true := by
  cases s <;> cases e <;> rfl

namespace L2Cache

variable {σ : Type} {P : SetPolicy σ} {llcUseParRp : Bool} {now address : Nat}
  {l2 l2' : L2Cache σ}

/-- The partition an action names: the requestor at the head of `requestIn`, or for
`completeMemRead` the requestor of the line's memory read. -/
def actionPar (l2 : L2Cache σ) (address : Nat) : L2Action → Nat
  | .sendData | .performParReplacement => (l2.requestIn.head?.map (·.requestor.num)).getD 0
  | .completeMemRead => (l2.directory address).memReadRequestor.num
  | _ => 0

/-- One action changes the set as one `CacheMemory` operation does, with the partition
the action names, and leaves `requestIn` alone unless it pops or wakes. -/
theorem doAction_changes {a : L2Action} {q : Nat}
    (hq : a.callsPar = true → actionPar l2 address a = q)
    (h : doAction P llcUseParRp now address l2 a = .ok l2') :
    CacheSet.Changes P q l2.cacheMemory l2'.cacheMemory ∧
      (a.movesHead = false → a.wakes = false → l2'.requestIn = l2.requestIn) := by
  cases a with
  | markCacheEntryAsBusy =>
      obtain ⟨c, hc, h⟩ := except_bind_eq_ok.mp h
      rw [except_pure_eq_ok] at h
      subst h
      exact ⟨.setBusyFlag hc, fun _ _ => rfl⟩
  | markCacheEntryAsBusyIfInNormalMode =>
      simp only [doAction] at h
      split at h
      · obtain ⟨c, hc, h⟩ := except_bind_eq_ok.mp h
        rw [except_pure_eq_ok] at h
        subst h
        exact ⟨.setBusyFlag hc, fun _ _ => rfl⟩
      · rw [except_pure_eq_ok] at h
        subst h
        exact ⟨.same, fun _ _ => rfl⟩
  | markCacheEntryAsFree =>
      obtain ⟨c, hc, h⟩ := except_bind_eq_ok.mp h
      rw [except_pure_eq_ok] at h
      subst h
      exact ⟨.setBusyFlag hc, fun _ _ => rfl⟩
  | initiatePutRequest =>
      obtain ⟨m, -, h⟩ := except_bind_eq_ok.mp h
      rw [except_pure_eq_ok] at h
      subst h
      exact ⟨.same, fun _ _ => rfl⟩
  | initiateWriteback =>
      simp only [doAction, except_assert_eq_ok, except_bind_eq_ok] at h
      obtain ⟨m, -, -, -, h⟩ := h
      rw [except_pure_eq_ok] at h
      subst h
      exact ⟨.same, fun _ _ => rfl⟩
  | performParReplacement =>
      simp only [doAction, except_assert_eq_ok, except_bind_eq_ok] at h
      obtain ⟨m, hm, -, -, c, hc, h⟩ := h
      rw [except_pure_eq_ok] at h
      subst h
      have hpar : m.requestor.num = q := by
        simpa [actionPar, (peek_eq_ok.mp hm)] using hq rfl
      exact ⟨hpar ▸ .deallocatePar hc, fun _ _ => rfl⟩
  | setDirty | unsetDirty =>
      simp only [doAction, except_assert_eq_ok] at h
      obtain ⟨-, h⟩ := h
      rw [except_pure_eq_ok] at h
      subst h
      exact ⟨.same, fun _ _ => rfl⟩
  | setOwner =>
      simp only [doAction, except_assert_eq_ok, except_bind_eq_ok] at h
      obtain ⟨-, m, -, h⟩ := h
      rw [except_pure_eq_ok] at h
      subst h
      exact ⟨.same, fun _ _ => rfl⟩
  | deallocateCacheEntry =>
      simp only [doAction, except_assert_eq_ok] at h
      obtain ⟨-, h⟩ := h
      split at h
      · obtain ⟨c, hc, h⟩ := except_bind_eq_ok.mp h
        rw [except_pure_eq_ok] at h
        subst h
        exact ⟨.deallocate hc, fun _ _ => rfl⟩
      · rw [except_pure_eq_ok] at h
        subst h
        exact ⟨.same, fun _ _ => rfl⟩
  | sendInv =>
      simp only [doAction, except_assert_eq_ok, except_bind_eq_ok] at h
      obtain ⟨-, m, -, h⟩ := h
      rw [except_pure_eq_ok] at h
      subst h
      exact ⟨.same, fun _ _ => rfl⟩
  | sendMemRead =>
      simp only [doAction, except_assert_eq_ok, except_bind_eq_ok] at h
      obtain ⟨m, -, -, h⟩ := h
      split at h <;>
      · rw [except_pure_eq_ok] at h
        subst h
        exact ⟨.same, fun _ _ => rfl⟩
  | completeMemWriteback =>
      simp only [doAction, except_assert_eq_ok] at h
      obtain ⟨-, h⟩ := h
      rw [except_pure_eq_ok] at h
      subst h
      exact ⟨.same, fun hm hw => by simp [L2Action.movesHead, L2Action.wakes] at hm hw⟩
  | forwardL1Writeback =>
      obtain ⟨m, -, h⟩ := except_bind_eq_ok.mp h
      rw [except_pure_eq_ok] at h
      subst h
      exact ⟨.same, fun _ _ => rfl⟩
  | completeL1Writeback | stallAndWaitRequestQueue =>
      obtain ⟨m, -, h⟩ := except_bind_eq_ok.mp h
      rw [except_pure_eq_ok] at h
      subst h
      exact ⟨.same, fun hm hw => by simp [L2Action.movesHead, L2Action.wakes] at hm hw⟩
  | sendAckIfPutPending =>
      simp only [doAction, except_bind_eq_ok] at h
      obtain ⟨m, -, h⟩ := h
      split at h <;>
      · rw [except_pure_eq_ok] at h
        subst h
        exact ⟨.same, fun _ _ => rfl⟩
  | sendMemWrite =>
      simp only [doAction, except_assert_eq_ok] at h
      obtain ⟨-, -, h⟩ := h
      rw [except_pure_eq_ok] at h
      subst h
      exact ⟨.same, fun _ _ => rfl⟩
  | sendData =>
      -- the partition is read before the mode is split on
      have hpar : ∀ m, peek l2.requestIn = .ok m → m.requestor.num = q := fun m hm => by
        simpa [actionPar, peek_eq_ok.mp hm] using hq rfl
      cases llcUseParRp
      · simp only [doAction, except_assert_eq_ok, except_bind_eq_ok, Bool.false_eq_true,
          if_false] at h
        obtain ⟨-, m, -, hit, -, c, hc, h⟩ := h
        rw [except_pure_eq_ok] at h
        subst h
        exact ⟨.setMRU hc, fun _ _ => rfl⟩
      · simp only [doAction, except_assert_eq_ok, except_bind_eq_ok, if_true] at h
        obtain ⟨-, m, hm, hit, -, h⟩ := h
        split at h
        · obtain ⟨c, hc, h⟩ := except_bind_eq_ok.mp h
          rw [except_pure_eq_ok] at h
          subst h
          exact ⟨hpar m hm ▸ .setMRUPar hc, fun _ _ => rfl⟩
        · rw [except_pure_eq_ok] at h
          subst h
          exact ⟨.same, fun _ _ => rfl⟩
  | completeMemRead =>
      have hpar : (l2.directory address).memReadRequestor.num = q := hq rfl
      cases llcUseParRp
      · simp only [doAction, except_assert_eq_ok, except_bind_eq_ok, Bool.false_eq_true,
          if_false] at h
        obtain ⟨-, c, hc, m, -, h⟩ := h
        rw [except_pure_eq_ok] at h
        subst h
        exact ⟨.setMRU hc, fun hm hw => by simp [L2Action.wakes] at hw⟩
      · simp only [doAction, except_assert_eq_ok, except_bind_eq_ok, if_true] at h
        obtain ⟨-, c, hc, m, -, h⟩ := h
        rw [except_pure_eq_ok] at h
        subst h
        exact ⟨hpar ▸ .setMRUPar hc, fun hm hw => by simp [L2Action.wakes] at hw⟩
  | popMemResponseQueue | popResponseQueue =>
      rw [doAction, except_pure_eq_ok] at h
      subst h
      exact ⟨.same, fun _ _ => rfl⟩
  | popRequestQueue =>
      rw [doAction, except_pure_eq_ok] at h
      subst h
      exact ⟨.same, fun hm _ => by simp [L2Action.movesHead] at hm⟩

/-- Actions none of which names a partition change the set as the calls of any
partition may. -/
theorem foldlM_changes_of_noPar {as : List L2Action} (hall : as.all (!·.callsPar) = true)
    (q : Nat) : ∀ {l2 l2' : L2Cache σ},
      as.foldlM (doAction P llcUseParRp now address) l2 = .ok l2' →
      Relation.ReflTransGen (CacheSet.Changes P q) l2.cacheMemory l2'.cacheMemory := by
  induction as with
  | nil =>
      intro l2 l2' h
      rw [List.foldlM_nil, except_pure_eq_ok] at h
      subst h
      exact .refl
  | cons a as ih =>
      intro l2 l2' h
      simp only [List.all_cons, Bool.and_eq_true, Bool.not_eq_eq_eq_not, Bool.not_true] at hall
      rw [List.foldlM_cons] at h
      obtain ⟨l1, h1, h2⟩ := except_bind_eq_ok.mp h
      have hstep := (doAction_changes (q := q) (fun hc => by simp [hall.1] at hc) h1).1
      exact .head hstep (ih hall.2 h2)

/-- The actions of a request event name the requestor of the request at the head of
`requestIn`: it stays there until the first pop, after which no action names a
partition. -/
theorem foldlM_changes_request {as : List L2Action} (hord : requestOrdered as = true) :
    ∀ {l2 l2' : L2Cache σ} {m : RequestMsg}, l2.requestIn.head? = some m →
      as.foldlM (doAction P llcUseParRp now address) l2 = .ok l2' →
      Relation.ReflTransGen (CacheSet.Changes P m.requestor.num) l2.cacheMemory l2'.cacheMemory := by
  induction as with
  | nil =>
      intro l2 l2' m _ h
      rw [List.foldlM_nil, except_pure_eq_ok] at h
      subst h
      exact .refl
  | cons a as ih =>
      intro l2 l2' m hhead h
      rw [List.foldlM_cons] at h
      obtain ⟨l1, h1, h2⟩ := except_bind_eq_ok.mp h
      simp only [requestOrdered, Bool.and_eq_true, Bool.not_eq_eq_eq_not, Bool.not_true] at hord
      obtain ⟨hwake, hord⟩ := hord
      have hq : a.callsPar = true → actionPar l2 address a = m.requestor.num := by
        intro hc
        cases a <;> simp [L2Action.callsPar, L2Action.wakes, actionPar, hhead] at hc hwake ⊢
      obtain ⟨hstep, hreq⟩ := doAction_changes hq h1
      split at hord
      · exact .head hstep (foldlM_changes_of_noPar hord _ h2)
      · next hmove =>
        have hhead' : l1.requestIn.head? = some m := by
          rw [hreq (by simpa using hmove) hwake]
          exact hhead
        exact .head hstep (ih hord hhead' h2)

/-- The actions of `Mem_Response` name the requestor of the line's memory read. -/
theorem foldlM_changes_response {as : List L2Action} (hord : responseOrdered as = true)
    (h : as.foldlM (doAction P llcUseParRp now address) l2 = .ok l2') :
    Relation.ReflTransGen (CacheSet.Changes P (l2.directory address).memReadRequestor.num)
      l2.cacheMemory l2'.cacheMemory := by
  cases as with
  | nil =>
      rw [List.foldlM_nil, except_pure_eq_ok] at h
      subst h
      exact .refl
  | cons a as =>
      rw [List.foldlM_cons] at h
      obtain ⟨l1, h1, h2⟩ := except_bind_eq_ok.mp h
      simp only [responseOrdered, Bool.and_eq_true, Bool.or_eq_true, beq_iff_eq,
        Bool.not_eq_eq_eq_not, Bool.not_true] at hord
      obtain ⟨hfirst, hrest⟩ := hord
      have hq : a.callsPar = true → actionPar l2 address a = (l2.directory address).memReadRequestor.num := by
        intro hc
        rcases hfirst with rfl | hnc
        · rfl
        · simp [hnc] at hc
      exact .head (doAction_changes hq h1).1 (foldlM_changes_of_noPar hrest _ h2)

theorem doTransition_eq_ok {e : L2Event}
    (h : doTransition P llcUseParRp now e address l2 = .ok l2') :
    ∃ next as l1, l2Transition (l2.directory address).state e = some (next, as) ∧
      as.foldlM (doAction P llcUseParRp now address) l2 = .ok l1 ∧
      l2' = l1.setDir address fun d => { d with state := next } := by
  unfold doTransition at h
  split at h
  · next next as heq =>
    obtain ⟨l1, h1, h2⟩ := except_bind_eq_ok.mp h
    rw [except_pure_eq_ok] at h2
    exact ⟨next, as, l1, heq, h1, h2.symm⟩
  · exact absurd h except_throw_ne_ok

/-- The actions the table gives an event satisfy `eventOrdered`. -/
theorem doTransition_ordered {e : L2Event}
    (h : doTransition P llcUseParRp now e address l2 = .ok l2') :
    ∃ as l1, eventOrdered e as = true ∧
      as.foldlM (doAction P llcUseParRp now address) l2 = .ok l1 ∧
      l2'.cacheMemory = l1.cacheMemory := by
  obtain ⟨next, as, l1, htab, hfold, rfl⟩ := doTransition_eq_ok h
  have hord := l2Transition_ordered (l2.directory address).state e
  rw [htab, Option.all_some] at hord
  exact ⟨as, l1, hord, hfold, rfl⟩

theorem doTransition_changes_request {e : L2Event} {m : RequestMsg} (he : e.isRequest = true)
    (hhead : l2.requestIn.head? = some m)
    (h : doTransition P llcUseParRp now e address l2 = .ok l2') :
    Relation.ReflTransGen (CacheSet.Changes P m.requestor.num) l2.cacheMemory l2'.cacheMemory := by
  obtain ⟨as, l1, hord, hfold, hc⟩ := doTransition_ordered h
  rw [hc]
  cases e <;> simp only [L2Event.isRequest, Bool.false_eq_true] at he <;>
    exact foldlM_changes_request hord hhead hfold

theorem doTransition_changes_memResponse
    (h : doTransition P llcUseParRp now .Mem_Response address l2 = .ok l2') :
    Relation.ReflTransGen (CacheSet.Changes P (l2.directory address).memReadRequestor.num)
      l2.cacheMemory l2'.cacheMemory := by
  obtain ⟨as, l1, hord, hfold, hc⟩ := doTransition_ordered h
  rw [hc]
  exact foldlM_changes_response hord hfold

/-- `L1_Writeback_Data` and `Mem_Ack` name no partition. -/
theorem doTransition_changes_noPar {e : L2Event} (he : e = .L1_Writeback_Data ∨ e = .Mem_Ack)
    (h : doTransition P llcUseParRp now e address l2 = .ok l2') (q : Nat) :
    Relation.ReflTransGen (CacheSet.Changes P q) l2.cacheMemory l2'.cacheMemory := by
  obtain ⟨as, l1, hord, hfold, hc⟩ := doTransition_ordered h
  rw [hc]
  rcases he with rfl | rfl <;> exact foldlM_changes_of_noPar hord q hfold

theorem allocateIfAbsent_changes {alloc : CacheSet Unit σ → Nat → Except String (CacheSet Unit σ)}
    {a q : Nat} (h : allocateIfAbsent alloc a l2 = .ok l2')
    (halloc : ∀ {c c'}, alloc c a = .ok c' → CacheSet.Changes P q c c') :
    Relation.ReflTransGen (CacheSet.Changes P q) l2.cacheMemory l2'.cacheMemory ∧
      l2'.requestIn = l2.requestIn := by
  unfold allocateIfAbsent at h
  split at h
  · rw [except_pure_eq_ok] at h
    subst h
    exact ⟨.refl, rfl⟩
  · simp only [except_bind_eq_ok, except_assert_eq_ok] at h
    obtain ⟨c, hc, -, c', hc', h⟩ := h
    rw [except_pure_eq_ok] at h
    subst h
    exact ⟨.tail (.single (halloc hc)) (.setBusyFlag hc'), rfl⟩

theorem getEvent_isRequest (t : CoherenceRequestType) : (getEvent t).isRequest = true := by
  cases t <;> rfl

/-- The `GetS`/`GetM` branch: a replacement, or an allocation in the requestor's
partition followed by the request event, all naming the requestor. -/
theorem getRequestInPort_changes {m : RequestMsg} (hhead : l2.requestIn.head? = some m)
    (h : getRequestInPort P llcUseParRp now m l2 = .ok l2') :
    Relation.ReflTransGen (CacheSet.Changes P m.requestor.num) l2.cacheMemory l2'.cacheMemory := by
  cases llcUseParRp
  · simp only [getRequestInPort, Bool.false_eq_true, if_false] at h
    split at h
    · obtain ⟨v, -, h⟩ := except_bind_eq_ok.mp h
      exact doTransition_changes_request rfl hhead h
    · obtain ⟨l1, h1, h2⟩ := except_bind_eq_ok.mp h
      obtain ⟨hc1, hreq⟩ := allocateIfAbsent_changes h1 fun hc => .allocate hc
      exact hc1.trans (doTransition_changes_request (getEvent_isRequest _) (hreq ▸ hhead) h2)
  · simp only [getRequestInPort, if_true] at h
    obtain ⟨b, -, h⟩ := except_bind_eq_ok.mp h
    split at h
    · simp only [except_bind_eq_ok, except_assert_eq_ok] at h
      obtain ⟨v, -, -, h⟩ := h
      split at h <;> exact doTransition_changes_request rfl hhead h
    · split at h
      · obtain ⟨v, -, h⟩ := except_bind_eq_ok.mp h
        exact doTransition_changes_request rfl hhead h
      · obtain ⟨l1, h1, h2⟩ := except_bind_eq_ok.mp h
        obtain ⟨hc1, hreq⟩ := allocateIfAbsent_changes h1 fun hc => .allocatePar hc
        exact hc1.trans (doTransition_changes_request (getEvent_isRequest _) (hreq ▸ hhead) h2)

/-- A request step names the requestor of the request it reads. -/
theorem requestInPort_changes {m : RequestMsg} (hhead : l2.requestIn.head? = some m)
    (h : requestInPort P llcUseParRp now l2 = .ok l2') :
    Relation.ReflTransGen (CacheSet.Changes P m.requestor.num) l2.cacheMemory l2'.cacheMemory := by
  obtain ⟨m', hm', h⟩ := except_bind_eq_ok.mp h
  obtain rfl : m' = m := by
    rw [peek_eq_ok, hhead] at hm'
    exact (Option.some.inj hm').symm
  split at h
  · exact getRequestInPort_changes hhead h
  · exact getRequestInPort_changes hhead h
  · exact doTransition_changes_request rfl hhead h
  · exact doTransition_changes_request rfl hhead h
  · exact absurd h except_throw_ne_ok

/-- A memory response names the requestor of the line's read if it is data, and no
partition if it acknowledges a writeback. -/
theorem responseFromDirInPort_changes {m : DirectoryMsg} {q : Nat}
    (hhead : l2.responseFromDir.head? = some m)
    (hq : m.type = .MEMORY_READ → (l2.directory m.addr).memReadRequestor.num = q)
    (h : responseFromDirInPort P llcUseParRp now l2 = .ok l2') :
    Relation.ReflTransGen (CacheSet.Changes P q) l2.cacheMemory l2'.cacheMemory := by
  obtain ⟨m', hm', h⟩ := except_bind_eq_ok.mp h
  obtain rfl : m' = m := by
    rw [peek_eq_ok, hhead] at hm'
    exact (Option.some.inj hm').symm
  split at h
  · next hread =>
    rw [except_assert_eq_ok] at h
    exact hq hread ▸ doTransition_changes_memResponse h.2
  · exact doTransition_changes_noPar (.inr rfl) h q

/-- A writeback from an L1 names no partition. -/
theorem responseInPort_changes (h : responseInPort P llcUseParRp now l2 = .ok l2') (q : Nat) :
    Relation.ReflTransGen (CacheSet.Changes P q) l2.cacheMemory l2'.cacheMemory := by
  obtain ⟨m, -, h⟩ := except_bind_eq_ok.mp h
  rw [except_assert_eq_ok] at h
  exact doTransition_changes_noPar (.inl rfl) h.2 q

/-- The partition a step names, if any: the requestor of the request it reads, or of
the memory read whose data it receives. -/
def stepPar (l2 : L2Cache σ) : Port → Option Nat
  | .request => l2.requestIn.head?.map (·.requestor.num)
  | .responseFromDir => l2.responseFromDir.head?.bind fun m =>
      if m.type = .MEMORY_READ then some (l2.directory m.addr).memReadRequestor.num else none
  | .response => none

/-- Every step changes the set as the calls of the partition it names may, or as
those of any partition may if it names none. -/
theorem step_changes {port : Port} {q : Nat} (hq : ∀ p, stepPar l2 port = some p → p = q)
    (h : step P llcUseParRp now l2 port = some (.ok l2')) :
    Relation.ReflTransGen (CacheSet.Changes P q) l2.cacheMemory l2'.cacheMemory := by
  cases port with
  | responseFromDir =>
      simp only [L2Cache.step] at h
      split at h
      · cases h
      · next hne =>
        obtain ⟨m, tl, hm⟩ := List.exists_cons_of_ne_nil (by simpa using hne)
        have hhead : l2.responseFromDir.head? = some m := by simp [hm]
        refine responseFromDirInPort_changes hhead (fun hread => hq _ ?_) (Option.some.inj h)
        simp [stepPar, hhead, hread]
  | response =>
      simp only [L2Cache.step] at h
      split at h
      · cases h
      · exact responseInPort_changes (Option.some.inj h) q
  | request =>
      simp only [L2Cache.step] at h
      split at h
      · cases h
      · next hne =>
        obtain ⟨m, tl, hm⟩ := List.exists_cons_of_ne_nil (by simpa using hne)
        have hhead : l2.requestIn.head? = some m := by simp [hm]
        have hmq := hq m.requestor.num (by simp [stepPar, hhead])
        exact hmq ▸ requestInPort_changes hhead (Option.some.inj h)

end L2Cache

end Ruby

end ParRP
