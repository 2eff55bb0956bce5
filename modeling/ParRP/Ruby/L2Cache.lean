import ParRP.Ruby.CacheMemory
import ParRP.Ruby.Msg

/-!
# The MSI L2 controller (`MSI-L2cache.sm`)

The LLC keeps a directory entry per line (`getDirectoryEntry` allocates one with its
defaults on first use, so the directory is a total function) and a `CacheMemory` set
whose entries carry no field of their own. The controller has no TBE: the entry's
fields hold the state of pending memory reads, writebacks and `Put`s.

A step of the controller is one `trigger` of one in-port: the port's code picks the
event, and `doTransition` runs the actions of the transition table in order and then
sets the state. A replacement event does not pop the request, which the port reads
again in a later step. Every `assert` and `error` of the source is an `Except` error
with its text; a missing transition is `"Invalid transition"`, as SLICC's generated
code panics. The out-queues collect what the step sends; the system delivers them.
-/

namespace ParRP

namespace Ruby

open Policy

inductive L2State
  | InMem
  | V_Clean
  | V_Dirty
  | M
  | MV_D
  | MI_D
  | MemReadPending_M
  | MemReadPending_V
  | MemWritePending
  deriving DecidableEq, Repr

inductive L2Event
  | GetS
  | GetM
  | Put
  | Upg
  | L1_Writeback_Data
  | Replacement
  | Par_Replacement
  | Par_Replacement_M
  | Phy_Replacement
  | Mem_Response
  | Mem_Ack
  deriving DecidableEq, Repr

/-- The directory `Entry`, with the defaults of a `new Entry`. -/
structure DirEntry where
  state : L2State := .InMem
  dataBlk : Nat := 0
  owner : MachineID := {}
  dirty : Bool := false
  memReadReqID : Nat := 0
  memReadRequestor : MachineID := {}
  writebackTriggered : Bool := false
  putPending : Bool := false
  putReqID : Nat := 0
  putRequestor : MachineID := {}
  writebackPending : Bool := false
  dependentMemReadRequestor : MachineID := {}
  dependentMemReadAddr : Nat := 0

/-- The L2 controller over a set with replacement state `σ`. `backInvOut` names the
one L1 a back-invalidation goes to, or `none` for a broadcast to every L1. -/
structure L2Cache (σ : Type) where
  cacheMemory : CacheSet Unit σ
  directory : Nat → DirEntry
  requestIn : List RequestMsg
  stalledRequests : List RequestMsg
  responseIn : List ResponseMsg
  responseFromDir : List DirectoryMsg
  backInvOut : List (Option MachineID × RequestMsg)
  responseOut : List (MachineID × ResponseMsg)
  requestToDir : List DirectoryMsg

inductive L2Action
  | markCacheEntryAsBusy
  | markCacheEntryAsBusyIfInNormalMode
  | markCacheEntryAsFree
  | initiatePutRequest
  | initiateWriteback
  | performParReplacement
  | setDirty
  | unsetDirty
  | setOwner
  | deallocateCacheEntry
  | sendInv
  | sendMemRead
  | completeMemWriteback
  | completeL1Writeback
  | sendAckIfPutPending
  | forwardL1Writeback
  | sendMemWrite
  | sendData
  | completeMemRead
  | popMemResponseQueue
  | popResponseQueue
  | popRequestQueue
  | stallAndWaitRequestQueue
  deriving DecidableEq, Repr

open L2State L2Event L2Action in
/-- The `transition` blocks: the next state and the actions, or `none` where the
source has no transition. -/
def l2Transition : L2State → L2Event → Option (L2State × List L2Action)
  | V_Clean, Replacement => some (InMem, [sendInv, deallocateCacheEntry])
  | V_Dirty, Replacement =>
      some (MemWritePending, [initiateWriteback, sendInv, sendMemWrite, deallocateCacheEntry])
  | M, Replacement => some (MI_D, [initiateWriteback, sendInv, deallocateCacheEntry])
  | M, Par_Replacement => some (M, [sendInv, performParReplacement])
  | V_Clean, Par_Replacement => some (V_Clean, [sendInv, performParReplacement])
  | V_Dirty, Par_Replacement => some (V_Dirty, [sendInv, performParReplacement])
  | MV_D, Par_Replacement => some (MV_D, [sendInv, performParReplacement])
  | M, Par_Replacement_M => some (MV_D, [sendInv, performParReplacement])
  | V_Clean, Phy_Replacement => some (InMem, [deallocateCacheEntry])
  | V_Dirty, Phy_Replacement =>
      some (MemWritePending, [initiateWriteback, sendMemWrite, deallocateCacheEntry])
  | MV_D, Phy_Replacement => some (MI_D, [initiateWriteback, deallocateCacheEntry])
  | V_Clean, GetS => some (V_Clean, [sendData, popRequestQueue])
  | V_Dirty, GetS => some (V_Dirty, [sendData, popRequestQueue])
  | V_Clean, GetM => some (M, [setOwner, sendData, popRequestQueue])
  | V_Dirty, GetM => some (M, [setOwner, sendData, popRequestQueue])
  | M, GetS => some (MV_D, [markCacheEntryAsBusyIfInNormalMode, stallAndWaitRequestQueue])
  | M, GetM => some (MV_D, [markCacheEntryAsBusyIfInNormalMode, stallAndWaitRequestQueue])
  | InMem, GetS => some (MemReadPending_V, [sendMemRead, popRequestQueue, markCacheEntryAsBusy])
  | InMem, GetM =>
      some (MemReadPending_M, [setOwner, sendMemRead, popRequestQueue, markCacheEntryAsBusy])
  | MemReadPending_V, GetS => some (MemReadPending_V, [markCacheEntryAsBusy, stallAndWaitRequestQueue])
  | MemReadPending_V, GetM => some (MemReadPending_V, [markCacheEntryAsBusy, stallAndWaitRequestQueue])
  | MemReadPending_M, GetS => some (MemReadPending_M, [markCacheEntryAsBusy, stallAndWaitRequestQueue])
  | MemReadPending_M, GetM => some (MemReadPending_M, [markCacheEntryAsBusy, stallAndWaitRequestQueue])
  | MemWritePending, GetS => some (MemWritePending, [markCacheEntryAsBusy, stallAndWaitRequestQueue])
  | MemWritePending, GetM => some (MemWritePending, [markCacheEntryAsBusy, stallAndWaitRequestQueue])
  | MI_D, GetS => some (MI_D, [markCacheEntryAsBusy, stallAndWaitRequestQueue])
  | MI_D, GetM => some (MI_D, [markCacheEntryAsBusy, stallAndWaitRequestQueue])
  | MV_D, GetS => some (MV_D, [stallAndWaitRequestQueue])
  | MV_D, GetM => some (MV_D, [stallAndWaitRequestQueue])
  | V_Clean, Upg => some (M, [setOwner, popRequestQueue])
  | V_Dirty, Upg => some (M, [setOwner, popRequestQueue])
  | MV_D, Upg => some (MV_D, [markCacheEntryAsBusyIfInNormalMode, stallAndWaitRequestQueue])
  | M, Put => some (MV_D, [initiatePutRequest, markCacheEntryAsBusyIfInNormalMode, popRequestQueue])
  | MV_D, L1_Writeback_Data =>
      some (V_Dirty, [completeL1Writeback, sendAckIfPutPending, popResponseQueue, markCacheEntryAsFree])
  | MI_D, L1_Writeback_Data =>
      some (MemWritePending, [sendAckIfPutPending, forwardL1Writeback, popResponseQueue])
  | MemWritePending, Mem_Ack => some (InMem, [completeMemWriteback])
  | MemReadPending_M, Mem_Response => some (M, [completeMemRead, markCacheEntryAsFree, setDirty])
  | MemReadPending_V, Mem_Response =>
      some (V_Clean, [completeMemRead, markCacheEntryAsFree, unsetDirty])
  | _, _ => none

namespace L2Cache

variable {σ : Type} (P : SetPolicy σ) (llcUseParRp : Bool)

/-- Update the directory entry of line `a`. -/
def setDir (l2 : L2Cache σ) (a : Nat) (f : DirEntry → DirEntry) : L2Cache σ :=
  { l2 with directory := Function.update l2.directory a (f (l2.directory a)) }

/-- `wakeup_port(requestInPort, address)`: the requests stalled on line `a` go back
into the queue, in the order they stalled. -/
def wakeup (l2 : L2Cache σ) (a : Nat) : L2Cache σ :=
  { l2 with
    requestIn := l2.requestIn ++ l2.stalledRequests.filter (·.addr = a)
    stalledRequests := l2.stalledRequests.filter (·.addr ≠ a) }

@[simp] theorem cacheMemory_setDir (l2 : L2Cache σ) (a : Nat) (f : DirEntry → DirEntry) :
    (l2.setDir a f).cacheMemory = l2.cacheMemory := rfl

@[simp] theorem cacheMemory_wakeup (l2 : L2Cache σ) (a : Nat) :
    (l2.wakeup a).cacheMemory = l2.cacheMemory := rfl

@[simp] theorem requestIn_setDir (l2 : L2Cache σ) (a : Nat) (f : DirEntry → DirEntry) :
    (l2.setDir a f).requestIn = l2.requestIn := rfl

@[simp] theorem directory_setDir_self (l2 : L2Cache σ) (a : Nat) (f : DirEntry → DirEntry) :
    (l2.setDir a f).directory a = f (l2.directory a) := by
  simp [setDir]

theorem directory_setDir_of_ne (l2 : L2Cache σ) {a b : Nat} (hab : b ≠ a) (f : DirEntry → DirEntry) :
    (l2.setDir a f).directory b = l2.directory b := by
  simp [setDir, hab]

/-- The actions, on line `address` at cycle `now`. An action that reads a message
peeks the head of its port's queue. -/
def doAction (now address : Nat) (l2 : L2Cache σ) : L2Action → Except String (L2Cache σ)
  | .markCacheEntryAsBusy => do
      return { l2 with cacheMemory := ← l2.cacheMemory.setBusy address }
  | .markCacheEntryAsBusyIfInNormalMode => do
      if !llcUseParRp then
        return { l2 with cacheMemory := ← l2.cacheMemory.setBusy address }
      return l2
  | .markCacheEntryAsFree => do
      return { l2 with cacheMemory := ← l2.cacheMemory.setFree address }
  | .initiatePutRequest => do
      let inMsg ← peek l2.requestIn
      return l2.setDir address fun e =>
        { e with putPending := true, putReqID := inMsg.reqID, putRequestor := inMsg.requestor }
  | .initiateWriteback => do
      let inMsg ← peek l2.requestIn
      unless !(l2.directory address).writebackPending do
        throw "assert(!victim_dir_entry.writebackPending)"
      let l2 := l2.setDir address fun e =>
        { e with writebackPending := true, dependentMemReadAddr := inMsg.addr,
                 dependentMemReadRequestor := inMsg.requestor }
      unless !(l2.directory inMsg.addr).writebackTriggered do
        throw "assert(!new_dir_entry.writebackTriggered)"
      return l2.setDir inMsg.addr fun e => { e with writebackTriggered := true }
  | .performParReplacement => do
      -- `deallocateCacheEntry(address, par_id)`: the line only leaves the partition
      let inMsg ← peek l2.requestIn
      unless llcUseParRp do throw "assert(llc_use_par_rp)"
      unless l2.cacheMemory.isTagPresent address do
        throw "assert(cacheMemory.isTagPresent(address))"
      return { l2 with cacheMemory := ← l2.cacheMemory.deallocatePar P address inMsg.requestor.num }
  | .setDirty => do
      unless l2.cacheMemory.isTagPresent address do throw "assert(is_valid(cache_entry))"
      return l2.setDir address fun e => { e with dirty := true }
  | .unsetDirty => do
      unless l2.cacheMemory.isTagPresent address do throw "assert(is_valid(cache_entry))"
      return l2.setDir address fun e => { e with dirty := false }
  | .setOwner => do
      unless l2.cacheMemory.isTagPresent address do throw "assert(is_valid(cache_entry))"
      let inMsg ← peek l2.requestIn
      return l2.setDir address fun e => { e with owner := inMsg.requestor }
  | .deallocateCacheEntry => do
      unless l2.cacheMemory.isTagPresent address do throw "assert(is_valid(cache_entry))"
      if l2.cacheMemory.isTagPresent address then
        return { l2 with cacheMemory := ← l2.cacheMemory.deallocate P address }
      return l2
  | .sendInv => do
      -- partition mode invalidates the requestor only, normal mode every L1
      unless l2.cacheMemory.isTagPresent address do throw "assert(is_valid(cache_entry))"
      let inMsg ← peek l2.requestIn
      let outMsg : RequestMsg := { reqID := now, addr := address, type := .Inv, requestor := l2Machine }
      let dest := if llcUseParRp then some inMsg.requestor else none
      return { l2 with backInvOut := l2.backInvOut ++ [(dest, outMsg)] }
  | .sendMemRead => do
      let inMsg ← peek l2.requestIn
      let l2 := l2.setDir address fun e =>
        { e with memReadRequestor := inMsg.requestor, memReadReqID := inMsg.reqID }
      unless !llcUseParRp || !inMsg.fromI do throw "assert(!in_msg.fromI)"
      -- with a writeback triggered, the victim's `completeMemWriteback` sends the read
      if !(l2.directory address).writebackTriggered then
        return { l2 with requestToDir := l2.requestToDir ++
          [{ addr := address, type := .MEMORY_READ, sender := inMsg.requestor }] }
      return l2
  | .completeMemWriteback => do
      let e := l2.directory address
      unless e.writebackPending do throw "assert(dir_entry.writebackPending)"
      let readMsg : DirectoryMsg :=
        { addr := e.dependentMemReadAddr, type := .MEMORY_READ, sender := e.dependentMemReadRequestor }
      let l2 := { l2 with requestToDir := l2.requestToDir ++ [readMsg] }
      let l2 := l2.setDir address fun e => { e with writebackPending := false }
      return ({ l2 with responseFromDir := l2.responseFromDir.tail } : L2Cache σ).wakeup address
  | .completeL1Writeback => do
      let inMsg ← peek l2.responseIn
      let l2 := l2.setDir address fun e => { e with dataBlk := inMsg.dataBlk, dirty := inMsg.dirty }
      return l2.wakeup address
  | .sendAckIfPutPending => do
      let _ ← peek l2.responseIn
      let e := l2.directory address
      if e.putPending then
        let outMsg : ResponseMsg :=
          { reqID := e.putReqID, addr := address, type := .Ack, sender := l2Machine }
        let l2 := { l2 with responseOut := l2.responseOut ++ [(e.putRequestor, outMsg)] }
        return l2.setDir address fun e => { e with putPending := false }
      return l2
  | .forwardL1Writeback => do
      let inMsg ← peek l2.responseIn
      return { l2 with requestToDir := l2.requestToDir ++
        [{ addr := inMsg.addr, type := .MEMORY_WB, sender := l2Machine, dataBlk := inMsg.dataBlk }] }
  | .sendMemWrite => do
      unless l2.cacheMemory.isTagPresent address do throw "assert(is_valid(cache_entry))"
      let e := l2.directory address
      unless e.dirty do throw "assert(dir_entry.dirty)"
      return { l2 with requestToDir := l2.requestToDir ++
        [{ addr := address, type := .MEMORY_WB, sender := l2Machine, dataBlk := e.dataBlk }] }
  | .sendData => do
      unless l2.cacheMemory.isTagPresent address do throw "assert(is_valid(cache_entry))"
      let e := l2.directory address
      let inMsg ← peek l2.requestIn
      let partitionHit ← if llcUseParRp then
          l2.cacheMemory.isParHit P address inMsg.requestor.num
        else pure false
      let outMsg : ResponseMsg :=
        { reqID := inMsg.reqID, addr := address, dataBlk := e.dataBlk, dirty := e.dirty,
          type := .FromLLC, sender := l2Machine, partitionHit }
      let l2 := { l2 with responseOut := l2.responseOut ++ [(inMsg.requestor, outMsg)] }
      -- a request caused by a coherence invalidation does not touch the partition
      if llcUseParRp then
        if !inMsg.fromI then
          return { l2 with cacheMemory := ← l2.cacheMemory.setMRUPar P now address inMsg.requestor.num }
        return l2
      return { l2 with cacheMemory := ← l2.cacheMemory.setMRU P now address }
  | .completeMemRead => do
      unless l2.cacheMemory.isTagPresent address do throw "assert(is_valid(cache_entry))"
      let e := l2.directory address
      let cacheMemory ← if llcUseParRp then
          l2.cacheMemory.setMRUPar P now address e.memReadRequestor.num
        else l2.cacheMemory.setMRU P now address
      let l2 := { l2 with cacheMemory := cacheMemory }
      let inMsg ← peek l2.responseFromDir
      let l2 := l2.setDir address fun e => { e with dataBlk := inMsg.dataBlk }
      let outMsg : ResponseMsg :=
        { reqID := e.memReadReqID, addr := inMsg.addr, type := .FromMemory, sender := inMsg.sender,
          dataBlk := inMsg.dataBlk, partitionHit := false }
      let l2 := { l2 with responseOut := l2.responseOut ++ [(e.memReadRequestor, outMsg)] }
      let l2 := l2.setDir address fun e => { e with writebackTriggered := false }
      return ({ l2 with responseFromDir := l2.responseFromDir.tail } : L2Cache σ).wakeup address
  | .popMemResponseQueue => return { l2 with responseFromDir := l2.responseFromDir.tail }
  | .popResponseQueue => return { l2 with responseIn := l2.responseIn.tail }
  | .popRequestQueue => return { l2 with requestIn := l2.requestIn.tail }
  | .stallAndWaitRequestQueue => do
      let inMsg ← peek l2.requestIn
      return { l2 with requestIn := l2.requestIn.tail, stalledRequests := l2.stalledRequests ++ [inMsg] }

/-- `doTransition`: the actions of the transition in order, then `setState`. -/
def doTransition (now : Nat) (event : L2Event) (address : Nat) (l2 : L2Cache σ) :
    Except String (L2Cache σ) :=
  match l2Transition (l2.directory address).state event with
  | some (next, actions) => do
      let l2 ← actions.foldlM (doAction P llcUseParRp now address) l2
      return l2.setDir address fun e => { e with state := next }
  | none => throw "Invalid transition"

/-- `responseFromDirInPort`. -/
def responseFromDirInPort (now : Nat) (l2 : L2Cache σ) : Except String (L2Cache σ) := do
  let inMsg ← peek l2.responseFromDir
  match inMsg.type with
  | .MEMORY_READ =>
      unless l2.cacheMemory.isTagPresent inMsg.addr do throw "assert(is_valid(cache_entry))"
      doTransition P llcUseParRp now .Mem_Response inMsg.addr l2
  | .MEMORY_WB => doTransition P llcUseParRp now .Mem_Ack inMsg.addr l2

/-- `responseInPort`: a writeback from an L1. -/
def responseInPort (now : Nat) (l2 : L2Cache σ) : Except String (L2Cache σ) := do
  let inMsg ← peek l2.responseIn
  unless inMsg.dirty do throw "assert(in_msg.dirty)"
  doTransition P llcUseParRp now .L1_Writeback_Data inMsg.addr l2

/-- Allocate the requested line if it is absent, as the port does before triggering
`GetS` or `GetM`; `allocate` is the plain or the partitioned `CacheMemory::allocate`. -/
def allocateIfAbsent (allocate : CacheSet Unit σ → Nat → Except String (CacheSet Unit σ))
    (a : Nat) (l2 : L2Cache σ) : Except String (L2Cache σ) := do
  if l2.cacheMemory.isTagPresent a then return l2
  let cacheMemory ← allocate l2.cacheMemory a
  unless cacheMemory.isTagPresent a do throw "assert(is_valid(cache_entry))"
  return { l2 with cacheMemory := ← cacheMemory.setBusy a }

def getEvent : CoherenceRequestType → L2Event
  | .GetS => .GetS
  | _ => .GetM

/-- The branch of `requestInPort` for `GetS` and `GetM`. In partition mode a request
first makes room in the requestor's partition (`Par_Replacement`), then in the set
(`Phy_Replacement`); in normal mode a missing line needs room in the set only
(`Replacement`). A replacement leaves the request at the head of the queue. -/
def getRequestInPort (now : Nat) (inMsg : RequestMsg) (l2 : L2Cache σ) : Except String (L2Cache σ) :=
  if llcUseParRp then do
    let parId := inMsg.requestor.num
    if !(← l2.cacheMemory.cacheAvailPar P inMsg.addr parId) then
      let parVictim ← l2.cacheMemory.cacheProbePar P parId
      unless l2.cacheMemory.isTagPresent parVictim do throw "assert(is_valid(victim_entry))"
      let victimDirEntry := l2.directory parVictim
      if victimDirEntry.state = .M ∧ victimDirEntry.owner = inMsg.requestor then
        doTransition P llcUseParRp now .Par_Replacement_M parVictim l2
      else
        doTransition P llcUseParRp now .Par_Replacement parVictim l2
    else if !l2.cacheMemory.cacheAvail inMsg.addr then
      let victimAddr ← l2.cacheMemory.cacheProbe P inMsg.addr
      doTransition P llcUseParRp now .Phy_Replacement victimAddr l2
    else
      let l2 ← allocateIfAbsent (fun c a => c.allocatePar P now a () parId) inMsg.addr l2
      doTransition P llcUseParRp now (getEvent inMsg.type) inMsg.addr l2
  else do
    if !l2.cacheMemory.isTagPresent inMsg.addr && !l2.cacheMemory.cacheAvail inMsg.addr then
      let victimAddr ← l2.cacheMemory.cacheProbe P inMsg.addr
      doTransition P llcUseParRp now .Replacement victimAddr l2
    else
      let l2 ← allocateIfAbsent (fun c a => c.allocate P now a ()) inMsg.addr l2
      doTransition P llcUseParRp now (getEvent inMsg.type) inMsg.addr l2

/-- `requestInPort`. -/
def requestInPort (now : Nat) (l2 : L2Cache σ) : Except String (L2Cache σ) := do
  let inMsg ← peek l2.requestIn
  match inMsg.type with
  | .GetS | .GetM => getRequestInPort P llcUseParRp now inMsg l2
  | .Put => doTransition P llcUseParRp now .Put inMsg.addr l2
  | .Upg => doTransition P llcUseParRp now .Upg inMsg.addr l2
  | _ => throw "Unknown request type"

/-- The in-ports of the controller. -/
inductive Port
  | responseFromDir
  | response
  | request
  deriving DecidableEq, Repr

/-- One `trigger` at `port`; `none` when the port's queue is empty. -/
def step (now : Nat) (l2 : L2Cache σ) : Port → Option (Except String (L2Cache σ))
  | .responseFromDir =>
      if l2.responseFromDir.isEmpty then none else some (responseFromDirInPort P llcUseParRp now l2)
  | .response => if l2.responseIn.isEmpty then none else some (responseInPort P llcUseParRp now l2)
  | .request => if l2.requestIn.isEmpty then none else some (requestInPort P llcUseParRp now l2)

end L2Cache

end Ruby

end ParRP
