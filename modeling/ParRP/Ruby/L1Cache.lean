import ParRP.Ruby.CacheMemory
import ParRP.Ruby.Msg

/-!
# The MSI L1 controller (`MSI-L1cache.sm`) and its sequencer

The L1 snoops every coherence request on the bus, its own included: it asks the TDM
request bus for a slot (`sendBusRequest`), and on the grant sends the request, which
the bus delivers to every L1 and to the LLC. A transaction keeps a TBE until the
`Complete` trigger finalizes it; while it is live, the TBE's state is the line's
state (`getState`), and `setState` writes both copies.

Only the data cache is modelled: the sequencer issues no instruction fetch, so the
instruction cache stays empty and `getCacheEntry` is the data cache's entry. The
data cache is one set with the `LRURP` policy of `MSI.py`. A step is one `trigger`
of one in-port; a transition that needs a TBE when none is free is a resource stall,
which leaves the controller as the port's code left it.
-/

namespace ParRP

namespace Ruby

open Policy

inductive L1State
  | I
  | S
  | M
  | L
  | S_AD
  | S_D
  | M_AD
  | M_D
  | ML_AD
  | ML_D
  | M_A
  | ML_A
  | I_AD
  | I_D
  | CMP
  deriving DecidableEq, Repr

inductive L1Event
  | Load
  | Store
  | Lock
  | Unlock
  | Replacement
  | BusGrantDoGetM
  | BusGrantDoGetMLocked
  | BusGrantDoGetS
  | BusGrantDoPut
  | OwnGetM
  | OwnUpg
  | OwnGetS
  | OwnPut
  | OtherGetM
  | OtherGetS
  | OtherUpg
  | OtherPut
  | Inv
  | Inv_Par
  | DataFromMem
  | DataFromLLC
  | Ack
  | Complete
  deriving DecidableEq, Repr

/-- The L1 `CacheEntry` fields, with the defaults of a `new CacheEntry`. -/
structure L1Entry where
  state : L1State := .I
  dataBlk : Nat := 0
  dirty : Bool := false
  owned : Bool := false
  justAllocated : Bool := true
  deriving DecidableEq, Repr

/-- The `TBE`, with the defaults `TBETable::allocate` gives it. -/
structure TBE where
  state : L1State := .I
  requestType : CoherenceRequestType := .GetS
  isLockRequest : Bool := false
  fromAddr : Nat := 0
  toI : Bool := false
  isBI : Bool := false
  writebackReqID : Nat := 0
  writeback : Bool := false
  deriving DecidableEq, Repr

/-- The sequencer of one core with `max_outstanding_requests = 1`. `lockedLine` is the
line of a `Locked_RMW_Read` whose `Locked_RMW_Write` the CPU has yet to issue; the
CPU issues nothing else in between. -/
structure Sequencer where
  outstanding : Option RubyRequest := none
  lockedLine : Option Nat := none
  deriving DecidableEq, Repr

namespace Sequencer

def notFoundMessage : String := "assert(m_RequestTable.find(address) != m_RequestTable.end())"

/-- `Sequencer::readCallback`: the outstanding request on the line completes; it must
be a load. -/
def readCallback (s : Sequencer) (address : Nat) : Except String Sequencer :=
  match s.outstanding with
  | some r =>
      if r.lineAddress = address then
        if r.type = .LD then .ok { s with outstanding := none }
        else .error "assert((seq_req.m_type == RubyRequestType_LD) || (seq_req.m_type == RubyRequestType_Load_Linked) || (seq_req.m_type == RubyRequestType_IFETCH))"
      else .error notFoundMessage
  | none => .error notFoundMessage

/-- `Sequencer::writeCallback` on the data block `data` of the line: the outstanding
request completes; it must not be a load, and a store writes its data into the block. -/
def writeCallback (s : Sequencer) (address data : Nat) : Except String (Sequencer × Nat) :=
  match s.outstanding with
  | some r =>
      if r.lineAddress = address then
        if r.type ≠ .LD then
          .ok ({ s with outstanding := none }, if r.type = .Locked_RMW_Read then data else r.data)
        else .error "assert(seq_req.m_type != RubyRequestType_LD)"
      else .error notFoundMessage
  | none => .error notFoundMessage

/-- `Sequencer::makeRequest` with `max_outstanding_requests = 1`: a request is taken only
when none is outstanding; the CPU keeps a `Locked_RMW_Read` and its `Locked_RMW_Write`
together. -/
def makeRequest (s : Sequencer) (r : RubyRequest) : Option Sequencer :=
  let paired : Bool := match s.lockedLine with
    | some a => r.type == .Locked_RMW_Write && r.lineAddress == a
    | none => r.type != .Locked_RMW_Write
  if s.outstanding.isNone && paired then
    some { outstanding := some r
           lockedLine := if r.type = .Locked_RMW_Read then some r.lineAddress
             else if r.type = .Locked_RMW_Write then none else s.lockedLine }
  else none

end Sequencer

/-- The L1 controller of one core. The out-queues hold what the last step sent:
`requestOut` goes to every L1 and the LLC, `responseOut` to the LLC; `busRequestOut`
waits for the bus. -/
structure L1Cache where
  machineID : MachineID
  cache : CacheSet L1Entry (List Nat)
  tbes : List (Nat × TBE)
  mandatoryQueue : List RubyRequest
  stalledMandatory : List RubyRequest
  triggerQueue : List Nat
  busGrantIn : List RequestMsg
  requestIn : List RequestMsg
  responseIn : List ResponseMsg
  backInvIn : List RequestMsg
  busRequestOut : List RequestMsg
  requestOut : List RequestMsg
  responseOut : List ResponseMsg
  sequencer : Sequencer

inductive L1Action
  | triggerReqCompletion
  | sendBusRequest
  | sendGetS
  | sendGetM
  | sendUpg
  | sendPut
  | sendDataResponse
  | sendBIResponse
  | loadHit
  | externalLoadHit
  | storeHit
  | externalStoreHit
  | upgStoreHit
  | invalidateCacheEntry
  | deallocateCacheEntry
  | allocateTBE
  | initiateReplacement
  | initiateGetS
  | initiateGetM
  | initiateGetMLocked
  | writeDataResponseToCache
  | setOwned
  | unsetOwned
  | setToI
  | setIsBI
  | setWriteback
  | finalizeTransaction
  | popMandatoryQueue
  | popTriggerQueue
  | popBusGrantQueue
  | popResponseQueue
  | popRequestQueue
  | popBIQueue
  | profileBI
  deriving DecidableEq, Repr

/-- The next state of a transition: a state, or `*`, which `getNextState` decides. -/
inductive L1Target
  | state (s : L1State)
  | star
  deriving DecidableEq, Repr

open L1State L1Event L1Action in
/-- The `transition` blocks of the L1 (the `Ifetch` ones apart). A transition with no
next state keeps its state. -/
def l1Transition : L1State → L1Event → Option (L1Target × List L1Action)
  | I, Replacement => some (.state I, [deallocateCacheEntry])
  | S, Replacement => some (.state S, [deallocateCacheEntry])
  | M, Replacement => some (.state M, [allocateTBE, initiateReplacement, sendBusRequest])
  | S, Load => some (.state S, [loadHit, popMandatoryQueue])
  | M, Load => some (.state M, [loadHit, popMandatoryQueue])
  | I, Load => some (.state I, [allocateTBE, initiateGetS, sendBusRequest, popMandatoryQueue])
  | I, Store => some (.state I, [allocateTBE, initiateGetM, sendBusRequest, popMandatoryQueue])
  | I, Lock => some (.state I, [allocateTBE, initiateGetMLocked, sendBusRequest, popMandatoryQueue])
  | M, Store => some (.state M, [storeHit, popMandatoryQueue])
  | M, Lock => some (.state L, [allocateTBE, initiateGetMLocked, storeHit, popMandatoryQueue])
  | S, Store => some (.state S, [allocateTBE, initiateGetM, sendBusRequest, popMandatoryQueue])
  | S, Lock => some (.state S, [allocateTBE, initiateGetMLocked, sendBusRequest, popMandatoryQueue])
  | L, Unlock => some (.state CMP, [storeHit, popMandatoryQueue, triggerReqCompletion])
  | I, .Inv => some (.state I, [invalidateCacheEntry, popBIQueue])
  | I, Inv_Par => some (.state I, [deallocateCacheEntry, popBIQueue])
  | S, .Inv => some (.state I, [profileBI, invalidateCacheEntry, popBIQueue])
  | S, Inv_Par => some (.state I, [profileBI, deallocateCacheEntry, popBIQueue])
  | M, .Inv => some (.state I, [profileBI, sendBIResponse, invalidateCacheEntry, popBIQueue])
  | M, Inv_Par => some (.state I, [profileBI, sendBIResponse, deallocateCacheEntry, popBIQueue])
  | I, OtherGetM | I, OtherGetS | I, OtherUpg | I, OtherPut => some (.state I, [popRequestQueue])
  | S, OtherUpg | S, OtherGetM => some (.state I, [invalidateCacheEntry, popRequestQueue])
  | M, OtherGetM => some (.state I, [sendDataResponse, invalidateCacheEntry, popRequestQueue])
  | S, OtherGetS => some (.state S, [popRequestQueue])
  | M, OtherGetS => some (.state S, [unsetOwned, sendDataResponse, popRequestQueue])
  | S, OtherPut => some (.state S, [popRequestQueue])
  | S_D, OtherGetM => some (.state S_D, [setToI, popRequestQueue])
  | S_D, .Inv | S_D, Inv_Par => some (.state S_D, [profileBI, setIsBI, popBIQueue])
  | S_D, OtherUpg => some (.state S_D, [setToI, popRequestQueue])
  | S_D, OtherGetS | S_D, OtherPut => some (.state S_D, [popRequestQueue])
  | M_D, OtherGetM => some (.state M_D, [setWriteback, unsetOwned, setToI, popRequestQueue])
  | ML_D, OtherGetM => some (.state ML_D, [setWriteback, unsetOwned, setToI, popRequestQueue])
  | L, OtherGetM => some (.state L, [setWriteback, unsetOwned, setToI, popRequestQueue])
  | M_D, .Inv | M_D, Inv_Par =>
      some (.state M_D, [profileBI, setWriteback, unsetOwned, setIsBI, popBIQueue])
  | ML_D, .Inv | ML_D, Inv_Par =>
      some (.state ML_D, [profileBI, setWriteback, unsetOwned, setIsBI, popBIQueue])
  | L, .Inv | L, Inv_Par => some (.state L, [profileBI, setWriteback, unsetOwned, setIsBI, popBIQueue])
  | M_D, OtherGetS => some (.state M_D, [setWriteback, unsetOwned, popRequestQueue])
  | ML_D, OtherGetS => some (.state ML_D, [setWriteback, unsetOwned, popRequestQueue])
  | L, OtherGetS => some (.state L, [setWriteback, unsetOwned, popRequestQueue])
  | I_D, OtherGetM | I_D, OtherGetS | I_D, OtherPut | I_D, OtherUpg =>
      some (.state I_D, [popRequestQueue])
  | I_D, .Inv | I_D, Inv_Par => some (.state I_D, [setIsBI, popBIQueue])
  | I, BusGrantDoPut | S, BusGrantDoPut =>
      some (.state CMP, [popBusGrantQueue, triggerReqCompletion])
  | I, BusGrantDoGetS => some (.state S_AD, [sendGetS, popBusGrantQueue])
  | I, BusGrantDoGetM => some (.state M_AD, [sendGetM, popBusGrantQueue])
  | I, BusGrantDoGetMLocked => some (.state ML_AD, [sendGetM, popBusGrantQueue])
  | S, BusGrantDoGetM => some (.state M_A, [sendUpg, popBusGrantQueue])
  | S, BusGrantDoGetMLocked => some (.state ML_A, [sendUpg, popBusGrantQueue])
  | M, BusGrantDoGetM =>
      some (.state CMP, [setOwned, upgStoreHit, popBusGrantQueue, triggerReqCompletion])
  | M, BusGrantDoGetMLocked => some (.state L, [upgStoreHit, popBusGrantQueue])
  | M, BusGrantDoPut => some (.state I_AD, [sendPut, popBusGrantQueue])
  | S_AD, OwnGetS => some (.state S_D, [popRequestQueue])
  | M_AD, OwnGetM => some (.state M_D, [setOwned, popRequestQueue])
  | ML_AD, OwnGetM => some (.state ML_D, [setOwned, popRequestQueue])
  | M_A, OwnUpg =>
      some (.state CMP, [setOwned, upgStoreHit, popRequestQueue, triggerReqCompletion])
  | ML_A, OwnUpg => some (.state L, [setOwned, upgStoreHit, popRequestQueue])
  | I_AD, OwnPut => some (.state I_D, [sendDataResponse, popRequestQueue])
  | I_D, Ack => some (.state CMP, [popResponseQueue, triggerReqCompletion])
  | S_D, DataFromLLC | S_D, DataFromMem =>
      some (.state CMP, [writeDataResponseToCache, externalLoadHit, popResponseQueue,
        triggerReqCompletion])
  | M_D, DataFromLLC | M_D, DataFromMem =>
      some (.state CMP, [writeDataResponseToCache, externalStoreHit, popResponseQueue,
        triggerReqCompletion])
  | ML_D, DataFromLLC | ML_D, DataFromMem =>
      some (.state L, [writeDataResponseToCache, externalStoreHit, popResponseQueue])
  | CMP, Complete => some (.star, [finalizeTransaction, popTriggerQueue])
  | _, _ => none

namespace L1Cache

variable (llcUseParRp : Bool) (numberOfTBEs : Nat)

/-- The L1 data cache's policy: `LRURP` on each way. -/
def policy : SetPolicy (List Nat) := baseSet lru

/-- `getCacheEntry`: the fields of the line's entry. -/
def entryOf (l1 : L1Cache) (a : Nat) : Option L1Entry := l1.cache.fieldsOf a

/-- `TBEs[address]`. -/
def tbeOf (l1 : L1Cache) (a : Nat) : Option TBE := l1.tbes.lookup a

def setEntry (l1 : L1Cache) (a : Nat) (f : L1Entry → L1Entry) : L1Cache :=
  { l1 with cache := l1.cache.modifyFields a f }

def setTBE (l1 : L1Cache) (a : Nat) (f : TBE → TBE) : L1Cache :=
  { l1 with tbes := l1.tbes.map fun bt => if bt.1 = a then (bt.1, f bt.2) else bt }

/-- `getState`: the TBE's state overrides the entry's. -/
def getState (l1 : L1Cache) (a : Nat) : L1State :=
  match l1.tbeOf a, l1.entryOf a with
  | some t, _ => t.state
  | none, some e => e.state
  | none, none => .I

/-- `setState`: both copies, where they exist. -/
def setState (l1 : L1Cache) (a : Nat) (s : L1State) : L1Cache :=
  (l1.setTBE a fun t => { t with state := s }).setEntry a fun e => { e with state := s }

/-- The function `deallocateCacheEntry(address)`: the entry leaves the data cache. -/
def deallocateEntry (l1 : L1Cache) (a : Nat) : Except String L1Cache := do
  if l1.cache.isTagPresent a then
    return { l1 with cache := ← l1.cache.deallocate policy a }
  return l1

/-- `resetCacheEntry`. -/
def resetEntry (l1 : L1Cache) (a : Nat) : L1Cache :=
  l1.setEntry a fun e => { e with owned := false, dirty := false }

/-- `L1Dcache.setMRU(cache_entry)`. -/
def touch (now : Nat) (l1 : L1Cache) (a : Nat) : Except String L1Cache := do
  return { l1 with cache := ← l1.cache.setMRU policy now a }

/-- The entry of the line, which the action's `assert(is_valid(cache_entry))` needs. -/
def needEntry (l1 : L1Cache) (a : Nat) : Except String L1Entry :=
  match l1.entryOf a with
  | some e => .ok e
  | none => .error "assert(is_valid(cache_entry))"

/-- The TBE of the line, which the action's `assert(is_valid(tbe))` needs. -/
def needTBE (l1 : L1Cache) (a : Nat) : Except String TBE :=
  match l1.tbeOf a with
  | some t => .ok t
  | none => .error "assert(is_valid(tbe))"

/-- `wakeup_port(mandatoryInPort, address)`. -/
def wakeupMandatory (l1 : L1Cache) (a : Nat) : L1Cache :=
  { l1 with
    mandatoryQueue := l1.mandatoryQueue ++ l1.stalledMandatory.filter (·.lineAddress = a)
    stalledMandatory := l1.stalledMandatory.filter (·.lineAddress ≠ a) }

/-- `sendGetS` and `sendGetM`: the request carries `fromI` when the entry was kept
through an invalidation, i.e. it is not fresh. -/
def sendGet (type : CoherenceRequestType) (now address : Nat) (l1 : L1Cache) :
    Except String L1Cache := do
  let _ ← l1.needTBE address
  let e ← l1.needEntry address
  let outMsg : RequestMsg :=
    { reqID := now, addr := address, type, requestor := l1.machineID, fromI := !e.justAllocated }
  let l1 := { l1 with requestOut := l1.requestOut ++ [outMsg] }
  return l1.setEntry address fun e => { e with justAllocated := false }

/-- `sendDataResponse` and `sendBIResponse`: the dirty block goes to the LLC, in answer
to the request at the head of `queue`. -/
def sendWriteback (queue : List RequestMsg) (address : Nat) (l1 : L1Cache) :
    Except String L1Cache := do
  let e ← l1.needEntry address
  let inMsg ← peek queue
  unless e.dirty do throw "assert(cache_entry.dirty)"
  let outMsg : ResponseMsg :=
    { reqID := inMsg.reqID, addr := address, type := .Writeback, sender := l1.machineID,
      dataBlk := e.dataBlk, dirty := e.dirty }
  return { l1 with responseOut := l1.responseOut ++ [outMsg] }

/-- The store hits (`storeHit`, `externalStoreHit`, `upgStoreHit`): the sequencer
writes the store into the block, which becomes dirty. -/
def storeHitWith (now address : Nat) (l1 : L1Cache) : Except String L1Cache := do
  let e ← l1.needEntry address
  let l1 ← l1.touch now address
  let (sequencer, data) ← l1.sequencer.writeCallback address e.dataBlk
  let l1 := { l1 with sequencer }
  return l1.setEntry address fun e => { e with dataBlk := data, dirty := true }

/-- `finalizeTransaction`. -/
def finalizeTransaction (address : Nat) (l1 : L1Cache) : Except String L1Cache := do
  let tbe ← l1.needTBE address
  let l1 ← if tbe.requestType = .Put then do
      -- a replacement: the victim leaves and the request it waited for wakes up
      let l1 ← l1.deallocateEntry address
      pure (l1.wakeupMandatory tbe.fromAddr)
    else do
      let e ← l1.needEntry address
      let l1 := if tbe.writeback then
          { l1 with responseOut := l1.responseOut ++
            [{ reqID := tbe.writebackReqID, addr := address, type := .Writeback,
               sender := l1.machineID, dataBlk := e.dataBlk, dirty := e.dirty }] }
        else l1
      if llcUseParRp then
        -- partition mode keeps an entry invalidated by another core
        if tbe.isBI then l1.deallocateEntry address
        else if tbe.toI then pure (l1.resetEntry address)
        else pure l1
      else if tbe.toI || tbe.isBI then l1.deallocateEntry address
      else pure l1
  return { l1 with tbes := l1.tbes.filter (·.1 ≠ address) }

/-- The actions, on line `address` at cycle `now`. -/
def doAction (now address : Nat) (l1 : L1Cache) : L1Action → Except String L1Cache
  | .triggerReqCompletion => return { l1 with triggerQueue := l1.triggerQueue ++ [address] }
  | .sendBusRequest =>
      let outMsg : RequestMsg :=
        { reqID := 0, addr := address, type := .BusRequest, requestor := l1.machineID }
      return { l1 with busRequestOut := l1.busRequestOut ++ [outMsg] }
  | .sendGetS => sendGet .GetS now address l1
  | .sendGetM => sendGet .GetM now address l1
  | .sendUpg => do
      let _ ← l1.needTBE address
      let outMsg : RequestMsg :=
        { reqID := now, addr := address, type := .Upg, requestor := l1.machineID }
      return { l1 with requestOut := l1.requestOut ++ [outMsg] }
  | .sendPut => do
      let _ ← l1.needTBE address
      let e ← l1.needEntry address
      unless e.dirty do throw "assert(cache_entry.dirty)"
      let outMsg : RequestMsg :=
        { reqID := now, addr := address, type := .Put, requestor := l1.machineID }
      return { l1 with requestOut := l1.requestOut ++ [outMsg] }
  | .sendDataResponse => sendWriteback l1.requestIn address l1
  | .sendBIResponse => sendWriteback l1.backInvIn address l1
  | .loadHit => do
      let _ ← l1.needEntry address
      let l1 ← l1.touch now address
      return { l1 with sequencer := ← l1.sequencer.readCallback address }
  | .externalLoadHit => do
      let _ ← l1.needEntry address
      let _ ← peek l1.responseIn
      let l1 ← l1.touch now address
      return { l1 with sequencer := ← l1.sequencer.readCallback address }
  | .storeHit => storeHitWith now address l1
  | .externalStoreHit => do
      let _ ← peek l1.responseIn
      storeHitWith now address l1
  | .upgStoreHit => storeHitWith now address l1
  | .invalidateCacheEntry => do
      let l1 := l1.resetEntry address
      -- normal mode drops the entry at once when no transaction needs it
      if !llcUseParRp && (l1.tbeOf address).isNone then l1.deallocateEntry address
      else return l1
  | .deallocateCacheEntry => do
      unless (l1.tbeOf address).isNone do throw "assert(is_invalid(tbe))"
      l1.deallocateEntry address
  | .allocateTBE => do
      unless (l1.tbeOf address).isNone do throw "assert(is_invalid(tbe))"
      return { l1 with tbes := l1.tbes ++ [(address, {})] }
  | .initiateReplacement => do
      let _ ← l1.needTBE address
      let inMsg ← peek l1.mandatoryQueue
      -- the request that needs the way waits for the replacement
      let l1 := { l1 with
        mandatoryQueue := l1.mandatoryQueue.tail
        stalledMandatory := l1.stalledMandatory ++ [inMsg] }
      return l1.setTBE address fun t =>
        { t with fromAddr := inMsg.lineAddress, requestType := .Put }
  | .initiateGetS => do
      let _ ← l1.needTBE address
      return l1.setTBE address fun t => { t with requestType := .GetS }
  | .initiateGetM => do
      let _ ← l1.needTBE address
      return l1.setTBE address fun t => { t with requestType := .GetM }
  | .initiateGetMLocked => do
      let _ ← l1.needTBE address
      return l1.setTBE address fun t => { t with requestType := .GetM, isLockRequest := true }
  | .writeDataResponseToCache => do
      let inMsg ← peek l1.responseIn
      let _ ← l1.needEntry address
      return l1.setEntry address fun e => { e with dataBlk := inMsg.dataBlk, dirty := inMsg.dirty }
  | .setOwned => do
      let _ ← l1.needEntry address
      return l1.setEntry address fun e => { e with owned := true }
  | .unsetOwned => do
      let _ ← l1.needEntry address
      return l1.setEntry address fun e => { e with owned := false }
  | .setToI => do
      let _ ← l1.needTBE address
      return l1.setTBE address fun t => { t with toI := true }
  | .setIsBI => do
      let _ ← l1.needTBE address
      return l1.setTBE address fun t => { t with isBI := true }
  | .setWriteback => do
      -- reads `requestIn` whichever port triggered the transition
      let t ← l1.needTBE address
      if !t.writeback && !(t.toI || t.isBI) then
        let inMsg ← peek l1.requestIn
        return l1.setTBE address fun t => { t with writebackReqID := inMsg.reqID, writeback := true }
      return l1
  | .finalizeTransaction => finalizeTransaction llcUseParRp address l1
  | .popMandatoryQueue => return { l1 with mandatoryQueue := l1.mandatoryQueue.tail }
  | .popTriggerQueue => return { l1 with triggerQueue := l1.triggerQueue.tail }
  | .popBusGrantQueue => return { l1 with busGrantIn := l1.busGrantIn.tail }
  | .popResponseQueue => return { l1 with responseIn := l1.responseIn.tail }
  | .popRequestQueue => return { l1 with requestIn := l1.requestIn.tail }
  | .popBIQueue => return { l1 with backInvIn := l1.backInvIn.tail }
  | .profileBI => return l1

/-- `getNextState`, for the `*` of `Complete`; it reads the TBE and the entry as they
are before `finalizeTransaction`. -/
def getNextState (l1 : L1Cache) (address : Nat) : Except String L1State := do
  let tbe ← l1.needTBE address
  let e ← l1.needEntry address
  if tbe.requestType = .Put then return .I
  if tbe.toI then return .I
  if tbe.isBI then return .I
  if !e.owned then return .S
  unless e.dirty do throw "assert(cache_entry.dirty)"
  return .M

/-- `doTransition`: a transition that allocates a TBE when none is free stalls;
otherwise the actions run in order and `setState` follows. -/
def doTransition (now : Nat) (event : L1Event) (address : Nat) (l1 : L1Cache) :
    Except String L1Cache :=
  match l1Transition (l1.getState address) event with
  | none => throw "Invalid transition"
  | some (target, actions) =>
      if actions.contains .allocateTBE && !(l1.tbes.length < numberOfTBEs) then .ok l1
      else do
        let next ← match target with
          | .state s => pure s
          | .star => l1.getNextState address
        let l1 ← actions.foldlM (doAction llcUseParRp now address) l1
        return l1.setState address next

/-- `triggerInPort`. -/
def triggerInPort (now : Nat) (l1 : L1Cache) : Except String L1Cache := do
  let a ← peek l1.triggerQueue
  doTransition llcUseParRp numberOfTBEs now .Complete a l1

/-- `busGrantInPort`: the pending request of the TBE decides the event. -/
def busGrantInPort (now : Nat) (l1 : L1Cache) : Except String L1Cache := do
  let inMsg ← peek l1.busGrantIn
  unless inMsg.type = .BusRequest do throw "assert(in_msg.type == CoherenceRequestType:BusRequest)"
  let tbe ← match l1.tbeOf inMsg.addr with
    | some t => pure t
    | none => throw "assert(is_valid(tbe))"
  let event ← match tbe.requestType with
    | .GetS => pure L1Event.BusGrantDoGetS
    | .GetM => pure (if tbe.isLockRequest then .BusGrantDoGetMLocked else .BusGrantDoGetM)
    | .Put => pure .BusGrantDoPut
    | _ => throw "Unexpected pending request type in TBE"
  doTransition llcUseParRp numberOfTBEs now event inMsg.addr l1

/-- `responseInPort`. -/
def responseInPort (now : Nat) (l1 : L1Cache) : Except String L1Cache := do
  let inMsg ← peek l1.responseIn
  unless (l1.tbeOf inMsg.addr).isSome do throw "assert(is_valid(tbe))"
  let event ← match inMsg.type with
    | .Ack => pure L1Event.Ack
    | .FromLLC => pure .DataFromLLC
    | .FromMemory => pure .DataFromMem
    | _ => throw "Unexpected data response type"
  doTransition llcUseParRp numberOfTBEs now event inMsg.addr l1

/-- `requestInPort`: a snooped request is the core's own or another's. -/
def requestInPort (now : Nat) (l1 : L1Cache) : Except String L1Cache := do
  let inMsg ← peek l1.requestIn
  let own := inMsg.requestor = l1.machineID
  let event ← match inMsg.type with
    | .GetS => pure (if own then L1Event.OwnGetS else .OtherGetS)
    | .GetM => pure (if own then L1Event.OwnGetM else .OtherGetM)
    | .Put => pure (if own then L1Event.OwnPut else .OtherPut)
    | .Upg => pure (if own then L1Event.OwnUpg else .OtherUpg)
    | _ => throw "L1 controller: unexpected coherence request"
  doTransition llcUseParRp numberOfTBEs now event inMsg.addr l1

/-- `backInvInPort`: `Inv_Par` in partition mode, `Inv` otherwise. -/
def backInvInPort (now : Nat) (l1 : L1Cache) : Except String L1Cache := do
  let inMsg ← peek l1.backInvIn
  unless inMsg.type = .Inv do throw "assert(in_msg.type == CoherenceRequestType:Inv)"
  doTransition llcUseParRp numberOfTBEs now (if llcUseParRp then .Inv_Par else .Inv) inMsg.addr l1

def mandatoryEvent : RubyRequestType → L1Event
  | .LD => .Load
  | .ST => .Store
  | .Locked_RMW_Read => .Lock
  | .Locked_RMW_Write => .Unlock

/-- `mandatoryInPort`: a missing line gets an entry if the set has room, and otherwise
the set's LRU victim is replaced first. -/
def mandatoryInPort (now : Nat) (l1 : L1Cache) : Except String L1Cache := do
  let inMsg ← peek l1.mandatoryQueue
  let address := inMsg.lineAddress
  if (l1.entryOf address).isNone then
    if l1.cache.cacheAvail address then
      let cache ← l1.cache.allocate policy now address {}
      let l1 := { l1 with cache }
      unless (l1.entryOf address).isSome do throw "assert(is_valid(cache_entry))"
      doTransition llcUseParRp numberOfTBEs now (mandatoryEvent inMsg.type) address l1
    else
      let victimAddr ← l1.cache.cacheProbe policy address
      unless (l1.entryOf victimAddr).isSome do throw "assert(is_valid(victim_entry))"
      unless (l1.tbeOf victimAddr).isNone do throw "assert(is_invalid(victim_tbe))"
      doTransition llcUseParRp numberOfTBEs now .Replacement victimAddr l1
  else
    doTransition llcUseParRp numberOfTBEs now (mandatoryEvent inMsg.type) address l1

/-- The in-ports of the L1. -/
inductive Port
  | trigger
  | busGrant
  | response
  | request
  | backInv
  | mandatory
  deriving DecidableEq, Repr

/-- One `trigger` at `port`; `none` when the port's queue is empty. -/
def step (now : Nat) (l1 : L1Cache) : Port → Option (Except String L1Cache)
  | .trigger => if l1.triggerQueue.isEmpty then none else some (triggerInPort llcUseParRp numberOfTBEs now l1)
  | .busGrant => if l1.busGrantIn.isEmpty then none else some (busGrantInPort llcUseParRp numberOfTBEs now l1)
  | .response => if l1.responseIn.isEmpty then none else some (responseInPort llcUseParRp numberOfTBEs now l1)
  | .request => if l1.requestIn.isEmpty then none else some (requestInPort llcUseParRp numberOfTBEs now l1)
  | .backInv => if l1.backInvIn.isEmpty then none else some (backInvInPort llcUseParRp numberOfTBEs now l1)
  | .mandatory =>
      if l1.mandatoryQueue.isEmpty then none else some (mandatoryInPort llcUseParRp numberOfTBEs now l1)

end L1Cache

end Ruby

end ParRP
