import Mathlib

/-!
# Machines and messages of the MSI protocol

The message types of `MSI-msg.sm`, the `MachineID` of Ruby and the requests a
sequencer puts into the mandatory queue. Destinations are not fields: a message
sits in the queue of the machine it is addressed to. The `MessageSizeType`,
`Len` and `OriginalRequestorMachId` fields only size and trace messages and are
left out; a `DataBlock` is a natural number.
-/

namespace ParRP

namespace Ruby

inductive MachineType
  | L1Cache
  | L2Cache
  | Directory
  | NUM
  deriving DecidableEq, Repr

/-- `MachineID`; the default one has type `MachineType_NUM`, as in Ruby. -/
structure MachineID where
  type : MachineType := .NUM
  num : Nat := 0
  deriving DecidableEq, Repr

/-- The `MachineID` of L1 controller `i`. -/
def l1Machine (i : Nat) : MachineID := ⟨.L1Cache, i⟩

def l2Machine : MachineID := ⟨.L2Cache, 0⟩

def directoryMachine : MachineID := ⟨.Directory, 0⟩

inductive CoherenceRequestType
  | GetS
  | GetM
  | Upg
  | Put
  | Inv
  | BusRequest
  deriving DecidableEq, Repr

/-- `RequestMsg`. -/
structure RequestMsg where
  reqID : Nat
  addr : Nat
  type : CoherenceRequestType
  requestor : MachineID
  fromI : Bool := false
  deriving DecidableEq, Repr

inductive CoherenceResponseType
  | FromLLC
  | FromMemory
  | Writeback
  | Ack
  deriving DecidableEq, Repr

/-- `ResponseMsg`. -/
structure ResponseMsg where
  reqID : Nat := 0
  addr : Nat
  dataBlk : Nat := 0
  dirty : Bool := false
  type : CoherenceResponseType
  sender : MachineID
  partitionHit : Bool := false
  deriving DecidableEq, Repr

inductive MemoryRequestType
  | MEMORY_READ
  | MEMORY_WB
  deriving DecidableEq, Repr

/-- `DirectoryMsg`, between the L2 controller and memory. -/
structure DirectoryMsg where
  addr : Nat
  type : MemoryRequestType
  sender : MachineID
  dataBlk : Nat := 0
  deriving DecidableEq, Repr

/-- The `RubyRequestType`s the MSI L1 controller takes from its sequencer, without
instruction fetches. -/
inductive RubyRequestType
  | LD
  | ST
  | Locked_RMW_Read
  | Locked_RMW_Write
  deriving DecidableEq, Repr

/-- A `RubyRequest` in the mandatory queue; `data` is what a store writes. -/
structure RubyRequest where
  lineAddress : Nat
  type : RubyRequestType
  data : Nat := 0
  deriving DecidableEq, Repr

/-- `MessageBuffer::peek`: the message at the head of a queue. -/
def peek {α : Type} : List α → Except String α
  | m :: _ => .ok m
  | [] => .error "assert(msg_ptr)"

@[simp] theorem peek_cons {α : Type} (m : α) (l : List α) : peek (m :: l) = .ok m := rfl

theorem peek_eq_ok {α : Type} {l : List α} {m : α} : peek l = .ok m ↔ l.head? = some m := by
  cases l <;> simp [peek]

end Ruby

end ParRP
