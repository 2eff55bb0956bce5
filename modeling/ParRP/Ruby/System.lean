import ParRP.Ruby.L1Cache
import ParRP.Ruby.L2Cache

/-!
# The MSI system

The L1 controllers, the shared LLC with its directory, and memory behind the
`Directory` controller, as `MSI.py` connects them. The network is reduced to what the
protocol relies on:

* the TDM request bus grants a core's head bus request (`busGrant`), and a coherence
  request the core then sends reaches every L1 and the LLC at once, in one order;
* responses and back-invalidations go to the L1 they name, a broadcast `Inv` to all;
* memory serves its pending requests in any order, as the memory controller may.

Every controller keeps its in-queues in FIFO order. A step is one event of one party;
`now` counts steps and stands for the cycle the controllers read.
-/

namespace ParRP

namespace Ruby

open Policy

/-- The state of the whole system over an LLC set with replacement state `σ`. -/
structure System (σ : Type) where
  now : Nat
  l1s : List L1Cache
  l2 : L2Cache σ
  memQueue : List DirectoryMsg
  memory : Nat → Nat

/-- The events of the system. -/
inductive SysStep
  /-- core `i` issues a request to its sequencer -/
  | issue (i : Nat) (r : RubyRequest)
  /-- L1 `i` handles the head of one in-port -/
  | l1 (i : Nat) (port : L1Cache.Port)
  /-- the request bus grants core `i` -/
  | busGrant (i : Nat)
  /-- the LLC handles the head of one in-port -/
  | l2 (port : L2Cache.Port)
  /-- memory serves its `k`-th pending request -/
  | memory (k : Nat)
  deriving DecidableEq, Repr

/-- The L1 of core `i` at reset, with an empty data cache of `assoc` ways. -/
def L1Cache.init (assoc i : Nat) : L1Cache where
  machineID := l1Machine i
  cache := CacheSet.empty assoc (baseSetInit lru assoc)
  tbes := []
  mandatoryQueue := []
  stalledMandatory := []
  triggerQueue := []
  busGrantIn := []
  requestIn := []
  responseIn := []
  backInvIn := []
  busRequestOut := []
  requestOut := []
  responseOut := []
  sequencer := {}

/-- The LLC at reset over the empty set `cacheMemory`. -/
def L2Cache.init {σ : Type} (cacheMemory : CacheSet Unit σ) : L2Cache σ where
  cacheMemory := cacheMemory
  directory := fun _ => {}
  requestIn := []
  stalledRequests := []
  responseIn := []
  responseFromDir := []
  backInvOut := []
  responseOut := []
  requestToDir := []

namespace System

variable {σ : Type} (P : SetPolicy σ) (llcUseParRp : Bool) (numberOfTBEs : Nat)

/-- The system at reset: `numCores` cores with `l1Assoc`-way data caches, the LLC over
`cacheMemory`, and memory all zero. -/
def init (numCores l1Assoc : Nat) (cacheMemory : CacheSet Unit σ) : System σ where
  now := 1
  l1s := (List.range numCores).map (L1Cache.init l1Assoc)
  l2 := L2Cache.init cacheMemory
  memQueue := []
  memory := fun _ => 0

/-- The network delivers what L1 `i` sent in its step: its coherence requests to
every L1 and the LLC, its writebacks to the LLC. -/
def deliverL1 (s : System σ) (i : Nat) (c : L1Cache) : System σ :=
  let l1s := s.l1s.set i { c with requestOut := [], responseOut := [] }
  { s with
    l1s := l1s.map fun d => { d with requestIn := d.requestIn ++ c.requestOut }
    l2 := { s.l2 with
      requestIn := s.l2.requestIn ++ c.requestOut
      responseIn := s.l2.responseIn ++ c.responseOut } }

/-- The network delivers what the LLC sent in its step: responses and
back-invalidations to the L1s they name (a back-invalidation without a destination
to every L1), memory requests to the directory. -/
def deliverL2 (s : System σ) (l2 : L2Cache σ) : System σ :=
  { s with
    l1s := s.l1s.map fun c => { c with
      backInvIn := c.backInvIn ++ (l2.backInvOut.filter fun m => m.1.all (· == c.machineID)).map (·.2)
      responseIn := c.responseIn ++ (l2.responseOut.filter fun m => m.1 = c.machineID).map (·.2) }
    l2 := { l2 with backInvOut := [], responseOut := [], requestToDir := [] }
    memQueue := s.memQueue ++ l2.requestToDir }

/-- The `Directory` controller forwards pending request `k` to memory and the answer
back to the LLC: `forwardMemRequest`, then `forwardMemResponse`. A read returns the
memory's block; a writeback stores its block and is acknowledged. -/
def serveMemory (s : System σ) (k : Nat) : Option (System σ) := do
  let m ← s.memQueue[k]?
  let s := { s with memQueue := s.memQueue.eraseIdx k }
  match m.type with
  | .MEMORY_READ =>
      let resp : DirectoryMsg :=
        { addr := m.addr, type := .MEMORY_READ, sender := directoryMachine, dataBlk := s.memory m.addr }
      return { s with l2 := { s.l2 with responseFromDir := s.l2.responseFromDir ++ [resp] } }
  | .MEMORY_WB =>
      let resp : DirectoryMsg := { addr := m.addr, type := .MEMORY_WB, sender := directoryMachine }
      return { s with
        memory := Function.update s.memory m.addr m.dataBlk
        l2 := { s.l2 with responseFromDir := s.l2.responseFromDir ++ [resp] } }

/-- One event; `none` when it is not enabled, an error when a controller's code fails. -/
def step (s : System σ) : SysStep → Option (Except String (System σ))
  | .issue i r => do
      let c ← s.l1s[i]?
      let sequencer ← c.sequencer.makeRequest r
      return .ok { s with
        l1s := s.l1s.set i { c with sequencer, mandatoryQueue := c.mandatoryQueue ++ [r] } }
  | .l1 i port => do
      let c ← s.l1s[i]?
      let r ← L1Cache.step llcUseParRp numberOfTBEs s.now c port
      return r.map (deliverL1 s i)
  | .busGrant i => do
      let c ← s.l1s[i]?
      let m ← c.busRequestOut.head?
      return .ok { s with
        l1s := s.l1s.set i { c with busRequestOut := c.busRequestOut.tail, busGrantIn := c.busGrantIn ++ [m] } }
  | .l2 port => do
      let r ← L2Cache.step P llcUseParRp s.now s.l2 port
      return r.map (deliverL2 s)
  | .memory k => (serveMemory s k).map .ok

/-- One event, after which the clock advances. -/
def next (s : System σ) (e : SysStep) : Option (Except String (System σ)) :=
  (step P llcUseParRp numberOfTBEs s e).map (·.map fun s => { s with now := s.now + 1 })

/-- A sequence of events: `none` if one is not enabled, the first error if one fails. -/
def run (s : System σ) : List SysStep → Option (Except String (System σ))
  | [] => some (.ok s)
  | e :: es =>
      match next P llcUseParRp numberOfTBEs s e with
      | some (.ok s') => run s' es
      | some (.error msg) => some (.error msg)
      | none => none

/-- The state a step or a run ends in, if it succeeds. -/
def okOf : Option (Except String (System σ)) → Option (System σ)
  | some (.ok s) => some s
  | _ => none

/-- The error a step or a run ends in, if it ends in one. -/
def errorOf : Option (Except String (System σ)) → Option String
  | some (.error msg) => some msg
  | _ => none

@[simp] theorem okOf_eq_some {r : Option (Except String (System σ))} {s : System σ} :
    okOf r = some s ↔ r = some (.ok s) := by
  unfold okOf
  split <;> simp_all

/-- The states reachable from `s₀` by events that succeed. -/
inductive Reachable (s₀ : System σ) : System σ → Prop
  | init : Reachable s₀ s₀
  | step {s s' : System σ} {e : SysStep} : Reachable s₀ s →
      next P llcUseParRp numberOfTBEs s e = some (.ok s') → Reachable s₀ s'

variable {P llcUseParRp numberOfTBEs}

theorem next_eq_ok {s s' : System σ} {e : SysStep} :
    next P llcUseParRp numberOfTBEs s e = some (.ok s') ↔
      ∃ s₁, step P llcUseParRp numberOfTBEs s e = some (.ok s₁) ∧ s' = { s₁ with now := s₁.now + 1 } := by
  unfold next
  constructor
  · intro h
    obtain ⟨r, hr, hmap⟩ := Option.map_eq_some_iff.mp h
    cases r with
    | error msg => cases hmap
    | ok s₁ => exact ⟨s₁, hr, (Except.ok.inj hmap).symm⟩
  · rintro ⟨s₁, hs₁, rfl⟩
    simp [hs₁, Except.map]

theorem l2_serveMemory {s s₁ : System σ} {k : Nat} (h : serveMemory s k = some s₁) :
    s₁.l2.cacheMemory = s.l2.cacheMemory ∧ s₁.l2.directory = s.l2.directory := by
  simp only [serveMemory, Option.bind_eq_bind, Option.bind_eq_some_iff] at h
  obtain ⟨m, -, h⟩ := h
  split at h <;> cases h <;> exact ⟨rfl, rfl⟩

/-- Only an LLC step changes the LLC's set and directory, and it changes them as the
controller's step does; the network and memory only fill and drain queues. -/
theorem l2_step {s s₁ : System σ} {e : SysStep}
    (h : step P llcUseParRp numberOfTBEs s e = some (.ok s₁)) :
    (s₁.l2.cacheMemory = s.l2.cacheMemory ∧ s₁.l2.directory = s.l2.directory) ∨
      ∃ port l2', e = .l2 port ∧ L2Cache.step P llcUseParRp s.now s.l2 port = some (.ok l2') ∧
        s₁.l2.cacheMemory = l2'.cacheMemory ∧ s₁.l2.directory = l2'.directory := by
  cases e with
  | issue i r =>
      simp only [step, Option.bind_eq_bind, Option.bind_eq_some_iff] at h
      obtain ⟨c, -, sq, -, h⟩ := h
      cases h
      exact .inl ⟨rfl, rfl⟩
  | l1 i port =>
      simp only [step, Option.bind_eq_bind, Option.bind_eq_some_iff] at h
      obtain ⟨c, -, r, -, h⟩ := h
      cases r <;> cases h
      exact .inl ⟨rfl, rfl⟩
  | busGrant i =>
      simp only [step, Option.bind_eq_bind, Option.bind_eq_some_iff] at h
      obtain ⟨c, -, m, -, h⟩ := h
      cases h
      exact .inl ⟨rfl, rfl⟩
  | l2 port =>
      simp only [step, Option.bind_eq_bind, Option.bind_eq_some_iff] at h
      obtain ⟨r, hr, h⟩ := h
      cases r <;> cases h
      exact .inr ⟨port, _, rfl, hr, rfl, rfl⟩
  | memory k =>
      simp only [step, Option.map_eq_some_iff] at h
      obtain ⟨s₂, hs₂, h⟩ := h
      cases h
      exact .inl (l2_serveMemory hs₂)

/-- A run that succeeds ends in a reachable state. -/
theorem reachable_of_run {s₀ s s' : System σ} {es : List SysStep}
    (hs : Reachable P llcUseParRp numberOfTBEs s₀ s)
    (h : run P llcUseParRp numberOfTBEs s es = some (.ok s')) :
    Reachable P llcUseParRp numberOfTBEs s₀ s' := by
  induction es generalizing s with
  | nil =>
      cases h
      exact hs
  | cons e es ih =>
      simp only [run] at h
      split at h
      · next s₁ hnext => exact ih (hs.step hnext) h
      · cases h
      · cases h

/-- What holds of the state a run from `s₀` ends in holds of a reachable state: the
way a concrete run, evaluated, shows a state to be reachable. -/
theorem exists_reachable_of_run {s₀ : System σ} (es : List SysStep) {p : System σ → Prop}
    [DecidablePred p]
    (h : (okOf (run P llcUseParRp numberOfTBEs s₀ es)).any (fun s => decide (p s)) = true) :
    ∃ s, Reachable P llcUseParRp numberOfTBEs s₀ s ∧ p s := by
  obtain ⟨s, hs, hp⟩ := (Option.any_eq_true _ _).mp h
  exact ⟨s, reachable_of_run .init (okOf_eq_some.mp hs), of_decide_eq_true hp⟩

end System

end Ruby

end ParRP
