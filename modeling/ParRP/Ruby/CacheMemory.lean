import ParRP.Policy.Replacement
import ParRP.Lib.Except

/-!
# One set of a Ruby `CacheMemory`

`CacheMemory` keeps `m_cache[set][way]`, a pointer to an `AbstractCacheEntry` or
null, and the replacement data of every way. Sets never interact, so the model is
one set, to which every address of a run maps; `m_tag_index` is the way whose
entry holds the address. An entry carries its address, the `busy` flag and the
controller's own fields `β`; the replacement state of the set is `σ`, driven
through a `SetPolicy`. The entries' permissions are never `NotPresent` in the MSI
controllers, so the permission checks of the source always pass and are left out.
-/

namespace ParRP

namespace Ruby

open Policy

/-- `AbstractCacheEntry` with the controller's `CacheEntry` fields. -/
structure CacheEntry (β : Type) where
  address : Nat
  busy : Bool := false
  fields : β

/-- One set: its ways and its replacement state. -/
structure CacheSet (β σ : Type) where
  ways : List (Option (CacheEntry β))
  repl : σ

namespace CacheSet

variable {β σ : Type} (P : SetPolicy σ)

/-- A set of `assoc` empty ways. -/
def empty (assoc : Nat) (repl : σ) : CacheSet β σ := ⟨List.replicate assoc none, repl⟩

def holds (a : Nat) : Option (CacheEntry β) → Bool
  | some e => e.address = a
  | none => false

/-- `findTagInSet`: the way holding `address`. -/
def findTag (c : CacheSet β σ) (a : Nat) : Option Nat := c.ways.findIdx? (holds a)

/-- `lookup`. -/
def lookup (c : CacheSet β σ) (a : Nat) : Option (CacheEntry β) :=
  (c.findTag a).bind fun w => c.ways.getD w none

def isTagPresent (c : CacheSet β σ) (a : Nat) : Bool := (c.lookup a).isSome

/-- `cacheAvail(address)`: a way holds the address or is empty. -/
def cacheAvail (c : CacheSet β σ) (a : Nat) : Bool :=
  c.ways.any fun e => match e with
    | some e => e.address = a
    | none => true

/-- `isParHit(address, par_id)`. -/
def isParHit (c : CacheSet β σ) (a p : Nat) : Except String Bool :=
  match c.findTag a with
  | none => .ok false
  | some w => P.parHit c.repl w p

/-- `cacheAvail(address, par_id)`: a hit in the partition, or a free slot in it. -/
def cacheAvailPar (c : CacheSet β σ) (a p : Nat) : Except String Bool := do
  if ← c.isParHit P a p then return true
  P.parAvail c.repl p

/-- `setBusy` and `setFree`, which differ only in the value of the flag. -/
def setBusyFlag (b : Bool) (c : CacheSet β σ) (a : Nat) : Except String (CacheSet β σ) := do
  unless c.cacheAvail a do throw "assert(cacheAvail(address))"
  match c.findTag a with
  | some w => return { c with ways := c.ways.modify w (Option.map fun e => { e with busy := b }) }
  | none => throw "assert(entry != nullptr)"

def setBusy : CacheSet β σ → Nat → Except String (CacheSet β σ) := setBusyFlag true

def setFree : CacheSet β σ → Nat → Except String (CacheSet β σ) := setBusyFlag false

/-- The first way `allocate` finds open. -/
def openWay (c : CacheSet β σ) : Option Nat := c.ways.findIdx? Option.isNone

/-- Both `allocate` overloads: the new entry goes into the first open way, and the
policy's `reset` (plain or by partition) is applied to that way. -/
def allocateWith (reset : σ → Nat → Except String σ) (c : CacheSet β σ) (a : Nat) (fields : β) :
    Except String (CacheSet β σ) := do
  unless !c.isTagPresent a do throw "assert(!isTagPresent(address))"
  unless c.cacheAvail a do throw "assert(cacheAvail(address))"
  match c.openWay with
  | some w =>
      let repl ← reset c.repl w
      return ⟨c.ways.set w (some { address := a, fields }), repl⟩
  | none => throw "panic: Allocate didn't find an available entry"

/-- `allocate(address, entry)`. -/
def allocate (now : Nat) : CacheSet β σ → Nat → β → Except String (CacheSet β σ) :=
  allocateWith (P.reset now)

/-- `allocate(address, entry, par_id)`. -/
def allocatePar (now : Nat) (c : CacheSet β σ) (a : Nat) (fields : β) (p : Nat) :
    Except String (CacheSet β σ) :=
  allocateWith (fun repl w => P.resetPar now repl w p) c a fields

/-- `deallocate(address)`: the entry leaves the set. -/
def deallocate (c : CacheSet β σ) (a : Nat) : Except String (CacheSet β σ) := do
  match c.findTag a with
  | some w =>
      let repl ← P.invalidate c.repl w
      return ⟨c.ways.set w none, repl⟩
  | none => throw "assert(entry != nullptr)"

/-- `deallocate(address, par_id)`: the entry only leaves partition `p`. -/
def deallocatePar (c : CacheSet β σ) (a p : Nat) : Except String (CacheSet β σ) := do
  match c.findTag a with
  | some w => return { c with repl := ← P.invalidatePar c.repl w p }
  | none => throw "assert(entry != nullptr)"

/-- The ways `cacheProbe` offers as candidates: those with an entry that is not busy. -/
def candidates (c : CacheSet β σ) : List Nat :=
  (List.range c.ways.length).filter fun w => match c.ways.getD w none with
    | some e => !e.busy
    | none => false

def addressAt (c : CacheSet β σ) (w : Nat) : Except String Nat :=
  match c.ways.getD w none with
  | some e => .ok e.address
  | none => .error "m_cache[cacheSet][way] is null"

/-- `cacheProbe(address)`: the address of the policy's victim. -/
def cacheProbe (c : CacheSet β σ) (a : Nat) : Except String Nat := do
  unless !c.cacheAvail a do throw "assert(!cacheAvail(address))"
  unless c.candidates ≠ [] do throw "assert(false)"
  c.addressAt (← P.getVictim c.repl c.candidates)

/-- `cacheProbe(address, par_id)`: the address of the victim within partition `p`. -/
def cacheProbePar (c : CacheSet β σ) (p : Nat) : Except String Nat := do
  c.addressAt (← P.getVictimPar c.repl c.candidates p)

/-- `setMRU(entry)` for the entry holding `address`. -/
def setMRU (now : Nat) (c : CacheSet β σ) (a : Nat) : Except String (CacheSet β σ) := do
  match c.findTag a with
  | some w => return { c with repl := ← P.touch now c.repl w }
  | none => throw "assert(entry != nullptr)"

/-- `setMRU(entry, par_id)` for the entry holding `address`. -/
def setMRUPar (now : Nat) (c : CacheSet β σ) (a p : Nat) : Except String (CacheSet β σ) := do
  match c.findTag a with
  | some w => return { c with repl := ← P.touchPar now c.repl w p }
  | none => throw "assert(entry != nullptr)"

/-- The controller's fields of the entry holding `address`. -/
def fieldsOf (c : CacheSet β σ) (a : Nat) : Option β := (c.lookup a).map (·.fields)

/-- Update the controller's fields of the entry holding `address`, if there is one. -/
def modifyFields (c : CacheSet β σ) (a : Nat) (f : β → β) : CacheSet β σ :=
  match c.findTag a with
  | some w => { c with ways := c.ways.modify w (Option.map fun e => { e with fields := f e.fields }) }
  | none => c

/-! ### What the operations do to the replacement state

Every operation that changes the replacement state does so by one call of the policy
on a way of the set, so a property of the replacement state that the policy's calls
keep is kept by the operations. -/

theorem findTag_lt {c : CacheSet β σ} {a w : Nat} (h : c.findTag a = some w) :
    w < c.ways.length := by
  obtain ⟨hw, -⟩ := List.findIdx?_eq_some_iff_getElem.mp h
  exact hw

theorem openWay_lt {c : CacheSet β σ} {w : Nat} (h : c.openWay = some w) :
    w < c.ways.length := by
  obtain ⟨hw, -⟩ := List.findIdx?_eq_some_iff_getElem.mp h
  exact hw

/-- The set has `n` ways and its replacement state satisfies `J`. -/
def Holds (J : σ → Prop) (n : Nat) (c : CacheSet β σ) : Prop := J c.repl ∧ c.ways.length = n

variable {P} {J : σ → Prop} {n : Nat} {c c' : CacheSet β σ}

theorem holds_setBusyFlag {b : Bool} {a : Nat} (hc : c.Holds J n) (h : c.setBusyFlag b a = .ok c') :
    c'.Holds J n := by
  simp only [setBusyFlag, except_assert_eq_ok] at h
  obtain ⟨-, h⟩ := h
  split at h
  · rw [except_pure_eq_ok] at h
    subst h
    exact ⟨hc.1, by simp [hc.2]⟩
  · exact absurd h except_throw_ne_ok

theorem holds_allocateWith {reset : σ → Nat → Except String σ} {a : Nat} {f : β}
    (hreset : ∀ {s w s'}, w < n → J s → reset s w = .ok s' → J s') (hc : c.Holds J n)
    (h : c.allocateWith reset a f = .ok c') : c'.Holds J n := by
  simp only [allocateWith, except_assert_eq_ok] at h
  obtain ⟨-, -, h⟩ := h
  split at h
  · next w hw =>
    obtain ⟨r, hr, h⟩ := except_bind_eq_ok.mp h
    rw [except_pure_eq_ok] at h
    subst h
    exact ⟨hreset (hc.2 ▸ openWay_lt hw) hc.1 hr, by simp [hc.2]⟩
  · exact absurd h except_throw_ne_ok

theorem holds_allocate {now a : Nat} {f : β} (hk : P.KeepsPlain n J) (hc : c.Holds J n)
    (h : c.allocate P now a f = .ok c') : c'.Holds J n :=
  holds_allocateWith hk.reset hc h

theorem holds_allocatePar {now a q : Nat} {f : β} (hk : P.KeepsPar n q J) (hc : c.Holds J n)
    (h : c.allocatePar P now a f q = .ok c') : c'.Holds J n :=
  holds_allocateWith hk.resetPar hc h

/-- An operation that replaces the replacement state by one call `call` on the way of
`address`, and leaves the ways alone. -/
theorem holds_of_findTag {a : Nat} {call : σ → Nat → Except String σ}
    (hcall : ∀ {s w s'}, w < n → J s → call s w = .ok s' → J s') (hc : c.Holds J n)
    (h : (match c.findTag a with
      | some w => (fun r => { c with repl := r }) <$> call c.repl w
      | none => throw "assert(entry != nullptr)") = .ok c') : c'.Holds J n := by
  split at h
  · next w hw =>
    obtain ⟨r, hr, rfl⟩ := except_map_eq_ok.mp h
    exact ⟨hcall (hc.2 ▸ findTag_lt hw) hc.1 hr, hc.2⟩
  · exact absurd h except_throw_ne_ok

theorem holds_deallocate {a : Nat} (hk : P.KeepsPlain n J) (hc : c.Holds J n)
    (h : c.deallocate P a = .ok c') : c'.Holds J n := by
  simp only [deallocate] at h
  split at h
  · next w hw =>
    obtain ⟨r, hr, h⟩ := except_bind_eq_ok.mp h
    rw [except_pure_eq_ok] at h
    subst h
    exact ⟨hk.invalidate (hc.2 ▸ findTag_lt hw) hc.1 hr, by simp [hc.2]⟩
  · exact absurd h except_throw_ne_ok

theorem holds_deallocatePar {a q : Nat} (hk : P.KeepsPar n q J) (hc : c.Holds J n)
    (h : c.deallocatePar P a q = .ok c') : c'.Holds J n :=
  holds_of_findTag hk.invalidatePar hc h

theorem holds_setMRU {now a : Nat} (hk : P.KeepsPlain n J) (hc : c.Holds J n)
    (h : c.setMRU P now a = .ok c') : c'.Holds J n :=
  holds_of_findTag hk.touch hc h

theorem holds_setMRUPar {now a q : Nat} (hk : P.KeepsPar n q J) (hc : c.Holds J n)
    (h : c.setMRUPar P now a q = .ok c') : c'.Holds J n :=
  holds_of_findTag hk.touchPar hc h

theorem holds_modifyFields {a : Nat} {f : β → β} (hc : c.Holds J n) :
    (c.modifyFields a f).Holds J n := by
  unfold modifyFields
  split
  · exact ⟨hc.1, by simp [hc.2]⟩
  · exact hc

variable (P) in
/-- What one operation of a controller can do to the set, when every call it makes
with a partition names partition `q`. -/
inductive Changes (q : Nat) (c : CacheSet β σ) : CacheSet β σ → Prop
  | same : Changes q c c
  | setBusyFlag {b a c'} : c.setBusyFlag b a = .ok c' → Changes q c c'
  | allocate {now a f c'} : c.allocate P now a f = .ok c' → Changes q c c'
  | allocatePar {now a f c'} : c.allocatePar P now a f q = .ok c' → Changes q c c'
  | deallocate {a c'} : c.deallocate P a = .ok c' → Changes q c c'
  | deallocatePar {a c'} : c.deallocatePar P a q = .ok c' → Changes q c c'
  | setMRU {now a c'} : c.setMRU P now a = .ok c' → Changes q c c'
  | setMRUPar {now a c'} : c.setMRUPar P now a q = .ok c' → Changes q c c'
  | modifyFields {a f} : Changes q c (c.modifyFields a f)

theorem holds_of_changes {q : Nat} (hp : P.KeepsPlain n J) (hq : P.KeepsPar n q J)
    (hc : c.Holds J n) (h : Changes P q c c') : c'.Holds J n := by
  cases h with
  | same => exact hc
  | setBusyFlag h => exact holds_setBusyFlag hc h
  | allocate h => exact holds_allocate hp hc h
  | allocatePar h => exact holds_allocatePar hq hc h
  | deallocate h => exact holds_deallocate hp hc h
  | deallocatePar h => exact holds_deallocatePar hq hc h
  | setMRU h => exact holds_setMRU hp hc h
  | setMRUPar h => exact holds_setMRUPar hq hc h
  | modifyFields => exact holds_modifyFields hc

/-- The rule for a run of operations: a property the calls keep holds after all of them. -/
theorem holds_of_reflTransGen {q : Nat} (hp : P.KeepsPlain n J) (hq : P.KeepsPar n q J)
    (hc : c.Holds J n) (h : Relation.ReflTransGen (Changes P q) c c') : c'.Holds J n := by
  induction h with
  | refl => exact hc
  | tail _ hstep ih => exact holds_of_changes hp hq ih hstep

end CacheSet

end Ruby

end ParRP
