import ParRP.Lib.Slots
import ParRP.Lib.Except
import ParRP.Policy.Replacement

/-!
# The partitioned replacement policy `Par`

All ways of one cache set share a `ParTable` and an `OwnerTable`. Partition `p` has
`par_config[p]` slots (`ParEntry`), each holding a way index (`-1` when empty) and
the wrapped policy's replacement data for that way; `owner_table[p][w]` records the
same ownership as a bit. A way may be owned by several partitions at once.

The functions below are `Par`'s methods on the tables of one set, with the way index
of the `ParReplData` they receive as `w`. Every `assert` of the source fails with
its text. `par_id` is a natural number: the source compares the `int` with
`par_config.size()`, so a negative one fails the first assertion.

`TablesInv` is the agreement of the two tables. Each mutator has a spec lemma that
says how the occupied slots of each partition change, and from these the invariant
holds after every call sequence whose assertions all pass
(`tablesInv_of_runCalls`).
-/

namespace ParRP

namespace Policy

open Slots

variable {ρ : Type}

/-- `Par::ParEntry`. -/
structure ParEntry (ρ : Type) where
  wayIndex : Int
  replData : ρ
  deriving DecidableEq

/-- The `ParTable` and the `OwnerTable` of one set. -/
structure ParTables (ρ : Type) where
  parTable : List (List (ParEntry ρ))
  ownerTable : List (List Bool)

namespace ParTables

/-- `par_table->at(par_id)`. -/
def row (t : ParTables ρ) (p : Nat) : List (ParEntry ρ) := t.parTable.getD p []

/-- `(*owner_table)[par_id][way_index]`. -/
def owner (t : ParTables ρ) (p w : Nat) : Bool := (t.ownerTable.getD p []).getD w false

def setOwner (t : ParTables ρ) (p w : Nat) (b : Bool) : ParTables ρ :=
  { t with ownerTable := t.ownerTable.modify p (·.set w b) }

def setRow (t : ParTables ρ) (p : Nat) (r : List (ParEntry ρ)) : ParTables ρ :=
  { t with parTable := t.parTable.set p r }

/-- The ways partition `p` holds a slot for, in slot order. -/
def ownedWays (t : ParTables ρ) (p : Nat) : List Int := keys ParEntry.wayIndex (-1) (t.row p)

/-- The loop of `touch` and `parAvail` that counts the slots with `way_index != -1`. -/
def count (t : ParTables ρ) (p : Nat) : Nat := ((t.row p).filter fun e => e.wayIndex ≠ -1).length

@[simp] theorem row_setOwner (t : ParTables ρ) (p w : Nat) (b : Bool) (q : Nat) :
    (t.setOwner p w b).row q = t.row q := rfl

@[simp] theorem owner_setRow (t : ParTables ρ) (p : Nat) (r : List (ParEntry ρ)) (q x : Nat) :
    (t.setRow p r).owner q x = t.owner q x := rfl

@[simp] theorem ownerTable_setRow (t : ParTables ρ) (p : Nat) (r : List (ParEntry ρ)) :
    (t.setRow p r).ownerTable = t.ownerTable := rfl

@[simp] theorem parTable_setOwner (t : ParTables ρ) (p w : Nat) (b : Bool) :
    (t.setOwner p w b).parTable = t.parTable := rfl

@[simp] theorem length_ownerTable_setOwner (t : ParTables ρ) (p w : Nat) (b : Bool) :
    (t.setOwner p w b).ownerTable.length = t.ownerTable.length := by
  simp [setOwner]

@[simp] theorem length_parTable_setRow (t : ParTables ρ) (p : Nat) (r : List (ParEntry ρ)) :
    (t.setRow p r).parTable.length = t.parTable.length := by
  simp [setRow]

theorem row_setRow (t : ParTables ρ) {p : Nat} (hp : p < t.parTable.length)
    (r : List (ParEntry ρ)) (q : Nat) : (t.setRow p r).row q = if q = p then r else t.row q := by
  simp only [row, setRow, List.getD_eq_getElem?_getD, List.getElem?_set]
  by_cases hq : q = p
  · subst hq
    simp [hp]
  · simp [Ne.symm hq, hq]

theorem ownerRow_setOwner (t : ParTables ρ) (p w : Nat) (b : Bool) (q : Nat) :
    (t.setOwner p w b).ownerTable.getD q [] =
      if q = p then (t.ownerTable.getD q []).set w b else t.ownerTable.getD q [] := by
  simp only [setOwner, List.getD_eq_getElem?_getD, List.getElem?_modify]
  by_cases hq : q = p
  · subst hq
    cases t.ownerTable[q]? <;> simp
  · simp [Ne.symm hq, hq]

theorem owner_setOwner (t : ParTables ρ) {p w : Nat} (hw : w < (t.ownerTable.getD p []).length)
    (b : Bool) (q x : Nat) :
    (t.setOwner p w b).owner q x = if q = p ∧ x = w then b else t.owner q x := by
  simp only [owner, ownerRow_setOwner]
  by_cases hq : q = p
  · subst hq
    by_cases hx : x = w
    · subst hx
      simp only [List.getD_eq_getElem?_getD] at hw ⊢
      simp [hw]
    · simp [List.getD_eq_getElem?_getD, Ne.symm hx, hx]
  · simp [hq]

theorem ownedWays_setRow (t : ParTables ρ) {p : Nat} (hp : p < t.parTable.length)
    (r : List (ParEntry ρ)) (q : Nat) :
    (t.setRow p r).ownedWays q = if q = p then keys ParEntry.wayIndex (-1) r else t.ownedWays q := by
  simp only [ownedWays, row_setRow t hp]
  split <;> rfl

@[simp] theorem ownedWays_setOwner (t : ParTables ρ) (p w : Nat) (b : Bool) (q : Nat) :
    (t.setOwner p w b).ownedWays q = t.ownedWays q := rfl

theorem count_eq_length_ownedWays (t : ParTables ρ) (p : Nat) : t.count p = (t.ownedWays p).length :=
  (length_keys _ _ _).symm

/-- Everything partition `p` keeps: its slots and its row of owner bits. -/
def rowsOf (t : ParTables ρ) (p : Nat) : List (ParEntry ρ) × List Bool :=
  (t.row p, t.ownerTable.getD p [])

@[simp] theorem rowsOf_setRow_of_ne (t : ParTables ρ) {p q : Nat} (hpq : p ≠ q)
    (r : List (ParEntry ρ)) : (t.setRow q r).rowsOf p = t.rowsOf p := by
  simp [rowsOf, row, setRow, List.getD_eq_getElem?_getD, Ne.symm hpq]

@[simp] theorem rowsOf_setOwner_of_ne (t : ParTables ρ) {p q : Nat} (hpq : p ≠ q) (w : Nat)
    (b : Bool) : (t.setOwner q w b).rowsOf p = t.rowsOf p := by
  simp only [rowsOf, row_setOwner, ownerRow_setOwner, if_neg hpq]

end ParTables

section Methods

variable (policy : ReplacementPolicy ρ) (parConfig : List Int)

/-- `get_replacement_data(par_table, way_index, par_id)`. -/
def getReplacementData (t : ParTables ρ) (w p : Nat) : Option ρ :=
  ((t.row p).find? fun e => e.wayIndex = (w : Int)).map (·.replData)

/-- `get_owners(owner_table, way_index)`. -/
def getOwners (t : ParTables ρ) (w : Nat) : List Nat :=
  (List.range t.ownerTable.length).filter fun p => t.owner p w

/-- `Par::invalidate(replacement_data)`: a way leaving the set must be unowned; the
method only checks this. -/
def invalidate (t : ParTables ρ) (w : Nat) : Except String Unit := do
  unless t.ownerTable.all (fun ownerVec => !ownerVec.getD w false) do
    throw "assert(!owner_vec[way_index])"
  unless t.parTable.all (·.all fun e => e.wayIndex ≠ (w : Int)) do
    throw "assert(par_entry.way_index != way_index)"

/-- `get_replacement_data` and the wrapped policy's `touch` on the data it returns. -/
def touchReplData (now : Nat) (t : ParTables ρ) (w p : Nat) : Except String (ParTables ρ) :=
  match updateFirst (fun e => decide (e.wayIndex = (w : Int)))
      (fun e => { e with replData := policy.touch now e.replData }) (t.row p) with
  | some r => .ok (t.setRow p r)
  | none => .error "assert(replData != nullptr)"

/-- `Par::invalidate(replacement_data, par_id)`: partition `p` gives up way `w`. -/
def invalidatePar (t : ParTables ρ) (w p : Nat) : Except String (ParTables ρ) := do
  unless p < parConfig.length do throw "assert(par_id < par_config.size())"
  unless t.owner p w do throw "assert((*owner_table)[par_id][way_index])"
  let t := t.setOwner p w false
  match updateFirst (fun e => decide (e.wayIndex = (w : Int)))
      (fun e => ⟨-1, policy.invalidate e.replData⟩) (t.row p) with
  | some r => return t.setRow p r
  | none => throw "assert(found)"

/-- `Par::touch(replacement_data, par_id)`: an owned way is touched in place; any
other way is brought into a free slot of the partition first. -/
def touchPar (now : Nat) (t : ParTables ρ) (w p : Nat) : Except String (ParTables ρ) := do
  unless p < parConfig.length do throw "assert(par_id < par_config.size())"
  if t.owner p w then
    touchReplData policy now t w p
  else
    unless (t.count p : Int) < parConfig.getD p 0 do throw "assert(count < par_config[par_id])"
    let t := t.setOwner p w true
    match updateFirst (fun e => decide (e.wayIndex = -1))
        (fun e => ⟨(w : Int), policy.reset now e.replData⟩) (t.row p) with
    | some r => touchReplData policy now (t.setRow p r) w p
    | none => throw "assert(found)"

/-- `Par::reset(replacement_data, par_id)`: an unowned way enters partition `p`. -/
def resetPar (now : Nat) (t : ParTables ρ) (w p : Nat) : Except String (ParTables ρ) := do
  unless p < parConfig.length do throw "assert(par_id < par_config.size())"
  unless (getOwners t w).length = 0 do throw "assert(owners.size() == 0)"
  unless (t.row p).all (fun e => e.wayIndex ≠ (w : Int)) do
    throw "assert(par_entry.way_index != way_index)"
  let t := t.setOwner p w true
  match updateFirst (fun e => decide (e.wayIndex = -1))
      (fun e => ⟨(w : Int), policy.reset now e.replData⟩) (t.row p) with
  | some r => return t.setRow p r
  | none => throw "assert(found)"

/-- `Par::getVictim(candidates)`: the first candidate way that no partition owns. -/
def getVictim (t : ParTables ρ) (candidates : List Nat) : Except String Nat := do
  unless candidates ≠ [] do throw "assert(candidates.size() != 0)"
  match candidates.find? fun w => (getOwners t w).isEmpty with
  | some w => return w
  | none => throw "assert(false)"

/-- `Par::getVictim(candidates, par_id)`: the wrapped policy's victim among the
candidate ways partition `p` owns, which must be all `par_config[p]` of them. -/
def getVictimPar (t : ParTables ρ) (candidates : List Nat) (p : Nat) : Except String Nat := do
  unless p < parConfig.length do throw "assert(par_id < par_config.size())"
  unless candidates ≠ [] do throw "assert(candidates.size() != 0)"
  let parCandidates ← (candidates.filter (t.owner p)).mapM fun w =>
    match getReplacementData t w p with
    | some d => pure (w, d)
    | none => throw "assert(par_candidate->replacementData != nullptr)"
  unless (parCandidates.length : Int) = parConfig.getD p 0 do
    throw "assert(par_candidates.size() == par_config[par_id])"
  match policy.getVictim parCandidates with
  | none => throw "assert(candidates.size() > 0)"
  | some victimWay =>
      match candidates.find? (· = victimWay) with
      | some w => return w
      | none => throw "assert(false)"

/-- `Par::parAvail`: whether partition `p` has a free slot. -/
def parAvail (t : ParTables ρ) (p : Nat) : Except String Bool := do
  unless p < parConfig.length do throw "assert(par_id < par_config.size())"
  unless (t.count p : Int) ≤ parConfig.getD p 0 do throw "assert(count <= par_config[par_id])"
  return (t.count p : Int) < parConfig.getD p 0

/-- `Par::parHit`: whether partition `p` owns way `w`. -/
def parHit (t : ParTables ρ) (w p : Nat) : Except String Bool := do
  unless p < parConfig.length do throw "assert(par_id < par_config.size())"
  return t.owner p w

/-- The tables `Par::instantiateEntry` creates at the first way of a set:
`par_config[p]` empty slots per partition and an all-false owner matrix. -/
def newTables (numWay : Nat) : ParTables ρ :=
  ⟨parConfig.map fun size => List.replicate size.toNat ⟨-1, policy.instantiateEntry⟩,
    List.replicate parConfig.length (List.replicate numWay false)⟩

/-- `Par` as the replacement policy of one set. The plain `touch` and `reset` are
`fatal` in `Par`. -/
def parSet : SetPolicy (ParTables ρ) where
  invalidate t w := (fun _ => t) <$> invalidate t w
  invalidatePar := invalidatePar policy parConfig
  touch _ _ _ := .error "fatal: Wrong version of touch() called in Par replacement policy"
  touchPar := touchPar policy parConfig
  reset _ _ _ := .error "fatal: Wrong version of reset() called in Par replacement policy"
  resetPar := resetPar policy parConfig
  getVictim := getVictim
  getVictimPar := getVictimPar policy parConfig
  parAvail := parAvail parConfig
  parHit := parHit parConfig

/-! ## What a successful call does -/

theorem touchReplData_eq_ok {now : Nat} {t t' : ParTables ρ} {w p : Nat}
    (h : touchReplData policy now t w p = .ok t') :
    ∃ r, updateFirst (fun e => decide (e.wayIndex = (w : Int)))
        (fun e => { e with replData := policy.touch now e.replData }) (t.row p) = some r ∧
      t' = t.setRow p r := by
  unfold touchReplData at h
  split at h
  · cases h
    exact ⟨_, ‹_›, rfl⟩
  · cases h

theorem invalidatePar_eq_ok {t t' : ParTables ρ} {w p : Nat}
    (h : invalidatePar policy parConfig t w p = .ok t') :
    p < parConfig.length ∧ t.owner p w = true ∧
      ∃ r, updateFirst (fun e => decide (e.wayIndex = (w : Int)))
          (fun e => ⟨-1, policy.invalidate e.replData⟩) (t.row p) = some r ∧
        t' = (t.setOwner p w false).setRow p r := by
  simp only [invalidatePar, except_assert_eq_ok] at h
  obtain ⟨hp, hown, h⟩ := h
  refine ⟨hp, hown, ?_⟩
  split at h
  · exact ⟨_, ‹_›, (except_pure_eq_ok.mp h).symm⟩
  · exact absurd h except_throw_ne_ok

theorem resetPar_eq_ok {now : Nat} {t t' : ParTables ρ} {w p : Nat}
    (h : resetPar policy parConfig now t w p = .ok t') :
    p < parConfig.length ∧ (getOwners t w).length = 0 ∧
      ∃ r, updateFirst (fun e => decide (e.wayIndex = -1))
          (fun e => ⟨(w : Int), policy.reset now e.replData⟩) (t.row p) = some r ∧
        t' = (t.setOwner p w true).setRow p r := by
  simp only [resetPar, except_assert_eq_ok] at h
  obtain ⟨hp, hown, -, h⟩ := h
  refine ⟨hp, hown, ?_⟩
  split at h
  · exact ⟨_, ‹_›, (except_pure_eq_ok.mp h).symm⟩
  · exact absurd h except_throw_ne_ok

theorem touchPar_eq_ok {now : Nat} {t t' : ParTables ρ} {w p : Nat}
    (h : touchPar policy parConfig now t w p = .ok t') :
    p < parConfig.length ∧
      ((t.owner p w = true ∧ touchReplData policy now t w p = .ok t') ∨
        (t.owner p w = false ∧ (t.count p : Int) < parConfig.getD p 0 ∧
          ∃ r, updateFirst (fun e => decide (e.wayIndex = -1))
              (fun e => ⟨(w : Int), policy.reset now e.replData⟩) (t.row p) = some r ∧
            touchReplData policy now ((t.setOwner p w true).setRow p r) w p = .ok t')) := by
  simp only [touchPar, except_assert_eq_ok] at h
  obtain ⟨hp, h⟩ := h
  refine ⟨hp, ?_⟩
  cases hown : t.owner p w
  · simp only [hown, Bool.false_eq_true, if_false, except_assert_eq_ok] at h
    obtain ⟨hcount, h⟩ := h
    refine .inr ⟨rfl, hcount, ?_⟩
    split at h
    · exact ⟨_, ‹_›, h⟩
    · exact absurd h except_throw_ne_ok
  · simp only [hown, if_true] at h
    exact .inl ⟨rfl, h⟩

theorem parAvail_eq {t : ParTables ρ} {p : Nat} (hp : p < parConfig.length)
    (hle : (t.count p : Int) ≤ parConfig.getD p 0) :
    parAvail parConfig t p = .ok (decide ((t.count p : Int) < parConfig.getD p 0)) := by
  simp only [parAvail, hp, hle, if_true]
  rfl

theorem parHit_eq {t : ParTables ρ} {w p : Nat} (hp : p < parConfig.length) :
    parHit parConfig t w p = .ok (t.owner p w) := by
  simp only [parHit, hp, if_true]
  rfl

theorem owner_eq_false_of_getOwners {t : ParTables ρ} {w : Nat}
    (h : (getOwners t w).length = 0) (p : Nat) : t.owner p w = false := by
  by_cases hp : p < t.ownerTable.length
  · have hnil := List.length_eq_zero_iff.mp h
    have hnot := List.filter_eq_nil_iff.mp hnil p (List.mem_range.mpr hp)
    simpa using hnot
  · simp [ParTables.owner, List.getD_eq_getElem?_getD, List.getElem?_eq_none (Nat.le_of_not_lt hp)]

/-! ## The agreement of the two tables -/

/-- The `OwnerTable` and the `ParTable` of a set describe the same ownership: a bit is
set exactly for the ways with an occupied slot, no way has two slots in a partition,
and every table has the size `instantiateEntry` gave it. -/
structure TablesInv (numWay : Nat) (t : ParTables ρ) : Prop where
  parTable_length : t.parTable.length = parConfig.length
  ownerTable_length : t.ownerTable.length = parConfig.length
  row_length : ∀ p < parConfig.length, (t.row p).length = (parConfig.getD p 0).toNat
  ownerRow_length : ∀ p < parConfig.length, (t.ownerTable.getD p []).length = numWay
  owner_iff : ∀ p (w : Nat), t.owner p w = true ↔ (w : Int) ∈ t.ownedWays p
  nonneg : ∀ p, ∀ x ∈ t.ownedWays p, 0 ≤ x
  nodup : ∀ p, (t.ownedWays p).Nodup

variable {parConfig} {numWay : Nat}

theorem tablesInv_newTables : TablesInv parConfig numWay (newTables policy parConfig numWay) := by
  have hkeys : ∀ p, (newTables policy parConfig numWay).ownedWays p = [] := by
    intro p
    simp only [ParTables.ownedWays, ParTables.row, newTables, keys, List.getD_eq_getElem?_getD,
      List.getElem?_map]
    cases parConfig[p]? <;> simp
  refine ⟨by simp [newTables], by simp [newTables], ?_, ?_, ?_, ?_, ?_⟩
  · intro p hp
    simp [ParTables.row, newTables, List.getD_eq_getElem?_getD, hp]
  · intro p hp
    simp [newTables, List.getD_eq_getElem?_getD, hp]
  · intro p w
    simp only [hkeys, List.not_mem_nil, iff_false, Bool.not_eq_true]
    simp only [ParTables.owner, newTables, List.getD_eq_getElem?_getD, List.getElem?_replicate]
    split
    · simp only [Option.getD_some, List.getElem?_replicate]
      split <;> rfl
    · rfl
  · simp [hkeys]
  · simp [hkeys]

/-- A row replaced in place of partition `p`, together with the owner bit of way
`w`, keeps the invariant when the new row's occupied ways are the old ones with `w`
set according to the bit. -/
theorem tablesInv_update {t : ParTables ρ} (hi : TablesInv parConfig numWay t) {p w : Nat}
    (hp : p < parConfig.length) (hw : w < numWay) {b : Bool} {r : List (ParEntry ρ)}
    (hlen : r.length = (t.row p).length)
    (hmem : ∀ x : Nat, (x : Int) ∈ keys ParEntry.wayIndex (-1) r ↔
      if x = w then b = true else (x : Int) ∈ t.ownedWays p)
    (hnonneg : ∀ x ∈ keys ParEntry.wayIndex (-1) r, 0 ≤ x)
    (hnodup : (keys ParEntry.wayIndex (-1) r).Nodup) :
    TablesInv parConfig numWay ((t.setOwner p w b).setRow p r) := by
  have hpt : p < (t.setOwner p w b).parTable.length := by simp [hi.parTable_length, hp]
  have hwt : w < (t.ownerTable.getD p []).length := by rw [hi.ownerRow_length p hp]; exact hw
  refine ⟨by simp [hi.parTable_length], by simp [hi.ownerTable_length], ?_, ?_, ?_, ?_, ?_⟩
  · intro q hq
    rw [ParTables.row_setRow _ hpt]
    split
    · subst q
      rw [hlen, hi.row_length p hp]
    · exact hi.row_length q hq
  · intro q hq
    rw [ParTables.ownerTable_setRow, ParTables.ownerRow_setOwner]
    split
    · subst q
      rw [List.length_set, hi.ownerRow_length p hp]
    · exact hi.ownerRow_length q hq
  · intro q x
    rw [ParTables.owner_setRow, ParTables.owner_setOwner t hwt, ParTables.ownedWays_setRow _ hpt]
    by_cases hq : q = p
    · subst q
      by_cases hx : x = w
      · simp [hx, hmem]
      · simp only [hx, and_false, if_false, if_true, hmem x]
        exact hi.owner_iff _ x
    · simp only [hq, false_and, if_false, ParTables.ownedWays_setOwner]
      exact hi.owner_iff q x
  · intro q x hx
    rw [ParTables.ownedWays_setRow _ hpt] at hx
    split at hx
    · exact hnonneg x hx
    · exact hi.nonneg q x hx
  · intro q
    rw [ParTables.ownedWays_setRow _ hpt]
    split
    · exact hnodup
    · exact hi.nodup q

/-- A row replaced by one with the same occupied ways keeps the invariant. -/
theorem tablesInv_setRow_keep {t : ParTables ρ} (hi : TablesInv parConfig numWay t) {p : Nat}
    (hp : p < parConfig.length) {r : List (ParEntry ρ)} (hlen : r.length = (t.row p).length)
    (hkeys : keys ParEntry.wayIndex (-1) r = t.ownedWays p) :
    TablesInv parConfig numWay (t.setRow p r) := by
  have hpt : p < t.parTable.length := by rw [hi.parTable_length]; exact hp
  refine ⟨by simp [hi.parTable_length], hi.ownerTable_length, ?_, hi.ownerRow_length, ?_, ?_, ?_⟩
  · intro q hq
    rw [ParTables.row_setRow _ hpt]
    split
    · subst q
      rw [hlen, hi.row_length p hp]
    · exact hi.row_length q hq
  · intro q x
    rw [ParTables.owner_setRow, ParTables.ownedWays_setRow _ hpt]
    split
    · subst q
      rw [hkeys]
      exact hi.owner_iff p x
    · exact hi.owner_iff q x
  · intro q x hx
    rw [ParTables.ownedWays_setRow _ hpt] at hx
    split at hx
    · subst q
      rw [hkeys] at hx
      exact hi.nonneg p x hx
    · exact hi.nonneg q x hx
  · intro q
    rw [ParTables.ownedWays_setRow _ hpt]
    split
    · subst q
      rw [hkeys]
      exact hi.nodup p
    · exact hi.nodup q

theorem tablesInv_touchReplData {now : Nat} {t t' : ParTables ρ}
    (hi : TablesInv parConfig numWay t) {w p : Nat} (hp : p < parConfig.length)
    (h : touchReplData policy now t w p = .ok t') : TablesInv parConfig numWay t' := by
  obtain ⟨r, hr, rfl⟩ := touchReplData_eq_ok policy h
  exact tablesInv_setRow_keep hi hp (length_of_updateFirst hr)
    (keys_of_updateFirst_keep hr fun _ => rfl)

/-- Filling a free slot of partition `p` with an unowned way `w` and setting its bit
keeps the invariant. -/
theorem tablesInv_fill {t : ParTables ρ} (hi : TablesInv parConfig numWay t) {p w : Nat}
    (hp : p < parConfig.length) (hw : w < numWay) (hown : t.owner p w = false)
    {f : ParEntry ρ → ParEntry ρ} (hf : ∀ e, (f e).wayIndex = (w : Int)) {r : List (ParEntry ρ)}
    (hr : updateFirst (fun e => decide (e.wayIndex = -1)) f (t.row p) = some r) :
    TablesInv parConfig numWay ((t.setOwner p w true).setRow p r) := by
  have hw1 : (w : Int) ≠ -1 := by omega
  have hperm := keys_of_updateFirst_fill hr hw1 hf
  have hnot : (w : Int) ∉ t.ownedWays p := fun hmem => by
    simp [(hi.owner_iff p w).mpr hmem] at hown
  refine tablesInv_update hi hp hw (length_of_updateFirst hr) ?_ ?_ ?_
  · intro x
    rw [hperm.mem_iff, List.mem_cons]
    by_cases hx : x = w
    · simp [hx]
    · have hxw : (x : Int) ≠ w := by omega
      simp [hx, hxw, ParTables.ownedWays]
  · intro x hx
    rcases List.mem_cons.mp (hperm.mem_iff.mp hx) with rfl | hx
    · omega
    · exact hi.nonneg p x hx
  · exact hperm.nodup_iff.mpr (List.nodup_cons.mpr ⟨hnot, hi.nodup p⟩)

/-- The owner bit of a way is readable only inside the owner row. -/
theorem lt_of_owner {t : ParTables ρ} (hi : TablesInv parConfig numWay t) {p w : Nat}
    (h : t.owner p w = true) : p < parConfig.length ∧ w < numWay := by
  have hp : p < parConfig.length := by
    by_contra hp
    have hnone : t.ownerTable[p]? = none :=
      List.getElem?_eq_none (by rw [hi.ownerTable_length]; exact Nat.le_of_not_lt hp)
    simp [ParTables.owner, List.getD_eq_getElem?_getD, hnone] at h
  refine ⟨hp, ?_⟩
  by_contra hw
  have hnone : (t.ownerTable.getD p [])[w]? = none :=
    List.getElem?_eq_none (by rw [hi.ownerRow_length p hp]; exact Nat.le_of_not_lt hw)
  rw [ParTables.owner, List.getD_eq_getElem?_getD, hnone] at h
  simp at h

theorem tablesInv_invalidatePar {t t' : ParTables ρ} (hi : TablesInv parConfig numWay t) {w p : Nat}
    (h : invalidatePar policy parConfig t w p = .ok t') : TablesInv parConfig numWay t' := by
  obtain ⟨hp, hown, r, hr, rfl⟩ := invalidatePar_eq_ok policy parConfig h
  have hw := (lt_of_owner hi hown).2
  have hw1 : (w : Int) ≠ -1 := by omega
  have herase := keys_of_updateFirst_clear hr hw1 fun _ => rfl
  refine tablesInv_update hi hp hw (length_of_updateFirst hr) ?_ ?_ ?_
  · intro x
    rw [herase]
    by_cases hx : x = w
    · subst hx
      rw [if_pos rfl]
      simp only [Bool.false_eq_true, iff_false]
      exact (hi.nodup p).not_mem_erase
    · have hxw : (x : Int) ≠ w := by omega
      simp [hx, List.mem_erase_of_ne hxw, ParTables.ownedWays]
  · intro x hx
    rw [herase] at hx
    exact hi.nonneg p x (List.mem_of_mem_erase hx)
  · rw [herase]
    exact (hi.nodup p).erase _

theorem tablesInv_resetPar {now : Nat} {t t' : ParTables ρ} (hi : TablesInv parConfig numWay t)
    {w p : Nat} (hw : w < numWay) (h : resetPar policy parConfig now t w p = .ok t') :
    TablesInv parConfig numWay t' := by
  obtain ⟨hp, howners, r, hr, rfl⟩ := resetPar_eq_ok policy parConfig h
  exact tablesInv_fill hi hp hw (owner_eq_false_of_getOwners howners p) (fun _ => rfl) hr

theorem tablesInv_touchPar {now : Nat} {t t' : ParTables ρ} (hi : TablesInv parConfig numWay t)
    {w p : Nat} (hw : w < numWay) (h : touchPar policy parConfig now t w p = .ok t') :
    TablesInv parConfig numWay t' := by
  obtain ⟨hp, ⟨-, htouch⟩ | ⟨hown, -, r, hr, htouch⟩⟩ := touchPar_eq_ok policy parConfig h
  · exact tablesInv_touchReplData policy hi hp htouch
  · exact tablesInv_touchReplData policy (tablesInv_fill hi hp hw hown (fun _ => rfl) hr) hp htouch

/-! ## Call sequences -/

/-- A call of one of the three mutators of `Par` on the set. -/
inductive ParCall
  | reset (now w p : Nat)
  | touch (now w p : Nat)
  | invalidate (w p : Nat)
  deriving DecidableEq, Repr

/-- The way whose `ParReplData` the call receives. -/
def ParCall.way : ParCall → Nat
  | .reset _ w _ => w
  | .touch _ w _ => w
  | .invalidate w _ => w

variable (parConfig) in
def applyCall (t : ParTables ρ) : ParCall → Except String (ParTables ρ)
  | .reset now w p => resetPar policy parConfig now t w p
  | .touch now w p => touchPar policy parConfig now t w p
  | .invalidate w p => invalidatePar policy parConfig t w p

variable (parConfig) in
/-- The calls in order; the first failed assertion ends the run. -/
def runCalls : List ParCall → ParTables ρ → Except String (ParTables ρ)
  | [], t => .ok t
  | c :: cs, t => applyCall policy parConfig t c >>= runCalls cs

theorem tablesInv_applyCall {t t' : ParTables ρ} (hi : TablesInv parConfig numWay t) {c : ParCall}
    (hw : c.way < numWay) (h : applyCall policy parConfig t c = .ok t') :
    TablesInv parConfig numWay t' := by
  cases c with
  | reset now w p => exact tablesInv_resetPar policy hi hw h
  | touch now w p => exact tablesInv_touchPar policy hi hw h
  | invalidate w p => exact tablesInv_invalidatePar policy hi h

/-- The invariant holds after every call sequence in which no assertion fails. -/
theorem tablesInv_of_runCalls {calls : List ParCall} (hw : ∀ c ∈ calls, c.way < numWay) :
    ∀ {t t' : ParTables ρ}, TablesInv parConfig numWay t →
      runCalls policy parConfig calls t = .ok t' → TablesInv parConfig numWay t' := by
  induction calls with
  | nil =>
      intro t t' hi h
      cases h
      exact hi
  | cons c cs ih =>
      intro t t' hi h
      obtain ⟨t₁, h₁, h₂⟩ := except_bind_eq_ok.mp h
      exact ih (fun c hc => hw c (List.mem_cons_of_mem _ hc))
        (tablesInv_applyCall policy hi (hw c (List.mem_cons_self ..)) h₁) h₂

/-! ## What the agreement gives -/

/-- The owner bit of a way is set exactly when one slot of the partition holds it. -/
theorem owner_iff_count_eq_one {t : ParTables ρ} (hi : TablesInv parConfig numWay t) (p w : Nat) :
    t.owner p w = true ↔ ((t.row p).map (·.wayIndex)).count (w : Int) = 1 := by
  have hw : (w : Int) ≠ -1 := by omega
  have hcount : ((t.row p).map (·.wayIndex)).count (w : Int) = (t.ownedWays p).count (w : Int) := by
    simp only [ParTables.ownedWays, keys]
    rw [List.count_filter (by simp [hw])]
  rw [hi.owner_iff, hcount, (hi.nodup p).count]
  split <;> simp_all

/-- The partition's occupied slots are the ways whose owner bit is set. -/
theorem length_ownedWays_eq {t : ParTables ρ} (hi : TablesInv parConfig numWay t) (p : Nat) :
    (t.ownedWays p).length = ((List.range numWay).filter (t.owner p)).length := by
  have hnodup : (((List.range numWay).filter (t.owner p)).map (fun n : Nat => (n : Int))).Nodup :=
    (List.nodup_range.filter _).map fun _ _ h => Int.ofNat_inj.mp h
  have hperm : (((List.range numWay).filter (t.owner p)).map (fun n : Nat => (n : Int))).Perm
      (t.ownedWays p) := by
    refine (List.perm_ext_iff_of_nodup hnodup (hi.nodup p)).mpr fun x => ?_
    constructor
    · intro hx
      obtain ⟨n, hn, rfl⟩ := List.mem_map.mp hx
      exact (hi.owner_iff p n).mp (List.mem_filter.mp hn).2
    · intro hx
      obtain ⟨n, rfl⟩ := Int.eq_ofNat_of_zero_le (hi.nonneg p x hx)
      have hown := (hi.owner_iff p n).mpr hx
      exact List.mem_map.mpr ⟨n, List.mem_filter.mpr ⟨List.mem_range.mpr (lt_of_owner hi hown).2, hown⟩, rfl⟩
  rw [← hperm.length_eq, List.length_map]

/-- `parAvail` and `parHit` answer from the `ParTable` when the tables agree. -/
theorem parAvail_parHit_of_tablesInv {t : ParTables ρ} (hi : TablesInv parConfig numWay t)
    (hcfg : ∀ size ∈ parConfig, 0 ≤ size) {p : Nat} (hp : p < parConfig.length) :
    (t.count p : Int) ≤ parConfig.getD p 0 ∧
      parAvail parConfig t p =
        .ok (decide ((((List.range numWay).filter (t.owner p)).length : Int) < parConfig.getD p 0)) ∧
      ∀ w, parHit parConfig t w p = .ok (decide ((w : Int) ∈ t.ownedWays p)) := by
  have hsize : 0 ≤ parConfig.getD p 0 := by
    rw [List.getD_eq_getElem?_getD, List.getElem?_eq_getElem hp, Option.getD_some]
    exact hcfg _ (List.getElem_mem hp)
  have hle : (t.count p : Int) ≤ parConfig.getD p 0 := by
    have hcount : t.count p ≤ (t.row p).length := List.length_filter_le _ _
    rw [hi.row_length p hp] at hcount
    omega
  refine ⟨hle, ?_, fun w => ?_⟩
  · rw [parAvail_eq parConfig hp hle, ParTables.count_eq_length_ownedWays, length_ownedWays_eq hi]
  · rw [parHit_eq parConfig hp]
    congr 1
    rw [Bool.eq_iff_iff, decide_eq_true_iff]
    exact hi.owner_iff p w

/-- `Par::Par`'s `fatal_if`: the partition sizes add up to the number of ways. -/
def ctorAccepts (parConfig : List Int) (numWay : Nat) : Bool := parConfig.sum = numWay

/-! ## `Par` as the policy of a cache set

What `CacheMemory` can do to the tables through `parSet`: the plain calls change
nothing, the calls of every partition keep the agreement of the two tables, and the
calls of partition `q` leave every other partition's row alone. -/

variable (parConfig)

/-- The plain `invalidate` only checks the tables, and the plain `touch` and `reset`
are fatal, so no plain call changes the tables. -/
theorem parSet_keepsPlain (n : Nat) (J : ParTables ρ → Prop) :
    (parSet policy parConfig).KeepsPlain n J where
  invalidate _ hs h := by
    obtain ⟨_, -, rfl⟩ := except_map_eq_ok.mp h
    exact hs
  touch _ _ h := by cases h
  reset _ _ h := by cases h

theorem parSet_keepsPar_tablesInv (q : Nat) :
    (parSet policy parConfig).KeepsPar numWay q (TablesInv parConfig numWay) where
  invalidatePar _ hs h := tablesInv_invalidatePar policy hs h
  touchPar hw hs h := tablesInv_touchPar policy hs hw h
  resetPar hw hs h := tablesInv_resetPar policy hs hw h

/-- The calls on partition `q` never change the row of another partition `p`. -/
theorem parSet_keepsPar_rowsOf {p q : Nat} (hpq : p ≠ q) (n : Nat)
    (x : List (ParEntry ρ) × List Bool) :
    (parSet policy parConfig).KeepsPar n q (fun t => t.rowsOf p = x) where
  invalidatePar _ hs h := by
    obtain ⟨-, -, r, -, rfl⟩ := invalidatePar_eq_ok policy parConfig h
    simpa [hpq] using hs
  touchPar _ hs h := by
    obtain ⟨-, ⟨-, htouch⟩ | ⟨-, -, r, -, htouch⟩⟩ := touchPar_eq_ok policy parConfig h
    · obtain ⟨r', -, rfl⟩ := touchReplData_eq_ok policy htouch
      simpa [hpq] using hs
    · obtain ⟨r', -, rfl⟩ := touchReplData_eq_ok policy htouch
      simpa [hpq] using hs
  resetPar _ hs h := by
    obtain ⟨-, -, r, -, rfl⟩ := resetPar_eq_ok policy parConfig h
    simpa [hpq] using hs

end Methods

/-- For partition sizes that are not negative, the two tables agree after every
sequence of `reset`, `touch` and `invalidate` calls on the ways of a set in which no
assertion fails, and `parAvail`, `parHit` read off the `ParTable`. -/
theorem parTables_agree_after_calls (policy : ReplacementPolicy ρ) {parConfig : List Int}
    {numWay : Nat} (hcfg : ∀ size ∈ parConfig, 0 ≤ size) {calls : List ParCall}
    (hw : ∀ c ∈ calls, c.way < numWay) {t : ParTables ρ}
    (hrun : runCalls policy parConfig calls (newTables policy parConfig numWay) = .ok t) :
    ∀ p < parConfig.length,
      (∀ w < numWay, t.owner p w = true ↔ ((t.row p).map (·.wayIndex)).count (w : Int) = 1) ∧
      (((t.row p).map (·.wayIndex)).filter (· ≠ -1)).Nodup ∧
      (((t.row p).filter fun e => e.wayIndex ≠ -1).length : Int) ≤ parConfig.getD p 0 ∧
      parAvail parConfig t p =
        .ok (decide ((((List.range numWay).filter (t.owner p)).length : Int) < parConfig.getD p 0)) ∧
      ∀ w, parHit parConfig t w p =
        .ok (decide ((w : Int) ∈ ((t.row p).map (·.wayIndex)).filter (· ≠ -1))) := by
  have hi : TablesInv parConfig numWay t :=
    tablesInv_of_runCalls policy hw (tablesInv_newTables policy) hrun
  intro p hp
  obtain ⟨hle, havail, hhit⟩ := parAvail_parHit_of_tablesInv hi hcfg hp
  exact ⟨fun w _ => owner_iff_count_eq_one hi p w, hi.nodup p, hle, havail, hhit⟩

/-- Two partitions of one slot each on a set of two ways: way 0 enters partition 0
and is shared with partition 1, partition 0 gives it up and takes way 1. -/
def exampleCalls : List ParCall := [.reset 1 0 0, .touch 2 0 1, .invalidate 0 0, .touch 3 1 0]

def exampleTables : ParTables Nat := ⟨[[⟨1, 3⟩], [⟨0, 2⟩]], [[false, true], [true, false]]⟩

theorem parTables_agree_after_exampleCalls :
    (∀ size ∈ [(1 : Int), 1], 0 ≤ size) ∧ (∀ c ∈ exampleCalls, c.way < 2) ∧
    runCalls lru [1, 1] exampleCalls (newTables lru [1, 1] 2) = .ok exampleTables ∧
    ∀ p < [(1 : Int), 1].length,
      (∀ w < 2, exampleTables.owner p w = true ↔
        ((exampleTables.row p).map (·.wayIndex)).count (w : Int) = 1) ∧
      (((exampleTables.row p).map (·.wayIndex)).filter (· ≠ -1)).Nodup ∧
      (((exampleTables.row p).filter fun e => e.wayIndex ≠ -1).length : Int) ≤ [(1 : Int), 1].getD p 0 ∧
      parAvail [1, 1] exampleTables p =
        .ok (decide ((((List.range 2).filter (exampleTables.owner p)).length : Int) <
          [(1 : Int), 1].getD p 0)) ∧
      ∀ w, parHit [1, 1] exampleTables w p =
        .ok (decide ((w : Int) ∈ ((exampleTables.row p).map (·.wayIndex)).filter (· ≠ -1))) := by
  have hcfg : ∀ size ∈ [(1 : Int), 1], 0 ≤ size := by decide
  have hw : ∀ c ∈ exampleCalls, c.way < 2 := by decide
  have hrun : runCalls lru [1, 1] exampleCalls (newTables lru [1, 1] 2) = .ok exampleTables := rfl
  exact ⟨hcfg, hw, hrun, parTables_agree_after_calls lru hcfg hw hrun⟩

/-- `Par::Par` accepts the partition sizes `[-1, 2]` for a set of one way. Partition 0
gets no slot at all, so after a `reset` of the way into partition 1 its count of
occupied slots, `0`, exceeds its size `-1`. -/
theorem parTables_count_exceeds_negative_size :
    ctorAccepts [-1, 2] 1 = true ∧
      ∃ t, runCalls lru [-1, 2] [.reset 0 0 1] (newTables lru [-1, 2] 1) = .ok t ∧
        ¬ ((((t.row 0).filter fun e => e.wayIndex ≠ -1).length : Int) ≤ [(-1 : Int), 2].getD 0 0) :=
  ⟨by decide, _, rfl, by decide⟩

end Policy

end ParRP
