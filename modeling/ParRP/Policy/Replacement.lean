import Mathlib

/-!
# Replacement policies

`replacement_policy::Base` keeps one replacement-data record per cache entry and
offers `invalidate`, `touch`, `reset` and `getVictim` on it; `touch` and `reset`
read `curTick()`, which is passed here as `now`. `CacheMemory` calls the policy
with the way of an entry in its set, so a set's replacement state and the calls on
it are collected in `SetPolicy`. The `par_id` overloads of `Base` fall back to the
plain ones; `parAvail` and `parHit` exist only on `Par`, which `CacheMemory`
reaches through a `static_cast`.
-/

namespace ParRP

namespace Policy

/-- One replacement policy, as it acts on the replacement data of one entry. -/
structure ReplacementPolicy (ρ : Type) where
  instantiateEntry : ρ
  invalidate : ρ → ρ
  touch : Nat → ρ → ρ
  reset : Nat → ρ → ρ
  /-- The way of the victim among `(way, data)` candidates; `none` for no candidate. -/
  getVictim : List (Nat × ρ) → Option Nat

/-- The loop of `LRU::getVictim`: keep the first candidate with the least
`lastTouchTick`. -/
def lruVictim (victim : Nat × Nat) (candidates : List (Nat × Nat)) : Nat × Nat :=
  candidates.foldl (fun victim candidate => if candidate.2 < victim.2 then candidate else victim)
    victim

/-- `LRURP`: the replacement data is `lastTouchTick`. -/
def lru : ReplacementPolicy Nat where
  instantiateEntry := 0
  invalidate _ := 0
  touch now _ := now
  reset now _ := now
  getVictim
    | [] => none
    | candidate :: rest => some (lruVictim candidate (candidate :: rest)).1

/-- The loop keeps one of the entries it has seen. -/
theorem lruVictim_mem (victim : Nat × Nat) (candidates : List (Nat × Nat)) :
    lruVictim victim candidates = victim ∨ lruVictim victim candidates ∈ candidates := by
  induction candidates generalizing victim with
  | nil => exact .inl rfl
  | cons c cs ih =>
      simp only [lruVictim, List.foldl_cons] at ih ⊢
      rcases ih (if c.2 < victim.2 then c else victim) with h | h
      · rw [h]
        split_ifs
        · exact .inr (.head _)
        · exact .inl rfl
      · exact .inr (.tail _ h)

/-- `LRU::getVictim` returns one of the candidates it is given. -/
theorem lru_getVictim_mem {candidates : List (Nat × Nat)} (h : candidates ≠ []) :
    ∃ w ∈ candidates.map Prod.fst, lru.getVictim candidates = some w := by
  obtain ⟨c, cs, rfl⟩ := List.exists_cons_of_ne_nil h
  refine ⟨_, List.mem_map_of_mem ?_, rfl⟩
  rcases lruVictim_mem c (c :: cs) with hv | hv
  · rw [hv]
    exact .head _
  · exact hv

/-- The calls `CacheMemory` makes on the replacement policy of one set, by way
index; `par_id` comes last. -/
structure SetPolicy (σ : Type) where
  invalidate : σ → Nat → Except String σ
  invalidatePar : σ → Nat → Nat → Except String σ
  touch : Nat → σ → Nat → Except String σ
  touchPar : Nat → σ → Nat → Nat → Except String σ
  reset : Nat → σ → Nat → Except String σ
  resetPar : Nat → σ → Nat → Nat → Except String σ
  getVictim : σ → List Nat → Except String Nat
  getVictimPar : σ → List Nat → Nat → Except String Nat
  parAvail : σ → Nat → Except String Bool
  parHit : σ → Nat → Nat → Except String Bool

section Keeps

variable {σ : Type}

/-- A property `J` of the replacement state of a set of `n` ways that the plain calls
keep, on every way of the set. -/
structure SetPolicy.KeepsPlain (P : SetPolicy σ) (n : Nat) (J : σ → Prop) : Prop where
  invalidate : ∀ {s w s'}, w < n → J s → P.invalidate s w = .ok s' → J s'
  touch : ∀ {now s w s'}, w < n → J s → P.touch now s w = .ok s' → J s'
  reset : ∀ {now s w s'}, w < n → J s → P.reset now s w = .ok s' → J s'

/-- A property `J` that the calls on partition `q` keep, on every way of the set. -/
structure SetPolicy.KeepsPar (P : SetPolicy σ) (n q : Nat) (J : σ → Prop) : Prop where
  invalidatePar : ∀ {s w s'}, w < n → J s → P.invalidatePar s w q = .ok s' → J s'
  touchPar : ∀ {now s w s'}, w < n → J s → P.touchPar now s w q = .ok s' → J s'
  resetPar : ∀ {now s w s'}, w < n → J s → P.resetPar now s w q = .ok s' → J s'

end Keeps

/-- The message of a `static_cast<replacement_policy::Par*>` on another policy. -/
def notParMessage : String := "static_cast<replacement_policy::Par*> of a policy that is not Par"

/-- A policy of `Base` kept per way of a set; the `par_id` overloads fall back to the
plain calls. -/
def baseSet {ρ : Type} (policy : ReplacementPolicy ρ) : SetPolicy (List ρ) where
  invalidate data w := .ok (data.modify w policy.invalidate)
  invalidatePar data w _ := .ok (data.modify w policy.invalidate)
  touch now data w := .ok (data.modify w (policy.touch now))
  touchPar now data w _ := .ok (data.modify w (policy.touch now))
  reset now data w := .ok (data.modify w (policy.reset now))
  resetPar now data w _ := .ok (data.modify w (policy.reset now))
  getVictim data candidates :=
    match policy.getVictim (candidates.map fun w => (w, data.getD w policy.instantiateEntry)) with
    | some w => .ok w
    | none => .error "assert(candidates.size() > 0)"
  getVictimPar data candidates _ :=
    match policy.getVictim (candidates.map fun w => (w, data.getD w policy.instantiateEntry)) with
    | some w => .ok w
    | none => .error "assert(candidates.size() > 0)"
  parAvail _ _ := .error notParMessage
  parHit _ _ _ := .error notParMessage

/-- The replacement data of a fresh set of `assoc` ways. -/
def baseSetInit {ρ : Type} (policy : ReplacementPolicy ρ) (assoc : Nat) : List ρ :=
  List.replicate assoc policy.instantiateEntry

end Policy

end ParRP
