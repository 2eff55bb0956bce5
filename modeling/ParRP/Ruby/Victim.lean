import ParRP.Policy.Par
import ParRP.Ruby.CacheMemory

/-!
# The victims of a partitioned LLC set

`Par::getVictim(candidates)` returns the first candidate no partition owns, and
`Par::getVictim(candidates, par_id)` hands the candidates partition `par_id` owns,
with their replacement data, to the wrapped policy and returns the candidate of the
way it picks. Each ends in an assertion when the way it looks for is not there.

An unowned way exists by pigeonhole while the partitions keep within their sizes:
ways may be shared, but the owned ways are no more than the partitions' counts
together, and these fall short of the sizes, whose sum is the number of ways, as soon
as one partition is short of its size. The LLC takes its `Phy_Replacement` branch in
just that case.
-/

namespace ParRP

namespace Policy

open Slots

variable {ρ : Type} {parConfig : List Int} {numWay : Nat}

theorem mem_getOwners {t : ParTables ρ} {w q : Nat} :
    q ∈ getOwners t w ↔ q < t.ownerTable.length ∧ t.owner q w = true := by
  simp [getOwners]

/-- Pigeonhole over the partitions. -/
theorem exists_unowned {t : ParTables ρ} (hi : TablesInv parConfig numWay t)
    (hcount : ∀ q < parConfig.length, (t.count q : Int) ≤ parConfig.getD q 0)
    (hsum : parConfig.sum = numWay) {p : Nat} (hp : p < parConfig.length)
    (hlt : (t.count p : Int) < parConfig.getD p 0) :
    ∃ w < numWay, getOwners t w = [] := by
  by_contra hall
  -- every way is owned, so the ways are no more than the counts together
  have hcover : numWay ≤ ((List.range parConfig.length).map fun q =>
      ((List.range numWay).filter (t.owner q)).length).sum := by
    simpa using length_le_sum_length_filter (fun q w => t.owner q w) (L := List.range numWay)
      (Q := List.range parConfig.length) fun w hw => by
        have hne : getOwners t w ≠ [] := fun h => hall ⟨w, List.mem_range.mp hw, h⟩
        obtain ⟨q, hq⟩ := List.exists_mem_of_ne_nil _ hne
        obtain ⟨hql, hown⟩ := mem_getOwners.mp hq
        exact ⟨q, List.mem_range.mpr (hi.ownerTable_length ▸ hql), hown⟩
  have hcounts : ((List.range parConfig.length).map fun q =>
      (((List.range numWay).filter (t.owner q)).length : Int)).sum <
        ((List.range parConfig.length).map fun q => parConfig.getD q 0).sum := by
    refine List.sum_lt_sum _ _ (fun q hq => ?_) ⟨p, List.mem_range.mpr hp, ?_⟩
    · rw [← length_ownedWays_eq hi, ← ParTables.count_eq_length_ownedWays]
      exact hcount q (List.mem_range.mp hq)
    · rw [← length_ownedWays_eq hi, ← ParTables.count_eq_length_ownedWays]
      exact hlt
  rw [map_getD_range, hsum] at hcounts
  have hcast : (numWay : Int) ≤ ((List.range parConfig.length).map fun q =>
      (((List.range numWay).filter (t.owner q)).length : Int)).sum :=
    calc (numWay : Int)
        ≤ (((List.range parConfig.length).map fun q => ((List.range numWay).filter (t.owner q)).length).sum :
            Nat) := by exact_mod_cast hcover
      _ = _ := by rw [Nat.cast_list_sum, List.map_map]; rfl
  omega

theorem getVictim_eq_ok_of_unowned {t : ParTables ρ} {candidates : List Nat} {w : Nat}
    (hw : w ∈ candidates) (hown : getOwners t w = []) :
    ∃ v, getVictim t candidates = .ok v ∧ v ∈ candidates ∧ ∀ q, t.owner q v = false := by
  have hne : candidates ≠ [] := List.ne_nil_of_mem hw
  obtain ⟨v, hv⟩ : ∃ v, candidates.find? (fun w => (getOwners t w).isEmpty) = some v :=
    Option.isSome_iff_exists.mp (List.find?_isSome.mpr ⟨w, hw, by simp [hown]⟩)
  have hvown : (getOwners t v).isEmpty = true := by simpa using List.find?_some hv
  refine ⟨v, ?_, List.mem_of_find?_eq_some hv, owner_eq_false_of_getOwners (by simpa using hvown)⟩
  simp [getVictim, hne, hv, pure, Except.pure]

/-- With distinct candidates among which are all the ways partition `p` owns, the
owned candidates are as many as the partition's occupied slots. -/
theorem length_filter_owner {t : ParTables ρ} (hi : TablesInv parConfig numWay t) {p : Nat}
    {candidates : List Nat} (hnodup : candidates.Nodup)
    (hcand : ∀ w, t.owner p w = true → w ∈ candidates) :
    (candidates.filter (t.owner p)).length = t.count p := by
  rw [ParTables.count_eq_length_ownedWays, length_ownedWays_eq hi]
  refine List.Perm.length_eq ((List.perm_ext_iff_of_nodup (hnodup.filter _) (List.nodup_range.filter _)).mpr
    fun w => ?_)
  simp only [List.mem_filter, List.mem_range]
  constructor
  · rintro ⟨-, hown⟩
    exact ⟨(lt_of_owner hi hown).2, hown⟩
  · rintro ⟨-, hown⟩
    exact ⟨hcand w hown, hown⟩

theorem getReplacementData_of_owner {t : ParTables ρ} (hi : TablesInv parConfig numWay t) {p w : Nat}
    (hown : t.owner p w = true) : ∃ d, getReplacementData t w p = some d := by
  obtain ⟨e, he, hew⟩ := (mem_keys_iff ParEntry.wayIndex (-1) (by omega)).mp ((hi.owner_iff p w).mp hown)
  obtain ⟨e', he'⟩ := Option.isSome_iff_exists.mp
    ((List.find?_isSome (p := fun e => decide (e.wayIndex = (w : Int)))).mpr ⟨e, he, by simp [hew]⟩)
  exact ⟨e'.replData, by simp [getReplacementData, he']⟩

/-- A way the partition owns can be invalidated: its slot is there to clear. -/
theorem invalidatePar_ok_of_owner (policy : ReplacementPolicy ρ) {t : ParTables ρ}
    (hi : TablesInv parConfig numWay t) {w p : Nat} (hown : t.owner p w = true) :
    ∃ t', invalidatePar policy parConfig t w p = .ok t' := by
  have hp := (lt_of_owner hi hown).1
  obtain ⟨e, he, hew⟩ := (mem_keys_iff ParEntry.wayIndex (-1) (by omega)).mp ((hi.owner_iff p w).mp hown)
  obtain ⟨r, hr⟩ := Option.isSome_iff_exists.mp
    (updateFirst_isSome_of_mem (fun e => ⟨-1, policy.invalidate e.replData⟩) he
      (p := fun e => decide (e.wayIndex = (w : Int))) (by simp [hew]))
  exact ⟨(t.setOwner p w false).setRow p r, by simp [invalidatePar, hp, hown, hr, pure, Except.pure]⟩

/-- `Par::getVictim(candidates, p)` on a full partition of at least one way, with
distinct candidates among which are all the ways the partition owns, returns one of
them, and `Par::invalidate` of it then succeeds, provided the wrapped policy returns one
of the candidates it is given. -/
theorem getVictimPar_returns_owned_candidate (policy : ReplacementPolicy ρ)
    (hpol : ∀ cs : List (Nat × ρ), cs ≠ [] → ∃ w ∈ cs.map Prod.fst, policy.getVictim cs = some w)
    {t : ParTables ρ} (hi : TablesInv parConfig numWay t) {p : Nat} (hp : p < parConfig.length)
    (hfull : (t.count p : Int) = parConfig.getD p 0) (hsize : 0 < parConfig.getD p 0)
    {candidates : List Nat} (hnodup : candidates.Nodup)
    (hcand : ∀ w, t.owner p w = true → w ∈ candidates) :
    ∃ w, getVictimPar policy parConfig t candidates p = .ok w ∧ w ∈ candidates ∧ t.owner p w = true ∧
      ∃ t', invalidatePar policy parConfig t w p = .ok t' := by
  have hlen := length_filter_owner hi hnodup hcand
  have hne : candidates ≠ [] := by
    rintro rfl
    simp only [List.filter_nil, List.length_nil] at hlen
    omega
  simp only [getVictimPar, hp, if_true, ne_eq, hne, not_false_eq_true]
  refine except_mapM_bind_exists (fun w hw => ?_) fun r hfst => ?_
  · obtain ⟨d, hd⟩ := getReplacementData_of_owner hi (List.mem_filter.mp hw).2
    exact ⟨d, by simp [hd, pure, Except.pure]⟩
  · -- the wrapped policy sees the owned candidates, as many as the partition's size
    have hrlen : (r.length : Int) = parConfig.getD p 0 := by
      rw [← hfull, ← hlen, ← hfst, List.length_map]
    have hrne : r ≠ [] := by
      rintro rfl
      rw [List.length_nil] at hrlen
      omega
    obtain ⟨v, hv, hvictim⟩ := hpol r hrne
    rw [hfst] at hv
    obtain ⟨hvc, hvown⟩ := List.mem_filter.mp hv
    obtain ⟨v', hv'⟩ := Option.isSome_iff_exists.mp
      (List.find?_isSome.mpr ⟨v, hvc, by simp⟩ : (candidates.find? (· = v)).isSome)
    have hvv : v' = v := by simpa using List.find?_some hv'
    subst hvv
    refine ⟨v', ?_, hvc, hvown, invalidatePar_ok_of_owner policy hi hvown⟩
    simp [hrlen, hvictim, hv', pure, Except.pure]

/-- After `exampleCalls` partition 0 of `[1, 1]` owns way 1 and is full; LRU over both
ways as candidates returns way 1. -/
theorem exampleTables_victim_owned :
    TablesInv [1, 1] 2 exampleTables ∧ (exampleTables.count 0 : Int) = [(1 : Int), 1].getD 0 0 ∧
      ∃ w, getVictimPar lru [1, 1] exampleTables [0, 1] 0 = .ok w ∧ w ∈ [0, 1] ∧ exampleTables.owner 0 w = true ∧
        ∃ t', invalidatePar lru [1, 1] exampleTables w 0 = .ok t' := by
  have hi : TablesInv [1, 1] 2 exampleTables :=
    tablesInv_of_runCalls lru (show ∀ c ∈ exampleCalls, c.way < 2 by decide) (tablesInv_newTables lru) rfl
  have hfull : (exampleTables.count 0 : Int) = [(1 : Int), 1].getD 0 0 := by decide
  have hcand : ∀ w, exampleTables.owner 0 w = true → w ∈ [0, 1] := by
    intro w hw
    have hw2 := (lt_of_owner hi hw).2
    simp only [List.mem_cons, List.not_mem_nil, or_false]
    omega
  exact ⟨hi, hfull, getVictimPar_returns_owned_candidate lru (fun _ h => lru_getVictim_mem h) hi (by decide) hfull
    (by decide) (by decide) hcand⟩

/-- A partition of size `0` is full from the start, and every way it owns (none) is a
candidate; `getVictim(candidates, 0)` then hands no candidate to `LRU::getVictim`,
whose assertion fails. -/
theorem getVictimPar_fails_on_empty_partition :
    ctorAccepts [0, 1] 1 = true ∧ (newTables lru [0, 1] 1).count 0 = 0 ∧
      (∀ w, (newTables lru [0, 1] 1).owner 0 w = false) ∧
      getVictimPar lru [0, 1] (newTables lru [0, 1] 1) [0] 0 = .error "assert(candidates.size() > 0)" :=
  ⟨by decide, by decide, fun w => by cases w <;> simp [newTables, ParTables.owner, List.getD_eq_getElem?_getD],
    by decide⟩

end Policy

namespace Ruby

open Policy

variable {ρ β : Type} {parConfig : List Int} {numWay : Nat}

/-- With no entry holding `a` and no way empty, `cacheAvail(a, p)` answers from
`parAvail(p)`. -/
theorem parAvail_of_cacheAvailPar (policy : ReplacementPolicy ρ) {c : CacheSet β (ParTables ρ)} {a p : Nat}
    (havail : c.cacheAvail a = false) (h : c.cacheAvailPar (parSet policy parConfig) a p = .ok true) :
    parAvail parConfig c.repl p = .ok true := by
  have hfind : c.findTag a = none := by
    simp only [CacheSet.findTag, List.findIdx?_eq_none_iff]
    intro e he
    have := List.any_eq_false.mp havail e he
    cases e with
    | none => simp at this
    | some e => simpa [CacheSet.holds] using this
  simpa [CacheSet.cacheAvailPar, CacheSet.isParHit, hfind, parSet, bind, Except.bind, pure, Except.pure] using h

theorem lt_of_parAvail_eq_true {t : ParTables ρ} {p : Nat} (h : parAvail parConfig t p = .ok true) :
    p < parConfig.length ∧ (t.count p : Int) < parConfig.getD p 0 := by
  simp only [parAvail, except_assert_eq_ok, except_pure_eq_ok, decide_eq_true_eq] at h
  exact ⟨h.1, h.2.2⟩

/-- Physical-victim existence. For tables that agree, with every partition within its
size and the sizes adding up to the number of ways: `Par::getVictim(candidates)`, given
every way as a candidate while some partition is short of its size, returns a
candidate no partition owns; and when the LLC takes its `Phy_Replacement` branch for a
request of core `p` (`cacheAvail(addr, p)` but not `cacheAvail(addr)`),
`cacheProbe(addr)` returns the address in a way no partition owns, provided no unowned
way is busy. -/
theorem unowned_victim_of_partition_slack (policy : ReplacementPolicy ρ) {t : ParTables ρ}
    (hi : TablesInv parConfig numWay t)
    (hcount : ∀ q < parConfig.length, (t.count q : Int) ≤ parConfig.getD q 0)
    (hsum : parConfig.sum = numWay) :
    (∀ p < parConfig.length, (t.count p : Int) < parConfig.getD p 0 →
      ∀ candidates : List Nat, (∀ w < numWay, w ∈ candidates) →
        ∃ w, getVictim t candidates = .ok w ∧ w ∈ candidates ∧ ∀ q, t.owner q w = false) ∧
    ∀ (c : CacheSet β (ParTables ρ)) (a p : Nat), c.repl = t → c.ways.length = numWay →
      c.cacheAvailPar (parSet policy parConfig) a p = .ok true → c.cacheAvail a = false →
      (∀ w < numWay, (∀ q, t.owner q w = false) → ∀ e, c.ways.getD w none = some e → e.busy = false) →
      ∃ w e, c.cacheProbe (parSet policy parConfig) a = .ok e.address ∧ c.ways.getD w none = some e ∧
        ∀ q, t.owner q w = false := by
  refine ⟨fun p hp hlt candidates hcand => ?_, fun c a p hrepl hways hpar havail hfree => ?_⟩
  · obtain ⟨w, hw, hown⟩ := exists_unowned hi hcount hsum hp hlt
    exact getVictim_eq_ok_of_unowned (hcand w hw) hown
  · subst hrepl
    obtain ⟨hp, hlt⟩ := lt_of_parAvail_eq_true (parAvail_of_cacheAvailPar policy havail hpar)
    obtain ⟨w, hw, hown⟩ := exists_unowned hi hcount hsum hp hlt
    -- every way holds an entry, so the unowned way is a candidate of the probe
    have hfull : ∀ x < c.ways.length, ∃ e, c.ways.getD x none = some e := by
      intro x hx
      have := List.any_eq_false.mp havail (c.ways[x]) (List.getElem_mem hx)
      cases hcx : c.ways[x] with
      | none => simp [hcx] at this
      | some e => exact ⟨e, by simp [List.getD_eq_getElem?_getD, List.getElem?_eq_getElem hx, hcx]⟩
    have hcandidate : ∀ x, x ∈ c.candidates ↔ ∃ e, c.ways.getD x none = some e ∧ e.busy = false := by
      intro x
      simp only [CacheSet.candidates, List.mem_filter, List.mem_range]
      constructor
      · rintro ⟨hx, hb⟩
        obtain ⟨e, he⟩ := hfull x hx
        rw [List.getD_eq_getElem?_getD] at he
        exact ⟨e, by rw [List.getD_eq_getElem?_getD, he], by simpa [he] using hb⟩
      · rintro ⟨e, he, hb⟩
        rw [List.getD_eq_getElem?_getD] at he
        have hx : x < c.ways.length := by
          by_contra hx
          simp [List.getElem?_eq_none (Nat.le_of_not_lt hx)] at he
        exact ⟨hx, by simp [he, hb]⟩
    obtain ⟨e, he⟩ := hfull w (hways ▸ hw)
    have hwc : w ∈ c.candidates :=
      (hcandidate w).mpr ⟨e, he, hfree w hw (owner_eq_false_of_getOwners (by simp [hown])) e he⟩
    obtain ⟨v, hv, hvc, hvown⟩ := getVictim_eq_ok_of_unowned hwc hown
    obtain ⟨ev, hev, -⟩ := (hcandidate v).mp hvc
    refine ⟨v, ev, ?_, hev, hvown⟩
    have hne : c.candidates ≠ [] := List.ne_nil_of_mem hwc
    rw [List.getD_eq_getElem?_getD] at hev
    simp [CacheSet.cacheProbe, havail, hne, parSet, hv, CacheSet.addressAt, hev, bind, Except.bind]

/-- One `reset` of way 0 into partition 0 of `[1, 1]` leaves partition 1 short and way 1
unowned; `Par::getVictim` over both ways returns it. -/
def slackTables : ParTables Nat := ⟨[[⟨0, 1⟩], [⟨-1, 0⟩]], [[true, false], [false, false]]⟩

theorem slackTables_unowned_victim :
    TablesInv [1, 1] 2 slackTables ∧
      (∀ q < [(1 : Int), 1].length, (slackTables.count q : Int) ≤ [(1 : Int), 1].getD q 0) ∧
      [(1 : Int), 1].sum = 2 ∧
      ∃ w, getVictim slackTables [0, 1] = .ok w ∧ w ∈ [0, 1] ∧ ∀ q, slackTables.owner q w = false := by
  have hi : TablesInv [1, 1] 2 slackTables :=
    tablesInv_of_runCalls lru (show ∀ c ∈ [ParCall.reset 1 0 0], c.way < 2 by decide) (tablesInv_newTables lru) rfl
  have hcount : ∀ q < [(1 : Int), 1].length, (slackTables.count q : Int) ≤ [(1 : Int), 1].getD q 0 := by decide
  have hsum : [(1 : Int), 1].sum = 2 := by decide
  exact ⟨hi, hcount, hsum, (@unowned_victim_of_partition_slack Nat Unit [1, 1] 2 lru slackTables hi hcount hsum).1
    1 (by decide) (by decide) [0, 1] (by decide)⟩

end Ruby

end ParRP
