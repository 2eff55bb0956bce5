import Mathlib

/-! # Round-robin search

A search over `n` ports in cyclic order from a start port, which stops at the first
port that is ready. `cyclicDist n a b` is how many steps the search takes from `a`
to reach `b`. The search returns the ready port of least distance
(`search_spec`, `search_isSome`), and a new start just past that port brings every
ready port the search skipped strictly closer (`search_next_closer`): the measure of
a round-robin arbiter's fairness.
-/

namespace ParRP

namespace RoundRobin

/-- The distance from port `a` to port `b` in cyclic order over `n` ports. -/
def cyclicDist (n a b : Nat) : Nat := if a ≤ b then b - a else n + b - a

/-- `k` steps of the search from port `j`: `j`, `j + 1 mod n`, and so on. -/
def search (ready : Nat → Bool) (n : Nat) : Nat → Nat → Option Nat
  | 0, _ => none
  | k + 1, j => if ready j then some j else search ready n k ((j + 1) % n)

variable {n : Nat}

theorem succ_mod_eq {j : Nat} (hj : j < n) : (j + 1) % n = if j + 1 = n then 0 else j + 1 := by
  split
  · next h => rw [h, Nat.mod_self]
  · next h => exact Nat.mod_eq_of_lt (by omega)

theorem succ_mod_lt {j : Nat} (hj : j < n) : (j + 1) % n < n := by
  rw [succ_mod_eq hj]
  split <;> omega

theorem cyclicDist_self (a : Nat) : cyclicDist n a a = 0 := by
  simp [cyclicDist]

theorem cyclicDist_lt {a b : Nat} (ha : a < n) (hb : b < n) : cyclicDist n a b < n := by
  unfold cyclicDist
  split <;> omega

/-- Distance is position: from one start, two ports at one distance are one port. -/
theorem cyclicDist_inj {a b c : Nat} (ha : a < n) (hb : b < n) (hc : c < n)
    (h : cyclicDist n a b = cyclicDist n a c) : b = c := by
  unfold cyclicDist at h
  split at h <;> split at h <;> omega

/-- One step of the search brings every other port one step closer. -/
theorem cyclicDist_succ {a b : Nat} (ha : a < n) (hb : b < n) (hne : b ≠ a) :
    cyclicDist n a b = cyclicDist n ((a + 1) % n) b + 1 := by
  rw [succ_mod_eq ha]
  unfold cyclicDist
  split_ifs <;> omega

/-- The search returns a ready port, before which no port of the cycle is ready. -/
theorem search_spec {ready : Nat → Bool} {k j p : Nat} (hj : j < n) (h : search ready n k j = some p) :
    p < n ∧ ready p = true ∧ cyclicDist n j p < k ∧
      ∀ q < n, cyclicDist n j q < cyclicDist n j p → ready q = false := by
  induction k generalizing j with
  | zero => simp [search] at h
  | succ k ih =>
      simp only [search] at h
      split at h
      · next hr =>
          cases h
          refine ⟨hj, hr, by simp [cyclicDist_self], fun q _ hq => ?_⟩
          simp [cyclicDist_self] at hq
      · next hr =>
          -- the rest of the search starts one port later
          obtain ⟨hp, hrp, hd, hbefore⟩ := ih (succ_mod_lt hj) h
          have hpj : p ≠ j := by rintro rfl; exact hr hrp
          rw [cyclicDist_succ hj hp hpj]
          refine ⟨hp, hrp, by omega, fun q hq hlt => ?_⟩
          by_cases hqj : q = j
          · subst hqj
            simpa using hr
          · rw [cyclicDist_succ hj hq hqj] at hlt
            exact hbefore q hq (by omega)

/-- A search long enough to reach a ready port finds one. -/
theorem search_isSome {ready : Nat → Bool} {k j q : Nat} (hj : j < n) (hq : q < n)
    (hr : ready q = true) (hd : cyclicDist n j q < k) : ∃ p, search ready n k j = some p := by
  induction k generalizing j with
  | zero => omega
  | succ k ih =>
      simp only [search]
      split
      · exact ⟨j, rfl⟩
      · next hrj =>
          have hqj : q ≠ j := by rintro rfl; exact hrj hr
          rw [cyclicDist_succ hj hq hqj] at hd
          exact ih (succ_mod_lt hj) (by omega)

/-- After the search from `a` stops at `p`, the search from the port past `p` is
closer to every port that lay beyond `p`. -/
theorem cyclicDist_next_lt {a p i : Nat} (ha : a < n) (hp : p < n) (hi : i < n)
    (hlt : cyclicDist n a p < cyclicDist n a i) :
    cyclicDist n ((p + 1) % n) i < cyclicDist n a i := by
  rw [succ_mod_eq hp]
  unfold cyclicDist at hlt ⊢
  split_ifs at hlt ⊢ <;> omega

/-- A search that stops at another port than a ready `q` stops before it, so the port
past the one found is closer to `q`. -/
theorem search_next_closer {ready : Nat → Bool} {k a p q : Nat} (ha : a < n) (hq : q < n)
    (hr : ready q = true) (h : search ready n k a = some p) (hne : p ≠ q) :
    cyclicDist n ((p + 1) % n) q < cyclicDist n a q := by
  obtain ⟨hp, -, -, hbefore⟩ := search_spec ha h
  have hle : cyclicDist n a p ≤ cyclicDist n a q := by
    by_contra hlt
    have hfalse := hbefore q hq (by omega)
    rw [hr] at hfalse
    exact Bool.noConfusion hfalse
  have hdist : cyclicDist n a p ≠ cyclicDist n a q := fun e => hne (cyclicDist_inj ha hp hq e)
  exact cyclicDist_next_lt ha hp hq (by omega)

end RoundRobin

end ParRP
