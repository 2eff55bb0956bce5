import Mathlib

/-!
# Runs of a fallible state machine

A component whose operations may fail is a step `σ → ο → Except ε (σ × List ω)`: from a
state, an operation fails or gives the next state and what it emits. A run applies the
operations in turn, collects what they emit, and stops at the first failure.

What a run keeps follows from what one step keeps:

* an invariant (`runOps_invariant`), or one indexed by a clock that the operations never
  move back (`runOps_clocked`);
* a failure that no step meets while a budget lasts, each operation spending its cost
  (`runOps_ne_error`);
* a balance of the contents against what goes in and what comes out, up to order
  (`runOps_perm`), or exactly, as a queue keeps it (`runOps_fifo`).
-/

open scoped List

namespace ParRP

namespace Run

variable {σ ο ε ω : Type} (step : σ → ο → Except ε (σ × List ω))

/-- The operations in turn, with everything they emit; the first failure ends the run. -/
def runOps : σ → List ο → Except ε (σ × List ω)
  | s, [] => .ok (s, [])
  | s, o :: os => step s o >>= fun r => (fun r' => (r'.1, r.2 ++ r'.2)) <$> runOps r.1 os

@[simp] theorem runOps_nil (s : σ) : runOps step s [] = .ok (s, []) := rfl

theorem runOps_cons_eq_ok {s s' : σ} {o : ο} {os : List ο} {outs : List ω} :
    runOps step s (o :: os) = .ok (s', outs) ↔
      ∃ s₁ out₁ out₂, step s o = .ok (s₁, out₁) ∧ runOps step s₁ os = .ok (s', out₂) ∧
        outs = out₁ ++ out₂ := by
  simp only [runOps]
  rcases step s o with e | ⟨s₁, out₁⟩
  · simp [bind, Except.bind]
  · rcases hr : runOps step s₁ os with e | ⟨s₂, out₂⟩
    · simp [hr, bind, Except.bind, Functor.map, Except.map]
    · simp [hr, bind, Except.bind, Functor.map, Except.map, eq_comm]

theorem runOps_cons_of_error {s : σ} {o : ο} {e : ε} (os : List ο) (h : step s o = .error e) :
    runOps step s (o :: os) = .error e := by
  simp [runOps, h, bind, Except.bind]

theorem runOps_cons_of_ok {s s₁ : σ} {o : ο} {out₁ : List ω} (os : List ο)
    (h : step s o = .ok (s₁, out₁)) :
    runOps step s (o :: os) = (fun r => (r.1, out₁ ++ r.2)) <$> runOps step s₁ os := by
  simp [runOps, h, bind, Except.bind]

section Invariants

variable {step}

/-- A property every step keeps holds at the end of every run. -/
theorem runOps_invariant {I : σ → Prop}
    (hstep : ∀ {s o s' out}, I s → step s o = .ok (s', out) → I s')
    {s s' : σ} {os : List ο} {outs : List ω} (hs : I s) (h : runOps step s os = .ok (s', outs)) :
    I s' := by
  induction os generalizing s outs with
  | nil =>
      cases h
      exact hs
  | cons o os ih =>
      obtain ⟨s₁, out₁, out₂, h₁, h₂, -⟩ := (runOps_cons_eq_ok step).mp h
      exact ih (hstep hs h₁) h₂

/-- An invariant that speaks of a time `t` and holds at every later time, kept by each
step made at a time not before `t`, holds after a run made in time order, at any time
not before the run. -/
theorem runOps_clocked (time : ο → Nat) {I : Nat → σ → Prop}
    (hmono : ∀ {t t' s}, t ≤ t' → I t s → I t' s)
    (hstep : ∀ {t s o s' out}, t ≤ time o → I t s → step s o = .ok (s', out) → I (time o) s')
    {t : Nat} {s s' : σ} {os : List ο} {outs : List ω} (hs : I t s)
    (hafter : ∀ o ∈ os, t ≤ time o) (hsorted : (os.map time).Pairwise (· ≤ ·))
    (h : runOps step s os = .ok (s', outs)) {t' : Nat} (ht : t ≤ t')
    (hbefore : ∀ o ∈ os, time o ≤ t') : I t' s' := by
  induction os generalizing t s outs with
  | nil =>
      cases h
      exact hmono ht hs
  | cons o os ih =>
      obtain ⟨s₁, out₁, out₂, h₁, h₂, -⟩ := (runOps_cons_eq_ok step).mp h
      rw [List.map_cons, List.pairwise_cons] at hsorted
      have hlater : ∀ o' ∈ os, time o ≤ time o' := fun o' ho' =>
        hsorted.1 _ (List.mem_map_of_mem ho')
      exact ih (hstep (hafter o (.head _)) hs h₁) hlater hsorted.2 h₂
        (hbefore o (.head _)) fun o' ho' => hbefore o' (.tail _ ho')

/-- A failure `e` that no step meets while its budget covers the operation's cost, with
the budget spent as the steps go, is never the failure of a run within the budget. -/
theorem runOps_ne_error (cost : ο → Nat) {I : Nat → σ → Prop} {e : ε}
    (hne : ∀ {k s o}, cost o ≤ k → I k s → step s o ≠ .error e)
    (hstep : ∀ {k s o s' out}, cost o ≤ k → I k s → step s o = .ok (s', out) → I (k - cost o) s')
    {k : Nat} {s : σ} {os : List ο} (hs : I k s) (hk : (os.map cost).sum ≤ k) :
    runOps step s os ≠ .error e := by
  induction os generalizing k s with
  | nil => simp
  | cons o os ih =>
      rw [List.map_cons, List.sum_cons] at hk
      have ho : cost o ≤ k := by omega
      rcases hr : step s o with e' | ⟨s₁, out₁⟩
      · rw [runOps_cons_of_error step os hr]
        intro he
        exact hne ho hs (hr.trans he)
      · rw [runOps_cons_of_ok step os hr]
        have hrest := ih (hstep ho hs hr) (by omega)
        rcases hrun : runOps step s₁ os with e'' | r
        · rw [hrun] at hrest
          simpa [Functor.map, Except.map] using hrest
        · simp [Functor.map, Except.map]

end Invariants

section Balance

variable {step} {β : Type} (contents : σ → List β) (input : ο → List β) (output : ω → β)

/-- When every step moves its input into the contents and its output out of them, up to
order, a run moves all its inputs in and all its outputs out: nothing is lost and
nothing duplicated. -/
theorem runOps_perm
    (hstep : ∀ {s o s' out}, step s o = .ok (s', out) →
      (contents s ++ input o).Perm (out.map output ++ contents s'))
    {s s' : σ} {os : List ο} {outs : List ω} (h : runOps step s os = .ok (s', outs)) :
    (contents s ++ os.flatMap input).Perm (outs.map output ++ contents s') := by
  induction os generalizing s outs with
  | nil =>
      cases h
      simp
  | cons o os ih =>
      obtain ⟨s₁, out₁, out₂, h₁, h₂, rfl⟩ := (runOps_cons_eq_ok step).mp h
      calc contents s ++ (o :: os).flatMap input
          _ = (contents s ++ input o) ++ os.flatMap input := by simp
          _ ~ (out₁.map output ++ contents s₁) ++ os.flatMap input := (hstep h₁).append_right _
          _ = out₁.map output ++ (contents s₁ ++ os.flatMap input) := List.append_assoc _ _ _
          _ ~ out₁.map output ++ (out₂.map output ++ contents s') := (ih h₂).append_left _
          _ = (out₁ ++ out₂).map output ++ contents s' := by simp

/-- When, from states with a property `I`, every step of a kind `P` keeps `I` and puts
its input behind the contents and takes its output from their front, a run of such
steps from such a state is a queue: what went in first comes out first. -/
theorem runOps_fifo {I : σ → Prop} {P : ο → Prop}
    (hstep : ∀ {s o s' out}, I s → P o → step s o = .ok (s', out) →
      I s' ∧ contents s ++ input o = out.map output ++ contents s')
    {s s' : σ} {os : List ο} {outs : List ω} (hs : I s) (hP : ∀ o ∈ os, P o)
    (h : runOps step s os = .ok (s', outs)) :
    contents s ++ os.flatMap input = outs.map output ++ contents s' := by
  induction os generalizing s outs with
  | nil =>
      cases h
      simp
  | cons o os ih =>
      obtain ⟨s₁, out₁, out₂, h₁, h₂, rfl⟩ := (runOps_cons_eq_ok step).mp h
      obtain ⟨hs₁, hbal⟩ := hstep hs (hP o (.head _)) h₁
      calc contents s ++ (o :: os).flatMap input
          _ = (contents s ++ input o) ++ os.flatMap input := by simp
          _ = out₁.map output ++ (contents s₁ ++ os.flatMap input) := by rw [hbal, List.append_assoc]
          _ = out₁.map output ++ (out₂.map output ++ contents s') :=
              by rw [ih hs₁ (fun o' ho' => hP o' (.tail _ ho')) h₂]
          _ = (out₁ ++ out₂).map output ++ contents s' := by simp

end Balance

end Run

end ParRP
