import Mathlib

/-!
# Peeling `Except` computations

The models write an assertion of the source as `unless c do throw msg` in an
`Except String` block. These lemmas take a successful block apart, so that proofs
about a function never unfold the monad.
-/

namespace ParRP

variable {ε α β : Type}

theorem except_bind_eq_ok {x : Except ε α} {f : α → Except ε β} {b : β} :
    x >>= f = .ok b ↔ ∃ a, x = .ok a ∧ f a = .ok b := by
  cases x <;> simp [bind, Except.bind]

/-- A passed assertion: `unless c do throw e` followed by the rest `x` of the block,
as the `do` notation lays it out, succeeded exactly when `c` held and `x` did. -/
theorem except_assert_eq_ok {c : Prop} [Decidable c] {e : ε} {x : Except ε β}
    {f : PUnit → Except ε β} {b : β} :
    (if c then x else throw e >>= f) = .ok b ↔ c ∧ x = .ok b := by
  by_cases hc : c <;> simp [hc, bind, Except.bind, throw, throwThe, MonadExceptOf.throw]

/-- A passed check: `if c then throw e` followed by the rest `x` of the block, as the
`do` notation lays it out, succeeded exactly when `c` failed and `x` succeeded. -/
theorem except_check_eq_ok {c : Prop} [Decidable c] {e : ε} {x : Except ε β}
    {f : PUnit → Except ε β} {b : β} :
    (if c then throw e >>= f else x) = .ok b ↔ ¬ c ∧ x = .ok b := by
  by_cases hc : c <;> simp [hc, bind, Except.bind, throw, throwThe, MonadExceptOf.throw]

@[simp] theorem except_pure_eq_ok {a b : α} : (pure a : Except ε α) = .ok b ↔ a = b := by
  simp [pure, Except.pure]

@[simp] theorem except_throw_ne_ok {e : ε} {b : α} : (throw e : Except ε α) ≠ .ok b := by
  simp [throw, throwThe, MonadExceptOf.throw]

theorem except_map_eq_ok {x : Except ε α} {f : α → β} {b : β} :
    f <$> x = .ok b ↔ ∃ a, x = .ok a ∧ f a = b := by
  cases x <;> simp [Functor.map, Except.map]

/-- `mapM` of a function that succeeds on every element, with the element as the first
component of its result. -/
theorem except_mapM_eq_ok_of_forall {f : α → Except ε (α × β)} {l : List α}
    (h : ∀ a ∈ l, ∃ b, f a = .ok (a, b)) : ∃ r, l.mapM f = .ok r ∧ r.map Prod.fst = l := by
  induction l with
  | nil => exact ⟨[], rfl, rfl⟩
  | cons a l ih =>
      obtain ⟨b, hb⟩ := h a (.head _)
      obtain ⟨r, hr, hfst⟩ := ih fun a' ha' => h a' (.tail _ ha')
      refine ⟨(a, b) :: r, ?_, by simp [hfst]⟩
      simp [List.mapM_cons, hb, hr, bind, Except.bind, pure, Except.pure]

/-- A `mapM` that keeps each element as its first component and succeeds on every one,
followed by a continuation that succeeds on whatever it returns. -/
theorem except_mapM_bind_exists {γ : Type} {f : α → Except ε (α × β)} {l : List α}
    {k : List (α × β) → Except ε γ} {P : γ → Prop} (h : ∀ a ∈ l, ∃ b, f a = .ok (a, b))
    (hk : ∀ r : List (α × β), r.map Prod.fst = l → ∃ c, k r = .ok c ∧ P c) :
    ∃ c, (l.mapM f >>= k) = .ok c ∧ P c := by
  obtain ⟨r, hr, hfst⟩ := except_mapM_eq_ok_of_forall h
  obtain ⟨c, hc, hP⟩ := hk r hfst
  exact ⟨c, by rw [hr]; exact hc, hP⟩

/-- A `mapM` whose every success on an element is `g` of it returns the map of `g`. -/
theorem except_mapM_eq_ok_map {f : α → Except ε β} {g : α → β} {l : List α} {r : List β}
    (h : ∀ a ∈ l, ∀ b, f a = .ok b → b = g a) (hr : l.mapM f = .ok r) : r = l.map g := by
  induction l generalizing r with
  | nil =>
      simp only [List.mapM_nil, except_pure_eq_ok] at hr
      exact hr.symm
  | cons a l ih =>
      simp only [List.mapM_cons, except_bind_eq_ok, except_pure_eq_ok] at hr
      obtain ⟨b, hb, bs, hbs, rfl⟩ := hr
      rw [h a (.head _) b hb, ih (fun a' ha' => h a' (.tail _ ha')) hbs, List.map_cons]

theorem except_bind_eq_error {x : Except ε α} {f : α → Except ε β} {e : ε} :
    x >>= f = .error e ↔ x = .error e ∨ ∃ a, x = .ok a ∧ f a = .error e := by
  cases x <;> simp [bind, Except.bind]

/-- An assertion followed by the rest `x` of the block failed with `e` exactly when the
assertion held and `x` failed with `e`, or the assertion failed with message `e`. -/
theorem except_assert_eq_error {c : Prop} [Decidable c] {e e' : ε} {x : Except ε β}
    {f : PUnit → Except ε β} :
    (if c then x else throw e' >>= f) = .error e ↔ (c ∧ x = .error e) ∨ (¬ c ∧ e' = e) := by
  by_cases hc : c <;> simp [hc, bind, Except.bind, throw, throwThe, MonadExceptOf.throw]

theorem except_check_eq_error {c : Prop} [Decidable c] {e e' : ε} {x : Except ε β}
    {f : PUnit → Except ε β} :
    (if c then throw e' >>= f else x) = .error e ↔ (c ∧ e' = e) ∨ (¬ c ∧ x = .error e) := by
  by_cases hc : c <;> simp [hc, bind, Except.bind, throw, throwThe, MonadExceptOf.throw]

@[simp] theorem except_pure_ne_error {a : α} {e : ε} : (pure a : Except ε α) ≠ .error e := by
  simp [pure, Except.pure]

theorem except_map_eq_error {x : Except ε α} {f : α → β} {e : ε} : f <$> x = .error e ↔ x = .error e := by
  cases x <;> simp [Functor.map, Except.map]

end ParRP
