import Mathlib

/-!
# Priority order: sorted insertion and the first minimum

A priority queue kept as a list sorted by a total preorder `r`, new elements placed by
`List.orderedInsert`. An element inserted after everything it is compared with lands
behind it (`orderedInsert_append`), and elements inserted one after another, each
strictly after the one before, keep their order in the queue
(`append_sublist_foldl_orderedInsert`).

An arbiter that scans candidates for the least key, replacing the one it holds only by
a strictly smaller key, finds the first candidate of least key (`foldl_minStep_spec`).
-/

open scoped List

namespace ParRP

namespace Priority

section SortedInsert

variable {α : Type} (r : α → α → Prop) [DecidableRel r]

/-- Insertion passes over a prefix that stands strictly before the new element. -/
theorem orderedInsert_append {a : α} {l : List α} (h : ∀ y ∈ l, ¬ r a y) (Y : List α) :
    (l ++ Y).orderedInsert r a = l ++ Y.orderedInsert r a := by
  induction l with
  | nil => rfl
  | cons y l ih =>
      rw [List.cons_append, List.orderedInsert_of_not_le r _ (h y (.head _)),
        ih fun z hz => h z (.tail _ hz), List.cons_append]

theorem foldl_orderedInsert_perm (rs Y : List α) :
    (rs.foldl (fun Y a => Y.orderedInsert r a) Y).Perm (Y ++ rs) := by
  induction rs generalizing Y with
  | nil => simp
  | cons a rs ih =>
      calc (rs.foldl (fun Y a => Y.orderedInsert r a) (Y.orderedInsert r a))
          _ ~ Y.orderedInsert r a ++ rs := ih _
          _ ~ (a :: Y) ++ rs := (List.perm_orderedInsert r a Y).append_right rs
          _ ~ Y ++ a :: rs := List.perm_middle.symm

variable [IsTrans α r]

/-- Inserted behind a sublist of elements strictly before it, the new element stays
behind them. -/
theorem append_sublist_orderedInsert {a : α} {rs Y : List α} (hY : Y.Pairwise r) (hrs : rs <+ Y)
    (hlt : ∀ y ∈ rs, ¬ r a y) : rs ++ [a] <+ Y.orderedInsert r a := by
  induction Y generalizing rs with
  | nil =>
      rw [List.sublist_nil.mp hrs]
      exact .refl _
  | cons y Y ih =>
      by_cases hay : r a y
      · have hnil : rs = [] := List.eq_nil_iff_forall_not_mem.mpr fun z hz => by
          rcases List.mem_cons.mp (hrs.subset hz) with rfl | hzY
          · exact hlt z hz hay
          · exact hlt z hz (trans_of r hay (List.rel_of_pairwise_cons hY hzY))
        rw [hnil, List.orderedInsert_cons_of_le r _ hay]
        exact List.singleton_sublist.mpr (.head _)
      · rw [List.orderedInsert_of_not_le r _ hay]
        cases hrs with
        | cons _ h => exact .cons y (ih hY.of_cons h hlt)
        | cons_cons _ h => exact .cons_cons y (ih hY.of_cons h fun z hz => hlt z (.tail _ hz))

/-- Elements inserted in turn, each strictly after every one before it, appear in the
queue in the order they were inserted. -/
theorem append_sublist_foldl_orderedInsert {rs acc Y : List α} (hY : Y.Pairwise r) (hacc : acc <+ Y)
    (hrs : rs.Pairwise fun a b => ¬ r b a) (hlt : ∀ a ∈ rs, ∀ y ∈ acc, ¬ r a y)
    [Std.Total r] : acc ++ rs <+ rs.foldl (fun Y a => Y.orderedInsert r a) Y := by
  induction rs generalizing acc Y with
  | nil => simpa using hacc
  | cons a rs ih =>
      have hins := append_sublist_orderedInsert r hY hacc (hlt a (.head _))
      have hlt' : ∀ b ∈ rs, ∀ y ∈ acc ++ [a], ¬ r b y := fun b hb y hy => by
        rcases List.mem_append.mp hy with hy | hy
        · exact hlt b (.tail _ hb) y hy
        · rw [List.mem_singleton.mp hy]
          exact List.rel_of_pairwise_cons hrs hb
      have h := ih (hY.orderedInsert a Y) hins hrs.of_cons hlt'
      rwa [List.append_assoc, List.singleton_append] at h

end SortedInsert

section FirstMin

variable {β : Type}

/-- One step of the scan: a candidate replaces the one held only when its key is
strictly smaller. -/
def minStep : Option (Nat × β) → Nat × β → Option (Nat × β)
  | none, x => some x
  | some y, x => if x.1 < y.1 then some x else some y

theorem minStep_isSome (found : Option (Nat × β)) (x : Nat × β) : (minStep found x).isSome := by
  cases found with
  | none => rfl
  | some z => simp only [minStep]; split <;> rfl

/-- The scan ends on a candidate of least key, the one it started with or one it read. -/
theorem foldl_minStep_spec {l : List (Nat × β)} {init : Option (Nat × β)} {y : Nat × β}
    (h : l.foldl minStep init = some y) :
    (init = some y ∨ y ∈ l) ∧ (∀ z ∈ init, y.1 ≤ z.1) ∧ ∀ x ∈ l, y.1 ≤ x.1 := by
  induction l generalizing init with
  | nil =>
      simp only [List.foldl_nil] at h
      subst h
      simp
  | cons x l ih =>
      obtain ⟨hmem, hinit, hl⟩ := ih h
      have hread : minStep init x = some x → (init = some y ∨ y ∈ x :: l) := fun hstep => by
        rw [hstep] at hmem
        rcases hmem with hxy | hy
        · exact .inr (Option.some.inj hxy ▸ .head l)
        · exact .inr (.tail x hy)
      cases init with
      | none =>
          exact ⟨hread rfl, by simp, List.forall_mem_cons.mpr ⟨hinit x rfl, hl⟩⟩
      | some z =>
          by_cases hxz : x.1 < z.1
          · have hstep : minStep (some z) x = some x := if_pos hxz
            have hx : y.1 ≤ x.1 := hinit x (hstep ▸ rfl)
            refine ⟨hread hstep, fun w hw => ?_, List.forall_mem_cons.mpr ⟨hx, hl⟩⟩
            cases hw
            omega
          · have hstep : minStep (some z) x = some z := if_neg hxz
            rw [hstep] at hmem hinit
            have hz : y.1 ≤ z.1 := hinit z rfl
            refine ⟨hmem.imp id (.tail x), fun w hw => ?_, List.forall_mem_cons.mpr ⟨by omega, hl⟩⟩
            cases hw
            exact hz

theorem foldl_minStep_isSome_of_isSome {l : List (Nat × β)} {init : Option (Nat × β)} (h : init.isSome) :
    (l.foldl minStep init).isSome := by
  induction l generalizing init with
  | nil => exact h
  | cons x l ih => exact ih (minStep_isSome init x)

/-- A scan that reads a candidate finds one. -/
theorem foldl_minStep_isSome {l : List (Nat × β)} (hl : l ≠ []) (init : Option (Nat × β)) :
    (l.foldl minStep init).isSome := by
  obtain ⟨x, l, rfl⟩ := List.exists_cons_of_ne_nil hl
  rw [List.foldl_cons]
  exact foldl_minStep_isSome_of_isSome (minStep_isSome init x)

end FirstMin

end Priority

end ParRP
