import Mathlib

/-! # Ordered maps

`std::map<κ, ν>` as the list of its entries in strictly increasing key order, which is
the order in which the map iterates. `find?`, `emplace` (which keeps an entry already
there) and `modify` (an update through the iterator `find` returns) are the operations
the models use; `find?` determines the map, so two maps are equal as soon as their
lookups are.

The last section splits a list sorted by a block number into its blocks, as a loop
over a map whose key starts with a block number sees them.
-/

open scoped List

namespace ParRP

/-- `std::map<κ, ν>`. -/
structure OrdMap (κ ν : Type) [LinearOrder κ] where
  entries : List ((_ : κ) × ν)
  sorted : entries.Pairwise (fun a b => a.1 < b.1)

namespace OrdMap

variable {κ ν : Type} [LinearOrder κ]

def empty : OrdMap κ ν := ⟨[], .nil⟩

/-- `find`: the value at `k`, if `k` is a key. -/
def find? (m : OrdMap κ ν) (k : κ) : Option ν := m.entries.dlookup k

/-- Insertion at the place of `k` in a sorted entry list; an entry at `k` stays. -/
def insertAux (k : κ) (v : ν) : List ((_ : κ) × ν) → List ((_ : κ) × ν)
  | [] => [⟨k, v⟩]
  | ⟨k', v'⟩ :: rest =>
      if k < k' then ⟨k, v⟩ :: ⟨k', v'⟩ :: rest
      else if k = k' then ⟨k', v'⟩ :: rest
      else ⟨k', v'⟩ :: insertAux k v rest

theorem mem_insertAux {k : κ} {v : ν} {a : (_ : κ) × ν} {l : List ((_ : κ) × ν)}
    (h : a ∈ insertAux k v l) : a = ⟨k, v⟩ ∨ a ∈ l := by
  induction l with
  | nil => simpa [insertAux] using h
  | cons e rest ih =>
      obtain ⟨k', v'⟩ := e
      simp only [insertAux] at h
      split_ifs at h <;> grind

theorem sorted_insertAux (k : κ) (v : ν) {l : List ((_ : κ) × ν)}
    (h : l.Pairwise (fun a b => a.1 < b.1)) : (insertAux k v l).Pairwise (fun a b => a.1 < b.1) := by
  induction l with
  | nil => simp [insertAux]
  | cons e rest ih =>
      obtain ⟨k', v'⟩ := e
      have hrest := List.pairwise_cons.mp h
      simp only [insertAux]
      split_ifs with h1 h2
      · exact h.cons fun a ha => (List.mem_cons.mp ha).elim (fun e => e ▸ h1)
          fun m => h1.trans (hrest.1 a m)
      · exact h
      · refine (ih hrest.2).cons fun a ha => ?_
        rcases mem_insertAux ha with rfl | m
        · exact lt_of_le_of_ne (not_lt.mp h1) (Ne.symm h2)
        · exact hrest.1 a m

theorem dlookup_cons_of_ne {k k' : κ} {v : ν} {l : List ((_ : κ) × ν)} (h : k ≠ k') :
    (⟨k', v⟩ :: l : List ((_ : κ) × ν)).dlookup k = l.dlookup k :=
  List.dlookup_cons_ne l ⟨k', v⟩ h

/-- A key below the first key of a sorted list is not a key of it. -/
theorem dlookup_eq_none_of_lt {k k' : κ} {v' : ν} {rest : List ((_ : κ) × ν)}
    (h : (⟨k', v'⟩ :: rest : List ((_ : κ) × ν)).Pairwise (fun a b => a.1 < b.1)) (hk : k < k') :
    (⟨k', v'⟩ :: rest : List ((_ : κ) × ν)).dlookup k = none := by
  rw [dlookup_cons_of_ne (ne_of_lt hk), List.dlookup_eq_none]
  intro hmem
  obtain ⟨w, hw⟩ := List.mem_keys.mp hmem
  exact absurd ((List.pairwise_cons.mp h).1 _ hw) (not_lt.mpr hk.le)

theorem dlookup_insertAux_self (k : κ) (v : ν) {l : List ((_ : κ) × ν)}
    (hl : l.Pairwise (fun a b => a.1 < b.1)) :
    (insertAux k v l).dlookup k = some ((l.dlookup k).getD v) := by
  induction l with
  | nil => simp [insertAux, List.dlookup_cons_eq]
  | cons e rest ih =>
      obtain ⟨k', v'⟩ := e
      simp only [insertAux]
      split_ifs with h1 h2
      · simp [List.dlookup_cons_eq, dlookup_eq_none_of_lt hl h1]
      · subst h2
        simp [List.dlookup_cons_eq]
      · simp [dlookup_cons_of_ne h2, ih (List.pairwise_cons.mp hl).2]

theorem dlookup_insertAux_ne {k k' : κ} (v : ν) (l : List ((_ : κ) × ν)) (h : k' ≠ k) :
    (insertAux k v l).dlookup k' = l.dlookup k' := by
  induction l with
  | nil => simp [insertAux, dlookup_cons_of_ne h]
  | cons e rest ih =>
      obtain ⟨k'', v''⟩ := e
      simp only [insertAux]
      split_ifs with h1 h2
      · rw [dlookup_cons_of_ne h]
      · rfl
      · by_cases hk : k' = k''
        · subst hk
          simp [List.dlookup_cons_eq]
        · simp [dlookup_cons_of_ne hk, ih]

/-- `emplace(k, v)`: inserts `v` at `k` unless `k` is already a key. -/
def emplace (m : OrdMap κ ν) (k : κ) (v : ν) : OrdMap κ ν :=
  ⟨insertAux k v m.entries, sorted_insertAux k v m.sorted⟩

/-- An update of the value at `k` in place, through the iterator `find(k)` returns. -/
def modify (m : OrdMap κ ν) (k : κ) (f : ν → ν) : OrdMap κ ν :=
  ⟨m.entries.map fun e => ⟨e.1, if e.1 = k then f e.2 else e.2⟩,
    List.pairwise_map.mpr (m.sorted.imp id)⟩

@[simp] theorem find?_empty (k : κ) : (empty : OrdMap κ ν).find? k = none := rfl

theorem find?_emplace (m : OrdMap κ ν) (k k' : κ) (v : ν) :
    (m.emplace k v).find? k' = if k' = k then some ((m.find? k).getD v) else m.find? k' := by
  split
  · subst k'
    exact dlookup_insertAux_self k v m.sorted
  · exact dlookup_insertAux_ne v m.entries ‹_›

theorem find?_modify (m : OrdMap κ ν) (k k' : κ) (f : ν → ν) :
    (m.modify k f).find? k' = if k' = k then (m.find? k).map f else m.find? k' := by
  simp only [modify, find?]
  induction m.entries with
  | nil => simp
  | cons e rest ih =>
      obtain ⟨k'', v''⟩ := e
      by_cases hk : k' = k''
      · subst hk
        by_cases hkk : k' = k
        · subst hkk
          simp [List.dlookup_cons_eq]
        · simp [List.dlookup_cons_eq, hkk]
      · simp only [List.map_cons]
        rw [dlookup_cons_of_ne hk, dlookup_cons_of_ne hk, ih]
        split
        · subst k'
          rw [dlookup_cons_of_ne hk]
        · rfl

theorem nodupKeys (m : OrdMap κ ν) : m.entries.NodupKeys :=
  List.nodupKeys_iff_pairwise.mpr (m.sorted.imp ne_of_lt)

theorem mem_entries_iff {m : OrdMap κ ν} {k : κ} {v : ν} : ⟨k, v⟩ ∈ m.entries ↔ m.find? k = some v :=
  (List.mem_dlookup_iff m.nodupKeys).symm

/-- A map is determined by its lookups. -/
theorem entries_eq_of_find? {m₁ m₂ : OrdMap κ ν} (h : ∀ k, m₁.find? k = m₂.find? k) :
    m₁.entries = m₂.entries :=
  List.Perm.eq_of_pairwise (fun a b _ _ hab hba => absurd hab (not_lt.mpr hba.le)) m₁.sorted m₂.sorted
    (List.lookup_ext m₁.nodupKeys m₂.nodupKeys fun x y => by
      show y ∈ m₁.find? x ↔ y ∈ m₂.find? x
      rw [h x])

/-- `erase(k)`. -/
def erase (m : OrdMap κ ν) (k : κ) : OrdMap κ ν :=
  ⟨m.entries.filter (·.1 ≠ k), m.sorted.filter _⟩

section Lists

variable {β : Type}

/-- The values of a map of lists, one after another in key order. -/
def flatValues (m : OrdMap κ (List β)) : List β := m.entries.flatMap (·.2)

@[simp] theorem flatValues_empty : (empty : OrdMap κ (List β)).flatValues = [] := rfl

theorem flatMap_insertAux_nil (k : κ) (l : List ((_ : κ) × List β)) :
    (insertAux k [] l).flatMap (·.2) = l.flatMap (·.2) := by
  induction l with
  | nil => simp [insertAux]
  | cons e rest ih =>
      obtain ⟨k', v'⟩ := e
      simp only [insertAux]
      split_ifs <;> simp [ih]

/-- Appending to the list at a key that occurs once appends to the values. -/
theorem flatMap_map_append_perm {l : List ((_ : κ) × List β)} (hl : l.NodupKeys) {k : κ}
    (hk : k ∈ l.keys) (x : β) :
    (l.map fun e => (⟨e.1, if e.1 = k then e.2 ++ [x] else e.2⟩ : (_ : κ) × List β)).flatMap (·.2) ~
      l.flatMap (·.2) ++ [x] := by
  induction l with
  | nil => simp at hk
  | cons e rest ih =>
      obtain ⟨k', v'⟩ := e
      rw [List.nodupKeys_cons] at hl
      by_cases hkk : k' = k
      · subst hkk
        -- no other entry has the key, so the rest is untouched
        have hk' : k' ∉ rest.keys := hl.1
        have hrest : (rest.map fun e => (⟨e.1, if e.1 = k' then e.2 ++ [x] else e.2⟩ : (_ : κ) × List β)) =
            rest := by
          conv_rhs => rw [← List.map_id rest]
          refine List.map_congr_left fun e he => ?_
          have hne : e.1 ≠ k' := fun h => hk' (h ▸ List.mem_keys_of_mem he)
          simp [hne]
        simp only [List.map_cons, List.flatMap_cons, hrest, if_true, List.append_assoc]
        exact (List.perm_append_comm).append_left _
      · have hk' : k ∈ rest.keys := by
          simpa [List.keys_cons, Ne.symm hkk] using hk
        simp only [List.map_cons, hkk, if_false, List.flatMap_cons, List.append_assoc]
        exact (ih hl.2 hk').append_left _

/-- `m[k].push_back(x)`: the list at `k`, made empty if `k` is not a key, gets `x` at its
end, and so do the values. -/
theorem flatValues_emplace_modify (m : OrdMap κ (List β)) (k : κ) (x : β) :
    ((m.emplace k []).modify k (· ++ [x])).flatValues ~ m.flatValues ++ [x] := by
  have hk : k ∈ (m.emplace k []).entries.keys := by
    apply List.mem_keys.mpr
    refine ⟨(m.find? k).getD [], mem_entries_iff.mpr ?_⟩
    simp [find?_emplace]
  have h := flatMap_map_append_perm (m.emplace k []).nodupKeys hk x
  rw [show (m.emplace k []).entries.flatMap (·.2) = m.flatValues from
    flatMap_insertAux_nil k m.entries] at h
  exact h

/-- The values are those at `k` and those of the map without `k`. -/
theorem flatMap_perm_filter {l : List ((_ : κ) × List β)} (hl : l.NodupKeys) (k : κ) :
    l.flatMap (·.2) ~ (l.dlookup k).getD [] ++ (l.filter (·.1 ≠ k)).flatMap (·.2) := by
  induction l with
  | nil => simp
  | cons e rest ih =>
      obtain ⟨k', v'⟩ := e
      rw [List.nodupKeys_cons] at hl
      by_cases hkk : k' = k
      · subst hkk
        have hk' : k' ∉ rest.keys := hl.1
        have hrest : rest.filter (·.1 ≠ k') = rest := List.filter_eq_self.mpr fun e he => by
          have hne : e.1 ≠ k' := fun h => hk' (h ▸ List.mem_keys_of_mem he)
          simp [hne]
        rw [List.flatMap_cons, List.dlookup_cons_eq, List.filter_cons_of_neg (by simp), hrest]
        simp
      · rw [dlookup_cons_of_ne (Ne.symm hkk)]
        simp only [List.flatMap_cons, List.filter_cons, hkk, ne_eq, not_false_eq_true, decide_true,
          if_true]
        exact ((ih hl.2).append_left _).trans (List.perm_append_comm_assoc _ _ _)

theorem flatValues_perm_erase (m : OrdMap κ (List β)) (k : κ) :
    m.flatValues ~ (m.find? k).getD [] ++ (m.erase k).flatValues :=
  flatMap_perm_filter m.nodupKeys k

end Lists

end OrdMap

/-! ## Blocks of a sorted list -/

section Blocks

variable {α : Type} (p q : α → Prop) [DecidablePred p] [DecidablePred q]

/-- A list in which no `q`-element comes before a `p`-element, and every element is one
of the two, is its `p`-part followed by its `q`-part. -/
theorem List.eq_filter_append_filter {l : List α} (hpq : ∀ x ∈ l, p x ∨ q x)
    (hdisj : ∀ x ∈ l, p x → ¬ q x) (hord : l.Pairwise fun x y => q x → ¬ p y) :
    l = l.filter p ++ l.filter q := by
  induction l with
  | nil => rfl
  | cons x l ih =>
      have ih' := ih (fun y hy => hpq y (.tail _ hy)) (fun y hy => hdisj y (.tail _ hy))
        (List.pairwise_cons.mp hord).2
      by_cases hx : p x
      · simp only [List.filter_cons, hx, decide_true, if_true, hdisj x (.head _) hx, decide_false,
          Bool.false_eq_true, if_false, List.cons_append]
        exact congrArg _ ih'
      · -- `x` is a `q`-element, so nothing after it is a `p`-element
        have hqx : q x := (hpq x (.head _)).resolve_left hx
        have hnp : ∀ y ∈ l, ¬ p y := fun y hy => (List.pairwise_cons.mp hord).1 y hy hqx
        have hnone : l.filter p = [] := List.filter_eq_nil_iff.mpr fun y hy => by simpa using hnp y hy
        have hall : l.filter q = l := List.filter_eq_self.mpr fun y hy => by
          simpa using (hpq y (.tail _ hy)).resolve_left (hnp y hy)
        simp [hx, hqx, hnone, hall]

end Blocks

/-- A list strictly sorted by a key, all of whose elements have one key, has one element. -/
theorem List.eq_singleton_of_sorted {β κ : Type} [LinearOrder κ] (f : β → κ) {l : List β} {k : κ} {x : β}
    (hsort : l.Pairwise fun y z => f y < f z) (hk : ∀ y ∈ l, f y = k) (hx : x ∈ l) : l = [x] := by
  cases l with
  | nil => simp at hx
  | cons y l =>
      have hnil : l = [] := by
        cases l with
        | nil => rfl
        | cons z _ =>
            have hyz := (List.pairwise_cons.mp hsort).1 z (.head _)
            rw [hk y (.head _), hk z (.tail _ (.head _))] at hyz
            exact absurd hyz (lt_irrefl k)
      subst hnil
      rw [List.mem_singleton.mp hx]

/-- A list sorted by a block number below `n` is its blocks `0, …, n - 1` in turn. -/
theorem List.eq_flatMap_blocks {α : Type} (f : α → Nat) (n : Nat) {l : List α}
    (hsort : l.Pairwise fun x y => f x ≤ f y) (hlt : ∀ x ∈ l, f x < n) :
    l = (List.range n).flatMap fun b => l.filter fun x => f x = b := by
  induction n generalizing l with
  | zero =>
      cases l with
      | nil => rfl
      | cons x _ => exact absurd (hlt x (.head _)) (Nat.not_lt_zero _)
  | succ n ih =>
      -- the blocks below `n`, then block `n`
      have hsplit := List.eq_filter_append_filter (fun x => f x < n) (fun x => f x = n)
        (fun x hx => by have := hlt x hx; omega) (fun x _ h => by omega)
        (hsort.imp fun h hq hp => by omega)
      have hlow := ih (l := l.filter fun x => f x < n) (hsort.filter _) fun x hx => by
        simpa using (List.mem_filter.mp hx).2
      rw [List.range_succ, List.flatMap_append, List.flatMap_singleton]
      conv_lhs => rw [hsplit, hlow]
      congr 1
      refine List.flatMap_congr fun b hb => ?_
      rw [List.filter_filter]
      exact List.filter_congr fun x _ => by simp at hb; grind

end ParRP
