import Mathlib

/-!
# Slot lists

A slot list is a fixed-length list of records, each carrying a key; one key value
marks a free slot. The operations are search loops that update the first record
they find and stop, with the loop's `found` flag returned as an `Option`. The
occupied keys of a slot list are what its owner reasons about: filling a free slot
adds a key, clearing a slot removes the first occurrence of one, and an update that
keeps the key changes none.
-/

namespace ParRP

namespace Slots

variable {α κ : Type*}

/-- Apply `f` to the first element that satisfies `p` and stop; `none` when no
element does. -/
def updateFirst (p : α → Bool) (f : α → α) : List α → Option (List α)
  | [] => none
  | a :: l => if p a then some (f a :: l) else (a :: ·) <$> updateFirst p f l

@[simp] theorem updateFirst_nil (p : α → Bool) (f : α → α) : updateFirst p f [] = none := rfl

theorem updateFirst_cons (p : α → Bool) (f : α → α) (a : α) (l : List α) :
    updateFirst p f (a :: l) =
      if p a then some (f a :: l) else (a :: ·) <$> updateFirst p f l := rfl

theorem updateFirst_eq_none_iff {p : α → Bool} {f : α → α} {l : List α} :
    updateFirst p f l = none ↔ ∀ a ∈ l, p a = false := by
  induction l with
  | nil => simp
  | cons a l ih =>
      rw [updateFirst_cons]
      cases hp : p a <;> simp [hp, ih]

theorem length_of_updateFirst {p : α → Bool} {f : α → α} {l l' : List α}
    (h : updateFirst p f l = some l') : l'.length = l.length := by
  induction l generalizing l' with
  | nil => simp at h
  | cons a l ih =>
      rw [updateFirst_cons] at h
      split at h
      · cases h
        rfl
      · obtain ⟨l₁, hl₁, rfl⟩ := Option.map_eq_some_iff.mp h
        simp [ih hl₁]

/-- The result of a successful update is the list with the hit element replaced. -/
theorem updateFirst_eq_some {p : α → Bool} {f : α → α} {l l' : List α}
    (h : updateFirst p f l = some l') :
    ∃ pre a post, l = pre ++ a :: post ∧ l' = pre ++ f a :: post ∧ p a = true ∧
      ∀ b ∈ pre, p b = false := by
  induction l generalizing l' with
  | nil => simp at h
  | cons a l ih =>
      rw [updateFirst_cons] at h
      split at h
      · cases h
        exact ⟨[], a, l, rfl, rfl, ‹_›, by simp⟩
      · obtain ⟨l₁, hl₁, rfl⟩ := Option.map_eq_some_iff.mp h
        obtain ⟨pre, b, post, rfl, rfl, hb, hpre⟩ := ih hl₁
        refine ⟨a :: pre, b, post, rfl, rfl, hb, ?_⟩
        simp only [List.mem_cons, forall_eq_or_imp]
        exact ⟨by simpa using ‹¬ p a = true›, hpre⟩

theorem updateFirst_isSome_of_mem {p : α → Bool} (f : α → α) {l : List α} {a : α}
    (ha : a ∈ l) (hp : p a = true) : (updateFirst p f l).isSome := by
  cases h : updateFirst p f l with
  | some _ => rfl
  | none => simp [(updateFirst_eq_none_iff.mp h) a ha] at hp

section Keys

variable [DecidableEq κ] (key : α → κ) (free : κ)

/-- The keys of the occupied slots, in slot order. -/
def keys (l : List α) : List κ := (l.map key).filter (· ≠ free)

theorem keys_append (l₁ l₂ : List α) : keys key free (l₁ ++ l₂) = keys key free l₁ ++ keys key free l₂ := by
  simp [keys, List.filter_append]

theorem keys_cons (a : α) (l : List α) :
    keys key free (a :: l) = if key a ≠ free then key a :: keys key free l else keys key free l := by
  by_cases h : key a = free <;> simp [keys, h]

theorem length_keys (l : List α) :
    (keys key free l).length = (l.filter (fun a => key a ≠ free)).length := by
  simp only [keys, List.filter_map, List.length_map]
  rfl

theorem length_keys_le (l : List α) : (keys key free l).length ≤ l.length := by
  rw [length_keys]
  exact List.length_filter_le _ _

theorem ne_free_of_mem_keys {l : List α} {k : κ} (hk : k ∈ keys key free l) : k ≠ free := by
  simp only [keys, List.mem_filter, decide_eq_true_eq] at hk
  exact hk.2

theorem mem_keys_iff {l : List α} {k : κ} (hk : k ≠ free) : k ∈ keys key free l ↔ ∃ a ∈ l, key a = k := by
  simp [keys, hk]

/-- A slot list with fewer occupied slots than slots has a free slot. -/
theorem exists_free_of_length_keys_lt {l : List α} (h : (keys key free l).length < l.length) :
    ∃ a ∈ l, key a = free := by
  by_contra hall
  have hfilter : l.filter (fun a => key a ≠ free) = l :=
    List.filter_eq_self.mpr fun a ha => by simpa using fun h => hall ⟨a, ha, h⟩
  rw [length_keys, hfilter] at h
  exact Nat.lt_irrefl _ h

variable {key free}

/-- An update that keeps every key keeps the occupied keys. -/
theorem keys_of_updateFirst_keep {p : α → Bool} {f : α → α} {l l' : List α}
    (h : updateFirst p f l = some l') (hf : ∀ a, key (f a) = key a) :
    keys key free l' = keys key free l := by
  obtain ⟨pre, a, post, rfl, rfl, -, -⟩ := updateFirst_eq_some h
  simp [keys_append, keys_cons, hf]

/-- Filling the first free slot with key `k` adds `k` to the occupied keys. -/
theorem keys_of_updateFirst_fill {f : α → α} {l l' : List α} {k : κ}
    (h : updateFirst (fun a => decide (key a = free)) f l = some l') (hk : k ≠ free)
    (hf : ∀ a, key (f a) = k) :
    (keys key free l').Perm (k :: keys key free l) := by
  obtain ⟨pre, a, post, rfl, rfl, ha, -⟩ := updateFirst_eq_some h
  have ha' : key a = free := by simpa using ha
  simp only [keys_append, keys_cons, hf, ne_eq, hk, not_false_eq_true, if_true, ha',
    not_true_eq_false, if_false]
  exact List.perm_middle

/-- Clearing the first slot with key `k` removes the first occurrence of `k`. -/
theorem keys_of_updateFirst_clear {f : α → α} {l l' : List α} {k : κ}
    (h : updateFirst (fun a => decide (key a = k)) f l = some l') (hk : k ≠ free)
    (hf : ∀ a, key (f a) = free) :
    keys key free l' = (keys key free l).erase k := by
  obtain ⟨pre, a, post, rfl, rfl, ha, hpre⟩ := updateFirst_eq_some h
  have ha' : key a = k := by simpa using ha
  have hnot : k ∉ keys key free pre := by
    intro hmem
    obtain ⟨b, hb, hbk⟩ := (mem_keys_iff key free hk).mp hmem
    have := hpre b hb
    simp [hbk] at this
  simp only [keys_append, keys_cons, hf, ne_eq, not_true_eq_false, if_false, ha', hk,
    not_false_eq_true, if_true]
  rw [List.erase_append_right _ hnot, List.erase_cons_head]

end Keys

/-! ## Covering a list by tests -/

section Cover

/-- A list each of whose elements passes one of the tests `P q`, `q ∈ Q`, is no longer
than its parts that pass each test, together. -/
theorem length_le_sum_length_filter {β : Type*} (P : β → α → Bool) {L : List α} {Q : List β}
    (h : ∀ x ∈ L, ∃ q ∈ Q, P q x = true) : L.length ≤ (Q.map fun q => (L.filter (P q)).length).sum := by
  induction Q generalizing L with
  | nil =>
      cases L with
      | nil => simp
      | cons x _ =>
          obtain ⟨q, hq, -⟩ := h x (.head _)
          simp at hq
  | cons q Q ih =>
      -- what fails `P q` passes a test of `Q`
      have hrest := ih (L := L.filter (!P q ·)) fun x hx => by
        obtain ⟨hxL, hx⟩ := List.mem_filter.mp hx
        obtain ⟨q', hq', hpx⟩ := h x hxL
        rcases List.mem_cons.mp hq' with rfl | hq'
        · simp [hpx] at hx
        · exact ⟨q', hq', hpx⟩
      have hsub : (Q.map fun q' => ((L.filter (!P q ·)).filter (P q')).length).sum ≤
          (Q.map fun q' => (L.filter (P q')).length).sum :=
        List.sum_le_sum fun q' _ => ((List.filter_sublist (l := L)).filter (P q')).length_le
      rw [List.length_eq_length_filter_add (P q), List.map_cons, List.sum_cons]
      omega

/-- A list is the list of its entries read by index. -/
theorem map_getD_range (l : List α) (d : α) : (List.range l.length).map (l.getD · d) = l :=
  List.ext_getElem (by simp) fun i h₁ _ => by
    simp only [List.length_map, List.length_range] at h₁
    simp [List.getElem?_eq_getElem h₁]

end Cover

end Slots

end ParRP
