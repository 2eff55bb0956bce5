import ParRP.Ruby.System

/-!
# Coherence permissions of the L1s

The access permission each L1 state declares, and the single-writer,
multiple-reader property of a line over the permissions of all L1s. Only an L1's own
steps change its cache and TBEs; what the other parties do reaches it through its
queues. A core that snoops another's `GetM` late therefore still reads a line the
other core already writes: the property holds of the bus order, not of every state.
-/

namespace ParRP

namespace Ruby

open Policy

/-- `AccessPermission`, as the L1's states use it. -/
inductive AccessPermission
  | Invalid
  | Read_Only
  | Read_Write
  | Busy
  deriving DecidableEq, Repr

/-- `L1Cache_State_to_permission`: the permission in each state's declaration. -/
def L1State.permission : L1State → AccessPermission
  | .I => .Invalid
  | .S => .Read_Only
  | .M => .Read_Write
  | .L => .Read_Write
  | .S_AD | .S_D | .M_AD | .M_D | .ML_AD | .ML_D => .Busy
  | .M_A | .ML_A => .Read_Only
  | .I_AD => .Read_Write
  | .I_D | .CMP => .Busy

namespace System

variable {σ : Type} {P : SetPolicy σ} {llcUseParRp : Bool} {numberOfTBEs : Nat}

/-- The part of an L1 that only its own steps change: its data cache and its TBEs. -/
def l1Core (c : L1Cache) : CacheSet L1Entry (List Nat) × List (Nat × TBE) := (c.cache, c.tbes)

/-- Only an L1's own steps change its data cache and its TBEs; the other parties' steps
only fill its queues, and its sequencer takes requests into the mandatory queue. -/
theorem l1Core_step {s s₁ : System σ} {e : SysStep} {i : Nat}
    (h : step P llcUseParRp numberOfTBEs s e = some (.ok s₁)) (hi : ∀ port, e ≠ .l1 i port) :
    (s₁.l1s[i]?).map l1Core = (s.l1s[i]?).map l1Core := by
  cases e with
  | issue j r =>
      simp only [step, Option.bind_eq_bind, Option.bind_eq_some_iff] at h
      obtain ⟨c, hc, sq, -, h⟩ := h
      cases h
      obtain ⟨hj, hcj⟩ := List.getElem?_eq_some_iff.mp hc
      simp only [List.getElem?_set]
      split
      · next hji => subst hji; simp [hj, hcj, l1Core]
      · rfl
  | l1 j port =>
      simp only [step, Option.bind_eq_bind, Option.bind_eq_some_iff] at h
      obtain ⟨c, hc, r, -, h⟩ := h
      cases r <;> cases h
      have hji : j ≠ i := fun hji => hi port (hji ▸ rfl)
      simp only [deliverL1, List.getElem?_map, List.getElem?_set, if_neg hji, Option.map_map]
      rfl
  | busGrant j =>
      simp only [step, Option.bind_eq_bind, Option.bind_eq_some_iff] at h
      obtain ⟨c, hc, m, -, h⟩ := h
      cases h
      obtain ⟨hj, hcj⟩ := List.getElem?_eq_some_iff.mp hc
      simp only [List.getElem?_set]
      split
      · next hji => subst hji; simp [hj, hcj, l1Core]
      · rfl
  | l2 port =>
      simp only [step, Option.bind_eq_bind, Option.bind_eq_some_iff] at h
      obtain ⟨r, -, h⟩ := h
      cases r <;> cases h
      simp only [deliverL2, List.getElem?_map, Option.map_map]
      rfl
  | memory k =>
      simp only [step, Option.map_eq_some_iff] at h
      obtain ⟨s₂, hs₂, h⟩ := h
      cases h
      simp only [serveMemory, Option.bind_eq_bind, Option.bind_eq_some_iff] at hs₂
      obtain ⟨m, -, hs₂⟩ := hs₂
      split at hs₂ <;> cases hs₂ <;> rfl

/-- Single writer, multiple readers for line `a`: while an L1 may write the line, every
other L1 may neither read nor write it. -/
def SingleWriter (s : System σ) (a : Nat) : Prop :=
  ∀ c ∈ s.l1s, (c.getState a).permission = .Read_Write →
    ∀ d ∈ s.l1s, d.machineID ≠ c.machineID →
      (d.getState a).permission = .Invalid ∨ (d.getState a).permission = .Busy

instance (s : System σ) (a : Nat) : Decidable (SingleWriter s a) := by
  unfold SingleWriter
  infer_instance

/-- Two cores in normal mode, a two-way LLC and L1s of two ways. -/
def twoCoreNormalSystem : System (List Nat) :=
  init 2 2 (CacheSet.empty 2 (baseSetInit lru 2))

/-- Core 0 loads line 1. Core 1 stores to it: its `GetM` reaches core 0's queue, the LLC
answers it and core 1 completes the store, while core 0 has not yet handled the
snooped request. -/
def lateSnoopSteps : List SysStep :=
  [.issue 0 { lineAddress := 1, type := .LD }, .l1 0 .mandatory, .busGrant 0, .l1 0 .busGrant,
    .l1 0 .request, .l2 .request, .memory 0, .l2 .responseFromDir, .l1 0 .response, .l1 0 .trigger] ++
  [.l1 1 .request, .issue 1 { lineAddress := 1, type := .ST }, .l1 1 .mandatory, .busGrant 1,
    .l1 1 .busGrant, .l1 1 .request, .l2 .request, .l1 1 .response, .l1 1 .trigger]

end System

end Ruby

end ParRP
