/-
  QspiFlash.Nor.Rewrite — putting new data over old in a NOR array.

  A byte conflicts when it is neither blank nor already right: programming cannot set it.
  `inPlace c old new m k` names the chunks of `c` bytes to program among the `m` from the
  `k`-th on, going in order and stopping at the first chunk with a conflict.

  - `inPlace_eq`: the same as a filter on what comes before the first conflict.
  - `exists_chunk`: a property of a byte of the range is one of a chunk of it.
-/

import Mathlib.Data.Nat.Basic
import QspiFlash.Nor.Array

namespace NorArray

def Conflict (old new : UInt8) : Prop := old ≠ 0xFF ∧ old ≠ new

instance (old new : UInt8) : Decidable (Conflict old new) := inferInstanceAs (Decidable (_ ∧ _))

theorem and_of_not_conflict {old new : UInt8} (h : ¬ Conflict old new) : old &&& new = new := by
  apply and_of_blank_or_same
  by_cases hb : old = 0xFF
  · exact Or.inl hb
  · exact Or.inr (not_not.mp fun hn => h ⟨hb, hn⟩)

/-- The array seen from the address `a`. -/
def shift (f : Bytes) (a : Nat) : Bytes := fun o => f (a + o)

/-! ## Chunks -/

variable (c : Nat) (old new : Bytes)

def ChunkConflict (k : Nat) : Prop := ∃ i, i < c ∧ Conflict (old (c * k + i)) (new (c * k + i))

def ChunkDiffers (k : Nat) : Prop := ∃ i, i < c ∧ old (c * k + i) ≠ new (c * k + i)

instance (k : Nat) : Decidable (ChunkConflict c old new k) := inferInstanceAs (Decidable (∃ i, i < c ∧ _))

instance (k : Nat) : Decidable (ChunkDiffers c old new k) := inferInstanceAs (Decidable (∃ i, i < c ∧ _))

def inPlace : Nat → Nat → List Nat
  | 0, _ => []
  | m + 1, k =>
    if ChunkConflict c old new k then []
    else (if ChunkDiffers c old new k then [k] else []) ++ inPlace m (k + 1)

variable {c old new}

theorem inPlace_eq (m k : Nat) :
    inPlace c old new m k =
      ((List.range' k m).takeWhile fun k => !decide (ChunkConflict c old new k)).filter
        fun k => decide (ChunkDiffers c old new k) := by
  induction m generalizing k with
  | zero => rfl
  | succ m ih =>
    rw [inPlace, List.range'_succ, List.takeWhile_cons]
    by_cases hc : ChunkConflict c old new k
    · simp [hc]
    · by_cases hd : ChunkDiffers c old new k <;> simp [hc, hd, ih]

/-- Only the old bytes from chunk `k` on matter. -/
theorem inPlace_congr {old' : Bytes} {m k : Nat} (h : ∀ o, c * k ≤ o → old' o = old o) :
    inPlace c old' new m k = inPlace c old new m k := by
  induction m generalizing k with
  | zero => rfl
  | succ m ih =>
    have hk : ∀ i, old' (c * k + i) = old (c * k + i) := fun i => h _ (by omega)
    have hc : ChunkConflict c old' new k ↔ ChunkConflict c old new k := by unfold ChunkConflict; simp only [hk]
    have hd : ChunkDiffers c old' new k ↔ ChunkDiffers c old new k := by unfold ChunkDiffers; simp only [hk]
    rw [inPlace, inPlace, ih fun o ho => h o (by rw [Nat.mul_succ] at ho; omega)]
    simp only [hc, hd]

/-- The new data needs blank bytes: it is all blank, or it conflicts with the old. -/
def NeedsErase (old new : Bytes) (n : Nat) : Prop :=
  (∀ o, o < n → new o = 0xFF) ∨ ∃ o, o < n ∧ Conflict (old o) (new o)

theorem exists_chunk {P : Nat → Prop} (hc : 0 < c) {m : Nat} :
    (∃ o, o < c * m ∧ P o) ↔ ∃ k, k < m ∧ ∃ i, i < c ∧ P (c * k + i) := by
  constructor
  · intro hex
    obtain ⟨o, ho, hp⟩ := hex
    refine ⟨o / c, Nat.div_lt_of_lt_mul ho, o % c, Nat.mod_lt _ hc, ?_⟩
    rwa [Nat.div_add_mod]
  · intro hex
    obtain ⟨k, hk, i, hi, hp⟩ := hex
    refine ⟨c * k + i, ?_, hp⟩
    calc c * k + i < c * k + c := by omega
      _ = c * (k + 1) := (Nat.mul_succ c k).symm
      _ ≤ c * m := Nat.mul_le_mul_left c hk

end NorArray
