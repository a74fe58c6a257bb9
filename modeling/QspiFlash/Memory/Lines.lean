/-
  QspiFlash.Memory.Lines — the lines of a cache, and a range rounded to whole lines.

  Memory is cut into lines of `L` bytes. `Meets` says which lines hold a byte of a range,
  `Within` which lie whole in one.

  - `within_rounded`: a range's start rounded down to its line, with its length rounded down
    and one line added, holds every line the range meets exactly if what the two roundings
    cut off is no more than a line.
  - `and_mask`: rounding down to a power of two, as a mask does it.
-/

import Mathlib.Logic.Basic
import Mathlib.Data.Nat.Bitwise

namespace Lines

variable {L a n l : Nat}

/-- Line `l` holds one of the `n` bytes at `a`. -/
def Meets (L a n l : Nat) : Prop := ∃ x, a ≤ x ∧ x < a + n ∧ x / L = l

/-- Line `l` lies in the `n` bytes at `a`. -/
def Within (L a n l : Nat) : Prop := a ≤ L * l ∧ L * l + L ≤ a + n

theorem meets_bounds (h : Meets L a n l) : a / L ≤ l ∧ l ≤ (a + n - 1) / L := by
  obtain ⟨x, ha, hn, rfl⟩ := h
  exact ⟨Nat.div_le_div_right ha, Nat.div_le_div_right (by omega)⟩

theorem meets_last (hn : 0 < n) : Meets L a n ((a + n - 1) / L) := ⟨a + n - 1, by omega, by omega, rfl⟩

/-- The last line comes no later than the rounded length reaches. -/
theorem last_le_iff (hL : 0 < L) (hn : 0 < n) : (a + n - 1) / L ≤ a / L + n / L ↔ a % L + n % L ≤ L := by
  have ha := Nat.div_add_mod a L
  have hn' := Nat.div_add_mod n L
  have hmul : L * (a / L + n / L + 1) = L * (a / L) + L * (n / L) + L := by rw [Nat.mul_succ, Nat.mul_add]
  rw [← Nat.lt_succ_iff, Nat.div_lt_iff_lt_mul hL, Nat.mul_comm, Nat.succ_eq_add_one, hmul]
  omega

/-- The whole range is held exactly if its last line is. -/
theorem within_rounded (hL : 0 < L) (hn : 0 < n) :
    Within L (a / L * L) (n / L * L + L) ((a + n - 1) / L) ↔ a % L + n % L ≤ L := by
  rw [← last_le_iff hL hn]
  have hlast : a / L ≤ (a + n - 1) / L := Nat.div_le_div_right (by omega)
  have hstart : a / L * L ≤ L * ((a + n - 1) / L) := by
    rw [Nat.mul_comm]
    exact Nat.mul_le_mul_left L hlast
  have hsum : a / L * L + (n / L * L + L) = L * (a / L + n / L) + L := by
    rw [Nat.mul_add, Nat.mul_comm L, Nat.mul_comm L, Nat.add_assoc]
  constructor
  · intro h
    have hend := h.2
    rw [hsum] at hend
    exact Nat.le_of_mul_le_mul_left (Nat.le_of_add_le_add_right hend) hL
  · intro h
    refine ⟨hstart, ?_⟩
    rw [hsum]
    exact Nat.add_le_add_right (Nat.mul_le_mul_left L h) L

theorem within_of_meets (h : a % L + n % L ≤ L) (hL : 0 < L) (hm : Meets L a n l) :
    Within L (a / L * L) (n / L * L + L) l := by
  have hn : 0 < n := by
    obtain ⟨x, hx, hlt, -⟩ := hm
    omega
  obtain ⟨hfirst, hlast⟩ := meets_bounds hm
  have hend := ((within_rounded hL hn).mpr h).2
  have hle : L * l ≤ L * ((a + n - 1) / L) := Nat.mul_le_mul_left L hlast
  refine ⟨?_, by omega⟩
  rw [Nat.mul_comm]
  exact Nat.mul_le_mul_left L hfirst

theorem and_mask {w k : Nat} (hk : k ≤ w) (ha : a < 2 ^ w) : a &&& (2 ^ w - 2 ^ k) = a / 2 ^ k * 2 ^ k := by
  have hmask : 2 ^ w - 2 ^ k = (2 ^ (w - k) - 1) <<< k := by
    rw [Nat.shiftLeft_eq, Nat.sub_mul, ← Nat.pow_add, Nat.sub_add_cancel hk, Nat.one_mul]
  refine Nat.eq_of_testBit_eq fun i => ?_
  rw [hmask, ← Nat.shiftRight_eq_div_pow, ← Nat.shiftLeft_eq, Nat.testBit_and, Nat.testBit_shiftLeft,
    Nat.testBit_shiftLeft, Nat.testBit_shiftRight, Nat.testBit_two_pow_sub_one]
  by_cases hi : i ≥ k
  · rw [show k + (i - k) = i by omega]
    by_cases hw : i < w
    · simp [hi, show i - k < w - k by omega]
    · have hbit : a.testBit i = false :=
        Nat.testBit_lt_two_pow (Nat.lt_of_lt_of_le ha (Nat.pow_le_pow_right (by omega) (by omega)))
      simp [hbit]
  · simp [hi]

end Lines
