/-
  QspiFlash.Nor.Array — a NOR flash array and the partition of a range into page cells.

  `program P f a d n` is what programming the `n` bytes `d` from the address `a` does to
  the array `f`: bits only go from 1 to 0, and the address wraps inside the `P`-byte page
  of `a`. `eraseUnit U f a` sets the aligned `U`-byte unit of `a` to 0xFF.

  - `program_eq`: inside one page, programming is `andRange`, a bytewise AND on the range.
  - `andRange_append`: two adjoining ranges make one.
  - `cells`: the pieces of `[a, a + n)`, one for each page it meets; `cells_cons` is the
    recursion a page-splitting loop follows, `cells_tile` that they tile the range.
-/

import Mathlib.Logic.Basic
import Mathlib.Data.List.Basic

namespace NorArray

abbrev Bytes := Nat → UInt8

/-! ## Bytes -/

theorem ff_and (b : UInt8) : 0xFF &&& b = b := UInt8.neg_one_and

theorem and_ff (b : UInt8) : b &&& 0xFF = b := UInt8.and_neg_one

/-- Programming `new` over `old` gives `new` where no bit has to rise. -/
theorem and_of_blank_or_same {old new : UInt8} (h : old = 0xFF ∨ old = new) : old &&& new = new := by
  rcases h with rfl | rfl
  · exact ff_and new
  · exact UInt8.and_self

/-! ## Programming and erasing -/

def upd (f : Bytes) (x : Nat) (b : UInt8) : Bytes := fun y => if y = x then b else f y

/-- The byte that byte `i` of a program started at `a` lands on. -/
def landing (P a i : Nat) : Nat := a / P * P + (a + i) % P

def program (P : Nat) (f : Bytes) (a : Nat) (d : Bytes) : Nat → Bytes
  | 0 => f
  | n + 1 =>
    let g := program P f a d n
    upd g (landing P a n) (g (landing P a n) &&& d n)

/-- The bytewise AND of `d` on `[a, a + n)`. -/
def andRange (f : Bytes) (a n : Nat) (d : Bytes) : Bytes :=
  fun x => if a ≤ x ∧ x < a + n then f x &&& d (x - a) else f x

def eraseUnit (U : Nat) (f : Bytes) (a : Nat) : Bytes := fun x => if x / U = a / U then 0xFF else f x

theorem landing_of_fits {P a i : Nat} (h : a % P + i < P) : landing P a i = a + i := by
  have hd := Nat.div_add_mod' a P
  have hm : (a + i) % P = a % P + i := by
    rw [Nat.add_mod, Nat.mod_eq_of_lt (show i < P by omega), Nat.mod_eq_of_lt h]
  unfold landing
  omega

/-- A program that stays inside its page is an AND on its range. -/
theorem program_eq {P : Nat} (f : Bytes) {a : Nat} (d : Bytes) :
    ∀ {n : Nat}, a % P + n ≤ P → program P f a d n = andRange f a n d := by
  intro n
  induction n with
  | zero => intro _; funext x; simp only [program, andRange]; rw [if_neg (by omega)]
  | succ n ih =>
    intro h
    funext x
    simp only [program, ih (by omega), landing_of_fits (show a % P + n < P by omega), upd, andRange]
    by_cases e : x = a + n
    · subst e
      rw [if_pos rfl, if_neg (by omega), if_pos (by omega), Nat.add_sub_cancel_left]
    · rw [if_neg e]
      by_cases hx : a ≤ x ∧ x < a + n
      · rw [if_pos hx, if_pos (by omega)]
      · rw [if_neg hx, if_neg (by omega)]

/-- A program changes nothing outside its page. -/
theorem program_frame {P : Nat} (hP : 0 < P) (f : Bytes) (a : Nat) (d : Bytes) {x : Nat} (hx : x / P ≠ a / P) :
    ∀ n, program P f a d n x = f x := by
  intro n
  induction n with
  | zero => rfl
  | succ n ih =>
    have hne : x ≠ landing P a n := by
      intro e
      apply hx
      rw [e, landing, Nat.add_comm, Nat.add_mul_div_right _ _ hP, Nat.div_eq_of_lt (Nat.mod_lt _ hP), Nat.zero_add]
    simp only [program, upd, if_neg hne, ih]

theorem andRange_append (f : Bytes) (a m k : Nat) (d : Bytes) :
    andRange (andRange f a m d) (a + m) k (fun i => d (m + i)) = andRange f a (m + k) d := by
  funext x
  unfold andRange
  by_cases h1 : a ≤ x ∧ x < a + m
  · rw [if_neg (by omega), if_pos h1, if_pos (by omega)]
  · by_cases h2 : a + m ≤ x ∧ x < a + m + k
    · rw [if_pos h2, if_neg h1, if_pos (by omega)]
      show f x &&& d (m + (x - (a + m))) = f x &&& d (x - a)
      rw [show m + (x - (a + m)) = x - a by omega]
    · rw [if_neg h2, if_neg h1, if_neg (by omega)]

theorem andRange_off (f : Bytes) {a n : Nat} (d : Bytes) {x : Nat} (h : ¬ (a ≤ x ∧ x < a + n)) :
    andRange f a n d x = f x := if_neg h

theorem andRange_on (f : Bytes) {a n i : Nat} (d : Bytes) (h : i < n) :
    andRange f a n d (a + i) = f (a + i) &&& d i := by
  unfold andRange; rw [if_pos (by omega), Nat.add_sub_cancel_left]

/-! ## Cells -/

/-- The piece of `[a, e)` in page `k`: its start and its length. -/
def cell (P a e k : Nat) : Nat × Nat := (max a (k * P), min e ((k + 1) * P) - max a (k * P))

/-- The pieces of `[a, a + n)`, `n > 0`, in ascending order. -/
def cells (P a n : Nat) : List (Nat × Nat) :=
  (List.range ((a + n - 1) / P + 1 - a / P)).map fun i => cell P a (a + n) (a / P + i)

/-- `l` tiles `[s, e)`: each piece is not empty and in one page, and starts where the
    last one ended. -/
inductive Tiles (P e : Nat) : Nat → List (Nat × Nat) → Prop
  | done : Tiles P e e []
  | cell {s m : Nat} {l : List (Nat × Nat)} : 0 < m → s % P + m ≤ P → Tiles P e (s + m) l →
      Tiles P e s ((s, m) :: l)

theorem cells_cons {P a n : Nat} (hP : 0 < P) (hn : 0 < n) :
    cells P a n = (a, min (P - a % P) n) ::
      if n - min (P - a % P) n > 0 then cells P (a + min (P - a % P) n) (n - min (P - a % P) n) else [] := by
  have hd := Nat.div_add_mod' a P
  have hm := Nat.mod_lt a hP
  have hs : (a / P + 1) * P = a / P * P + P := Nat.succ_mul _ _
  have hfirst : cell P a (a + n) (a / P) = (a, min (P - a % P) n) := by
    unfold cell
    rw [Nat.max_eq_left (by omega), hs]
    congr 1
    omega
  by_cases hlast : n ≤ P - a % P
  · -- the range ends in the page of `a`
    have hq : (a + n - 1) / P = a / P := Nat.div_eq_of_lt_le (by omega) (by rw [hs]; omega)
    rw [if_neg (by omega)]
    unfold cells
    rw [hq, Nat.add_sub_cancel_left]
    simp [hfirst]
  · have hmin : min (P - a % P) n = P - a % P := Nat.min_eq_left (by omega)
    have hstart : a + (P - a % P) = (a / P + 1) * P := by rw [hs]; omega
    have hpage : (a + (P - a % P)) / P = a / P + 1 := by rw [hstart, Nat.mul_div_cancel _ hP]
    have hend : a + (P - a % P) + (n - (P - a % P)) = a + n := by omega
    have hq : a / P + 1 ≤ (a + n - 1) / P := by
      rw [Nat.le_div_iff_mul_le hP]; omega
    rw [hmin, if_pos (by omega)]
    unfold cells
    rw [hpage, hend, show (a + n - 1) / P + 1 - a / P = (a + n - 1) / P + 1 - (a / P + 1) + 1 by omega,
      List.range_succ_eq_map, List.map_cons, List.map_map]
    rw [hmin] at hfirst
    refine congr (congrArg List.cons (by simpa using hfirst)) (List.map_congr_left fun i _ => ?_)
    have hk : (a / P + 1) * P ≤ (a / P + 1 + i) * P := Nat.mul_le_mul_right P (by omega)
    show cell P a (a + n) (a / P + (i + 1)) = cell P (a + (P - a % P)) (a + n) (a / P + 1 + i)
    unfold cell
    rw [show a / P + (i + 1) = a / P + 1 + i by omega, Nat.max_eq_right (by omega), Nat.max_eq_right (by omega)]

theorem cells_tile {P : Nat} (hP : 0 < P) : ∀ {n a : Nat}, 0 < n → Tiles P (a + n) a (cells P a n) := by
  intro n
  induction n using Nat.strongRecOn with
  | ind n ih =>
    intro a hn
    have hm := Nat.mod_lt a hP
    rw [cells_cons hP hn]
    refine .cell (by omega) (by omega) ?_
    split
    · have h := ih (n - min (P - a % P) n) (by omega) (a := a + min (P - a % P) n) (by omega)
      rwa [show a + min (P - a % P) n + (n - min (P - a % P) n) = a + n by omega] at h
    · rw [show a + min (P - a % P) n = a + n by omega]; exact .done

theorem cells_start {P a n : Nat} {c : Nat × Nat} (h : c ∈ cells P a n) : a ≤ c.1 := by
  obtain ⟨i, -, rfl⟩ := List.mem_map.mp h
  exact Nat.le_max_left _ _

theorem cells_empty {P a : Nat} {c : Nat × Nat} (h : c ∈ cells P a 0) : c.2 = 0 := by
  obtain ⟨i, -, rfl⟩ := List.mem_map.mp h
  exact Nat.sub_eq_zero_of_le (Nat.le_trans (Nat.min_le_left _ _) (Nat.le_max_left _ _))

/-- A page-aligned range of whole pages is cut into its pages. -/
theorem cells_pages {P : Nat} (hP : 0 < P) {a : Nat} (ha : P ∣ a) :
    ∀ {m : Nat}, 0 < m → cells P a (m * P) = (List.range m).map fun i => (a + i * P, P) := by
  obtain ⟨k, rfl⟩ := ha
  intro m hm
  have hlen : (P * k + m * P - 1) / P + 1 - P * k / P = m := by
    have : (P * k + m * P - 1) / P = k + m - 1 :=
      Nat.div_eq_of_lt_le (by rw [Nat.sub_mul, Nat.add_mul, Nat.mul_comm P k]; omega)
        (by rw [show k + m - 1 + 1 = k + m by omega, Nat.add_mul, Nat.mul_comm P k]
            have : 0 < m * P := Nat.mul_pos hm hP
            omega)
    rw [this, Nat.mul_div_cancel_left k hP]
    omega
  unfold cells
  rw [hlen, Nat.mul_div_cancel_left k hP]
  refine List.map_congr_left fun i hi => ?_
  have hi' : i < m := List.mem_range.mp hi
  have h1 : (k + i) * P = P * k + i * P := by rw [Nat.add_mul, Nat.mul_comm P k]
  have h2 : (k + i + 1) * P = P * k + i * P + P := by rw [Nat.succ_mul, h1]
  have h3 : i * P + P ≤ m * P := by rw [← Nat.succ_mul]; exact Nat.mul_le_mul_right P hi'
  unfold cell
  rw [h1, h2, Nat.max_eq_right (by omega), Nat.min_eq_right (by omega), Nat.add_sub_cancel_left]

end NorArray
