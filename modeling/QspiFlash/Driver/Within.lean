/-
  QspiFlash.Driver.Within — where a program of reads, page writes and erases writes and erases.

  The lemmas of `Driver.Composed` ask for a property of page writes and erases at every
  address. Here it is asked for only inside the range the call is for: each page write lies
  in one page and in the range, each erase is of a block of it.
-/

import QspiFlash.Driver.Composed

namespace QspiFlash.Driver

variable {K : {α : Type} → M α → Prop} {q : Qspi}

/-- `K` holds of the page writes inside `[lo, hi)`. -/
def PagesWithin (K : {α : Type} → M α → Prop) (q : Qspi) (lo hi : Nat) : Prop :=
  ∀ a p m, lo ≤ a → a + m ≤ hi → 0 < m → a % 256 + m ≤ 256 → K (pageWrite q a p m)

theorem PagesWithin.mono {lo hi lo' hi' : Nat} (h : PagesWithin K q lo hi) (hlo : lo ≤ lo') (hhi : hi' ≤ hi) :
    PagesWithin K q lo' hi' :=
  fun a p m h1 h2 => h a p m (Nat.le_trans hlo h1) (Nat.le_trans h2 hhi)

namespace Composes

variable (h : Composes K)

include h

theorem writeLoop_within {lo hi : Nat} (hw : PagesWithin K q lo hi) (hu : hi ≤ 2 ^ 32) {a : Nat} {p : Ptr} {n : Nat}
    (hn : 0 < n) (hlo : lo ≤ a) (hhi : a + n ≤ hi) : K (Driver.writeLoop q a p n) := by
  induction a, p, n using writeLoop.induct with
  | case1 a p n ih =>
    rw [Driver.writeLoop]
    have hsize := inBlockCount_eq a n
    have hm := Nat.mod_lt a (show 0 < 256 by omega)
    refine h.onOk (hw a p _ hlo (by omega) (by omega) (by omega)) (h.u32 ?_)
    split
    · rename_i hrest
      rw [Nat.mod_eq_of_lt (by omega)]
      exact ih _ hrest hrest (by omega) (by omega)
    · exact h.pure _

theorem write_within {lo hi : Nat} (hw : PagesWithin K q lo hi) (hu : hi ≤ 2 ^ 32) {a : Nat} {p : Ptr} {n : Nat}
    (hn : 0 < n) (hlo : lo ≤ a) (hhi : a + n ≤ hi) : K (Driver.write q a p n) := by
  unfold Driver.write
  split
  · exact h.pure _
  · exact h.writeLoop_within hw hu hn hlo hhi

/-- From chunk `i` on, with `m` chunks to come. -/
theorem writeInPlace_within (hr : ∀ a, K (read q a q.lbuff lbuffSize)) {lo hi : Nat} (hw : PagesWithin K q lo hi)
    {A N : Nat} {buf : Ptr} (hlo : lo ≤ A) : ∀ {m i : Nat},
      0 < m → A + 256 * (i + m) ≤ hi → A + 256 * (i + m) < 2 ^ 32 →
      K (Driver.writeInPlace q buf A (256 * (i + m)) N i (buf.add (256 * i))) := by
  intro m
  induction m with
  | zero => exact fun h0 => absurd h0 (Nat.lt_irrefl 0)
  | succ m ih =>
    intro i _ hhi hu
    have hoff : i * lbuffSize = 256 * i := Nat.mul_comm i 256
    have hnext : ∀ r : QspiResult, K (if r ≠ .ok then do ask (.setErrno .eio); Pure.pure (false, minusOne)
        else do
          let sector256 ← Driver.u32 (i + 1)
          if _h : (buf.add (256 * i)).off + lbuffSize < buf.off + 256 * (i + (m + 1)) then
            Driver.writeInPlace q buf A (256 * (i + (m + 1))) N sector256 ((buf.add (256 * i)).add lbuffSize)
          else Pure.pure (false, N) : M (Bool × Nat)) := by
      refine fun r => holds_ite (h.failed _) (h.u32 ?_)
      rw [Nat.mod_eq_of_lt (by omega)]
      split
      · rename_i hmore
        have hm : 0 < m := by
          simp only [Ptr.add_off, lbuffSize] at hmore
          omega
        rw [Ptr.add_add, show 256 * i + lbuffSize = 256 * (i + 1) from (Nat.mul_succ 256 i).symm,
          show i + (m + 1) = i + 1 + m by omega]
        rw [show i + (m + 1) = i + 1 + m by omega] at hhi hu
        exact ih hm hhi hu
      · exact h.pure _
    have hchunk : ∀ p', K (Driver.write q (A + 256 * i) p' lbuffSize) := by
      intro p'
      have hend : A + 256 * i + lbuffSize ≤ A + 256 * (i + (m + 1)) := Nat.le_of_not_lt fun h => by
        unfold lbuffSize at h; omega
      exact h.write_within (hw.mono (Nat.le_refl _) (Nat.le_trans hend hhi)) (Nat.le_trans hend (Nat.le_of_lt hu))
        (show 0 < 256 by decide) (by omega) (Nat.le_refl _)
    rw [Driver.writeInPlace]
    refine h.u32 (h.u32 (h.bind (hr _) fun r => holds_ite (h.failed _) ?_))
    refine h.bind (h.compareChunk _ _ _ _) fun x => holds_ite (h.pure _) (holds_ite ?_ (hnext .ok))
    rw [hoff, u32_lt (show 256 * i < 2 ^ 32 by omega), pure_bind, u32_lt (show A + 256 * i < 2 ^ 32 by omega), pure_bind]
    exact h.bind (hchunk _) hnext

variable {d : QspiDevice} (hq : q.pdevice = some d)

include hq

/-- The address of a sector, where it does not wrap. -/
theorem sector_within {α : Type} {j : Nat} (hj : j * d.sectorSize.toNat < 2 ^ 32) {f : Nat → M α}
    (hf : K (f (j * d.sectorSize.toNat))) : K (do let a ← Driver.u32 (j * (← Driver.sectorSizeOf q)); f a) := by
  rw [sectorSizeOf_eq hq, pure_bind]
  refine h.u32 ?_
  rw [Nat.mod_eq_of_lt hj]
  exact hf

theorem eraseBlocks_within (hZ : 0 < d.sectorSize.toNat) (hd : ∀ j r, K (ask (.dropped j r))) {n k : Nat}
    (he : ∀ j, k ≤ j → j < k + n → K (erase q (j * d.sectorSize.toNat) .SECTOR_ERASE))
    (hu : (k + n) * d.sectorSize.toNat < 2 ^ 32) : K (Driver.eraseBlocks q n k) := by
  induction n generalizing k with
  | zero => exact h.pure _
  | succ n ih =>
    have hk : k * d.sectorSize.toNat ≤ (k + (n + 1)) * d.sectorSize.toNat := Nat.mul_le_mul_right _ (by omega)
    have hle : k + (n + 1) ≤ (k + (n + 1)) * d.sectorSize.toNat := Nat.le_mul_of_pos_right _ hZ
    rw [Driver.eraseBlocks]
    refine h.bind (h.sector_within hq (by omega) (he k (Nat.le_refl k) (by omega))) fun r => h.bind (hd k r) fun _ => h.u32 ?_
    rw [Nat.mod_eq_of_lt (by omega)]
    refine ih (fun j h1 h2 => he j (by omega) (by omega)) ?_
    rw [Nat.add_right_comm, Nat.add_assoc]
    exact hu

/-- A block write of the blocks `[k, k + n)`. -/
theorem doWriteBlock_within (hZ : q.blockLogicalSizeBytes = d.sectorSize.toNat) (hpages : 256 ∣ d.sectorSize.toNat)
    (hpos : 0 < d.sectorSize.toNat) {buf : Ptr} {k n : Nat} (hn : 0 < n) (hu : (k + n) * d.sectorSize.toNat < 2 ^ 32)
    (hr : ∀ a, K (read q a q.lbuff lbuffSize))
    (hw : PagesWithin K q (k * d.sectorSize.toNat) ((k + n) * d.sectorSize.toNat))
    (he : ∀ j, k ≤ j → j < k + n → K (erase q (j * d.sectorSize.toNat) .SECTOR_ERASE))
    (hd : ∀ j r, K (ask (.dropped j r))) : K (Driver.doWriteBlock q buf k n) := by
  have herase := h.eraseBlocks_within hq hpos hd he hu
  have hsum : (k + n) * d.sectorSize.toNat = k * d.sectorSize.toNat + n * d.sectorSize.toNat := Nat.add_mul ..
  have hcount : 0 < n * d.sectorSize.toNat := Nat.mul_pos hn hpos
  obtain ⟨m, hm⟩ : 256 ∣ n * d.sectorSize.toNat := Nat.dvd_mul_left_of_dvd hpages n
  unfold Driver.doWriteBlock
  rw [hZ, Nat.mul_comm _ k, Nat.mul_comm _ n, u32_lt (by omega), pure_bind, u32_lt (by omega), pure_bind]
  refine h.bind (h.hasData _ _) fun _ => holds_ite (h.bind herase fun _ => h.pure _) ?_
  refine h.bind ?_ fun x => holds_ite (h.bind herase fun _ => h.bind ?_ fun r => holds_ite (h.failed _) (h.pure _)) (h.pure _)
  · have hchunks : K (Driver.writeInPlace q buf (k * d.sectorSize.toNat) (256 * (0 + m)) n 0 (buf.add (256 * 0))) :=
      h.writeInPlace_within hr hw (Nat.le_refl _) (by omega) (by omega) (by omega)
    rw [Nat.zero_add, ← hm, Nat.mul_zero, Ptr.add_zero] at hchunks
    exact hchunks
  · exact h.write_within hw (by omega) hcount (Nat.le_refl _) (Nat.le_of_eq hsum.symm)

end Composes

end QspiFlash.Driver
