/-
  QspiFlash.Block.Wear — which sectors a block write erases and which pages it programs.

  `WearPost` says it of the chip operations of one fault-free call, by the old and the new
  content alone; `block_wear` that every run of `do_write_block` has them.
-/

import Mathlib.Data.List.TakeWhile
import QspiFlash.Block.Write

namespace QspiFlash.Block.Wear

open Interact Driver Bus.Nor
open NorArray (Bytes Conflict ChunkConflict ChunkDiffers NeedsErase shift)

def isErase : ChipOp → Bool
  | .erase _ _ => true
  | .program _ _ => false

/-- The program of the `c`-th 256-byte chunk of the blocks from `k` on. -/
def page (b : Params) (k c : Nat) : ChipOp := .program (k * b.sectorSize + 256 * c) 256

/-- The chunks of `l` that differ. -/
def differing (old new : Bytes) (l : List Nat) : List Nat := l.filter fun c => decide (ChunkDiffers 256 old new c)

/-- The chunks of `l` before the first one with a conflict. -/
def beforeConflict (old new : Bytes) (l : List Nat) : List Nat :=
  l.takeWhile fun c => !decide (ChunkConflict 256 old new c)

/-- The chunks of `n` blocks. -/
def chunks (b : Params) (n : Nat) : List Nat := List.range (n * b.sectorSize / 256)

/-- What writing `new` over `old` in the blocks `[k, k + n)` costs. -/
structure WearPost (b : Params) (old new : Bytes) (k n : Nat) (ops : List ChipOp) : Prop where
  erases_iff : (∃ t, .erase .SECTOR_ERASE t ∈ ops) ↔ NeedsErase old new (n * b.sectorSize)
  erased : NeedsErase old new (n * b.sectorSize) → ops.filter isErase = erases b k n
  blank : (∀ o, o < n * b.sectorSize → new o = 0xFF) → ops = erases b k n
  inPlace : ¬ NeedsErase old new (n * b.sectorSize) → ops = (differing old new (chunks b n)).map (page b k)
  rewrite : (∃ o, o < n * b.sectorSize ∧ new o ≠ 0xFF) → (∃ o, o < n * b.sectorSize ∧ Conflict (old o) (new o)) →
    ops = (differing old new (beforeConflict old new (chunks b n))).map (page b k) ++ erases b k n ++
      (chunks b n).map (page b k)
  same : (∀ o, o < n * b.sectorSize → old o = new o) → (∃ o, o < n * b.sectorSize ∧ new o ≠ 0xFF) → ops = []

variable {b : Params} {old new : Bytes} {k n : Nat}

theorem filter_erases : (erases b k n).filter isErase = erases b k n := by
  refine List.filter_eq_self.mpr fun c hc => ?_
  obtain ⟨j, -, rfl⟩ := List.mem_map.mp hc
  rfl

theorem filter_pages (l : List Nat) : (l.map (page b k)).filter isErase = [] := by
  refine List.filter_eq_nil_iff.mpr fun c hc => ?_
  obtain ⟨j, -, rfl⟩ := List.mem_map.mp hc
  exact Bool.false_ne_true

theorem inPlaceOps_eq : inPlaceOps b old new k n =
    (differing old new (beforeConflict old new (chunks b n))).map (page b k) := by
  unfold inPlaceOps differing beforeConflict chunks
  rw [NorArray.inPlace_eq, List.range_eq_range']
  rfl

theorem beforeConflict_all (h : ¬ NeedsErase old new (n * b.sectorSize)) :
    beforeConflict old new (chunks b n) = chunks b n := by
  refine List.takeWhile_eq_self_iff.mpr fun c hc => ?_
  have hlt : c < n * b.sectorSize / 256 := List.mem_range.mp hc
  have hnc : ¬ ChunkConflict 256 old new c := by
    intro hex
    obtain ⟨i, hi, hcon⟩ := hex
    exact h (Or.inr ⟨256 * c + i, by omega, hcon⟩)
  simp [hnc]

theorem programs_eq (hpages : 256 ∣ b.sectorSize) (hpos : 0 < n * b.sectorSize) :
    programs (k * b.sectorSize) (n * b.sectorSize) = (chunks b n).map (page b k) := by
  obtain ⟨m, hm⟩ : 256 ∣ n * b.sectorSize := Nat.dvd_mul_left_of_dvd hpages n
  unfold programs chunks
  rw [hm, Nat.mul_div_cancel_left m (by omega), Nat.mul_comm 256 m,
    NorArray.cells_pages (by omega) (Nat.dvd_mul_left_of_dvd hpages k) (by omega), List.map_map]
  refine List.map_congr_left fun i _ => ?_
  show ChipOp.program (k * b.sectorSize + i * 256) 256 = page b k i
  rw [page, Nat.mul_comm i 256]

theorem wear_of_plan {q : Qspi} (h : Span b q k n) {ops : List ChipOp} (hp : Plan b old new k n ops) :
    WearPost b old new k n ops := by
  obtain ⟨-, hpos⟩ := h.count
  have hin : ¬ NeedsErase old new (n * b.sectorSize) → ops = (differing old new (chunks b n)).map (page b k) :=
    fun hn => by rw [hp.inPlace hn, inPlaceOps_eq, beforeConflict_all hn]
  have hre : (∃ o, o < n * b.sectorSize ∧ new o ≠ 0xFF) → (∃ o, o < n * b.sectorSize ∧ Conflict (old o) (new o)) →
      ops = (differing old new (beforeConflict old new (chunks b n))).map (page b k) ++ erases b k n ++
        (chunks b n).map (page b k) :=
    fun hs hc => by rw [hp.rewrite hs hc, inPlaceOps_eq, programs_eq h.pages hpos]
  have her : NeedsErase old new (n * b.sectorSize) → ops.filter isErase = erases b k n := by
    intro hn
    by_cases hb : ∀ o, o < n * b.sectorSize → new o = 0xFF
    · rw [hp.blank hb, filter_erases]
    · have hs : ∃ o, o < n * b.sectorSize ∧ new o ≠ 0xFF := by
        by_contra h'
        exact hb fun o ho => not_not.mp fun hne => h' ⟨o, ho, hne⟩
      rw [hre hs (hn.resolve_left hb), List.filter_append, List.filter_append, filter_pages,
        filter_pages, filter_erases, List.nil_append, List.append_nil]
  refine ⟨⟨fun ⟨t, ht⟩ => ?_, fun hn => ?_⟩, her, hp.blank, hin, hre, fun hsame hs => ?_⟩
  · by_contra hn
    rw [hin hn] at ht
    obtain ⟨c, -, hc⟩ := List.mem_map.mp ht
    cases hc
  · refine ⟨.unit b.sectorSize (k * b.sectorSize), (List.mem_filter (p := isErase)).mp ?_ |>.1⟩
    rw [her hn]
    exact List.mem_map.mpr ⟨k, List.mem_range'_1.mpr ⟨Nat.le_refl k, by have := h.some; omega⟩, rfl⟩
  · have hn : ¬ NeedsErase old new (n * b.sectorSize) := by
      intro hcase
      rcases hcase with hall | ⟨o, ho, hc⟩
      · obtain ⟨o, ho, hne⟩ := hs
        exact hne (hall o ho)
      · exact hc.2 (hsame o ho)
    have hnone : differing old new (chunks b n) = [] := by
      refine List.filter_eq_nil_iff.mpr fun c hc hd => ?_
      have hlt : c < n * b.sectorSize / 256 := List.mem_range.mp hc
      obtain ⟨i, hi, hne⟩ := of_decide_eq_true hd
      exact hne (hsame _ (by omega))
    rw [hin hn, hnone]
    rfl

/-- Every fault-free block write wears the flash exactly so, and there is one. -/
theorem block_wear {q : Qspi} {d : QspiDevice} (ho : Opened q d) (hpos : 0 < d.sectorSize.toNat)
    (hp : 256 ∣ d.sectorSize.toNat) {w : Nat} (hw : d.capacity ≤ 2 ^ w) (f : Bytes) (m : Region → Nat → UInt8)
    (base off : Nat) (hn : 1 ≤ n) (hk : k + n ≤ q.numBlocks) :
    (∃ r s', Runs (nor (faultFree d.sectorSize.toNat w)) (doWriteBlock q ⟨.caller, base, off⟩ k n) (start f m) r s') ∧
      ∀ r s', Runs (nor (faultFree d.sectorSize.toNat w)) (doWriteBlock q ⟨.caller, base, off⟩ k n) (start f m) r s' →
        WearPost (faultFree d.sectorSize.toNat w) (shift f (k * d.sectorSize.toNat)) (fun i => m .caller (off + i)) k n
          s'.log := by
  have hspan : Span (faultFree d.sectorSize.toNat w) q k n := span_of_opened ho rfl hpos hp hw hn hk
  have hspec := doWriteBlock_spec hspan ⟨.caller, base, off⟩ rfl (s := start f m) rfl
  constructor
  · obtain ⟨r, s', hrun, -⟩ := exists_run (faultFree_total _ _) hspec
    exact ⟨r, s', hrun⟩
  · intro r s' hrun
    obtain ⟨ops, hlog, hplan⟩ := (wp_runs hspec hrun).log rfl
    rw [hlog]
    exact wear_of_plan hspan hplan

/-- One block of a blank chip. -/
theorem block_wear_jv :
    ∃ r s', Runs (nor (faultFree jv.sectorSize.toNat 24)) (doWriteBlock jvDriver ⟨.caller, 0x20020000, 0⟩ 3 1)
      (start (fun _ => 0xFF) fun _ i => i.toUInt8) r s' ∧
    WearPost (faultFree jv.sectorSize.toNat 24) (shift (fun _ => 0xFF) (3 * jv.sectorSize.toNat))
      (fun i => (0 + i).toUInt8)
      3 1 s'.log := by
  obtain ⟨⟨r, s', hrun⟩, hall⟩ := block_wear jv_opened (by decide) (by decide) (w := 24) (by decide) (fun _ => 0xFF)
    (fun _ i => i.toUInt8) 0x20020000 0 (k := 3) (n := 1) (by decide) (by decide)
  exact ⟨r, s', hrun, hall r s' hrun⟩

end QspiFlash.Block.Wear
