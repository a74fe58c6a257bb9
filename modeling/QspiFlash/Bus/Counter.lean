/-
  QspiFlash.Bus.Counter — every DMA transfer against the 16-bit item counter.

  The bus answers as it likes and keeps the last command; a DMA start is allowed only if the
  counter can hold its NbData (`Fits`). The write side programs pages, of at most 256 bytes;
  the read side hands on the caller's size, through `do_read_block` the whole range's.

  - `read_iff`: one read; `page_fits`: one page.
  - `fits_iff`: of the admitted calls, exactly the long reads do not fit.
-/

import QspiFlash.Block.Bounds
import QspiFlash.Driver.Identity

namespace QspiFlash.Bus.Counter

open Interact Driver
open Block.Bounds (lastCommand)

/-- A byte count that the item counter holds. -/
def InCounter (n : Nat) : Prop := 1 ≤ n ∧ n ≤ 65535

def Fits (last : QspiCommand) : Call → Prop
  | .halReceiveDMA _ | .halTransmitDMA _ => InCounter last.nbData
  | _ => True

def counter : Env Call Call.Resp QspiCommand := Env.monitor Fits lastCommand

/-- In range: at least a byte, inside the device or its blocks. -/
def Admitted (q : Qspi) (d : QspiDevice) : Op → Prop
  | .read address _ count | .write address _ count => 1 ≤ count ∧ address + count ≤ d.capacity
  | .readSector sector _ count | .writeSector sector _ count =>
    1 ≤ count ∧ sector * d.sectorSize.toNat + count ≤ d.capacity
  | .doReadBlock _ blknum nblocks | .doWriteBlock _ blknum nblocks =>
    Opened q d ∧ 1 ≤ nblocks ∧ blknum + nblocks ≤ q.numBlocks
  | _ => False

/-- It does not read more than 65535 bytes at once. -/
def Short (q : Qspi) : Op → Prop
  | .read _ _ count | .readSector _ _ count => count ≤ 65535
  | .doReadBlock _ _ nblocks => q.blockLogicalSizeBytes * nblocks ≤ 65535
  | _ => True

/-! ## One transfer -/

variable {q : Qspi} {d : QspiDevice} {s : QspiCommand}

theorem counter_latches : Latches counter id where
  allowed _ _ _ := trivial
  abort _ := trivial
  sent _ _ _ _ _ hs := hs
  goesWell _ _ _ := rfl

theorem counter_obliging : Obliging counter := obliging_monitor _ _

/-- What the driver asks between a command and its DMA start. -/
theorem quiet_maintenance (c : Call) (h : match c with
    | .dcacheEnabled | .cleanInvalidateDCache .. | .cleanDCache .. | .wrapped => True
    | _ => False) : Quiet counter c := by
  cases c <;> first | exact absurd h id | exact fun _ => ⟨trivial, fun _ _ hs => hs⟩

/-- The maintenance of a transfer and its start, after the command `s`. -/
theorem start_iff {c : Prop} [Decidable c] {m : M Unit} (hm : m.All (Quiet counter)) {k : M QspiResult}
    (hk : wp counter k (fun _ _ => True) s ↔ InCounter s.nbData) :
    wp counter (if c then m >>= fun _ => k else k) (fun _ _ => True) s ↔ InCounter s.nbData := by
  constructor
  · intro h
    split at h
    · obtain ⟨u, s', hrun⟩ := run_total counter_obliging.total m s
      have hs : s' = s := wp_runs (Q := fun _ s' => s' = s) (wp_allQuiet hm s) hrun
      rw [hs] at hrun
      exact hk.mp (wp_rest h hrun)
    · exact hk.mp h
  · exact fun h => wp_when (wp_allQuiet hm s) (hk.mpr h)

theorem read_iff (hq : q.pdevice = some d) (a : Nat) (p : Ptr) (n : Nat) :
    wp counter (Driver.read q a p n) (fun _ _ => True) s ↔ InCounter n := by
  unfold Driver.read
  rw [hq]
  have hcache : (invalidateDcache p n).All (Quiet counter) :=
    all_invalidateDcache (quiet_maintenance _ trivial) (fun _ _ => quiet_maintenance _ trivial)
      (quiet_maintenance _ trivial) p n
  exact counter_latches.onOk_iff.trans (start_iff hcache (receive_iff ⟨fun _ => trivial, fun _ => trivial⟩))

theorem page_fits (a : Nat) (p : Ptr) {n : Nat} (hn : InCounter n) :
    wp counter (pageWrite q a p n) (fun _ _ => True) s := by
  have hcache : (cleanDcache p n).All (Quiet counter) :=
    all_cleanDcache (quiet_maintenance _ trivial) (fun _ _ => quiet_maintenance _ trivial) (quiet_maintenance _ trivial) p n
  refine counter_latches.onOk_iff.mpr (counter_latches.onOk_iff.mpr
    (wp_when (wp_allQuiet hcache _) ((transmit_iff ?_).mpr hn)))
  refine all_onOk ⟨fun _ => trivial, fun _ => trivial⟩ ?_
  exact all_onOk ⟨fun _ => trivial, fun _ => trivial⟩ ⟨fun _ => trivial, fun _ => trivial⟩

theorem erase_fits (a : Nat) (which : Instruction) : wp counter (erase q a which) (fun _ _ => True) s := by
  refine wp_allowed ?_ s
  have hcmd : ∀ cmd t, (qspiCommand cmd t).All fun c => ∀ s, Fits s c := fun _ _ =>
    all_qspiCommand (fun _ => trivial) fun _ => trivial
  unfold erase
  split
  · trivial
  · refine all_onOk (hcmd _ _) (all_onOk (hcmd _ _) ?_)
    exact all_onOk ⟨fun _ => trivial, fun _ => trivial⟩ ⟨fun _ => trivial, fun _ => trivial⟩

/-! ## Every admitted call -/

theorem composes_fits : Composes fun p => ∀ s, wp counter p (fun _ _ => True) s where
  pure _ _ := trivial
  bind hp hf s := wp_seq (hp s) fun a s' _ => hf a s'
  mark c hc _ s := by
    refine wp_ask.mpr ⟨?_, fun _ _ _ => trivial⟩
    cases c <;> trivial

/-- The bytes a block call asks for, of an open device of the tables. -/
theorem block_count (hd : d ∈ tableDevices) (ho : Opened q d) {k n : Nat} (hn : 1 ≤ n) (hk : k + n ≤ q.numBlocks) :
    1 ≤ q.blockLogicalSizeBytes * n ∧ q.blockLogicalSizeBytes * n % 2 ^ 32 = q.blockLogicalSizeBytes * n := by
  obtain ⟨hsize, hcap, -⟩ := table_geometry d hd
  have hsize : d.sectorSize.toNat = 4096 := by rw [hsize]; rfl
  have hspan := Block.span_of_opened (b := Nor.faulty d.sectorSize.toNat 24 fun _ => True) ho rfl (by rw [hsize]; decide)
    (by rw [hsize]; decide) hcap hn hk
  have hcount := hspan.count
  have hfits := hspan.fits
  rw [hspan.blockSize, Nat.mul_comm]
  omega

/-- The counts a short call reads with. -/
theorem read_count (hd : d ∈ tableDevices) {o : Op} (ho : Admitted q d o) (hshort : Short q o) {n : Nat}
    (hn : ReadCount q o n) : InCounter n := by
  cases o with
  | read a p count =>
    obtain rfl : n = count := hn
    exact ⟨ho.1, hshort⟩
  | readSector k p count =>
    obtain rfl : n = count := hn
    exact ⟨ho.1, hshort⟩
  | doReadBlock buf k nblocks =>
    obtain ⟨hpos, hmod⟩ := block_count hd ho.1 ho.2.1 ho.2.2
    rw [show n = q.blockLogicalSizeBytes * nblocks from hn.trans hmod]
    exact ⟨hpos, hshort⟩
  | doWriteBlock buf k nblocks =>
    rw [show n = lbuffSize from hn]
    exact ⟨by decide, by decide⟩
  | _ => exact absurd hn id

/-- The counts any admitted call programs pages with. -/
theorem page_count {o : Op} (ho : Admitted q d o) {n : Nat} (hn : PageCount o n) : InCounter n := by
  have hpage : ∀ {count : Nat}, 1 ≤ count → n ≤ 256 ∧ (n = 0 → count = 0) → InCounter n :=
    fun hc h => ⟨by omega, by omega⟩
  cases o with
  | write a p count => exact hpage ho.1 hn
  | writeSector k p count => exact hpage ho.1 hn
  | doWriteBlock buf k nblocks => exact ⟨hn.1, Nat.le_trans hn.2 (by decide)⟩
  | _ => exact absurd hn id

theorem short_fits (hd : d ∈ tableDevices) (hq : q.pdevice = some d) (tbl : List QspiManuf) {o : Op} (ho : Admitted q d o)
    (hshort : Short q o) : wp counter (exec tbl o q) (fun _ _ => True) s := by
  have hdata : DataOp o := by cases o <;> trivial
  obtain ⟨α, out, p, heq, hp⟩ := composes_fits.dataOp tbl hdata (by rw [sectorSizeOf_eq hq]; exact fun _ => trivial)
    (fun a p n hn s => (read_iff hq a p n).mpr (read_count hd ho hshort hn))
    (fun a p n hn s => page_fits a p (page_count ho hn))
    (fun i a _ s => erase_fits a i) fun n r s => wp_ask.mpr ⟨trivial, fun _ _ _ => trivial⟩
  rw [heq]
  exact wp_seq (hp s) fun _ _ _ => trivial

/-- A 32-bit computation does not send a command. -/
theorem u32_first {x : Nat} {α : Type} {f : Nat → M α} (h : wp counter (u32 x >>= f) (fun _ _ => True) s) :
    ∃ y, wp counter (f y) (fun _ _ => True) s := by
  unfold u32 at h
  split at h
  · exact ⟨x, h⟩
  · exact ⟨x % 2 ^ 32, h.2 () s rfl⟩

/-- A call that fits is short. -/
theorem fits_short (hd : d ∈ tableDevices) (hq : q.pdevice = some d) {tbl : List QspiManuf} {o : Op} (ho : Admitted q d o)
    (h : wp counter (exec tbl o q) (fun _ _ => True) s) : Short q o := by
  cases o with
  | read a p count => exact ((read_iff hq a p count).mp (wp_first h)).2
  | readSector k p count =>
    have h := wp_first h
    rw [readSector, sectorSizeOf_eq hq] at h
    obtain ⟨a, h⟩ := u32_first h
    exact ((read_iff hq a p count).mp h).2
  | doReadBlock buf k nblocks =>
    obtain ⟨-, hmod⟩ := block_count hd ho.1 ho.2.1 ho.2.2
    obtain ⟨a, h⟩ := u32_first (wp_first h)
    rw [u32_lt (by omega)] at h
    exact ((read_iff hq a buf _).mp (wp_first h)).2
  | _ => trivial

/-- Of the admitted calls on a device of the tables, whatever the bus answers, those fit the
    counter that do not read more than 65535 bytes at once, and no others. -/
theorem fits_iff (hd : d ∈ tableDevices) (hq : q.pdevice = some d) (tbl : List QspiManuf) {o : Op} (ho : Admitted q d o) :
    (∀ s c s', Asks counter (exec tbl o q) s c s' → Fits s' c) ↔ Short q o := by
  constructor
  · intro h
    exact fits_short hd hq ho (wp_iff_asks.mpr (h { instruction := .READ_STATUS_REGISTER, instructionMode := .none }))
  · exact fun h s => wp_iff_asks.mp (short_fits hd hq tbl ho h)

/-- All of a W25Q128JV may be written by one call, and 15 of its blocks read. -/
theorem fits_jv :
    (∀ s c s', Asks counter (exec qspiManufacturers (.doWriteBlock ⟨.caller, 0x20020000, 0⟩ 0 4096) jvDriver) s c s' →
      Fits s' c) ∧
    ∀ s c s', Asks counter (exec qspiManufacturers (.doReadBlock ⟨.caller, 0x20020000, 0⟩ 0 15) jvDriver) s c s' →
      Fits s' c := by
  have hwrite : Admitted jvDriver jv (.doWriteBlock ⟨.caller, 0x20020000, 0⟩ 0 4096) := ⟨jv_opened, by decide, by decide⟩
  have hread : Admitted jvDriver jv (.doReadBlock ⟨.caller, 0x20020000, 0⟩ 0 15) := ⟨jv_opened, by decide, by decide⟩
  constructor
  · exact (fits_iff (by decide) rfl qspiManufacturers hwrite).mpr trivial
  · exact (fits_iff (by decide) rfl qspiManufacturers hread).mpr (show 4096 * 15 ≤ 65535 by decide)

/-- A read of 16 blocks is one transfer of 65536 bytes. -/
theorem long_read : ¬ ∀ (q : Qspi) (d : QspiDevice) (o : Op), d ∈ tableDevices → q.pdevice = some d → Admitted q d o →
    ∀ s c s', Asks counter (exec qspiManufacturers o q) s c s' → Fits s' c := by
  intro h
  have hasks :=
    h jvDriver jv (.doReadBlock ⟨.caller, 0x20020000, 0⟩ 0 16) (by decide) rfl ⟨jv_opened, by decide, by decide⟩
    { instruction := .READ_STATUS_REGISTER, instructionMode := .none }
  have hshort : Short jvDriver (.doReadBlock ⟨.caller, 0x20020000, 0⟩ 0 16) :=
    fits_short (d := jv) (by decide) rfl ⟨jv_opened, by decide, by decide⟩ (wp_iff_asks.mpr hasks)
  exact absurd hshort (show ¬ 4096 * 16 ≤ 65535 by decide)

end QspiFlash.Bus.Counter
