/-
  QspiFlash.Block.SelfTest — `test_qspi`, the repository's own test, as a client of the driver.

  The test opens the device, writes every block with the next bytes of `random ()`, reads each
  back into a second buffer and compares, closes the device and puts the chip to sleep. It is a
  program over the calls of the driver; a call may find the chip at any point of the life of
  `Block.Lifecycle`, on the bus of `Bus.Device`, and the test goes on with that life up to its
  `sleep`. `random i` is the byte of the `i`-th call of `random ()` after `srand (0xBABA)`.

  The pointer that `posix::open` returns is not checked. Where it is null, the test calls its
  methods all the same; of what comes then nothing is said. The test takes a `ssize_t` of 0 for
  an error, where the driver returns -1. So it reports no error of a call, and it is the
  comparison that finds one. And it sends POWER_DOWN on four lines to a chip that its `close`
  has left in SPI mode, so it reports a deep sleep that is not one.

  - `writeBlocks_run`, `verifyBlocks_run`: its two loops.
  - `sleep_closed`: its `sleep (true)` puts to sleep only a chip whose device is still open.
  - `selftest`: it does nothing that is not allowed unless the open fails, and else ends; on a bus
    without failures it passes, and the flash holds what it wrote; where it passes, every block
    holds what it wrote, or its read failed without notice.
-/

import QspiFlash.Block.Lifecycle
import QspiFlash.Bus.Sleep
import QspiFlash.Driver.FailStop

namespace QspiFlash.Block.SelfTest

open Interact Driver Bus Bus.Device
open Bus.Modes (Chip InSync St jvChip jvStart)
open Contents (Event InRange into)
open Lifecycle (History Allowed Live Inv callerMem)

/-! ## The test -/

/-- What the test asks: a call of the driver, with its memory before the call, the geometry, and
    the chip's sleep. -/
inductive Request where
  | call (o : Op) (mem : Nat → UInt8)
  | blockPhysicalSizeBytes
  | blocks
  | sleep (state : Bool)
  /-- A method of the null pointer `blk_dev`. -/
  | nullDeref

/-- Nothing comes of a null pointer's method. -/
@[reducible] def Request.Resp : Request → Type
  | .call .. => Out × (Nat → UInt8)
  | .blockPhysicalSizeBytes | .blocks => Nat
  | .sleep _ => QspiResult
  | .nullDeref => Empty

abbrev T := Prog Request Request.Resp

/-- A call's result, and the memory after it. -/
def callDriver (o : Op) (mem : Nat → UInt8) : T (Out × (Nat → UInt8)) := Prog.ask (Request.call o mem)

def blockPhysicalSizeBytes : T Nat := Prog.ask Request.blockPhysicalSizeBytes

def blocks : T Nat := Prog.ask Request.blocks

/-- `flash.impl ().sleep (state)`. -/
def sleep (state : Bool) : T QspiResult := Prog.ask (Request.sleep state)

def nullDeref {α : Type} : T α := .call Request.nullDeref Empty.elim

/-- What is printed of the blocks. -/
inductive Report where
  /-- There was no memory for the buffers. -/
  | none
  | writeError (sector : Nat)
  | readError (sector : Nat)
  | compareError (sector : Nat)
  | passed
  deriving DecidableEq, Repr

/-- A `ssize_t` kept in a `size_t`. -/
def sizeT : Out → Nat
  | .value n => (n % 2 ^ 32).toNat
  | .result _ => 0

/-- `for (i = 0; i < n; i++) p[i] = g i`. -/
def put (mem : Nat → UInt8) (p : Ptr) (n : Nat) (g : Nat → UInt8) : Nat → UInt8 :=
  fun o => if p.off ≤ o ∧ o < p.off + n then g (o - p.off) else mem o

def memcmp (mem : Nat → UInt8) (p p' : Ptr) (n : Nat) : Bool := ∀ i, i < n → mem (p.off + i) = mem (p'.off + i)

variable (sectorSize : Nat) (random : Nat → UInt8) (pw pr : Ptr)

/-- The loop that writes, with `n` sectors to go: the sector it stopped at. -/
def writeBlocks : Nat → Nat → (Nat → UInt8) → T (Nat × (Nat → UInt8))
  | 0, sector, mem => pure (sector, mem)
  | n + 1, sector, mem => do
    let y ← callDriver (.doWriteBlock pw sector 1) (put mem pw sectorSize fun i => random (sector * sectorSize + i))
    if sizeT y.1 = 0 then pure (sector, y.2) else writeBlocks n (sector + 1) y.2

/-- The loop that reads and verifies, with `n` sectors to go. -/
def verifyBlocks : Nat → Nat → (Nat → UInt8) → T (Report × (Nat → UInt8))
  | 0, _, mem => pure (.passed, mem)
  | n + 1, sector, mem => do
    let y ← callDriver (.doReadBlock pr sector 1) (put mem pw sectorSize fun i => random (sector * sectorSize + i))
    if sizeT y.1 = 0 then pure (.readError sector, y.2)
    else if memcmp y.2 pw pr sectorSize then verifyBlocks n (sector + 1) y.2
    else pure (.compareError sector, y.2)

variable (allocated : Bool)

/-- All `sectorCount` sectors, written and then verified if all were; `allocated` is `pw && pr`. -/
def exercise (sectorCount : Nat) (mem : Nat → UInt8) : T (Report × (Nat → UInt8)) :=
  if allocated then do
    let x ← writeBlocks sectorSize random pw sectorCount 0 mem
    if x.1 = sectorCount then verifyBlocks sectorSize random pw pr sectorCount 0 x.2
    else pure (.writeError x.1, x.2)
  else pure (.none, mem)

variable (mem : Nat → UInt8)

/-- `test_qspi` on the opened block device: what it reports of the blocks, and the result of
    its `sleep`. -/
def testOpened : T (Report × QspiResult) := do
  let sectorSize ← blockPhysicalSizeBytes
  let sectorCount ← blocks
  let z ← exercise sectorSize random pw pr allocated sectorCount mem
  let _ ← callDriver .doClose z.2
  let r ← sleep true
  pure (z.1, r)

/-- `test_qspi` without FLASH_LOW_LEVEL_TEST. `posix::open` returns `nullptr` if `do_vopen` fails,
    which is not checked. -/
def testQspi : T (Report × QspiResult) := do
  let y ← callDriver .doVopen mem
  if y.1 ≠ .value 0 then nullDeref else testOpened random pw pr allocated y.2

/-! ## Its world -/

/-- The calls made so far, newest first, the driver and the bus. -/
abbrev World := List Event × Qspi × St

variable (x : Chip) (w : Nat) (fails : Bool)

/-- A life of the chip goes on with each call; only what is allowed may be called, and no method
    of a null pointer. The `sleep` at the end is not a part of that life. -/
def life : Env Request Request.Resp World where
  guard y c := match c with
    | .call o _ => Allowed x y.2.1 o
    | .nullDeref => False
    | _ => True
  step y c r y' := match c with
    | .call o m => ∃ q' s', Runs (Device.bus x w fails) (exec qspiManufacturers o y.2.1) (callerMem y.2.2 m) (r.1, q') s' ∧
        r.2 = s'.mem .caller ∧ y' = (⟨o, fails, m, r.1, s'.mem .caller⟩ :: y.1, q', s')
    | .blockPhysicalSizeBytes => r = y.2.1.blockPhysicalSizeBytes ∧ y' = y
    | .blocks => r = y.2.1.numBlocks ∧ y' = y
    | .sleep state => ∃ s', Runs (Device.bus x w fails) (Driver.sleep state) y.2.2 r s' ∧ y' = (y.1, y.2.1, s')
    | .nullDeref => False

variable {sectorSize random pw pr allocated mem x w fails}

theorem put_on (mem : Nat → UInt8) (p : Ptr) {n : Nat} (g : Nat → UInt8) {i : Nat} (hi : i < n) :
    put mem p n g (p.off + i) = g i := by
  unfold put
  rw [if_pos ⟨Nat.le_add_right .., Nat.add_lt_add_left hi _⟩, Nat.add_sub_cancel_left]

variable {f : NorArray.Bytes} {y : World}

/-! ## One call -/

/-- A history in which the device is open. -/
structure Open (x : Chip) (w : Nat) (fails : Bool) (f : NorArray.Bytes) (y : World) : Prop where
  history : History x w fails f y.1 y.2.1 y.2.2
  opened : y.2.1.isOpened = true

/-- A block of the device is in range. -/
theorem block_inRange {d : QspiDevice} {k : Nat} (hk : k < d.capacity / d.sectorSize.toNat)
    (hpos : 0 < d.sectorSize.toNat) {p : Ptr} (hp : p.region = .caller) {o : Op}
    (ho : o = .doWriteBlock p k 1 ∨ o = .doReadBlock p k 1) : InRange d o := by
  have hfits : k * d.sectorSize.toNat + 1 * d.sectorSize.toNat ≤ d.capacity := by
    rw [← Nat.add_mul]
    exact (Nat.le_div_iff_mul_le hpos).mp hk
  have hsome : 0 < 1 * d.sectorSize.toNat := by rwa [Nat.one_mul]
  rcases ho with rfl | rfl
  · exact ⟨trivial, hsome, hfits, fun _ h => (by cases h), fun _ h => (by cases h; exact hp)⟩
  · exact ⟨trivial, hsome, hfits, fun _ h => (by cases h; exact hp), fun _ h => (by cases h)⟩

theorem sizeT_block {out : Out} (h : out = .value (ssize 1) ∨ out = .value (-1)) : sizeT out ≠ 0 := by
  rcases h with rfl | rfl <;> decide

/-- Any call of the data path goes on with the history, and leaves what `Contents.Post` says. -/
theorem data_call (hw : x.device.capacity ≤ 2 ^ w) (h : Open x w fails f y) {o : Op} (hin : InRange x.device o)
    (ho : Allowed x y.2.1 o) (m : Nat → UInt8) : wp (life x w fails) (callDriver o m) (fun r y' =>
      Open x w fails f y' ∧ y'.2.1 = y.2.1 ∧ y'.1 = ⟨o, fails, m, r.1, r.2⟩ :: y.1 ∧ r.2 = y'.2.2.mem .caller ∧
      (∃ s', Runs (Device.bus x w fails) (exec qspiManufacturers o y.2.1) (callerMem y.2.2 m) (r.1, y.2.1) s') ∧
      Contents.Post (params x w fails) x.device (fun _ => True) o (norSide (callerMem y.2.2 m)) r.1 (norSide y'.2.2)) y := by
  have hinv := Lifecycle.history_inv hw h.history
  refine ⟨ho, fun r y' hs => ?_⟩
  obtain ⟨q', s', hrun, hmem, rfl⟩ := hs
  obtain ⟨hq, -, hpost⟩ := wp_runs (Lifecycle.data_moves hw hinv.toLive h.opened hin m) hrun
  obtain rfl : q' = y.2.1 := hq
  refine ⟨⟨.call h.history ho hrun, h.opened⟩, rfl, by rw [hmem], hmem, ⟨s', hrun⟩, hpost⟩

theorem write_call (hw : x.device.capacity ≤ 2 ^ w) (h : Open x w fails f y) {k : Nat}
    (hk : k < x.device.capacity / x.device.sectorSize.toNat) (hpw : pw.region = .caller) (m : Nat → UInt8) :
    wp (life x w fails) (callDriver (.doWriteBlock pw k 1) m) (fun r y' =>
      Open x w fails f y' ∧ y'.2.1 = y.2.1 ∧ (∃ e, y'.1 = e :: y.1) ∧ sizeT r.1 ≠ 0 ∧
      (fails = false → ∀ a, y'.2.2.flash a =
        if k * x.device.sectorSize.toNat ≤ a ∧ a < (k + 1) * x.device.sectorSize.toNat then
          m (pw.off + (a - k * x.device.sectorSize.toNat))
        else y.2.2.flash a)) y := by
  have hin : InRange x.device (.doWriteBlock pw k 1) :=
    block_inRange hk (Lifecycle.table_device x).1 hpw (Or.inl rfl)
  have hdev := ((Lifecycle.history_inv hw h.history).opened h.opened).2.pdevice
  refine wp_mono (data_call hw h hin ⟨h.opened, hin⟩ m) ?_
  intro r y' hcall
  obtain ⟨hopen, hq, hes, -, ⟨s', hrun⟩, hpost⟩ := hcall
  have hvalue := FailStop.told_value (fun _ _ => trivial) (FailStop.doWriteBlock_stops hdev pw k 1) hrun
  refine ⟨hopen, hq, ⟨_, hes⟩, sizeT_block hvalue, fun hf a => ?_⟩
  have hgood : Contents.succeeded (.doWriteBlock pw k 1) r.1 = true := by
    by_contra hne
    have hfaults : fails = true := hpost.failed (Bool.eq_false_iff.mpr hne)
    rw [hf] at hfaults
    cases hfaults
  have hdoes := hpost.flash a
  by_cases ha : k * x.device.sectorSize.toNat ≤ a ∧ a < (k + 1) * x.device.sectorSize.toNat
  · have hset : Contents.changes x.device.sectorSize.toNat (fun _ => True) fails (.doWriteBlock pw k 1) m r.1 a =
        .set (m (pw.off + (a - k * x.device.sectorSize.toNat))) :=
      (if_pos ha).trans (if_pos ⟨hgood, fun hbad => by rw [hf] at hbad; exact Bool.false_ne_true hbad.1⟩)
    rw [if_pos ha]
    exact (congrArg (fun c => NorArray.Change.Does c _ _) hset).mp hdoes
  · have hkeep : Contents.changes x.device.sectorSize.toNat (fun _ => True) fails (.doWriteBlock pw k 1) m r.1 a = .keep :=
      if_neg ha
    rw [if_neg ha]
    exact (congrArg (fun c => NorArray.Change.Does c _ _) hkeep).mp hdoes

theorem read_call (hw : x.device.capacity ≤ 2 ^ w) (h : Open x w fails f y) {k : Nat}
    (hk : k < x.device.capacity / x.device.sectorSize.toNat) (hpr : pr.region = .caller) (m : Nat → UInt8) :
    wp (life x w fails) (callDriver (.doReadBlock pr k 1) m) (fun r y' =>
      Open x w fails f y' ∧ y'.2.1 = y.2.1 ∧ y'.1 = ⟨.doReadBlock pr k 1, fails, m, r.1, r.2⟩ :: y.1 ∧ sizeT r.1 ≠ 0 ∧
      y'.2.2.flash = y.2.2.flash ∧
      (∀ o, ¬ (pr.off ≤ o ∧ o < pr.off + x.device.sectorSize.toNat) → r.2 o = m o) ∧
      ((fails = true ∧ r.1 = .value (-1)) ∨ ∀ i, i < x.device.sectorSize.toNat →
        r.2 (pr.off + i) = y.2.2.flash (k * x.device.sectorSize.toNat + i))) y := by
  have hin : InRange x.device (.doReadBlock pr k 1) :=
    block_inRange hk (Lifecycle.table_device x).1 hpr (Or.inr rfl)
  have hdev := ((Lifecycle.history_inv hw h.history).opened h.opened).2.pdevice
  refine wp_mono (data_call hw h hin ⟨h.opened, hin⟩ m) ?_
  intro r y' hcall
  obtain ⟨hopen, hq, hes, hmem, ⟨s', hrun⟩, hpost⟩ := hcall
  have hvalue := FailStop.told_value (fun _ _ => trivial) (FailStop.doReadBlock_stops hdev pr k 1) hrun
  have hone : Contents.count x.device.sectorSize.toNat (.doReadBlock pr k 1) = x.device.sectorSize.toNat :=
    Nat.one_mul _
  refine ⟨hopen, hq, hes, sizeT_block hvalue, funext fun a => hpost.flash a, fun o ho => ?_, ?_⟩
  · rw [hmem]
    refine hpost.frame o fun p hp => ?_
    obtain rfl := Option.some.inj hp
    rw [hone]
    exact ho
  · rcases hvalue with hv | hv
    · refine Or.inr fun i hi => ?_
      rw [hmem]
      have hok : Contents.succeeded (.doReadBlock pr k 1) r.1 = true := by
        rw [hv]
        rfl
      exact hpost.read hok pr rfl i (by rwa [hone])
    · refine Or.inl ⟨hpost.failed ?_, hv⟩
      rw [hv]
      rfl

/-! ## The loops -/

/-- No error of a write is seen, so every sector is written. -/
theorem writeBlocks_run (hw : x.device.capacity ≤ 2 ^ w) (hpw : pw.region = .caller) {n k : Nat}
    (hk : k + n ≤ x.device.capacity / x.device.sectorSize.toNat) (h : Open x w fails f y) (mem : Nat → UInt8) :
    wp (life x w fails) (writeBlocks x.device.sectorSize.toNat random pw n k mem) (fun z y' =>
      Open x w fails f y' ∧ y'.2.1 = y.2.1 ∧ (∃ new, y'.1 = new ++ y.1) ∧ z.1 = k + n ∧
      (fails = false → ∀ a, y'.2.2.flash a =
        if k * x.device.sectorSize.toNat ≤ a ∧ a < (k + n) * x.device.sectorSize.toNat then random a
        else y.2.2.flash a)) y := by
  induction n generalizing k y mem with
  | zero =>
    refine ⟨h, rfl, ⟨[], rfl⟩, rfl, fun _ a => (if_neg fun ha => ?_).symm⟩
    exact absurd ha.2 (Nat.not_lt.mpr ha.1)
  | succ n ih =>
    rw [writeBlocks]
    refine wp_seq (write_call hw h (by omega) hpw _) ?_
    intro r y₁ hpost
    obtain ⟨h₁, hq₁, ⟨e, hes₁⟩, hsize, hflash₁⟩ := hpost
    rw [if_neg hsize]
    refine wp_mono (ih (by omega) h₁ r.2) ?_
    intro z y₂ hpost
    obtain ⟨h₂, hq₂, ⟨new, hes₂⟩, hz, hflash₂⟩ := hpost
    refine ⟨h₂, hq₂.trans hq₁, ⟨new ++ [e], by rw [hes₂, hes₁, List.append_assoc]; rfl⟩, by omega, fun hf a => ?_⟩
    rw [hflash₂ hf a, hflash₁ hf a, show k + (n + 1) = k + 1 + n by omega]
    have hsplit : (k + 1) * x.device.sectorSize.toNat = k * x.device.sectorSize.toNat + x.device.sectorSize.toNat :=
      Nat.succ_mul ..
    have hrest : (k + 1) * x.device.sectorSize.toNat ≤ (k + 1 + n) * x.device.sectorSize.toNat :=
      Nat.mul_le_mul_right _ (Nat.le_add_right ..)
    by_cases hlater : (k + 1) * x.device.sectorSize.toNat ≤ a ∧ a < (k + 1 + n) * x.device.sectorSize.toNat
    · rw [if_pos hlater, if_pos ⟨by omega, hlater.2⟩]
    · rw [if_neg hlater]
      by_cases hnow : k * x.device.sectorSize.toNat ≤ a ∧ a < (k + 1) * x.device.sectorSize.toNat
      · rw [if_pos hnow, if_pos ⟨hnow.1, by omega⟩, put_on mem pw _ (by omega), Nat.add_sub_cancel' hnow.1]
      · rw [if_neg hnow, if_neg (by omega)]

/-- The flash holds what was written to the sector, or its read failed without notice. -/
def Verified (fails : Bool) (Z : Nat) (random : Nat → UInt8) (pr : Ptr) (g : NorArray.Bytes) (new : List Event)
    (k : Nat) : Prop :=
  (∀ i, i < Z → g (k * Z + i) = random (k * Z + i)) ∨
    (fails = true ∧ ∃ e ∈ new, e.op = .doReadBlock pr k 1 ∧ e.out = .value (-1))

theorem verifyBlocks_run (hw : x.device.capacity ≤ 2 ^ w) (hpr : pr.region = .caller)
    (hdisj : pw.off + x.device.sectorSize.toNat ≤ pr.off ∨ pr.off + x.device.sectorSize.toNat ≤ pw.off) {n k : Nat}
    (hk : k + n ≤ x.device.capacity / x.device.sectorSize.toNat) (h : Open x w fails f y) (mem : Nat → UInt8) :
    wp (life x w fails) (verifyBlocks x.device.sectorSize.toNat random pw pr n k mem) (fun z y' =>
      Open x w fails f y' ∧ y'.2.1 = y.2.1 ∧ y'.2.2.flash = y.2.2.flash ∧
      (∃ new, y'.1 = new ++ y.1 ∧ (z.1 = .passed → ∀ j, k ≤ j → j < k + n →
        Verified fails x.device.sectorSize.toNat random pr y.2.2.flash new j)) ∧
      (fails = false → (∀ a, k * x.device.sectorSize.toNat ≤ a → a < (k + n) * x.device.sectorSize.toNat →
        y.2.2.flash a = random a) → z.1 = .passed) ∧
      (z.1 = .passed ∨ ∃ j, z.1 = .compareError j)) y := by
  induction n generalizing k y mem with
  | zero => exact ⟨h, rfl, rfl, ⟨[], rfl, fun _ j h1 h2 => absurd h2 (Nat.not_lt.mpr h1)⟩, fun _ _ => rfl, Or.inl rfl⟩
  | succ n ih =>
    rw [verifyBlocks]
    refine wp_seq (read_call hw h (by omega) hpr _) ?_
    intro r y₁ hpost
    obtain ⟨h₁, hq₁, hes, hsize, hflash₁, hframe, hread⟩ := hpost
    rw [if_neg hsize]
    obtain ⟨e, hes₁, hop, hout⟩ : ∃ e : Event, y₁.1 = e :: y.1 ∧ e.op = .doReadBlock pr k 1 ∧ e.out = r.1 :=
      ⟨_, hes, rfl, rfl⟩
    have hwritten : ∀ i, i < x.device.sectorSize.toNat →
        r.2 (pw.off + i) = random (k * x.device.sectorSize.toNat + i) :=
      fun i hi => (hframe _ (by omega)).trans (put_on mem pw _ hi)
    have hsplit : (k + 1) * x.device.sectorSize.toNat = k * x.device.sectorSize.toNat + x.device.sectorSize.toNat :=
      Nat.succ_mul ..
    have hrest : (k + 1) * x.device.sectorSize.toNat ≤ (k + (n + 1)) * x.device.sectorSize.toNat :=
      Nat.mul_le_mul_right _ (by omega)
    refine wp_ite (fun heq => ?_) fun hne => ?_
    · refine wp_mono (ih (by omega) h₁ r.2) ?_
      intro z y₂ hpost
      obtain ⟨h₂, hq₂, hflash₂, ⟨new, hes₂, hpass⟩, hgood, hz⟩ := hpost
      refine ⟨h₂, hq₂.trans hq₁, hflash₂.trans hflash₁, ⟨new ++ [e], ?_, fun hp j h1 h2 => ?_⟩,
        fun hf hall => hgood hf fun a h1 h2 => ?_, hz⟩
      · rw [hes₂, hes₁, List.append_assoc]
        rfl
      · by_cases hj : j = k
        · subst hj
          rcases hread with ⟨hf, hbad⟩ | hread
          · exact Or.inr ⟨hf, e, List.mem_append_right _ List.mem_cons_self, hop, hout.trans hbad⟩
          · refine Or.inl fun i hi => ?_
            rw [← hread i hi, ← hwritten i hi]
            exact (of_decide_eq_true heq i hi).symm
        · rcases hpass hp j (by omega) (by omega) with hv | ⟨hf, e, he, hout⟩
          · rw [hflash₁] at hv
            exact Or.inl hv
          · exact Or.inr ⟨hf, e, List.mem_append_left _ he, hout⟩
      · rw [hflash₁]
        rw [show k + 1 + n = k + (n + 1) by omega] at h2
        exact hall a (by omega) h2
    · refine ⟨h₁, hq₁, hflash₁, ⟨[e], hes₁, fun hp => (by cases hp)⟩, fun hf hall => absurd ?_ hne, Or.inr ⟨k, rfl⟩⟩
      refine decide_eq_true fun i hi => ?_
      rcases hread with ⟨hfails, -⟩ | hread
      · rw [hf] at hfails
        cases hfails
      · rw [hwritten i hi, hread i hi]
        exact (hall _ (by omega) (by omega)).symm

/-- What the loops report. -/
def Reported : Bool → Report → Prop
  | true, v => v = .passed ∨ ∃ k, v = .compareError k
  | false, v => v = .none

/-- All sectors are written and then verified. -/
theorem exercise_run (hw : x.device.capacity ≤ 2 ^ w) (hpw : pw.region = .caller) (hpr : pr.region = .caller)
    (hdisj : pw.off + x.device.sectorSize.toNat ≤ pr.off ∨ pr.off + x.device.sectorSize.toNat ≤ pw.off) {n : Nat}
    (hn : n = x.device.capacity / x.device.sectorSize.toNat) (h : Open x w fails f y) (mem : Nat → UInt8) :
    wp (life x w fails) (exercise x.device.sectorSize.toNat random pw pr allocated n mem) (fun z y' =>
      Open x w fails f y' ∧ Reported allocated z.1 ∧
      (fails = false → allocated = true → z.1 = .passed ∧ ∀ a, a < n * x.device.sectorSize.toNat →
        y'.2.2.flash a = random a) ∧
      ∃ new, y'.1 = new ++ y.1 ∧ (z.1 = .passed → ∀ k, k < n →
        Verified fails x.device.sectorSize.toNat random pr y'.2.2.flash new k)) y := by
  refine wp_ite (fun hall => ?_) fun hall => ?_
  · refine wp_seq (writeBlocks_run hw hpw (Nat.le_of_eq ((Nat.zero_add n).trans hn)) h mem) ?_
    intro z y₁ hpost
    obtain ⟨h₁, -, ⟨new₁, hes₁⟩, hz, hflash₁⟩ := hpost
    rw [Nat.zero_add] at hz hflash₁
    rw [if_pos hz, hall]
    have hwritten : fails = false → ∀ a, a < n * x.device.sectorSize.toNat → y₁.2.2.flash a = random a := by
      intro hf a ha
      rw [hflash₁ hf a, if_pos ⟨by omega, ha⟩]
    refine wp_mono (verifyBlocks_run hw hpr hdisj (Nat.le_of_eq ((Nat.zero_add n).trans hn)) h₁ z.2) ?_
    intro v y₂ hpost
    obtain ⟨h₂, -, hflash₂, ⟨new₂, hes₂, hpass⟩, hgood, hv⟩ := hpost
    rw [Nat.zero_add] at hpass hgood
    rw [hflash₂]
    refine ⟨h₂, hv, fun hf _ => ⟨hgood hf fun a _ ha => hwritten hf a ha, hwritten hf⟩, new₂ ++ new₁, ?_,
      fun hp k hk => ?_⟩
    · rw [hes₂, hes₁, List.append_assoc]
    · rcases hpass hp k (Nat.zero_le k) hk with hv | ⟨hf, e, he, hout⟩
      · exact Or.inl hv
      · exact Or.inr ⟨hf, e, List.mem_append_left _ he, hout⟩
  · rw [Bool.eq_false_iff.mpr hall]
    exact ⟨h, rfl, fun _ hne => absurd hne Bool.false_ne_true, [], rfl, fun hp => (by cases hp)⟩

/-! ## The whole test -/

/-- A call that was allowed goes on with the history, and does what the life of the chip says. -/
theorem call_history (hw : x.device.capacity ≤ 2 ^ w) (h : History x w fails f y.1 y.2.1 y.2.2) {o : Op}
    (ha : Allowed x y.2.1 o) (m : Nat → UInt8) : wp (life x w fails) (callDriver o m) (fun r y' =>
      History x w fails f y'.1 y'.2.1 y'.2.2 ∧ (∃ e, y'.1 = e :: y.1 ∧ e.op = o ∧ e.out = r.1) ∧
      Lifecycle.Returns x fails f y.1 y.2.1 o m (r.1, y'.2.1) y'.2.2 ∧
      ∃ z, Runs (Device.bus x w fails) (exec qspiManufacturers o y.2.1) (callerMem y.2.2 m) z y'.2.2) y := by
  have hinv := Lifecycle.history_inv hw h
  refine ⟨ha, fun r y' hs => ?_⟩
  obtain ⟨q', s', hrun, -, rfl⟩ := hs
  exact ⟨.call h ha hrun, ⟨_, rfl, rfl, rfl⟩, (wp_runs (Lifecycle.exec_run hw hinv ha m) hrun).1, _, hrun⟩

/-- After a `close`, `sleep (true)` puts to sleep only a chip whose device is still open. -/
theorem sleep_closed {q : Qspi} {s : St} (hopened : q.isOpened = true → InSync x q s)
    (hclosed : q.isOpened = false → s.chip.Spi) : wp (Device.bus x w fails) (Driver.sleep true) (fun r s' =>
      s'.flash = s.flash ∧ (q.isOpened = false → s'.chip.Spi ∧ (r ≠ .ok → fails = true)) ∧
      (r = .ok → (s'.chip.powerDown = true ↔ q.isOpened = true))) s := by
  cases ho : q.isOpened with
  | true =>
    refine wp_mono (Sleep.sleep_asleep (hopened ho)) ?_
    intro r s' hpost
    obtain ⟨hflash, hasleep⟩ := hpost
    exact ⟨hflash, fun hne => absurd hne Bool.false_ne_true.symm, fun hr => iff_of_true (hasleep hr).powerDown rfl⟩
  | false =>
    refine wp_mono (Sleep.sleep_unheard (hclosed ho)) ?_
    intro r s' hpost
    obtain ⟨hflash, hchip, hfail⟩ := hpost
    have hspi : s'.chip.Spi := by
      rw [hchip]
      exact hclosed ho
    refine ⟨hflash, fun _ => ⟨hspi, hfail⟩, fun _ => iff_of_false (fun hp => ?_) Bool.false_ne_true⟩
    rw [hspi.2] at hp
    cases hp

/-- What the test leaves, after the calls `es`. -/
structure Tested (x : Chip) (w : Nat) (fails : Bool) (f : NorArray.Bytes) (random : Nat → UInt8) (pr : Ptr)
    (allocated : Bool) (es : List Event) (v : Report × QspiResult) (y : World) : Prop where
  history : ∃ s', History x w fails f y.1 y.2.1 s' ∧ Runs (Device.bus x w fails) (Driver.sleep true) s' v.2 y.2.2
  report : Reported allocated v.1
  faultless : fails = false → y.2.1.isOpened = false ∧ v.2 = .ok ∧ (allocated = true → v.1 = .passed ∧
    ∀ a, a < x.device.capacity / x.device.sectorSize.toNat * x.device.sectorSize.toNat → y.2.2.flash a = random a)
  /-- With the device closed the chip is awake, also where its sleep was reported. -/
  awake : y.2.1.isOpened = false → y.2.2.chip.Spi
  asleep : v.2 = .ok → (y.2.2.chip.powerDown = true ↔ y.2.1.isOpened = true)
  passed : v.1 = .passed → ∃ new, y.1 = new ++ es ∧ ∀ k, k < x.device.capacity / x.device.sectorSize.toNat →
    Verified fails x.device.sectorSize.toNat random pr y.2.2.flash new k

theorem testOpened_run (hw : x.device.capacity ≤ 2 ^ w) (hpw : pw.region = .caller) (hpr : pr.region = .caller)
    (hdisj : pw.off + x.device.sectorSize.toNat ≤ pr.off ∨ pr.off + x.device.sectorSize.toNat ≤ pw.off)
    (h : Open x w fails f y) {es : List Event} (hes : ∃ e, y.1 = e :: es) (mem : Nat → UInt8) :
    wp (life x w fails) (testOpened random pw pr allocated mem) (Tested x w fails f random pr allocated es) y := by
  obtain ⟨e₁, hes₁⟩ := hes
  have hdev := ((Lifecycle.history_inv hw h.history).opened h.opened).2
  have hblocks : y.2.1.numBlocks = x.device.capacity / x.device.sectorSize.toNat := by
    rw [hdev.numBlocks, getSectorCount, hdev.pdevice]
  -- the geometry is that of the chip
  refine wp_seq (P := fun Z y' => Z = x.device.sectorSize.toNat ∧ y' = y) ⟨trivial, ?_⟩ ?_
  · intro Z y' hpost
    exact ⟨hpost.1.trans hdev.physicalSize, hpost.2⟩
  intro _ y' hpost
  obtain ⟨rfl, hy⟩ := hpost
  rw [hy]
  refine wp_seq (P := fun n y' => n = x.device.capacity / x.device.sectorSize.toNat ∧ y' = y) ⟨trivial, ?_⟩ ?_
  · intro n y' hpost
    exact ⟨hpost.1.trans hblocks, hpost.2⟩
  intro n y' hpost
  obtain ⟨hn, hy⟩ := hpost
  rw [hy]
  refine wp_seq (exercise_run hw hpw hpr hdisj hn h mem) ?_
  intro z y₁ hpost
  obtain ⟨h₁, hreport, hgood, new, hnew, hpass⟩ := hpost
  rw [hn] at hgood hpass
  refine wp_seq (call_history hw h₁.history (o := .doClose) trivial z.2) ?_
  intro r y₂ hpost
  obtain ⟨h₂, ⟨e₂, hes₂, -⟩, hret, out, hrun⟩ := hpost
  have hflash₂ := wp_runs (PowerCut.calm_flash (Lifecycle.close_calm y₁.2.1) _) hrun
  have hclosed : (fails = false → y₂.2.1.isOpened = false) ∧ (y₂.2.1.isOpened = false → y₂.2.2.chip.Spi) := by
    rcases hret with ⟨-, ho, hspi⟩ | ⟨-, ho, hf⟩
    · exact ⟨fun _ => ho, fun _ => hspi h₁.opened⟩
    · have hstays : y₂.2.1.isOpened = true := ho.trans h₁.opened
      exact ⟨fun hf' => absurd (hf'.symm.trans hf) Bool.false_ne_true,
        fun hc => absurd (hc.symm.trans hstays) Bool.false_ne_true⟩
  -- the chip's sleep
  refine ⟨trivial, fun r y₃ hs => ?_⟩
  obtain ⟨s₃, hsleep, rfl⟩ := hs
  obtain ⟨hflash₃, hdeaf, hasleep⟩ :=
    wp_runs (sleep_closed (fun ho => ((Lifecycle.history_inv hw h₂).opened ho).1) hclosed.2) hsleep
  have hflash : s₃.flash = y₁.2.2.flash := hflash₃.trans hflash₂
  refine ⟨⟨y₂.2.2, h₂, hsleep⟩, hreport, fun hf => ⟨hclosed.1 hf, ?_, fun hall => ?_⟩, fun ho => (hdeaf ho).1, hasleep,
    fun hp => ⟨e₂ :: new ++ [e₁], ?_, fun k hk => ?_⟩⟩
  · by_contra hr
    exact Bool.false_ne_true (hf.symm.trans ((hdeaf (hclosed.1 hf)).2 hr))
  · show _ ∧ ∀ a, _ → s₃.flash a = random a
    rw [hflash]
    exact hgood hf hall
  · show y₂.1 = _
    rw [hes₂, hnew, hes₁]
    simp only [List.cons_append, List.append_assoc, List.nil_append]
  · show Verified fails _ random pr s₃.flash _ k
    rw [hflash]
    rcases hpass hp k hk with hv | ⟨hf, e, he, hout⟩
    · exact Or.inl hv
    · exact Or.inr ⟨hf, e, List.mem_append_left _ (List.mem_cons_of_mem _ he), hout⟩

/-- Every allowed question has an answer. -/
theorem life_total : (life x w fails).Total := by
  intro y c hg
  cases c with
  | call o m =>
    obtain ⟨z, s', hrun⟩ := run_total (E := Device.bus x w fails) bus_total (exec qspiManufacturers o y.2.1)
      (callerMem y.2.2 m)
    exact ⟨(z.1, s'.mem .caller), _, z.2, s', hrun, rfl, rfl⟩
  | blockPhysicalSizeBytes => exact ⟨_, _, rfl, rfl⟩
  | blocks => exact ⟨_, _, rfl, rfl⟩
  | sleep state =>
    obtain ⟨r, s', hrun⟩ := run_total (E := Device.bus x w fails) bus_total (Driver.sleep state) y.2.2
    exact ⟨r, _, s', hrun, rfl⟩
  | nullDeref => exact absurd hg id

/-- The open, made after the calls `es`, has just failed. -/
def OpenFailed (es : List Event) (y : World) : Prop := ∃ e, y.1 = e :: es ∧ e.op = .doVopen ∧ e.out = .value (-1)

/-- At any point of a chip's life with the device closed: the test asks for nothing that is not
    allowed but, on a bus with failures and after an open that failed, the null pointer's methods,
    which it then asks for; after any other open it ends, with a history and a report that `Tested`
    describes. -/
theorem selftest (hw : x.device.capacity ≤ 2 ^ w) (hpw : pw.region = .caller) (hpr : pr.region = .caller)
    (hdisj : pw.off + x.device.sectorSize.toNat ≤ pr.off ∨ pr.off + x.device.sectorSize.toNat ≤ pw.off)
    {es : List Event} {q : Qspi} {s : St} (h : History x w fails f es q s) (hclosed : q.isOpened = false)
    (mem : Nat → UInt8) :
    (∀ c y, Asks (life x w fails) (testQspi random pw pr allocated mem) (es, q, s) c y →
      (life x w fails).guard y c ∨ (c = .nullDeref ∧ fails = true ∧ OpenFailed es y)) ∧
    (∀ r y, Runs (life x w fails) (callDriver .doVopen mem) (es, q, s) r y →
      if r.1 = .value 0 then ∃ v y', Runs (life x w fails) (testOpened random pw pr allocated r.2) y v y'
      else Asks (life x w fails) (testQspi random pw pr allocated mem) (es, q, s) .nullDeref y) ∧
    ∀ v y, Runs (life x w fails) (testQspi random pw pr allocated mem) (es, q, s) v y →
      Tested x w fails f random pr allocated es v y := by
  have hopen := call_history hw (y := (es, q, s)) h (o := .doVopen) trivial mem
  -- what comes of the open
  have hrest : ∀ r y, Runs (life x w fails) (callDriver .doVopen mem) (es, q, s) r y →
      (r.1 = .value 0 ∧ wp (life x w fails) (testOpened random pw pr allocated r.2)
        (Tested x w fails f random pr allocated es) y) ∨ (r.1 ≠ .value 0 ∧ fails = true ∧ OpenFailed es y) := by
    intro r y hrun
    obtain ⟨h₁, ⟨e, hes, hop, hout⟩, hret, -⟩ := wp_runs hopen hrun
    rcases hret with ⟨hv, ho⟩ | ⟨hv, -, hbad⟩
    · exact Or.inl ⟨hv, testOpened_run hw hpw hpr hdisj ⟨h₁, ho⟩ ⟨e, hes⟩ r.2⟩
    · have hvalue : r.1 = .value (-1) := hv
      refine Or.inr ⟨?_, hbad.resolve_left ?_, e, hes, hop, hout.trans hvalue⟩
      · rw [hvalue]
        decide
      · rw [hclosed]
        exact Bool.false_ne_true
  refine ⟨fun c y hask => ?_, fun r y hrun => ?_, fun v y hrun => ?_⟩
  · rcases asks_bind.mp hask with hask | ⟨r, y₁, hrun, hask⟩
    · exact Or.inl (wp_asks hopen hask)
    rcases hrest r y₁ hrun with ⟨hr, hwp⟩ | ⟨hr, hf, hfailed⟩
    · rw [if_neg (not_not_intro hr)] at hask
      exact Or.inl (wp_asks hwp hask)
    · rw [if_pos hr] at hask
      cases hask with
      | here => exact Or.inr ⟨rfl, hf, hfailed⟩
      | later hs _ => exact absurd hs id
  · rcases hrest r y hrun with ⟨hr, hwp⟩ | ⟨hr, -, -⟩
    · rw [if_pos hr]
      obtain ⟨v, y', hrun', -⟩ := exists_run life_total hwp
      exact ⟨v, y', hrun'⟩
    · rw [if_neg hr]
      refine asks_bind.mpr (Or.inr ⟨r, y, hrun, ?_⟩)
      rw [if_pos hr]
      exact .here
  · obtain ⟨r, y₁, hrun, hrun'⟩ := runs_bind.mp hrun
    rcases hrest r y₁ hrun with ⟨hr, hwp⟩ | ⟨hr, -, -⟩
    · rw [if_neg (not_not_intro hr)] at hrun'
      exact wp_runs hwp hrun'
    · rw [if_pos hr] at hrun'
      cases hrun' with
      | call hs _ => exact absurd hs id

/-- On a new W25Q128JV it passes, and says that the chip sleeps, which is awake. -/
theorem selftest_jv : ∃ y, Runs (life jvChip 24 false) (testQspi (fun i => (i * i).toUInt8) ⟨.caller, 0x20020000, 0⟩
    ⟨.caller, 0x20020000, 4096⟩ true fun _ => 0) ([], freshDriver, { jvStart with flash := fun _ => 0x5A })
      (.passed, .ok) y ∧
    (∀ a, a < 0x1000000 → y.2.2.flash a = (a * a).toUInt8) ∧ y.2.2.chip.Spi := by
  have hstart : History jvChip 24 false (fun _ => 0x5A) [] freshDriver { jvStart with flash := fun _ => 0x5A } :=
    .start ⟨fresh_driver, rfl, rfl, rfl, rfl, rfl⟩
  obtain ⟨hasks, hends, htested⟩ := @selftest (fun i => (i * i).toUInt8) ⟨.caller, 0x20020000, 0⟩
    ⟨.caller, 0x20020000, 4096⟩ true jvChip 24 false _ (by decide) rfl rfl (Or.inl (by decide)) _ _ _ hstart rfl
    fun _ => 0
  obtain ⟨r, y₁, hopen, -⟩ := exists_run (@life_total jvChip 24 false) (call_history (by decide) (y := (_, _, _)) hstart
    (o := .doVopen) trivial fun _ => 0)
  have hends := hends r y₁ hopen
  by_cases hr : r.1 = .value 0
  · rw [if_pos hr] at hends
    obtain ⟨⟨v, slept⟩, y, hrun⟩ := hends
    have hall := hopen.bind (f := fun y => if y.1 ≠ .value 0 then nullDeref else testOpened _ _ _ true y.2)
      (by rw [if_neg (not_not_intro hr)]; exact hrun)
    have htest := htested _ y hall
    obtain ⟨hclosed, hslept, hgood⟩ := htest.faultless rfl
    obtain ⟨hpassed, hflash⟩ := hgood rfl
    obtain rfl : slept = .ok := hslept
    obtain rfl : v = .passed := hpassed
    exact ⟨y, hall, fun a ha => hflash a (Nat.lt_of_lt_of_le ha (by decide)), htest.awake hclosed⟩
  · rw [if_neg hr] at hends
    rcases hasks _ _ hends with hg | ⟨-, hf, -⟩
    · exact absurd hg id
    · cases hf

end QspiFlash.Block.SelfTest
