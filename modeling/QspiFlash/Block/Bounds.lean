/-
  QspiFlash.Block.Bounds — the block device's calls stay inside their blocks, whatever fails.

  `watch` answers everything with anything and allows only what is inside: commands on the
  addresses `[lo, hi)`, transfers and loads on the `len` bytes of the caller's buffer and
  the 256 of `lbuff_`, no 32-bit computation that wraps and no null pointer.

  - `doReadBlock_inside`, `doWriteBlock_inside`: every question asked is allowed.
  - `block_bounds`: for every device of the tables, with what follows for the flash.
-/

import QspiFlash.Block.Write

namespace QspiFlash.Block.Bounds

open Interact Driver Bus.Nor
open NorArray (Bytes)

/-- What a call may touch: the flash in `[lo, hi)`, the caller's buffer of `len` bytes at `off`. -/
structure Area where
  /-- The bytes a SECTOR_ERASE works on. -/
  sector : Nat
  lo : Nat
  hi : Nat
  off : Nat
  len : Nat

def Area.Command (w : Area) (cmd : QspiCommand) : Prop :=
  match cmd.instruction with
  | .WRITE_ENABLE => cmd.addressMode = .none
  | .FAST_READ_QUAD_IN_OUT => w.lo ≤ cmd.address ∧ cmd.address + cmd.nbData ≤ w.hi
  | .PAGE_PROGRAM => w.lo ≤ cmd.address ∧ cmd.address + cmd.nbData ≤ w.hi ∧ cmd.address % 256 + cmd.nbData ≤ 256
  | .SECTOR_ERASE => w.lo ≤ cmd.address ∧ cmd.address + w.sector ≤ w.hi ∧ w.sector ∣ cmd.address
  | _ => False

/-- The `n` bytes at `p`. -/
def Area.Buffer (w : Area) (p : Ptr) (n : Nat) : Prop :=
  match p.region with
  | .caller => w.off ≤ p.off ∧ p.off + n ≤ w.off + w.len
  | .lbuff => p.off + n ≤ lbuffSize

/-- The questions allowed after the command `last`. -/
def Area.Inside (w : Area) (last : QspiCommand) : Call → Prop
  | .halCommand cmd _ => w.Command cmd
  | .halReceiveDMA p | .halTransmitDMA p => w.Buffer p last.nbData
  | .load p => w.Buffer p 1
  | .halAutoPollingIT cmd _ => cmd.instruction = .READ_STATUS_REGISTER ∧ cmd.addressMode = .none
  | .wrapped | .nullDeref | .overrun | .halReceiveIT | .halTransmit .. | .halMemoryMapped .. => False
  | .halAbort | .idBytes | .qspiFactory _ => False
  | .crAbort | .timedWait _ | .dcacheEnabled | .cleanInvalidateDCache .. | .cleanDCache .. => True
  | .setErrno _ | .dropped .. => True

/-- The command a question leaves as the last one. -/
def lastCommand (last : QspiCommand) : (c : Call) → c.Resp → QspiCommand
  | .halCommand cmd _, _ => cmd
  | _, _ => last

def watch (w : Area) : Env Call Call.Resp QspiCommand := Env.monitor w.Inside lastCommand

variable {w : Area} {s : QspiCommand}

theorem wp_command {cmd : QspiCommand} {t : Timeout} {Q : QspiResult → QspiCommand → Prop} (hc : w.Command cmd)
    (hq : ∀ r, Q r cmd) : wp (watch w) (qspiCommand cmd t) Q s := by
  apply wp_attempts (I := fun _ => True) trivial
  · exact fun _ _ => hc
  · intro s₁ s' _ hs
    rw [show s' = cmd from hs]
    exact hq _
  · intro s₁ r s' _ _ hs
    rw [show s' = cmd from hs]
    exact ⟨hq _, trivial, fun _ _ => trivial⟩

/-- A result with no more to do. -/
theorem wp_onOk_command {cmd : QspiCommand} {t : Timeout} {k : M QspiResult} (hc : w.Command cmd)
    (hk : wp (watch w) k (fun _ _ => True) cmd) : wp (watch w) (onOk (qspiCommand cmd t) k) (fun _ _ => True) s :=
  wp_onOk (wp_command hc fun _ => ⟨fun _ => hk, fun _ => trivial⟩)

/-- Waits, cache maintenance and `errno` are allowed and leave the last command. -/
def Quiet : Call → Prop
  | .timedWait _ | .dcacheEnabled | .cleanInvalidateDCache .. | .cleanDCache .. | .setErrno _ | .dropped .. => True
  | _ => False

theorem wp_quiet {α : Type} {p : M α} (hp : p.All Quiet) : wp (watch w) p (fun _ s' => s' = s) s := by
  refine wp_inv (I := fun s' => s' = s) (fun s c hc _ => ?_) (fun s₁ c r s' hc hs he => ?_) hp rfl
  · cases c <;> first | exact trivial | exact absurd hc id
  · rw [show s' = lastCommand s₁ c r from he]
    cases c <;> first | exact hs | exact absurd hc id

/-- The length the cache maintenance covers does not wrap. -/
theorem quiet_len {len : Nat} (h : len + 32 < 2 ^ 32) (x : Nat → M Unit) : (u32 ((len &&& 0xFFFFFFE0) + 32) >>= x) =
    x ((len &&& 0xFFFFFFE0) + 32) := by
  have hle : len &&& 0xFFFFFFE0 ≤ len := Nat.and_le_left
  rw [u32_lt (by omega), pure_bind]

theorem quiet_cleanDcache {p : Ptr} {n : Nat} (h : n + 32 < 2 ^ 32) : (cleanDcache p n).All Quiet := by
  refine Prog.all_bind ((Prog.all_ask _).mpr trivial) fun r => Prog.all_ite (fun _ => ?_) fun _ => trivial
  rw [quiet_len h]
  exact ⟨trivial, fun _ => trivial⟩

theorem quiet_invalidateDcache {p : Ptr} {n : Nat} (h : n + 32 < 2 ^ 32) : (invalidateDcache p n).All Quiet := by
  refine Prog.all_bind ((Prog.all_ask _).mpr trivial) fun r => Prog.all_ite (fun _ => ?_) fun _ => trivial
  rw [quiet_len h]
  exact ⟨trivial, fun _ => trivial⟩

/-! ## Reads, programs and erases -/

theorem read_inside {q : Qspi} {d : QspiDevice} (hq : q.pdevice = some d) {a n : Nat} {p : Ptr} (hlo : w.lo ≤ a)
    (hhi : a + n ≤ w.hi) (hp : w.Buffer p n) (hn : n + 32 < 2 ^ 32) :
    wp (watch w) (Driver.read q a p n) (fun _ _ => True) s := by
  unfold Driver.read
  rw [hq]
  refine wp_onOk_command ⟨hlo, hhi⟩ (wp_when (wp_quiet (quiet_invalidateDcache hn)) (wp_onOk ⟨hp, ?_⟩))
  rintro r _ rfl
  exact ⟨fun _ => ⟨trivial, fun _ _ _ => trivial⟩, fun _ => trivial⟩

theorem pageWrite_inside (q : Qspi) {a n : Nat} {p : Ptr} (hlo : w.lo ≤ a) (hhi : a + n ≤ w.hi)
    (hpage : a % 256 + n ≤ 256) (hp : w.Buffer p n) : wp (watch w) (pageWrite q a p n) (fun _ _ => True) s := by
  refine wp_onOk_command rfl (wp_onOk_command ⟨hlo, hhi, hpage⟩ ?_)
  refine wp_when (wp_quiet (quiet_cleanDcache (by omega))) (wp_onOk ⟨hp, ?_⟩)
  rintro r _ rfl
  refine ⟨fun _ => wp_onOk ⟨trivial, ?_⟩, fun _ => trivial⟩
  rintro r _ rfl
  refine ⟨fun _ => wp_onOk ⟨⟨rfl, rfl⟩, ?_⟩, fun _ => trivial⟩
  rintro r _ rfl
  exact ⟨fun _ => ⟨trivial, fun _ _ _ => trivial⟩, fun _ => trivial⟩

/-- Part of a buffer that is inside. -/
theorem Area.Buffer.part {p : Ptr} {n m k : Nat} (h : w.Buffer p n) (hm : m + k ≤ n) : w.Buffer (p.add m) k := by
  unfold Area.Buffer at h ⊢
  simp only [Ptr.add_region, Ptr.add_off]
  split at h <;> omega

theorem writeLoop_inside (q : Qspi) : ∀ {n a : Nat} {p : Ptr} {s : QspiCommand}, w.lo ≤ a → a + n ≤ w.hi →
    a + n < 2 ^ 32 → w.Buffer p n → wp (watch w) (writeLoop q a p n) (fun _ _ => True) s := by
  intro n
  induction n using Nat.strongRecOn with
  | ind n ih =>
    intro a p s hlo hhi hu hp
    have hm := Nat.mod_lt a (show 0 < 256 by omega)
    rw [writeLoop, inBlockCount_eq]
    generalize hmin : min (256 - a % 256) n = m
    refine wp_onOk (wp_mono (pageWrite_inside q hlo (by omega) (by omega) (hp.part (m := 0) (by omega))) fun r s₁ _ => ?_)
    refine ⟨fun _ => ?_, fun _ => trivial⟩
    rw [u32_lt (show a + m < 2 ^ 32 by omega), pure_bind]
    by_cases hrest : n - m > 0
    · rw [dif_pos hrest]
      exact ih (n - m) (by omega) (by omega) (by omega) (by omega) (hp.part (by omega))
    · rw [dif_neg hrest]
      exact trivial

theorem write_inside (q : Qspi) {a n : Nat} {p : Ptr} (hlo : w.lo ≤ a) (hhi : a + n ≤ w.hi) (hu : a + n < 2 ^ 32)
    (hp : w.Buffer p n) : wp (watch w) (write q a p n) (fun _ _ => True) s := by
  unfold write
  cases q.pdevice with
  | none => exact trivial
  | some d => exact writeLoop_inside q hlo hhi hu hp

theorem eraseSector_inside {q : Qspi} (hd : ∃ d, q.pdevice = some d ∧ d.sectorSize.toNat = w.sector) {k : Nat}
    (hlo : w.lo ≤ k * w.sector) (hhi : k * w.sector + w.sector ≤ w.hi) (hu : k * w.sector < 2 ^ 32) :
    wp (watch w) (eraseSector q k) (fun _ _ => True) s := by
  obtain ⟨d, hq, hsize⟩ := hd
  unfold eraseSector sectorSizeOf
  rw [hq]
  simp only [pure_bind, hsize, u32_lt hu]
  unfold erase
  rw [hq]
  refine wp_onOk_command rfl (wp_onOk_command ⟨hlo, hhi, Nat.dvd_mul_left ..⟩ (wp_onOk ⟨⟨rfl, rfl⟩, ?_⟩))
  rintro r _ rfl
  exact ⟨fun _ => ⟨trivial, fun _ _ _ => trivial⟩, fun _ => trivial⟩

theorem eraseBlocks_inside {q : Qspi} (hd : ∃ d, q.pdevice = some d ∧ d.sectorSize.toNat = w.sector) (hZ : 0 < w.sector) :
    ∀ {n k : Nat} {s : QspiCommand}, w.lo ≤ k * w.sector → (k + n) * w.sector ≤ w.hi → (k + n) * w.sector < 2 ^ 32 →
      wp (watch w) (eraseBlocks q n k) (fun _ _ => True) s := by
  intro n
  induction n with
  | zero => exact fun _ _ _ => trivial
  | succ n ih =>
    intro k s hlo hhi hu
    have hk : (k + 1) * w.sector ≤ (k + (n + 1)) * w.sector := block_le (by omega)
    have hk1 : (k + 1) * w.sector = k * w.sector + w.sector := Nat.succ_mul _ _
    have hk2 : k + 1 + n = k + (n + 1) := by omega
    have hlt : k + 1 ≤ (k + 1) * w.sector := Nat.le_mul_of_pos_right _ hZ
    rw [eraseBlocks]
    refine wp_seq (eraseSector_inside hd hlo (by omega) (by omega)) fun r s₁ _ => ?_
    refine wp_seq (wp_quiet (w := w) ((Prog.all_ask (Call.dropped k r)).mpr trivial)) ?_
    rintro _ _ rfl
    rw [u32_lt (by omega), pure_bind]
    exact ih (by omega) (by rw [hk2]; exact hhi) (by rw [hk2]; exact hu)

/-! ## The block device's calls -/

theorem load_inside {α : Type} {p : Ptr} {f : UInt8 → M α} {Q : α → QspiCommand → Prop} (hp : w.Buffer p 1)
    (hf : ∀ x, wp (watch w) (f x) Q s) : wp (watch w) (ask (.load p) >>= f) Q s := by
  refine ⟨hp, ?_⟩
  rintro x _ rfl
  exact hf x

theorem hasData_inside : ∀ {n : Nat} {p : Ptr} {s : QspiCommand}, w.Buffer p n →
    wp (watch w) (hasData p n) (fun _ _ => True) s := by
  intro n
  induction n with
  | zero => exact fun _ => trivial
  | succ n ih =>
    intro p s hp
    refine load_inside (hp.part (m := 0) (by omega)) fun x => ?_
    exact wp_ite (fun _ => trivial) fun _ => ih (hp.part (by omega))

theorem compareChunk_inside : ∀ {n : Nat} {p l : Ptr} {v : Bool} {s : QspiCommand}, w.Buffer p n → w.Buffer l n →
    wp (watch w) (compareChunk p l n v) (fun _ _ => True) s := by
  intro n
  induction n with
  | zero => exact fun _ _ => trivial
  | succ n ih =>
    intro p l v s hp hl
    refine load_inside (hp.part (m := 0) (by omega)) fun x => load_inside (hl.part (m := 0) (by omega)) fun y => ?_
    exact wp_ite (fun _ => trivial) fun _ => ih (hp.part (by omega)) (hl.part (by omega))

theorem lbuff_inside (q : Qspi) : w.Buffer q.lbuff lbuffSize := Nat.le_of_eq (Nat.zero_add _)

theorem fail_inside {α : Type} (a : α) : wp (watch w) (do ask (.setErrno .eio); pure a : M α) (fun _ _ => True) s := by
  refine ⟨trivial, ?_⟩
  rintro _ _ _
  trivial

/-- Chunk `i` of `m` to come, of a call at `A`: the running address and pointer stay inside. -/
theorem writeInPlace_inside {q : Qspi} {d : QspiDevice} (hq : q.pdevice = some d) {A N : Nat} {buf : Ptr}
    (hlo : w.lo ≤ A) : ∀ {m i : Nat} {s : QspiCommand}, 0 < m → A + 256 * (i + m) ≤ w.hi → A + 256 * (i + m) < 2 ^ 32 →
      w.Buffer buf (256 * (i + m)) →
      wp (watch w) (writeInPlace q buf A (256 * (i + m)) N i (buf.add (256 * i))) (fun _ _ => True) s := by
  intro m
  induction m with
  | zero => intro i s h; omega
  | succ m ih =>
    intro i s _ hhi hu hbuf
    have hoff : i * lbuffSize = 256 * i := Nat.mul_comm i 256
    have hend : A + 256 * i + lbuffSize ≤ A + 256 * (i + (m + 1)) := Nat.le_of_not_lt fun h => by
      unfold lbuffSize at h; omega
    have hchunk : w.Buffer (buf.add (256 * i)) lbuffSize := hbuf.part (Nat.le_of_not_lt fun h => by
      unfold lbuffSize at h; omega)
    rw [writeInPlace]
    simp only [hoff, u32_lt (show 256 * i < 2 ^ 32 by omega), u32_lt (show A + 256 * i < 2 ^ 32 by omega), pure_bind]
    refine wp_seq (read_inside hq (by omega) (Nat.le_trans hend hhi) (lbuff_inside q) (by decide)) fun r s₁ _ => ?_
    refine wp_ite (fun _ => fail_inside _) fun _ => ?_
    refine wp_seq (compareChunk_inside hchunk (lbuff_inside q)) fun x s₂ _ => ?_
    refine wp_ite (fun _ => trivial) fun _ => ?_
    have hnext : ∀ (r : QspiResult) s₃, wp (watch w) (if r ≠ .ok then do ask (.setErrno .eio); pure (false, minusOne)
        else do
          let sector256 ← u32 (i + 1)
          if _h : (buf.add (256 * i)).off + lbuffSize < buf.off + 256 * (i + (m + 1)) then
            writeInPlace q buf A (256 * (i + (m + 1))) N sector256 ((buf.add (256 * i)).add lbuffSize)
          else pure (false, N) : M (Bool × Nat)) (fun _ _ => True) s₃ := by
      refine fun r s₃ => wp_ite (fun _ => fail_inside _) fun _ => ?_
      rw [u32_lt (by omega), pure_bind]
      have hstep : (buf.add (256 * i)).add lbuffSize = buf.add (256 * (i + 1)) := by
        rw [Ptr.add_add, lbuffSize, Nat.mul_succ]
      split
      · have hm : 0 < m := by
          have h : (buf.add (256 * i)).off + lbuffSize < buf.off + 256 * (i + (m + 1)) := ‹_›
          simp only [Ptr.add_off, lbuffSize] at h
          omega
        rw [hstep, show i + (m + 1) = i + 1 + m by omega]
        rw [show i + (m + 1) = i + 1 + m by omega] at hhi hu hbuf
        exact ih hm hhi hu hbuf
      · exact trivial
    refine wp_ite (fun _ => ?_) fun _ => hnext .ok s₂
    exact wp_seq (write_inside q (by omega) (Nat.le_trans hend hhi) (Nat.lt_of_le_of_lt hend hu) hchunk) fun r s₃ _ => hnext r s₃

/-- The area of a call for the blocks `[k, k + n)` with a buffer at `off`. -/
def areaOf (Z k n off : Nat) : Area := ⟨Z, k * Z, (k + n) * Z, off, n * Z⟩

variable {b : Params} {q : Qspi} {k n : Nat}

theorem doReadBlock_inside (h : Span b q k n) (base off : Nat) :
    wp (watch (areaOf b.sectorSize k n off)) (doReadBlock q ⟨.caller, base, off⟩ k n) (fun _ _ => True) s := by
  obtain ⟨d, hq, -⟩ := h.device
  obtain ⟨hsum, hpos⟩ := h.count
  have hfits := h.fits
  obtain ⟨m, hm⟩ : 256 ∣ n * b.sectorSize := Nat.dvd_mul_left_of_dvd h.pages n
  unfold doReadBlock
  rw [h.blockSize, Nat.mul_comm _ k, Nat.mul_comm _ n, u32_lt (by omega), pure_bind, u32_lt (by omega), pure_bind]
  refine wp_seq (read_inside hq (Nat.le_refl _) (Nat.le_of_eq hsum.symm) ⟨Nat.le_refl _, Nat.le_refl _⟩ (by omega)) ?_
  exact fun r s₁ _ => wp_ite (fun _ => fail_inside _) fun _ => trivial

theorem doWriteBlock_inside (h : Span b q k n) (base off : Nat) :
    wp (watch (areaOf b.sectorSize k n off)) (doWriteBlock q ⟨.caller, base, off⟩ k n) (fun _ _ => True) s := by
  obtain ⟨hsum, hpos⟩ := h.count
  have hfits := h.fits
  have hbuf : (areaOf b.sectorSize k n off).Buffer ⟨.caller, base, off⟩ (n * b.sectorSize) :=
    ⟨Nat.le_refl _, Nat.le_refl _⟩
  have herase : ∀ s, wp (watch (areaOf b.sectorSize k n off)) (eraseBlocks q n k) (fun _ _ => True) s := fun s =>
    eraseBlocks_inside h.device h.pos (Nat.le_refl _) (Nat.le_refl _) hfits
  obtain ⟨m, hm⟩ : 256 ∣ n * b.sectorSize := Nat.dvd_mul_left_of_dvd h.pages n
  obtain ⟨d, hq, -⟩ := h.device
  unfold doWriteBlock
  rw [h.blockSize, Nat.mul_comm _ k, Nat.mul_comm _ n, u32_lt (by omega), pure_bind, u32_lt (by omega), pure_bind]
  refine wp_seq (hasData_inside hbuf) fun toWrite s₁ _ => ?_
  refine wp_ite (fun _ => wp_seq (herase s₁) fun _ _ _ => trivial) fun _ => ?_
  have hin : ∀ s, wp (watch (areaOf b.sectorSize k n off))
      (writeInPlace q ⟨.caller, base, off⟩ (k * b.sectorSize) (n * b.sectorSize) n 0 ⟨.caller, base, off⟩)
        (fun _ _ => True) s := by
    intro s
    rw [hm] at hsum hpos hbuf ⊢
    have h := writeInPlace_inside (w := areaOf b.sectorSize k n off) hq (A := k * b.sectorSize) (N := n)
      (Nat.le_refl _) (m := m) (i := 0) (s := s) (by omega) (by rw [Nat.zero_add, ← hsum]; exact Nat.le_refl _)
      (by rw [Nat.zero_add, ← hsum]; exact hfits) (by rw [Nat.zero_add]; exact hbuf)
    rw [Nat.mul_zero, Ptr.add_zero, Nat.zero_add] at h
    exact h
  refine wp_seq (hin s₁) fun x s₂ _ => wp_ite (fun _ => ?_) fun _ => trivial
  refine wp_seq (herase s₂) fun _ s₃ _ => ?_
  refine wp_seq (write_inside q (Nat.le_refl _) (Nat.le_of_eq hsum.symm) (by omega) hbuf) fun r s₄ _ => ?_
  exact wp_ite (fun _ => fail_inside _) fun _ => trivial

/-- For every device of the tables: what the calls ask is inside their blocks and buffers, on
    a faulty bus the flash outside is as it was whatever they return, and they return. -/
theorem block_bounds {d : QspiDevice} (hd : d ∈ tableDevices) (ho : Opened q d) (hn : 1 ≤ n) (hk : k + n ≤ q.numBlocks)
    (base off : Nat) :
    (k + n) * d.sectorSize.toNat ≤ 2 ^ 24 ∧
      (∀ s c s', Asks (watch (areaOf d.sectorSize.toNat k n off)) (doReadBlock q ⟨.caller, base, off⟩ k n) s c s' ∨
          Asks (watch (areaOf d.sectorSize.toNat k n off)) (doWriteBlock q ⟨.caller, base, off⟩ k n) s c s' →
        (areaOf d.sectorSize.toNat k n off).Inside s' c) ∧
      (∀ F f m r s', Runs (nor (faulty d.sectorSize.toNat 24 F)) (doReadBlock q ⟨.caller, base, off⟩ k n) (start f m) r s' ∨
          Runs (nor (faulty d.sectorSize.toNat 24 F)) (doWriteBlock q ⟨.caller, base, off⟩ k n) (start f m) r s' →
        ∀ x, ¬ (k * d.sectorSize.toNat ≤ x ∧ x < (k + n) * d.sectorSize.toNat) → s'.flash x = f x) ∧
      ∀ {S : Type} (E : Env Call Call.Resp S) (s : S), (∀ s c, ∃ r s', E.step s c r s') →
        (∃ r s', Runs E (doReadBlock q ⟨.caller, base, off⟩ k n) s r s') ∧
          ∃ r s', Runs E (doWriteBlock q ⟨.caller, base, off⟩ k n) s r s' := by
  obtain ⟨hsize, hcap, -⟩ := table_geometry d hd
  have hsize : d.sectorSize.toNat = 4096 := by rw [hsize]; rfl
  have hspan : ∀ F, Span (faulty d.sectorSize.toNat 24 F) q k n := fun F =>
    span_of_opened ho rfl (by rw [hsize]; decide) (by rw [hsize]; decide) hcap hn hk
  refine ⟨(hspan fun _ => True).reach, ?_, ?_, fun E s ht => ⟨run_total ht _ s, run_total ht _ s⟩⟩
  · intro s c s' hcase
    rcases hcase with h | h
    · exact wp_asks (doReadBlock_inside (hspan fun _ => True) base off) h
    · exact wp_asks (doWriteBlock_inside (hspan fun _ => True) base off) h
  · intro F f m r s' hcase x hx
    rcases hcase with h | h
    · exact congrFun (wp_runs (doReadBlock_spec (hspan F) ⟨.caller, base, off⟩ rfl) h).1 x
    · exact (wp_runs (doWriteBlock_spec (hspan F) ⟨.caller, base, off⟩ rfl rfl) h).flash x hx

/-- The last three blocks of the device: nothing asked goes beyond its 16 MiB. -/
theorem block_bounds_jv : (4093 + 3) * jv.sectorSize.toNat ≤ 2 ^ 24 ∧ ∀ s c s',
    Asks (watch (areaOf jv.sectorSize.toNat 4093 3 0)) (doWriteBlock jvDriver ⟨.caller, 0x20020000, 0⟩ 4093 3) s c s' →
      (areaOf jv.sectorSize.toNat 4093 3 0).Inside s' c := by
  obtain ⟨hreach, hasks, -⟩ :=
    block_bounds (d := jv) (by decide) jv_opened (k := 4093) (n := 3) (by decide) (by decide) 0x20020000 0
  exact ⟨hreach, fun s c s' h => hasks s c s' (Or.inr h)⟩

end QspiFlash.Block.Bounds
