/-
  QspiFlash.Driver.Waiting — how long a call of the data path may keep its caller.

  The driver limits its commands and its waits. `limit` is the limit of each, and on
  the clock of `Interact.Cost` any answer may come, after any time up to it. A command may
  take its limit twice, as one that fails is sent again. The longest run of each function is
  that in which every command is sent twice and every wait takes its limit; that of a block
  write finds only in its last 256 bytes that it must erase, and has then written the others
  in place.

  - `read_peaks`, `pageWrite_peaks`, `erase_peaks`, `write_peaks`, `doWriteBlock_peaks`: the
    longest run of each, with the result it may have then.
  - `longest_wait`: over any calls, what they may take is exactly the sum of that.
-/

import Mathlib.Algebra.GroupWithZero.Nat
import QspiFlash.Driver.Api
import QspiFlash.Driver.Opened
import QspiFlash.Driver.Asks
import QspiFlash.Interact.Cost

namespace QspiFlash.Driver.Waiting

open Interact

/-! ## Limits -/

/-- In milliseconds, the ticks of a system clock of 1000 Hz, where `one_ms` is 1. -/
def ms : Timeout → Nat
  | .TIMEOUT => 10
  | .WRITE_TIMEOUT => 50
  | .ERASE_TIMEOUT => 2000
  | .CHIP_ERASE_TIMEOUT => 200000

def limit : Call → Nat
  | .halCommand _ t | .halTransmit _ t | .timedWait t => ms t
  | _ => 0

/-- A command, sent twice. -/
def commandTime : Nat := 2 * ms .TIMEOUT

/-- A read: its command and the transfer. -/
def readTime : Nat := commandTime + ms .TIMEOUT

/-- A page write: two commands, the transfer and the poll. -/
def pageTime : Nat := 2 * commandTime + ms .TIMEOUT + ms .WRITE_TIMEOUT

/-- An erase: two commands and the poll. -/
def eraseTime (which : Instruction) : Nat :=
  2 * commandTime + ms (if which = .CHIP_ERASE then .CHIP_ERASE_TIMEOUT else .ERASE_TIMEOUT)

/-- The pages `write` sends for `n` bytes at `a`; for none it sends one too. -/
def pages (a n : Nat) : Nat := (a % 256 + n - 1) / 256 + 1

/-- A write of `n` blocks in `m` pages that finds in the last page that it must erase. -/
def rewriteTime (m n : Nat) : Nat :=
  (m - 1) * (readTime + pageTime) + readTime + (n * eraseTime .SECTOR_ERASE + m * pageTime)

/-! ## Rules -/

section Rules

variable {α : Type} {b : α} {n : Nat}

theorem Peaks.onOk {p k : M QspiResult} {r : QspiResult} {m : Nat} (hp : Peaks limit p .ok m) (hk : Peaks limit k r n) :
    Peaks limit (onOk p k) r (m + n) :=
  hp.bind (fun _ => Spends.ite (fun _ => hk.within) fun _ => Within.pure) hk.takes

theorem spends_u32 {x : Nat} {f : Nat → M α} {Q : α → Nat → Prop} (h : Spends limit (f (x % 2 ^ 32)) Q) :
    Spends limit (u32 x >>= f) Q := by
  unfold u32
  split
  · rw [Nat.mod_eq_of_lt ‹_›] at h
    exact h
  · rw [bind_assoc]
    refine Spends.seq (Within.ask Call.wrapped) fun _ m hm => ?_
    rw [show m = 0 from Nat.le_zero.mp hm]
    exact h.mono fun b n hn => by rwa [Nat.zero_add]

theorem takes_u32 {x : Nat} {f : Nat → M α} (h : Takes limit (f (x % 2 ^ 32)) b n) : Takes limit (u32 x >>= f) b n := by
  unfold u32
  split
  · rw [Nat.mod_eq_of_lt ‹_›] at h
    exact h
  · rw [bind_assoc, ← Nat.zero_add n]
    exact (Takes.ask Call.wrapped () (Nat.zero_le _)).bind h

theorem peaks_u32 {x : Nat} {f : Nat → M α} (h : Peaks limit (f (x % 2 ^ 32)) b n) : Peaks limit (u32 x >>= f) b n :=
  ⟨spends_u32 h.within, takes_u32 h.takes⟩

theorem resp_nonempty (c : Call) : Nonempty c.Resp := by
  cases c <;> first | exact ⟨HalStatus.ok⟩ | exact ⟨true⟩ | exact ⟨(0 : UInt8)⟩ | exact ⟨(0 : UInt16)⟩ | exact ⟨()⟩ |
    exact ⟨((0, 0, 0) : UInt8 × UInt8 × UInt8)⟩

/-- The D-cache is maintained at once. -/
theorem peaks_when {p : M Unit} {c : Prop} [Decidable c] {f : Unit → M α} (hp : p.All fun c => limit c = 0)
    (hf : Peaks limit (f ()) b n) : Peaks limit (if c then p >>= f else f ()) b n := by
  split
  · rw [← Nat.zero_add n]
    exact Peaks.bind ⟨(Spends.free hp).mono fun _ _ h => Nat.le_of_eq h, .unit resp_nonempty p⟩ (fun _ => hf.within) hf.takes
  · exact hf

end Rules

/-! ## The functions -/

/-- One question, whose answer `r` is read as `g r`. -/
theorem asked_peaks {α : Type} (c : Call) (r : c.Resp) (g : c.Resp → α) :
    Peaks limit (do let r ← ask c; pure (g r) : M α) (g r) (limit c) :=
  (Peaks.ask c r).bind (fun _ => .pure) (.pure _)

theorem qspiCommand_peaks (cmd : QspiCommand) : Peaks limit (qspiCommand cmd .TIMEOUT) .ok commandTime := by
  have hcommand : ∀ r, Peaks limit (halCommand cmd .TIMEOUT) (ofHal r) (ms .TIMEOUT) := fun r =>
    asked_peaks (.halCommand cmd .TIMEOUT) r ofHal
  -- the second attempt takes its limit too
  have htime : commandTime = ms .TIMEOUT + ms .TIMEOUT := rfl
  rw [htime]
  refine (hcommand .error).bind (fun r => Spends.ite (fun _ => ?_) fun _ => Within.pure) ?_
  · rw [← Nat.zero_add (ms .TIMEOUT)]
    exact (Within.ask Call.crAbort).bind fun _ => (hcommand .ok).within
  · exact .answered () (hcommand .ok).takes

theorem timedWait_peaks (t : Timeout) : Peaks limit (timedWait t) .ok (ms t) :=
  asked_peaks (.timedWait t) true fun r => if r then QspiResult.ok else .timeout

theorem halReceiveDMA_peaks (p : Ptr) : Peaks limit (halReceiveDMA p) .ok 0 := asked_peaks (.halReceiveDMA p) .ok ofHal

theorem halTransmitDMA_peaks (p : Ptr) : Peaks limit (halTransmitDMA p) .ok 0 :=
  asked_peaks (.halTransmitDMA p) .ok ofHal

theorem halAutoPollingIT_peaks (cmd : QspiCommand) : Peaks limit (halAutoPollingIT cmd statusPoll) .ok 0 :=
  asked_peaks (.halAutoPollingIT cmd statusPoll) .ok ofHal

variable {q : Qspi} {d : QspiDevice}

theorem read_peaks (hq : q.pdevice = some d) (a : Nat) (p : Ptr) (n : Nat) :
    Peaks limit (read q a p n) .ok readTime := by
  unfold read
  rw [hq]
  have htime : readTime = commandTime + (0 + ms .TIMEOUT) := rfl
  rw [htime]
  refine Peaks.onOk (qspiCommand_peaks _) (peaks_when ?_ ?_)
  · exact all_invalidateDcache (P := fun c => limit c = 0) rfl (fun _ _ => rfl) rfl p n
  · exact Peaks.onOk (halReceiveDMA_peaks p) (timedWait_peaks _)

theorem pageWrite_peaks (q : Qspi) (a : Nat) (p : Ptr) (n : Nat) : Peaks limit (pageWrite q a p n) .ok pageTime := by
  have htime : pageTime = commandTime + (commandTime + (0 + (ms .TIMEOUT + (0 + ms .WRITE_TIMEOUT)))) := rfl
  rw [htime]
  refine Peaks.onOk (qspiCommand_peaks _) (Peaks.onOk (qspiCommand_peaks _) (peaks_when ?_ ?_))
  · exact all_cleanDcache (P := fun c => limit c = 0) rfl (fun _ _ => rfl) rfl p n
  · exact Peaks.onOk (halTransmitDMA_peaks p)
      (Peaks.onOk (timedWait_peaks _) (Peaks.onOk (halAutoPollingIT_peaks _) (timedWait_peaks _)))

theorem erase_peaks (hq : q.pdevice = some d) (a : Nat) (which : Instruction) :
    Peaks limit (erase q a which) .ok (eraseTime which) := by
  unfold erase
  rw [hq]
  have htime : eraseTime which = commandTime + (commandTime + (0 +
      ms (if which = .CHIP_ERASE then .CHIP_ERASE_TIMEOUT else .ERASE_TIMEOUT))) := by
    unfold eraseTime
    omega
  rw [htime]
  exact Peaks.onOk (qspiCommand_peaks _) (Peaks.onOk (qspiCommand_peaks _)
    (Peaks.onOk (halAutoPollingIT_peaks _) (timedWait_peaks _)))

/-- `write` goes page by page: the first may start in a page, the others start one. -/
theorem writeLoop_peaks (q : Qspi) (a : Nat) (p : Ptr) (n : Nat) :
    Peaks limit (writeLoop q a p n) .ok (pages a n * pageTime) := by
  induction a, p, n using writeLoop.induct with
  | case1 a p n ih =>
    rw [writeLoop]
    have hsize := inBlockCount_eq a n
    by_cases hrest : n - inBlockCount a n > 0
    · have hpages : pages a n * pageTime =
          pageTime + pages ((a + inBlockCount a n) % 2 ^ 32) (n - inBlockCount a n) * pageTime := by
        rw [Nat.add_comm, ← Nat.succ_mul]
        congr 1
        unfold pages
        omega
      rw [hpages]
      refine Peaks.onOk (pageWrite_peaks ..) (peaks_u32 ?_)
      rw [dif_pos hrest]
      exact ih _ hrest
    · have hpages : pages a n * pageTime = pageTime + 0 := by
        rw [Nat.add_zero]
        refine (congrArg (· * pageTime) (?_ : pages a n = 1)).trans (Nat.one_mul _)
        unfold pages
        omega
      rw [hpages]
      refine Peaks.onOk (pageWrite_peaks ..) (peaks_u32 ?_)
      rw [dif_neg hrest]
      exact .pure _

theorem write_peaks (hq : q.pdevice = some d) (a : Nat) (p : Ptr) (n : Nat) :
    Peaks limit (write q a p n) .ok (pages a n * pageTime) := by
  unfold write
  rw [hq]
  exact writeLoop_peaks q a p n

/-! ## The block write -/

theorem eraseBlocks_peaks (hq : q.pdevice = some d) (n k : Nat) :
    Peaks limit (eraseBlocks q n k) () (n * eraseTime .SECTOR_ERASE) := by
  induction n generalizing k with
  | zero =>
    rw [Nat.zero_mul]
    exact .pure ()
  | succ n ih =>
    have hsector : Peaks limit (eraseSector q k) .ok (eraseTime .SECTOR_ERASE) := by
      unfold eraseSector
      rw [sectorSizeOf_eq hq]
      exact peaks_u32 (erase_peaks hq _ _)
    have hrest : ∀ r, Peaks limit (do ask (.dropped k r); eraseBlocks q n (← u32 (k + 1)) : M Unit) ()
        (0 + n * eraseTime .SECTOR_ERASE) := fun r =>
      have hdrop : Peaks limit (ask (.dropped k r)) () (limit (.dropped k r)) :=
        @Peaks.ask Call Call.Resp limit (.dropped k r) ()
      have hnext := peaks_u32 (x := k + 1) (ih _)
      hdrop.bind (fun _ => hnext.within) hnext.takes
    have htime : (n + 1) * eraseTime .SECTOR_ERASE = eraseTime .SECTOR_ERASE + (0 + n * eraseTime .SECTOR_ERASE) := by
      rw [Nat.succ_mul, Nat.zero_add, Nat.add_comm]
    rw [htime]
    exact hsector.bind (fun r => (hrest r).within) (hrest .ok).takes

theorem hasData_takes (p : Ptr) {n : Nat} (hn : 0 < n) : Takes limit (hasData p n) true 0 := by
  obtain ⟨n, rfl⟩ : ∃ m, n = m + 1 := ⟨n - 1, by omega⟩
  exact .answered (0 : UInt8) (.pure true)

/-- One step of the comparison, of the bytes `new` and `old`. -/
theorem compareChunk_step (p l : Ptr) (n : Nat) (v : Bool) (new old : UInt8) {y : Bool × Bool}
    (h : Takes limit (if new ≠ old ∧ old ≠ 0xFF then pure (true, v)
      else compareChunk (p.add 1) (l.add 1) n (v || (new ≠ 0xFF && new ≠ old))) y 0) :
    Takes limit (compareChunk p l (n + 1) v) y 0 :=
  .answered new (.answered old h)

theorem compareChunk_same (p l : Ptr) (n : Nat) (v : Bool) : Takes limit (compareChunk p l n v) (false, v) 0 := by
  induction n generalizing p l v with
  | zero => exact .pure _
  | succ n ih =>
    refine compareChunk_step p l n v 0 0 ?_
    have hnext := ih (p.add 1) (l.add 1) (v || (decide ((0 : UInt8) ≠ 0xFF) && decide ((0 : UInt8) ≠ 0)))
    rw [if_neg (by decide)]
    simpa using hnext

/-- Bytes that can be written in place, and bytes that cannot. -/
theorem compareChunk_data (p l : Ptr) : Takes limit (compareChunk p l lbuffSize false) (false, true) 0 :=
  compareChunk_step p l 255 false 0 0xFF (compareChunk_same (p.add 1) (l.add 1) 255 true)

theorem compareChunk_erase (p l : Ptr) : Takes limit (compareChunk p l lbuffSize false) (true, false) 0 :=
  compareChunk_step p l 255 false 0 1 (.pure _)

/-- The chunks of 256 bytes behind that at `p`, of the `count` bytes at `buf`. -/
def later (buf p : Ptr) (count : Nat) : Nat := (buf.off + count - p.off - 1) / 256

theorem later_add {buf p : Ptr} {count : Nat} (h : p.off + lbuffSize < buf.off + count) :
    later buf p count = later buf (p.add lbuffSize) count + 1 := by
  simp only [later, Ptr.add_off, lbuffSize] at *
  omega

/-- A write in place reads one more chunk where it asks for an erase, and writes it too where not. -/
theorem writeInPlace_spends (hq : q.pdevice = some d) {buf : Ptr} {address : Nat} (ha : address % 256 = 0)
    (count nblocks i : Nat) (p : Ptr) : Spends limit (writeInPlace q buf address count nblocks i p) fun x n =>
      n ≤ later buf p count * (readTime + pageTime) + readTime + if x.1 = true then 0 else pageTime := by
  induction i, p using writeInPlace.induct buf count with
  | case1 i p ih =>
    have hfailed : Spends limit (do ask (.setErrno .eio); pure (false, minusOne) : M (Bool × Nat))
        fun x n => x.1 = false ∧ n = 0 := by
      refine Spends.seq (Within.ask (Call.setErrno .eio)) fun _ m hm => .pure ⟨rfl, ?_⟩
      exact Nat.le_zero.mp hm
    have hnext : ∀ r : QspiResult, Spends limit (if r ≠ .ok then do ask (.setErrno .eio); pure (false, minusOne)
        else do
          let sector256 ← u32 (i + 1)
          if _h : p.off + lbuffSize < buf.off + count then
            writeInPlace q buf address count nblocks sector256 (p.add lbuffSize)
          else pure (false, nblocks) : M (Bool × Nat)) fun x n =>
        pageTime + n ≤ later buf p count * (readTime + pageTime) + if x.1 = true then 0 else pageTime := by
      refine fun r => .ite (fun _ => hfailed.mono fun x n h => ?_) fun _ => spends_u32 ?_
      · rw [h.1, h.2]
        exact Nat.le_add_left _ _
      · by_cases hmore : p.off + lbuffSize < buf.off + count
        · rw [dif_pos hmore, later_add hmore]
          refine (ih _ hmore).mono fun x n hn => ?_
          rw [Nat.succ_mul]
          omega
        · rw [dif_neg hmore]
          exact .pure (Nat.le_add_left _ _)
    have hwrite : ∀ j p', Within limit (write q ((address + j * 256 % 2 ^ 32) % 2 ^ 32) p' lbuffSize) pageTime := by
      intro j p'
      have hone : pages ((address + j * 256 % 2 ^ 32) % 2 ^ 32) lbuffSize = 1 := by
        simp only [pages, lbuffSize]
        omega
      have hw := (write_peaks hq ((address + j * 256 % 2 ^ 32) % 2 ^ 32) p' lbuffSize).within
      rwa [hone, Nat.one_mul] at hw
    rw [writeInPlace]
    refine spends_u32 (spends_u32 (Spends.seq (read_peaks hq _ _ _).within fun r m hm => ?_))
    refine .ite (fun _ => hfailed.mono fun x n h => ?_) fun _ => ?_
    · rw [h.1, h.2]
      show m + 0 ≤ _ + pageTime
      omega
    refine Spends.seq (.free (all_compareChunk (fun _ => rfl) p q.lbuff lbuffSize false)) fun x m' hm' => ?_
    subst hm'
    refine .ite (fun _ => .pure (by show m + (0 + 0) ≤ _ + 0; omega)) fun _ => ?_
    refine .ite (fun _ => ?_) fun _ => (hnext .ok).mono fun x n hn => by omega
    refine spends_u32 (spends_u32 (Spends.seq (hwrite i _) fun r m' hm' => ?_))
    exact (hnext r).mono fun x n hn => by omega

/-- The chunks before the last can be written in place, the last cannot. -/
theorem writeInPlace_takes (hq : q.pdevice = some d) {buf : Ptr} {address : Nat} (ha : address % 256 = 0)
    (count nblocks i : Nat) (p : Ptr) : Takes limit (writeInPlace q buf address count nblocks i p) (true, nblocks)
      (later buf p count * (readTime + pageTime) + readTime) := by
  induction i, p using writeInPlace.induct buf count with
  | case1 i p ih =>
    rw [writeInPlace]
    by_cases hmore : p.off + lbuffSize < buf.off + count
    · have hone : pages ((address + i * lbuffSize % 2 ^ 32) % 2 ^ 32) lbuffSize = 1 := by
        simp only [pages, lbuffSize]
        omega
      have hw :=
        (write_peaks hq ((address + i * lbuffSize % 2 ^ 32) % 2 ^ 32) (buf.add (i * lbuffSize % 2 ^ 32)) lbuffSize).takes
      rw [hone, Nat.one_mul] at hw
      have htime : later buf p count * (readTime + pageTime) + readTime = readTime + (0 + (pageTime +
          (later buf (p.add lbuffSize) count * (readTime + pageTime) + readTime))) := by
        rw [later_add hmore, Nat.succ_mul]
        omega
      rw [htime]
      refine takes_u32 (takes_u32 ((read_peaks hq _ _ _).takes.bind ?_))
      rw [if_neg (by simp)]
      refine (compareChunk_data p q.lbuff).bind ?_
      rw [if_neg Bool.false_ne_true, if_pos rfl]
      refine takes_u32 (takes_u32 (hw.bind ?_))
      show Takes limit (if QspiResult.ok ≠ .ok then _ else _) _ _
      rw [if_neg (by simp)]
      apply takes_u32
      rw [dif_pos hmore]
      exact ih _ hmore
    · have htime : later buf p count * (readTime + pageTime) + readTime = readTime + (0 + 0) := by
        have hlast : later buf p count = 0 := by
          simp only [later, lbuffSize] at *
          omega
        rw [hlast, Nat.zero_mul]
        omega
      rw [htime]
      refine takes_u32 (takes_u32 ((read_peaks hq _ _ _).takes.bind ?_))
      rw [if_neg (by simp)]
      exact (compareChunk_erase p q.lbuff).bind (.pure _)

/-- A block write, of blocks of whole pages whose bytes can be counted. -/
theorem doWriteBlock_peaks (hq : q.pdevice = some d) (hpage : 256 ∣ q.blockLogicalSizeBytes)
    (hpos : 0 < q.blockLogicalSizeBytes) (buf : Ptr) (k : Nat) {n : Nat} (hn : 0 < n)
    (hcount : q.blockLogicalSizeBytes * n < 2 ^ 32) :
    Peaks limit (doWriteBlock q buf k n) (ssize n) (rewriteTime (q.blockLogicalSizeBytes * n / 256) n) := by
  obtain ⟨c, hc⟩ := hpage
  have haddr : q.blockLogicalSizeBytes * k % 2 ^ 32 % 256 = 0 := by
    rw [hc, Nat.mul_assoc]
    omega
  have hsome : 0 < q.blockLogicalSizeBytes * n := Nat.mul_pos hpos hn
  have hwhole : q.blockLogicalSizeBytes * n % 256 = 0 := by
    rw [hc, Nat.mul_assoc]
    omega
  have hpages : pages (q.blockLogicalSizeBytes * k % 2 ^ 32) (q.blockLogicalSizeBytes * n) =
      q.blockLogicalSizeBytes * n / 256 := by
    unfold pages
    omega
  have hlater : later buf buf (q.blockLogicalSizeBytes * n) = q.blockLogicalSizeBytes * n / 256 - 1 := by
    unfold later
    omega
  have hplace := @writeInPlace_spends q d hq buf _ haddr (q.blockLogicalSizeBytes * n) n 0 buf
  have hworst := @writeInPlace_takes q d hq buf _ haddr (q.blockLogicalSizeBytes * n) n 0 buf
  have hwrite := write_peaks hq (q.blockLogicalSizeBytes * k % 2 ^ 32) buf (q.blockLogicalSizeBytes * n)
  rw [hlater] at hplace hworst
  rw [hpages] at hwrite
  have herase := eraseBlocks_peaks hq n k
  constructor
  · refine spends_u32 (spends_u32 ?_)
    rw [Nat.mod_eq_of_lt hcount]
    refine Spends.seq (.free (all_hasData (fun _ => rfl) buf _)) fun b m₀ hm₀ => ?_
    subst hm₀
    refine .ite (fun _ => Spends.seq herase.within fun _ m₁ hm₁ => .pure ?_) fun _ => ?_
    · unfold rewriteTime
      omega
    refine Spends.seq hplace fun x m₁ hm₁ => ?_
    refine .ite (fun hx => ?_) fun hx => .pure ?_
    · rw [if_pos hx.1] at hm₁
      refine Spends.seq herase.within fun _ m₂ hm₂ => Spends.seq hwrite.within fun r m₃ hm₃ => ?_
      have hend : Spends limit (if r ≠ .ok then do ask (.setErrno .eio); pure (ssize minusOne)
          else pure (ssize x.2) : M Int) fun _ n => n = 0 :=
        .free (Prog.all_ite (fun _ => ⟨rfl, fun _ => trivial⟩) fun _ => trivial)
      refine hend.mono fun _ m₄ hm₄ => ?_
      unfold rewriteTime
      omega
    · have hone : pageTime ≤ q.blockLogicalSizeBytes * n / 256 * pageTime := Nat.le_mul_of_pos_left _ (by omega)
      have hle : (if x.1 = true then 0 else pageTime) ≤ pageTime := by split <;> omega
      unfold rewriteTime
      omega
  · unfold rewriteTime
    refine takes_u32 (takes_u32 ?_)
    rw [Nat.mod_eq_of_lt hcount]
    have htime : ∀ t, t = 0 + t := fun t => (Nat.zero_add t).symm
    rw [htime (_ + _)]
    refine (hasData_takes buf hsome).bind ?_
    rw [if_neg Bool.noConfusion]
    refine hworst.bind ?_
    rw [if_pos ⟨rfl, hn⟩]
    refine herase.takes.bind ?_
    rw [← Nat.add_zero (_ * pageTime)]
    exact hwrite.takes.bind (.pure _)

/-! ## Every call -/

/-- The longest time of a call, on sectors of `Z` bytes. -/
def longest (Z : Nat) : Op → Nat
  | .read .. | .readSector .. | .doReadBlock .. => readTime
  | .write a _ n => pages a n * pageTime
  | .writeSector k _ n => pages (k * Z) n * pageTime
  | .eraseSector _ => eraseTime .SECTOR_ERASE
  | .eraseBlock32K _ => eraseTime .BLOCK_32K_ERASE
  | .eraseBlock64K _ => eraseTime .BLOCK_64K_ERASE
  | .eraseChip => eraseTime .CHIP_ERASE
  | .doWriteBlock _ _ n => if n = 0 then 0 else rewriteTime (Z * n / 256) n
  | _ => 0

/-- The bytes of a block write can be counted. -/
def Counted (Z : Nat) : Op → Prop
  | .doWriteBlock _ _ n => Z * n < 2 ^ 32
  | _ => True

theorem dataOp_peaks (ho : Opened q d) (hpage : 256 ∣ d.sectorSize.toNat) (hpos : 0 < d.sectorSize.toNat)
    (tbl : List QspiManuf) {o : Op} (hdata : DataOp o) (hc : Counted d.sectorSize.toNat o) :
    ∃ (α : Type) (out : α → Out) (p : M α) (a : α), exec tbl o q = keep q out p ∧
      Peaks limit p a (longest d.sectorSize.toNat o) := by
  have hq := ho.pdevice
  have hsector : ∀ {k t : Nat} {f : Nat → M QspiResult}, Peaks limit (f (k * d.sectorSize.toNat % 2 ^ 32)) .ok t →
      Peaks limit (do let a ← u32 (k * (← sectorSizeOf q)); f a) .ok t := by
    intro k t f hf
    rw [sectorSizeOf_eq hq]
    exact peaks_u32 hf
  cases o with
  | read a p n => exact ⟨_, _, _, _, rfl, read_peaks hq a p n⟩
  | readSector k p n => exact ⟨_, _, _, _, rfl, hsector (read_peaks hq _ p n)⟩
  | doReadBlock p k n =>
    refine ⟨_, _, _, ssize n, rfl, peaks_u32 (peaks_u32 ?_)⟩
    refine (read_peaks hq _ p _).bind (n := 0) (fun r => Spends.ite (fun _ => ?_) fun _ => Within.pure) (.pure _)
    exact (Spends.free (p := (do ask (.setErrno .eio); pure (ssize minusOne) : M Int)) ⟨rfl, fun _ => trivial⟩).mono
      fun _ _ h => Nat.le_of_eq h
  | write a p n => exact ⟨_, _, _, _, rfl, write_peaks hq a p n⟩
  | writeSector k p n =>
    have hpages : pages (k * d.sectorSize.toNat % 2 ^ 32) n = pages (k * d.sectorSize.toNat) n := by
      unfold pages
      omega
    have hw := write_peaks hq (k * d.sectorSize.toNat % 2 ^ 32) p n
    rw [hpages] at hw
    exact ⟨_, _, _, _, rfl, hsector hw⟩
  | eraseSector k => exact ⟨_, _, _, _, rfl, hsector (erase_peaks hq _ _)⟩
  | eraseBlock32K a => exact ⟨_, _, _, _, rfl, erase_peaks hq a _⟩
  | eraseBlock64K a => exact ⟨_, _, _, _, rfl, erase_peaks hq a _⟩
  | eraseChip => exact ⟨_, _, _, _, rfl, erase_peaks hq 0 _⟩
  | doWriteBlock p k n =>
    refine ⟨_, _, _, ssize n, rfl, ?_⟩
    by_cases hn : n = 0
    · -- no blocks, no bytes to look at
      subst hn
      exact peaks_u32 (peaks_u32 (.pure _))
    · have hblock := doWriteBlock_peaks hq (by rwa [ho.logicalSize]) (by rwa [ho.logicalSize]) p k
        (Nat.pos_of_ne_zero hn) (by rwa [ho.logicalSize])
      rw [ho.logicalSize] at hblock
      show Peaks limit _ _ (if n = 0 then 0 else _)
      rw [if_neg hn]
      exact hblock
  | _ => exact absurd hdata id

theorem session_peaks (ho : Opened q d) (hpage : 256 ∣ d.sectorSize.toNat) (hpos : 0 < d.sectorSize.toNat)
    (tbl : List QspiManuf) {os : List Op} (hos : ∀ o ∈ os, DataOp o ∧ Counted d.sectorSize.toNat o) :
    Peaks limit (session tbl os q) q (os.map (longest d.sectorSize.toNat)).sum := by
  induction os with
  | nil => exact .pure q
  | cons o os ih =>
    obtain ⟨α, out, p, a, heq, hp⟩ :=
      dataOp_peaks ho hpage hpos tbl (hos o List.mem_cons_self).1 (hos o List.mem_cons_self).2
    have hrest := ih fun o ho' => hos o (List.mem_cons_of_mem _ ho')
    -- the call leaves the driver as it is
    have hone : session tbl (o :: os) q = p >>= fun _ => session tbl os q := by
      show (exec tbl o q >>= fun x => session tbl os x.2) = _
      rw [heq]
      unfold keep
      simp only [bind_assoc, pure_bind]
    rw [List.map_cons, List.sum_cons, hone]
    exact hp.bind (fun _ => hrest.within) hrest.takes

/-- The calls of any list may take the sum of their longest times, and never more. -/
theorem longest_wait (ho : Opened q d) (hpage : 256 ∣ d.sectorSize.toNat) (hpos : 0 < d.sectorSize.toNat)
    (tbl : List QspiManuf) {os : List Op} (hos : ∀ o ∈ os, DataOp o ∧ Counted d.sectorSize.toNat o) :
    IsGreatest {t | ∃ q', Runs (clock limit) (session tbl os q) 0 q' t} (os.map (longest d.sectorSize.toNat)).sum :=
  (session_peaks ho hpage hpos tbl hos).isGreatest

/-- A sector read, a block rewritten and the chip erased, on a W25Q128JV: 30 ms, 5.62 s and 200.04 s. -/
theorem longest_wait_jv : IsGreatest {t | ∃ q', Runs (clock limit) (session qspiManufacturers
    [.readSector 3 ⟨.caller, 0x20020000, 0⟩ 4096, .doWriteBlock ⟨.caller, 0x20020000, 0⟩ 3 1, .eraseChip] jvDriver) 0 q' t}
    (30 + 5620 + 200040) := by
  refine longest_wait jv_opened (by decide) (by decide) qspiManufacturers (fun o ho => ?_)
  simp only [List.mem_cons, List.not_mem_nil, or_false] at ho
  rcases ho with rfl | rfl | rfl
  · exact ⟨trivial, trivial⟩
  · exact ⟨trivial, show jv.sectorSize.toNat * 1 < 2 ^ 32 by decide⟩
  · exact ⟨trivial, trivial⟩

end QspiFlash.Driver.Waiting
