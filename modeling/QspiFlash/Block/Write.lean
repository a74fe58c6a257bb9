/-
  QspiFlash.Block.Write — `do_read_block` and `do_write_block` on the NOR bus, faulty or not.

  `Span` says that the blocks `[k, k + n)` are the driver's and the chip's: sectors of
  whole pages, within reach of the address. `WriteBlockPost` is what one call leaves:
  nothing outside its blocks is touched and the caller's memory is as it was, and, on a
  faulty bus, the value returned is `nblocks` only with the new data in place or with an
  `erase_sector` whose failure was let go.
-/

import QspiFlash.Nor.Rewrite
import QspiFlash.Bus.Nor
import QspiFlash.Driver.Opened

namespace QspiFlash.Block

open Interact Driver Bus.Nor
open NorArray (Bytes Conflict ChunkConflict ChunkDiffers NeedsErase inPlace shift)

variable {b : Params}

/-- The blocks `[k, k + n)` of the opened device `q` on the bus `b`. -/
structure Span (b : Params) (q : Qspi) (k n : Nat) : Prop where
  device : ∃ d, q.pdevice = some d ∧ d.sectorSize.toNat = b.sectorSize
  blockSize : q.blockLogicalSizeBytes = b.sectorSize
  pages : 256 ∣ b.sectorSize
  pos : 0 < b.sectorSize
  some : 0 < n
  reach : (k + n) * b.sectorSize ≤ 2 ^ b.addrBits
  fits : (k + n) * b.sectorSize < 2 ^ 32

/-- Any blocks of an open device, on a bus whose chip decodes the device's addresses. -/
theorem span_of_opened {q : Qspi} {d : QspiDevice} (h : Opened q d) (hd : b.sectorSize = d.sectorSize.toNat)
    (hpos : 0 < d.sectorSize.toNat) (hp : 256 ∣ d.sectorSize.toNat) (hw : d.capacity ≤ 2 ^ b.addrBits) {k n : Nat}
    (hn : 1 ≤ n) (hk : k + n ≤ q.numBlocks) : Span b q k n := by
  have hcount : q.numBlocks = d.capacity / d.sectorSize.toNat := by
    rw [h.numBlocks]; unfold getSectorCount; rw [h.pdevice]
  have hend : (k + n) * d.sectorSize.toNat ≤ d.capacity := by
    rw [← Nat.le_div_iff_mul_le hpos, ← hcount]; exact hk
  have hcap := capacity_le d
  rw [← hd] at hpos hp hend
  exact ⟨⟨d, h.pdevice, hd.symm⟩, h.logicalSize.trans hd.symm, hp, hpos, hn, Nat.le_trans hend hw, by omega⟩

/-! ## Looking at the data -/

theorem wp_load {α : Type} {p : Ptr} {f : UInt8 → M α} {Q : α → St → Prop} {s : St} :
    wp (nor b) (ask (.load p) >>= f) Q s ↔ wp (nor b) (f (bytesAt s p 0)) Q s := by
  constructor
  · intro h; exact h.2 _ _ ⟨rfl, rfl⟩
  · intro h
    refine ⟨trivial, ?_⟩
    intro r s' hpost
    obtain ⟨rfl, rfl⟩ := hpost
    exact h

theorem bytesAt_succ (s : St) (p : Ptr) (i : Nat) : bytesAt s (p.add 1) i = bytesAt s p (i + 1) := by
  simp only [bytesAt, Ptr.add_region, Ptr.add_off, Nat.add_assoc, Nat.add_comm 1 i]

theorem loads_mem : Loads (nor b) fun s p => s.mem p.region p.off := fun _ _ => ⟨trivial, fun _ _ h => h⟩

theorem hasData_spec (n : Nat) {p : Ptr} {s : St} : wp (nor b) (hasData p n)
    (fun r s' => s' = s ∧ (r = true ↔ ∃ i, i < n ∧ bytesAt s p i ≠ 0xFF)) s :=
  hasData_loads loads_mem p n s

theorem compareChunk_spec : ∀ (n : Nat) {p l : Ptr} {v : Bool} {s : St}, wp (nor b) (compareChunk p l n v)
    (fun x s' => s' = s ∧ (x.1 = true ↔ ∃ i, i < n ∧ Conflict (bytesAt s l i) (bytesAt s p i)) ∧
      (x.1 = false → (x.2 = true ↔ v = true ∨ ∃ i, i < n ∧ bytesAt s l i ≠ bytesAt s p i))) s := by
  intro n
  induction n with
  | zero =>
    intro p l v s
    refine wp_pure.mpr ⟨rfl, ⟨nofun, fun ⟨i, hi, _⟩ => absurd hi (Nat.not_lt_zero i)⟩, fun _ => ⟨Or.inl, ?_⟩⟩
    intro hcase
    rcases hcase with h | ⟨i, hi, _⟩
    · exact h
    · exact absurd hi (Nat.not_lt_zero i)
  | succ n ih =>
    intro p l v s
    rw [compareChunk, wp_load, wp_load]
    refine wp_ite (fun h => wp_pure.mpr ⟨rfl, ⟨fun _ => ⟨0, by omega, h.2, Ne.symm h.1⟩, fun _ => rfl⟩, nofun⟩) fun h => ?_
    refine wp_mono ih ?_
    intro x s' hpost
    obtain ⟨rfl, hc, hd⟩ := hpost
    have h0 : ¬ Conflict (bytesAt s' l 0) (bytesAt s' p 0) := fun h' => h ⟨Ne.symm h'.2, h'.1⟩
    refine ⟨rfl, hc.trans ?_, fun hx => (hd hx).trans ?_⟩
    · rw [exists_lt_succ]
      simp only [bytesAt_succ]
      exact ⟨Or.inr, fun h' => h'.resolve_left h0⟩
    · -- without a conflict, a byte that differs is blank in flash, so its data is not 0xFF
      rw [exists_lt_succ, ← or_assoc]
      simp only [bytesAt_succ]
      refine or_congr_left ?_
      simp only [Bool.or_eq_true, Bool.and_eq_true, decide_eq_true_eq]
      refine or_congr_right ⟨fun h' => Ne.symm h'.2, fun h' => ⟨fun hp => ?_, Ne.symm h'⟩⟩
      exact h0 ⟨fun hl => h' (hl.trans hp.symm), h'⟩

/-! ## Erasing the blocks -/

/-- The addresses of the blocks `[k, k + n)`. -/
def InBlocks (b : Params) (k n x : Nat) : Prop := k * b.sectorSize ≤ x ∧ x < (k + n) * b.sectorSize

theorem block_iff {Z k x : Nat} (hZ : 0 < Z) : x / Z = k ↔ k * Z ≤ x ∧ x < (k + 1) * Z := by
  rw [Nat.div_eq_iff hZ, Nat.succ_mul]
  omega

theorem block_le {Z j k : Nat} (h : j ≤ k) : j * Z ≤ k * Z := Nat.mul_le_mul_right Z h

theorem eraseSector_spec {q : Qspi} {k : Nat} (hd : ∃ d, q.pdevice = some d ∧ d.sectorSize.toNat = b.sectorSize)
    (hb : k * b.sectorSize < 2 ^ b.addrBits) (hu : k * b.sectorSize < 2 ^ 32) {s : St} (hs : s.retry = false) :
    wp (nor b) (eraseSector q k) (ErasePost b s .SECTOR_ERASE (.unit b.sectorSize (k * b.sectorSize))) s := by
  obtain ⟨d, hq, hsize⟩ := hd
  unfold eraseSector sectorSizeOf
  rw [hq]
  simp only [pure_bind, hsize, u32_lt hu]
  refine erase_spec hq (fun cmd hi ha => ?_) hs
  unfold eraseTarget decode
  rw [hi, ha, Nat.mod_eq_of_lt hb]

/-- Each block of `[k, k + n)` is blank in `f`, or its `erase_sector` may have failed. -/
def Blank (b : Params) (k n : Nat) (f : Bytes) : Prop :=
  ∀ j, k ≤ j → j < k + n → (∀ x, x / b.sectorSize = j → f x = 0xFF) ∨ (b.faults = true ∧ b.eraseMayFail j)

def erases (b : Params) (k n : Nat) : List ChipOp :=
  (List.range' k n).map fun j => .erase .SECTOR_ERASE (.unit b.sectorSize (j * b.sectorSize))

structure EraseBlocksPost (b : Params) (s : St) (k n : Nat) (s' : St) : Prop where
  within : Within (InBlocks b k n) s s'
  blank : Blank b k n s'.flash
  log : b.faults = false → s'.log = s.log ++ erases b k n

theorem eraseBlocks_spec {q : Qspi} (hd : ∃ d, q.pdevice = some d ∧ d.sectorSize.toNat = b.sectorSize)
    (hZ : 0 < b.sectorSize) : ∀ {n k : Nat} {s : St}, (k + n) * b.sectorSize ≤ 2 ^ b.addrBits →
      (k + n) * b.sectorSize < 2 ^ 32 → s.retry = false →
      wp (nor b) (eraseBlocks q n k) (fun _ s' => EraseBlocksPost b s k n s') s := by
  intro n
  induction n with
  | zero =>
    intro k s _ _ hs
    exact wp_pure.mpr ⟨⟨fun _ _ => rfl, rfl, hs⟩, fun j h1 h2 => by omega, fun _ => (List.append_nil _).symm⟩
  | succ n ih =>
    intro k s hb hu hs
    have hk : (k + 1) * b.sectorSize ≤ (k + (n + 1)) * b.sectorSize := block_le (by omega)
    have hk1 : (k + 1) * b.sectorSize = k * b.sectorSize + b.sectorSize := Nat.succ_mul _ _
    have hk2 : k + 1 + n = k + (n + 1) := by omega
    have hlt : k + 1 ≤ (k + 1) * b.sectorSize := Nat.le_mul_of_pos_right _ hZ
    rw [eraseBlocks]
    refine wp_seq (eraseSector_spec hd (by omega) (by omega) hs) ?_
    intro r s₁ hpost
    obtain ⟨hw, hok, hfail⟩ := hpost
    refine wp_seq (P := fun _ s' => s' = s₁ ∧ (r ≠ .ok → b.eraseMayFail k)) ?_ ?_
    · refine wp_ask.mpr ⟨trivial, ?_⟩
      intro _ s' hpost
      obtain ⟨hm, rfl⟩ := hpost
      exact ⟨rfl, hm⟩
    intro _ _ hpost
    obtain ⟨rfl, hm⟩ := hpost
    rw [u32_lt (by omega), pure_bind]
    refine wp_mono (ih (by rw [hk2]; exact hb) (by rw [hk2]; exact hu) hw.retry) ?_
    intro _ s₂ hpost
    obtain ⟨hw₂, hbl, hlog⟩ := hpost
    have hunit : ∀ x, (Target.unit b.sectorSize (k * b.sectorSize)).Has x ↔ x / b.sectorSize = k := by
      intro x; rw [has_unit, Nat.mul_div_cancel _ hZ]
    refine ⟨?_, fun j h1 h2 => ?_, fun hf => ?_⟩
    · refine (hw.mono fun x hx => ?_).trans (hw₂.mono fun x hx => ?_)
      · have := (block_iff hZ).mp ((hunit x).mp hx)
        exact ⟨this.1, by omega⟩
      · unfold InBlocks at hx ⊢
        rw [hk2] at hx
        omega
    · by_cases hj : j = k
      · subst hj
        by_cases hr : r = .ok
        · refine Or.inl fun x hx => ?_
          have hlt := ((block_iff hZ).mp hx).2
          rw [hw₂.flash x fun h => by have := h.1; omega, (hok hr).1]
          exact if_pos ((hunit x).mpr hx)
        · exact Or.inr ⟨hfail hr, hm hr⟩
      · exact hbl j (by omega) (by omega)
    · have hr : r = .ok := by
        by_cases hr : r = .ok
        · exact hr
        · rw [hf] at hfail; exact absurd (hfail hr) Bool.false_ne_true
      rw [hlog hf, (hok hr).2, erases, erases, List.range'_succ, List.map_cons, List.append_assoc]
      rfl

/-! ## In place -/

theorem bytesAt_of_caller {s s' : St} (h : s'.mem .caller = s.mem .caller) {p : Ptr} (hp : p.region = .caller) :
    bytesAt s' p = bytesAt s p := by
  funext i; simp only [bytesAt, hp, h]

theorem bytesAt_add_off (s : St) (p : Ptr) (m i : Nat) : bytesAt s (p.add m) i = bytesAt s p (m + i) := by
  simp only [bytesAt, Ptr.add_region, Ptr.add_off, Nat.add_assoc]

/-- After the chunks from the `i`-th on, `m` of them, of a call that writes `buf` at `A`. -/
structure InPlacePost (b : Params) (s : St) (A : Nat) (buf : Ptr) (i m nblocks : Nat) (x : Bool × Nat) (s' : St) :
    Prop where
  flash : ∀ x, ¬ (A + 256 * i ≤ x ∧ x < A + 256 * (i + m)) → s'.flash x = s.flash x
  caller : s'.mem .caller = s.mem .caller
  retry : s'.retry = false
  stopped : x.1 = true → x.2 = nblocks ∧ ∃ k, i ≤ k ∧ k < i + m ∧ ChunkConflict 256 (shift s.flash A) (bytesAt s buf) k
  done : x.1 = false → x.2 = nblocks → ∀ k, i ≤ k → k < i + m →
    ¬ ChunkConflict 256 (shift s.flash A) (bytesAt s buf) k ∧
      ∀ o, o < 256 → s'.flash (A + (256 * k + o)) = bytesAt s buf (256 * k + o)
  failed : x.2 ≠ nblocks → x = (false, minusOne) ∧ b.faults = true
  log : b.faults = false → s'.log = s.log ++
    (inPlace 256 (shift s.flash A) (bytesAt s buf) m i).map fun k => .program (A + 256 * k) 256

theorem InPlacePost.fail {s s' : St} {A i m nblocks : Nat} {buf : Ptr} (hf : b.faults = true) (hne : nblocks ≠ minusOne)
    (hfl : ∀ x, ¬ (A + 256 * i ≤ x ∧ x < A + 256 * (i + m)) → s'.flash x = s.flash x)
    (hm : s'.mem .caller = s.mem .caller) (hs : s'.retry = false) :
    InPlacePost b s A buf i m nblocks (false, minusOne) s' :=
  ⟨hfl, hm, hs, nofun, fun _ h => absurd h.symm hne, fun _ => ⟨rfl, hf⟩, fun h => by rw [hf] at h; cases h⟩

/-- After a chunk without a conflict, programmed or already right. -/
structure ChunkPost (b : Params) (s : St) (A : Nat) (buf : Ptr) (k : Nat) (s' : St) : Prop where
  flash : ∀ x, ¬ (A + 256 * k ≤ x ∧ x < A + 256 * k + 256) → s'.flash x = s.flash x
  caller : s'.mem .caller = s.mem .caller
  retry : s'.retry = false
  clean : ¬ ChunkConflict 256 (shift s.flash A) (bytesAt s buf) k
  set : ∀ o, o < 256 → s'.flash (A + (256 * k + o)) = bytesAt s buf (256 * k + o)
  log : b.faults = false → s'.log = s.log ++ (if ChunkDiffers 256 (shift s.flash A) (bytesAt s buf) k then [k] else []).map
    fun k => .program (A + 256 * k) 256

theorem InPlacePost.nil {s : St} {A i nblocks : Nat} {buf : Ptr} (hs : s.retry = false) :
    InPlacePost b s A buf i 0 nblocks (false, nblocks) s :=
  ⟨fun _ _ => rfl, rfl, hs, nofun, fun _ _ k h1 h2 => by omega, fun h => absurd rfl h, fun _ => (List.append_nil _).symm⟩

theorem InPlacePost.cons {s s₁ s' : St} {A i m nblocks : Nat} {buf : Ptr} {x : Bool × Nat} (hbuf : buf.region = .caller)
    (h : ChunkPost b s A buf i s₁) (h' : InPlacePost b s₁ A buf (i + 1) m nblocks x s') :
    InPlacePost b s A buf i (m + 1) nblocks x s' := by
  have hby : bytesAt s₁ buf = bytesAt s buf := bytesAt_of_caller h.caller hbuf
  have hsh : ∀ o, 256 * (i + 1) ≤ o → shift s₁.flash A o = shift s.flash A o := fun o ho => h.flash _ (by omega)
  have hcc : ∀ k, i + 1 ≤ k → (ChunkConflict 256 (shift s₁.flash A) (bytesAt s₁ buf) k ↔
      ChunkConflict 256 (shift s.flash A) (bytesAt s buf) k) := by
    intro k hk
    have : ∀ o, shift s₁.flash A (256 * k + o) = shift s.flash A (256 * k + o) := fun o => hsh _ (by omega)
    unfold ChunkConflict
    simp only [this, hby]
  refine ⟨fun y hy => ?_, h'.caller.trans h.caller, h'.retry, fun hx => ?_, fun hx hn k h1 h2 => ?_, h'.failed, fun hf => ?_⟩
  · have h1 : ¬ (A + 256 * (i + 1) ≤ y ∧ y < A + 256 * (i + 1 + m)) := fun hr => hy ⟨by omega, by omega⟩
    have h2 : ¬ (A + 256 * i ≤ y ∧ y < A + 256 * i + 256) := fun hr => hy ⟨hr.1, by omega⟩
    exact (h'.flash y h1).trans (h.flash y h2)
  · obtain ⟨hn, k, h1, h2, hk⟩ := h'.stopped hx
    exact ⟨hn, k, by omega, by omega, (hcc k h1).mp hk⟩
  · by_cases hk : k = i
    · subst hk
      refine ⟨h.clean, fun o ho => ?_⟩
      rw [h'.flash _ (by omega)]
      exact h.set o ho
    · obtain ⟨h3, h4⟩ := h'.done hx hn k (by omega) (by omega)
      exact ⟨fun hc => h3 ((hcc k (by omega)).mpr hc), fun o ho => by rw [h4 o ho, hby]⟩
  · rw [h'.log hf, h.log hf, inPlace, if_neg h.clean, List.map_append, List.append_assoc, hby,
      NorArray.inPlace_congr hsh]

/-- A chunk that did not differ needs nothing; one that did is programmed. -/
theorem chunk_same {s s₁ : St} {A k : Nat} {buf : Ptr} (hc : ¬ ChunkConflict 256 (shift s.flash A) (bytesAt s buf) k)
    (hd : ¬ ChunkDiffers 256 (shift s.flash A) (bytesAt s buf) k) (hfl : s₁.flash = s.flash) (hlog : s₁.log = s.log)
    (hm : s₁.mem .caller = s.mem .caller) (hs : s₁.retry = false) : ChunkPost b s A buf k s₁ := by
  refine ⟨fun x _ => by rw [hfl], hm, hs, hc, fun o ho => ?_, fun _ => ?_⟩
  · rw [hfl]
    exact not_not.mp fun h => hd ⟨o, ho, h⟩
  · rw [hlog, if_neg hd]
    exact (List.append_nil _).symm

theorem chunk_written {s s₁ s₂ : St} {A k : Nat} {buf : Ptr} (hA : 256 ∣ A)
    (hc : ¬ ChunkConflict 256 (shift s.flash A) (bytesAt s buf) k)
    (hd : ChunkDiffers 256 (shift s.flash A) (bytesAt s buf) k) (hfl : s₁.flash = s.flash) (hlog : s₁.log = s.log)
    (hm : s₁.mem .caller = s.mem .caller) (hbuf : buf.region = .caller)
    (hw : WritePost b s₁ (A + 256 * k) (buf.add (256 * k)) 256 .ok s₂) : ChunkPost b s A buf k s₂ := by
  obtain ⟨hflash, hlog₂⟩ := hw.ok rfl
  rw [hfl] at hflash
  refine ⟨fun x hx => ?_, (congrFun hw.within.mem _).trans hm, hw.within.retry, hc, fun o ho => ?_, fun _ => ?_⟩
  · rw [hflash]
    exact NorArray.andRange_off _ _ hx
  · rw [hflash, ← Nat.add_assoc, NorArray.andRange_on _ _ ho, bytesAt_add_off, bytesAt_of_caller hm hbuf, Nat.add_assoc]
    exact NorArray.and_of_not_conflict fun h => hc ⟨o, ho, h⟩
  · have hcell := NorArray.cells_pages (P := 256) (by omega) (a := A + 256 * k)
      (Nat.dvd_add hA (Nat.dvd_mul_right ..)) (m := 1) (by omega)
    rw [hlog₂, hlog, if_pos hd]
    unfold programs
    rw [show 256 = 1 * 256 by rfl, hcell]
    rfl

theorem writeInPlace_spec {q : Qspi} {d : QspiDevice} (hq : q.pdevice = some d) {A n : Nat} {buf : Ptr}
    (hA : 256 ∣ A) (hbuf : buf.region = .caller) (hne : n ≠ minusOne) : ∀ {m i : Nat} {s : St}, 0 < m →
      A + 256 * (i + m) ≤ 2 ^ b.addrBits → A + 256 * (i + m) < 2 ^ 32 → s.retry = false →
      wp (nor b) (writeInPlace q buf A (256 * (i + m)) n i (buf.add (256 * i)))
        (InPlacePost b s A buf i m n) s := by
  intro m
  induction m with
  | zero => intro i s h; omega
  | succ m ih =>
    intro i s _ hb hu hs
    have hoff : i * lbuffSize = 256 * i := Nat.mul_comm i 256
    rw [writeInPlace]
    simp only [hoff, u32_lt (show 256 * i < 2 ^ 32 by omega), u32_lt (show A + 256 * i < 2 ^ 32 by omega), pure_bind]
    refine wp_seq (read_spec hq (A + 256 * i) q.lbuff lbuffSize hs) ?_
    rintro r s₁ hread
    have hmem : s₁.mem .caller = s.mem .caller := funext fun o => hread.frame _ _ fun h => by cases h.1
    have hby : bytesAt s₁ buf = bytesAt s buf := bytesAt_of_caller hmem hbuf
    refine wp_ite (fun hr => ?_) fun hr => ?_
    · refine wp_seq (P := fun _ s' => s' = s₁) (wp_setErrno.mpr rfl) ?_
      rintro _ _ rfl
      exact wp_pure.mpr (.fail (hread.failed hr) hne (fun x _ => by rw [hread.flash]) hmem hread.retry)
    have hr : r = .ok := not_not.mp hr
    -- what is now in `lbuff_` is the old content of the chunk
    have hold : ∀ j, j < 256 → bytesAt s₁ q.lbuff j = shift s.flash A (256 * i + j) := by
      intro j hj
      unfold bytesAt
      rw [hread.ok hr]
      refine (fill_on hj).trans ?_
      show s.flash (decode b (A + 256 * i + j)) = s.flash (A + (256 * i + j))
      unfold decode
      rw [Nat.mod_eq_of_lt (by omega), Nat.add_assoc]
    have hnew : ∀ j, bytesAt s₁ (buf.add (256 * i)) j = bytesAt s buf (256 * i + j) := fun j => by
      rw [bytesAt_add_off, hby]
    refine wp_seq (compareChunk_spec lbuffSize) ?_
    intro x s₂ hpost
    obtain ⟨te, vd⟩ := x
    obtain ⟨rfl, hte, hvd⟩ := hpost
    have hte : te = true ↔ ChunkConflict 256 (shift s.flash A) (bytesAt s buf) i := by
      refine hte.trans (exists_congr fun j => and_congr_right fun hj => ?_)
      rw [hold j hj, hnew]
    have hvd : te = false → (vd = true ↔ ChunkDiffers 256 (shift s.flash A) (bytesAt s buf) i) := fun h => by
      refine (hvd h).trans ((or_iff_right Bool.false_ne_true).trans (exists_congr fun j => and_congr_right fun hj => ?_))
      rw [hold j hj, hnew]
    refine wp_ite (fun h => wp_pure.mpr ?_) fun h => ?_
    · have hc := hte.mp h
      refine ⟨fun x _ => by rw [hread.flash], hmem, hread.retry, fun _ => ⟨rfl, i, Nat.le_refl i, by omega, hc⟩,
        fun h' => Bool.noConfusion h', fun hn => absurd rfl hn, fun _ => ?_⟩
      rw [hread.log, inPlace, if_pos hc]
      exact (List.append_nil _).symm
    have hte' : te = false := Bool.eq_false_iff.mpr h
    have hc : ¬ ChunkConflict 256 (shift s.flash A) (bytesAt s buf) i := fun h' => h (hte.mpr h')
    -- the next pass of the loop, after a chunk that is in order
    have hnext : ∀ s₃, ChunkPost b s A buf i s₃ → wp (nor b) (do
        let sector256 ← u32 (i + 1)
        if _h : (buf.add (256 * i)).off + lbuffSize < buf.off + 256 * (i + (m + 1)) then
          writeInPlace q buf A (256 * (i + (m + 1))) n sector256 ((buf.add (256 * i)).add lbuffSize)
        else pure (false, n)) (InPlacePost b s A buf i (m + 1) n) s₃ := by
      intro s₃ hch
      rw [u32_lt (by omega), pure_bind]
      have hcond : (buf.add (256 * i)).off + lbuffSize < buf.off + 256 * (i + (m + 1)) ↔ 0 < m := by
        simp only [Ptr.add_off, lbuffSize]; omega
      have hstep : (buf.add (256 * i)).add lbuffSize = buf.add (256 * (i + 1)) := by
        rw [Ptr.add_add, lbuffSize, Nat.mul_succ]
      by_cases hm : 0 < m
      · rw [dif_pos (hcond.mpr hm), hstep, show i + (m + 1) = i + 1 + m by omega]
        rw [show i + (m + 1) = i + 1 + m by omega] at hb hu
        exact wp_mono (ih hm hb hu hch.retry) fun x s' h' => .cons hbuf hch h'
      · rw [dif_neg fun h' => hm (hcond.mp h')]
        obtain rfl : m = 0 := by omega
        exact wp_pure.mpr (.cons hbuf hch (.nil hch.retry))
    refine wp_ite (fun hv => ?_) fun hv => ?_
    · have hd := (hvd hte').mp hv
      have hend : A + 256 * i + lbuffSize ≤ A + 256 * (i + (m + 1)) := Nat.le_of_not_lt fun h => by
        unfold lbuffSize at h; omega
      refine wp_seq (write_spec hq (buf.add (256 * i)) (show 0 < lbuffSize by decide) (Nat.le_trans hend hb)
        (Nat.lt_of_le_of_lt hend hu) hread.retry) ?_
      rintro r s₃ hw
      refine wp_ite (fun hr => ?_) fun hr => hnext _ ?_
      · refine wp_seq (P := fun _ s' => s' = s₃) (wp_setErrno.mpr rfl) ?_
        rintro _ _ rfl
        refine wp_pure.mpr (.fail (hw.failed hr) hne (fun x hx => ?_) ?_ hw.within.retry)
        · have hout : ¬ Pages (A + 256 * i) 256 x := fun hp => by
            have hin := (pages_iff (Nat.dvd_add hA (Nat.dvd_mul_right ..)) (Nat.dvd_refl 256) (by omega)).mp hp
            exact hx ⟨hin.1, Nat.lt_of_lt_of_le hin.2 hend⟩
          exact (hw.within.flash x hout).trans (congrFun hread.flash x)
        · exact (congrFun hw.within.mem _).trans hmem
      · rw [not_not.mp hr] at hw
        exact chunk_written hA hc hd hread.flash hread.log hmem hbuf hw
    · refine wp_ite (fun h' => absurd rfl h') fun _ => hnext _ ?_
      exact chunk_same hc (fun h' => hv ((hvd hte').mpr h')) hread.flash hread.log hmem hread.retry

/-! ## The block device's calls -/

/-- The programs of an attempt in place, before the first conflict. -/
def inPlaceOps (b : Params) (old new : Bytes) (k n : Nat) : List ChipOp :=
  (inPlace 256 old new (n * b.sectorSize / 256) 0).map fun c => .program (k * b.sectorSize + 256 * c) 256

/-- The chip operations of a call that writes `new` over `old` in the blocks `[k, k + n)`. -/
structure Plan (b : Params) (old new : Bytes) (k n : Nat) (ops : List ChipOp) : Prop where
  blank : (∀ o, o < n * b.sectorSize → new o = 0xFF) → ops = erases b k n
  inPlace : ¬ NeedsErase old new (n * b.sectorSize) → ops = inPlaceOps b old new k n
  rewrite : (∃ o, o < n * b.sectorSize ∧ new o ≠ 0xFF) → (∃ o, o < n * b.sectorSize ∧ Conflict (old o) (new o)) →
    ops = inPlaceOps b old new k n ++ erases b k n ++ programs (k * b.sectorSize) (n * b.sectorSize)

/-- After `do_write_block` of the blocks `[k, k + n)` from `buf`. -/
structure WriteBlockPost (b : Params) (s : St) (buf : Ptr) (k n : Nat) (r : Int) (s' : St) : Prop where
  flash : ∀ x, ¬ InBlocks b k n x → s'.flash x = s.flash x
  caller : s'.mem .caller = s.mem .caller
  retry : s'.retry = false
  failed : r ≠ n → r = -1 ∧ b.faults = true
  kept : r = n → ¬ NeedsErase (shift s.flash (k * b.sectorSize)) (bytesAt s buf) (n * b.sectorSize) →
    ∀ o, o < n * b.sectorSize → s'.flash (k * b.sectorSize + o) = bytesAt s buf o
  erased : r = n → NeedsErase (shift s.flash (k * b.sectorSize)) (bytesAt s buf) (n * b.sectorSize) →
    ∃ g, Blank b k n g ∧
      ∀ o, o < n * b.sectorSize → s'.flash (k * b.sectorSize + o) = g (k * b.sectorSize + o) &&& bytesAt s buf o
  log : b.faults = false → ∃ ops, s'.log = s.log ++ ops ∧
    Plan b (shift s.flash (k * b.sectorSize)) (bytesAt s buf) k n ops

theorem Span.small {q : Qspi} {k n : Nat} (h : Span b q k n) : n < 2 ^ 24 := by
  have h256 : 256 ≤ b.sectorSize := Nat.le_of_dvd h.pos h.pages
  have h1 : n * 256 ≤ n * b.sectorSize := Nat.mul_le_mul_left n h256
  have h2 : n * b.sectorSize ≤ (k + n) * b.sectorSize := block_le (Nat.le_add_left n k)
  have h3 := h.fits
  omega

theorem Span.count {q : Qspi} {k n : Nat} (h : Span b q k n) :
    (k + n) * b.sectorSize = k * b.sectorSize + n * b.sectorSize ∧ 0 < n * b.sectorSize :=
  ⟨Nat.add_mul .., Nat.mul_pos h.some h.pos⟩

theorem doReadBlock_spec {q : Qspi} {k n : Nat} (h : Span b q k n) (buf : Ptr) {s : St} (hs : s.retry = false) :
    wp (nor b) (doReadBlock q buf k n) (fun r s' => s'.flash = s.flash ∧ s'.log = s.log ∧ s'.retry = false ∧
      (r ≠ n → r = -1 ∧ b.faults = true) ∧ (∀ t o, ¬ (t = buf.region ∧ buf.off ≤ o ∧ o < buf.off + n * b.sectorSize) →
        s'.mem t o = s.mem t o) ∧
      (r = n → ∀ o, o < n * b.sectorSize → bytesAt s' buf o = s.flash (k * b.sectorSize + o))) s := by
  obtain ⟨d, hq, -⟩ := h.device
  obtain ⟨hsum, hpos⟩ := h.count
  have hreach := h.reach
  have hfits := h.fits
  have hsmall := h.small
  have hn : ssize n = n := ssize_small (by omega)
  unfold doReadBlock
  rw [h.blockSize, Nat.mul_comm _ k, Nat.mul_comm _ n, u32_lt (by omega), pure_bind, u32_lt (by omega), pure_bind]
  refine wp_seq (read_spec hq _ buf _ hs) ?_
  intro r s₁ hr
  refine wp_ite (fun hne => ?_) fun hok => wp_pure.mpr ?_
  · refine wp_seq (P := fun _ s' => s' = s₁) (wp_setErrno.mpr rfl) ?_
    rintro _ _ rfl
    rw [ssize_minusOne]
    exact wp_pure.mpr ⟨hr.flash, hr.log, hr.retry, fun _ => ⟨rfl, hr.failed hne⟩, hr.frame, fun h' => by omega⟩
  · rw [hn]
    refine ⟨hr.flash, hr.log, hr.retry, fun h' => absurd rfl h', hr.frame, fun _ o ho => ?_⟩
    unfold bytesAt
    rw [hr.ok (not_not.mp hok), fill_on ho]
    unfold decode
    rw [Nat.mod_eq_of_lt (by omega)]

theorem chunk_conflict_iff {old new : Bytes} {m : Nat} :
    (∃ k, 0 ≤ k ∧ k < 0 + m ∧ ChunkConflict 256 old new k) ↔ ∃ o, o < 256 * m ∧ Conflict (old o) (new o) := by
  rw [NorArray.exists_chunk (by omega : 0 < 256)]
  simp only [Nat.zero_le, true_and, Nat.zero_add]
  exact Iff.rfl

theorem doWriteBlock_spec {q : Qspi} {k n : Nat} (h : Span b q k n) (buf : Ptr) (hbuf : buf.region = .caller) {s : St}
    (hs : s.retry = false) : wp (nor b) (doWriteBlock q buf k n) (WriteBlockPost b s buf k n) s := by
  obtain ⟨hsum, hpos⟩ := h.count
  have hreach := h.reach
  have hfits := h.fits
  have hsmall := h.small
  have hn : ssize n = n := ssize_small (by omega)
  have hne : n ≠ minusOne := by unfold minusOne; omega
  unfold doWriteBlock
  rw [h.blockSize, Nat.mul_comm _ k, Nat.mul_comm _ n, u32_lt (by omega), pure_bind, u32_lt (by omega), pure_bind]
  refine wp_seq (hasData_spec (n * b.sectorSize)) ?_
  intro toWrite s hpost
  obtain ⟨rfl, hdata⟩ := hpost
  refine wp_ite (fun hw => ?_) fun hw => ?_
  · -- only blank data: the erases are the whole call
    have hall : ∀ o, o < n * b.sectorSize → bytesAt s buf o = 0xFF := fun o ho =>
      not_not.mp fun hb => Bool.false_ne_true (hw.symm.trans (hdata.mpr ⟨o, ho, hb⟩))
    refine wp_seq (eraseBlocks_spec h.device h.pos hreach hfits hs) ?_
    intro _ s₁ he
    rw [hn]
    refine wp_pure.mpr ⟨he.within.flash, congrFun he.within.mem _, he.within.retry, fun h' => absurd rfl h',
      fun _ h' => absurd (Or.inl hall) h', fun _ _ => ⟨s₁.flash, he.blank, fun o ho => ?_⟩, fun hf => ⟨_, he.log hf, ?_⟩⟩
    · rw [hall o ho, NorArray.and_ff]
    · exact ⟨fun _ => rfl, fun h' => absurd (Or.inl hall) h', fun ⟨o, ho, h'⟩ => absurd (hall o ho) h'⟩
  have hsome : ∃ o, o < n * b.sectorSize ∧ bytesAt s buf o ≠ 0xFF := hdata.mp (by simpa using hw)
  have hnblank : ¬ ∀ o, o < n * b.sectorSize → bytesAt s buf o = 0xFF := fun h' =>
    let ⟨o, ho, hb⟩ := hsome; hb (h' o ho)
  obtain ⟨m, hm⟩ : 256 ∣ n * b.sectorSize := Nat.dvd_mul_left_of_dvd h.pages n
  have hdiv : n * b.sectorSize / 256 = m := by omega
  obtain ⟨d, hq, -⟩ := h.device
  have hA : 256 ∣ k * b.sectorSize := Nat.dvd_mul_left_of_dvd h.pages k
  have hin := writeInPlace_spec (b := b) hq (A := k * b.sectorSize) (n := n) hA hbuf hne
    (m := m) (i := 0) (s := s) (by omega) (by omega) (by omega) hs
  rw [Nat.mul_zero, Ptr.add_zero, Nat.zero_add, ← hm] at hin
  refine wp_seq hin ?_
  intro x s₁ hp
  obtain ⟨toErase, nb⟩ := x
  have hframe : ∀ x, ¬ InBlocks b k n x → s₁.flash x = s.flash x := fun x hx =>
    hp.flash x fun hr => hx ⟨by omega, by omega⟩
  have hby : bytesAt s₁ buf = bytesAt s buf := bytesAt_of_caller hp.caller hbuf
  refine wp_ite (fun hx => ?_) fun hx => ?_
  · -- a conflict: everything is erased and written again
    obtain ⟨hnb, hstop⟩ := hp.stopped hx.1
    replace hnb : nb = n := hnb
    subst hnb
    have hconf := chunk_conflict_iff.mp hstop
    rw [← hm] at hconf
    refine wp_seq (eraseBlocks_spec h.device h.pos hreach hfits hp.retry) ?_
    intro _ s₂ he
    have hmem₂ : s₂.mem .caller = s.mem .caller := (congrFun he.within.mem _).trans hp.caller
    refine wp_seq (write_spec hq buf hpos (by omega) (by omega) he.within.retry) ?_
    intro r s₃ hwr
    have hmem₃ : s₃.mem .caller = s.mem .caller := (congrFun hwr.within.mem _).trans hmem₂
    have hframe₃ : ∀ x, ¬ InBlocks b k nb x → s₃.flash x = s.flash x := fun x hx => by
      have hpage : ¬ Pages (k * b.sectorSize) (nb * b.sectorSize) x := fun hp => by
        have hin := (pages_iff hA (Nat.dvd_mul_left_of_dvd h.pages nb) hpos).mp hp
        exact hx ⟨hin.1, by omega⟩
      rw [hwr.within.flash x hpage, he.within.flash x hx, hframe x hx]
    refine wp_ite (fun hr => ?_) fun hr => ?_
    · refine wp_seq (P := fun _ s' => s' = s₃) (wp_setErrno.mpr rfl) ?_
      rintro _ _ rfl
      rw [ssize_minusOne]
      have hf := hwr.failed hr
      exact wp_pure.mpr ⟨hframe₃, hmem₃, hwr.within.retry, fun _ => ⟨rfl, hf⟩, fun h' => by omega, fun h' => by omega,
        fun h' => by rw [hf] at h'; cases h'⟩
    · obtain ⟨hfl, hlog⟩ := hwr.ok (not_not.mp hr)
      rw [hn]
      refine wp_pure.mpr ⟨hframe₃, hmem₃, hwr.within.retry, fun h' => absurd rfl h', fun _ h' => absurd (Or.inr hconf) h',
        fun _ _ => ⟨s₂.flash, he.blank, fun o ho => ?_⟩, fun hf =>
          ⟨inPlaceOps b (shift s.flash (k * b.sectorSize)) (bytesAt s buf) k nb ++ erases b k nb ++
          programs (k * b.sectorSize) (nb * b.sectorSize), ?_, ?_⟩⟩
      · rw [hfl, NorArray.andRange_on _ _ ho, bytesAt_of_caller hmem₂ hbuf]
      · rw [hlog, he.log hf, hp.log hf, inPlaceOps, hdiv, List.append_assoc, List.append_assoc, List.append_assoc]
      · exact ⟨fun h' => absurd h' hnblank, fun h' => absurd (Or.inr hconf) h', fun _ _ => rfl⟩
  · have hte : toErase = false := by
      by_contra h'
      have ht : toErase = true := by simpa using h'
      exact hx ⟨ht, by have := (hp.stopped ht).1; have := h.some; omega⟩
    by_cases hnb : nb = n
    · subst hnb
      rw [hn]
      have hdone := hp.done hte rfl
      have hnc : ¬ ∃ o, o < nb * b.sectorSize ∧ Conflict (shift s.flash (k * b.sectorSize) o) (bytesAt s buf o) := by
        rw [hm, ← chunk_conflict_iff]
        intro hex
        obtain ⟨j, h1, h2, hc⟩ := hex
        exact (hdone j h1 h2).1 hc
      have hneed : ¬ NeedsErase (shift s.flash (k * b.sectorSize)) (bytesAt s buf) (nb * b.sectorSize) :=
        fun h' => h'.elim hnblank hnc
      refine wp_pure.mpr ⟨hframe, hp.caller, hp.retry, fun h' => absurd rfl h', fun _ _ o ho => ?_, fun _ h' =>
        absurd h' hneed,
        fun hf => ⟨_, hp.log hf, ?_⟩⟩
      · have hset := (hdone (o / 256) (Nat.zero_le _) (by omega)).2 (o % 256) (Nat.mod_lt _ (by omega))
        rwa [Nat.div_add_mod] at hset
      · exact ⟨fun h' => absurd h' hnblank, fun _ => by rw [inPlaceOps, hdiv], fun _ h' => absurd h' hnc⟩
    · obtain ⟨hpair, hf⟩ := hp.failed hnb
      have hmo : nb = minusOne := congrArg Prod.snd hpair
      rw [hmo, ssize_minusOne]
      exact wp_pure.mpr ⟨hframe, hp.caller, hp.retry, fun _ => ⟨rfl, hf⟩, fun h' => by omega, fun h' => by omega,
        fun h' => by rw [hf] at h'; cases h'⟩

end QspiFlash.Block
