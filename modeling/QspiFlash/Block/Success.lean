/-
  QspiFlash.Block.Success — what a successful block write says on a faulty bus.

  The results of `erase_sector` are not looked at, so a failed erase can go unnoticed.
  `success_iff` is the exact condition on the old content, the new data and the sectors
  whose erase may fail; `lost_erase` builds the run in which one fails.
-/

import QspiFlash.Block.Write

namespace QspiFlash.Block.Success

open Interact Driver Bus.Nor
open NorArray (Bytes Conflict NeedsErase shift)

variable {Z w : Nat} {F : Nat → Prop} {q : Qspi}

/-! ## Runs on a faulty bus -/

/-- A faulty bus may do nothing wrong, as long as no erase is let go whose failure it does not allow. -/
theorem faulty_steps {s : St} {c : Call} {r : c.Resp} {s' : St} (hc : ∀ n r, c = .dropped n r → F n)
    (hs : (nor (faultFree Z w)).step s c r s') : (nor (faulty Z w F)).step s c r s' := by
  cases c with
  | dropped n result => exact ⟨fun _ => hc n result rfl, hs.2⟩
  | halCommand cmd t => exact hs.imp id fun h => absurd h.1 Bool.false_ne_true
  | halReceiveDMA p => exact hs.imp id fun h => absurd h.1 Bool.false_ne_true
  | halTransmitDMA p => exact hs.imp id fun h => absurd h.1 Bool.false_ne_true
  | halAutoPollingIT cmd cfg => exact hs.imp id fun h => absurd h.1 Bool.false_ne_true
  | timedWait t => exact hs.imp id fun h => absurd h.1 Bool.false_ne_true
  | halReceiveIT => exact ⟨Or.inr rfl, hs.2⟩
  | halTransmit d t => exact ⟨Or.inr rfl, hs.2⟩
  | halMemoryMapped cmd cfg => exact ⟨Or.inr rfl, hs.2⟩
  | halAbort => exact ⟨Or.inr rfl, hs.2⟩
  | _ => exact hs

theorem run_faulty {α : Type} {l : List Instruction} {p : M α} (hp : p.All (Asked l)) {Q : α → St → Prop} {s : St}
    (h : wp (nor (faultFree Z w)) p Q s) : ∃ a s', Runs (nor (faulty Z w F)) p s a s' ∧ Q a s' := by
  obtain ⟨a, s', hr, hq⟩ := exists_run (faultFree_total Z w) h
  refine ⟨a, s', Runs.mono (fun s c r s' hc hs => faulty_steps (fun n r he => ?_) hs) hp hr, hq⟩
  rw [he] at hc
  exact absurd hc id

/-- The erase of sector `j` fails at its poll and leaves the sector all 0x00. -/
theorem lost_sector (hd : ∃ d, q.pdevice = some d ∧ d.sectorSize.toNat = Z) (hZ : 0 < Z) {j : Nat}
    (hb : j * Z < 2 ^ w) (hu : j * Z < 2 ^ 32) {s : St} :
    ∃ s', Runs (nor (faulty Z w F)) (eraseSector q j) s .error s' ∧ s'.mem = s.mem ∧ s'.retry = false ∧
      ∀ x, x / Z = j → s'.flash x = 0 := by
  obtain ⟨d, hq, hsize⟩ := hd
  let s₁ : St := { s with
    flash := (Target.unit Z (j * Z)).erased s.flash, busy := .writing (.unit Z (j * Z)),
    log := s.log ++ [.erase .SECTOR_ERASE (.unit Z (j * Z))], retry := false }
  let s₂ : St := { s₁ with flash := fun x => if x / Z = j then 0 else s₁.flash x }
  refine ⟨s₂, ?_, rfl, rfl, fun x hx => if_pos hx⟩
  unfold eraseSector sectorSizeOf
  rw [hq]
  simp only [pure_bind, hsize, u32_lt hu]
  unfold erase
  rw [hq]
  refine runs_onOk_ok (runs_qspiCommand { s with retry := false } (Or.inl ⟨rfl, rfl⟩)) ?_
  refine runs_onOk_ok (runs_qspiCommand s₁ (Or.inl ⟨rfl, ?_⟩)) ?_
  · show s₁ = accept _ _ _
    unfold accept eraseTarget decode
    simp only [faulty, Nat.mod_eq_of_lt hb]
    rfl
  · refine runs_onOk_fail (runs_halAutoPollingIT .error s₂ ?_) nofun
    refine Or.inr ⟨rfl, nofun, s₂.flash, s₂.mem, fun x hx => ?_, fun _ _ _ => rfl, rfl⟩
    refine if_neg fun h => hx ?_
    show x / Z = j * Z / Z
    rw [Nat.mul_div_cancel _ hZ]
    exact h

/-- The erases of `[k, k + n)`, that of sector `j` failing: they leave it all 0x00. -/
theorem lost_erase (hd : ∃ d, q.pdevice = some d ∧ d.sectorSize.toNat = Z) (hZ : 0 < Z) {j : Nat} (hj : F j) :
    ∀ {n k : Nat} {s : St}, (k + n) * Z ≤ 2 ^ w → (k + n) * Z < 2 ^ 32 → s.retry = false →
      (k ≤ j ∧ j < k + n) ∨ (j < k ∧ ∀ x, x / Z = j → s.flash x = 0) →
      ∃ s', Runs (nor (faulty Z w F)) (eraseBlocks q n k) s () s' ∧ s'.mem = s.mem ∧ s'.retry = false ∧
        ∀ x, x / Z = j → s'.flash x = 0 := by
  intro n
  induction n with
  | zero =>
    intro k s _ _ hs hor
    exact ⟨s, .ret _ _, rfl, hs, fun x hx => hor.elim (fun h => by omega) fun h => h.2 x hx⟩
  | succ n ih =>
    intro k s hb hu hs hor
    have hk : (k + 1) * Z ≤ (k + (n + 1)) * Z := block_le (by omega)
    have hk1 : (k + 1) * Z = k * Z + Z := Nat.succ_mul _ _
    have hk2 : k + 1 + n = k + (n + 1) := by omega
    have hlt : k + 1 ≤ (k + 1) * Z := Nat.le_mul_of_pos_right _ hZ
    have hkb : k * Z < 2 ^ w := by omega
    have hku : k * Z < 2 ^ 32 := by omega
    -- the erase of sector `k`: it fails if it is the one to be lost, else it goes well
    have hstep : ∃ r s₁, Runs (nor (faulty Z w F)) (eraseSector q k) s r s₁ ∧ (r ≠ .ok → F k) ∧ s₁.mem = s.mem ∧
        s₁.retry = false ∧ ((k + 1 ≤ j ∧ j < k + 1 + n) ∨ (j < k + 1 ∧ ∀ x, x / Z = j → s₁.flash x = 0)) := by
      by_cases hkj : k = j
      · subst hkj
        obtain ⟨s₁, hrun, hmem, hret, hzero⟩ := lost_sector (F := F) hd hZ hkb hku (s := s)
        exact ⟨.error, s₁, hrun, fun _ => hj, hmem, hret, Or.inr ⟨by omega, hzero⟩⟩
      · obtain ⟨r, s₁, hrun, hpost⟩ := run_faulty (F := F) (eraseSector_asks q k)
          (eraseSector_spec (b := faultFree Z w) hd hkb hku hs)
        have hok : r = .ok := by
          by_contra hr
          exact Bool.false_ne_true (hpost.failed hr)
        refine ⟨r, s₁, hrun, fun h => absurd hok h, hpost.within.mem, hpost.within.retry, ?_⟩
        refine hor.imp (fun h => ⟨by omega, by omega⟩) fun h => ⟨by omega, fun x hx => ?_⟩
        rw [hpost.within.flash x fun h' => ?_]
        · exact h.2 x hx
        · have : x / Z = k * Z / Z := h'
          rw [Nat.mul_div_cancel _ hZ] at this
          omega
    obtain ⟨r, s₁, hrun, hmay, hmem, hret, hor₁⟩ := hstep
    obtain ⟨s₂, hrun₂, hmem₂, hret₂, hzero⟩ := ih (by rw [hk2]; exact hb) (by rw [hk2]; exact hu) hret hor₁
    refine ⟨s₂, ?_, hmem₂.trans hmem, hret₂, hzero⟩
    rw [eraseBlocks]
    refine hrun.bind (.call (r := ()) ⟨hmay, rfl⟩ ?_)
    show Runs _ (u32 (k + 1) >>= fun k' => eraseBlocks q n k') s₁ () s₂
    rw [u32_lt (by omega), pure_bind]
    exact hrun₂

/-- Where erases are needed, a sector that can be lost is lost without a sign: the call
    returns `nblocks` and leaves the sector all 0x00. -/
theorem lost_write {k n : Nat} (h : Span (faultFree Z w) q k n) (buf : Ptr) (hbuf : buf.region = .caller) {s : St}
    (hs : s.retry = false) (hneed : NeedsErase (shift s.flash (k * Z)) (bytesAt s buf) (n * Z)) {j : Nat} (hj : F j)
    (h1 : k ≤ j) (h2 : j < k + n) :
    ∃ s', Runs (nor (faulty Z w F)) (doWriteBlock q buf k n) s n s' ∧ ∀ x, x / Z = j → s'.flash x = 0 := by
  obtain ⟨d, hq, hsize⟩ := h.device
  obtain ⟨hsum, hpos⟩ : (k + n) * Z = k * Z + n * Z ∧ 0 < n * Z := h.count
  have hreach : (k + n) * Z ≤ 2 ^ w := h.reach
  have hfits : (k + n) * Z < 2 ^ 32 := h.fits
  have hsmall := h.small
  have hblock : q.blockLogicalSizeBytes = Z := h.blockSize
  have hZ : 0 < Z := h.pos
  have hpages : 256 ∣ Z := h.pages
  have hn : ssize n = n := ssize_small (by omega)
  have hne : n ≠ minusOne := by unfold minusOne; omega
  have hlost : ∀ {s : St}, s.retry = false → ∃ s', Runs (nor (faulty Z w F)) (eraseBlocks q n k) s () s' ∧ s'.mem = s.mem ∧
      s'.retry = false ∧ ∀ x, x / Z = j → s'.flash x = 0 := fun hs =>
    lost_erase ⟨d, hq, hsize⟩ hZ hj hreach hfits hs (Or.inl ⟨h1, h2⟩)
  unfold doWriteBlock
  rw [hblock, Nat.mul_comm _ k, Nat.mul_comm _ n, u32_lt (by omega), pure_bind, u32_lt (by omega), pure_bind]
  obtain ⟨toWrite, s, hrun, rfl, hdata⟩ := run_faulty (F := F) (hasData_asks [] (n * Z) buf)
    (hasData_spec (b := faultFree Z w) (n * Z) (s := s))
  by_cases hw : toWrite = false
  · obtain ⟨s', hrun', -, -, hzero⟩ := hlost hs
    refine ⟨s', hrun.bind ?_, hzero⟩
    rw [if_pos hw, hn.symm]
    exact hrun'.bind (.ret _ _)
  · have hsome := hdata.mp (by simpa using hw)
    have hconf : ∃ o, o < n * Z ∧ Conflict (shift s.flash (k * Z) o) (bytesAt s buf o) :=
      hneed.resolve_left fun hall => by obtain ⟨o, ho, hb⟩ := hsome; exact hb (hall o ho)
    obtain ⟨m, hm⟩ : 256 ∣ n * Z := Nat.dvd_mul_left_of_dvd hpages n
    have hin :=
      writeInPlace_spec (b := faultFree Z w) hq (A := k * Z) (n := n) (Nat.dvd_mul_left_of_dvd hpages k) hbuf hne
      (m := m) (i := 0) (s := s) (by omega) (by show k * Z + _ ≤ 2 ^ w; omega) (by omega) hs
    rw [Nat.mul_zero, Ptr.add_zero, Nat.zero_add, ← hm] at hin
    obtain ⟨⟨te, nb⟩, s₁, hrun₁, hp⟩ := run_faulty (F := F) (writeInPlace_asks ..) hin
    have hnb : nb = n := by
      by_contra h'
      exact Bool.false_ne_true (hp.failed h').2
    have hte : te = true := by
      by_contra h'
      rw [hm, ← chunk_conflict_iff] at hconf
      obtain ⟨c, hc1, hc2, hc⟩ := hconf
      exact (hp.done (by simpa using h') hnb c hc1 hc2).1 hc
    subst hnb hte
    obtain ⟨s₂, hrun₂, hmem, hret, hzero⟩ := hlost hp.retry
    obtain ⟨r, s₃, hrun₃, hwr⟩ := run_faulty (F := F) (write_asks ..)
      (write_spec (b := faultFree Z w) hq (a := k * Z) buf hpos (by show _ ≤ 2 ^ w; omega) (by omega) hret)
    have hr : r = .ok := by
      by_contra h'
      exact Bool.false_ne_true (hwr.failed h')
    refine ⟨s₃, ?_, fun x hx => ?_⟩
    · refine hrun.bind ?_
      rw [if_neg hw]
      refine hrun₁.bind ?_
      rw [if_pos ⟨rfl, h.some⟩]
      refine hrun₂.bind (hrun₃.bind ?_)
      rw [if_neg (not_not.mpr hr), hn.symm]
      exact .ret _ _
    · rw [(hwr.ok hr).1]
      unfold NorArray.andRange
      split
      · rw [hzero x hx, UInt8.zero_and]
      · exact hzero x hx

/-- On a bus where the erases of the sectors in `F` may fail: success always means the new
    data is there, exactly when no erase is needed or what may be lost is to be 0x00 anyway. -/
theorem success_iff {d : QspiDevice} (ho : Opened q d) (hpos : 0 < d.sectorSize.toNat) (hp : 256 ∣ d.sectorSize.toNat)
    (hw : d.capacity ≤ 2 ^ w) (F : Nat → Prop) (f : Bytes) (m : Region → Nat → UInt8) (base off : Nat) {k n : Nat}
    (hn : 1 ≤ n) (hk : k + n ≤ q.numBlocks) :
    (∀ r s', Runs (nor (faulty d.sectorSize.toNat w F)) (doWriteBlock q ⟨.caller, base, off⟩ k n) (start f m) r s' →
        r = n → ∀ o, o < n * d.sectorSize.toNat → s'.flash (k * d.sectorSize.toNat + o) = m .caller (off + o)) ↔
      (¬ NeedsErase (shift f (k * d.sectorSize.toNat)) (fun o => m .caller (off + o)) (n * d.sectorSize.toNat) ∨
        ∀ j, k ≤ j → j < k + n → F j → ∀ o, o < d.sectorSize.toNat →
          m .caller (off + ((j - k) * d.sectorSize.toNat + o)) = 0) := by
  have hspan : Span (faulty d.sectorSize.toNat w F) q k n := span_of_opened ho rfl hpos hp hw hn hk
  have hfree : Span (faultFree d.sectorSize.toNat w) q k n := span_of_opened ho rfl hpos hp hw hn hk
  generalize hZ : d.sectorSize.toNat = Z at *
  constructor
  · intro hall
    by_contra hcond
    rw [not_or] at hcond
    obtain ⟨hneed, hlose⟩ := hcond
    refine hlose fun j h1 h2 hj o ho => ?_
    obtain ⟨s', hrun, hzero⟩ := lost_write (F := F) hfree ⟨.caller, base, off⟩ rfl (s := start f m) rfl
      (not_not.mp hneed) hj h1 h2
    have hlt : (j - k) * Z + Z ≤ n * Z := by rw [← Nat.succ_mul]; exact block_le (by omega)
    have haddr : k * Z + ((j - k) * Z + o) = j * Z + o := by
      rw [← Nat.add_assoc, ← Nat.add_mul, Nat.add_sub_cancel' h1]
    have hflash := hall n s' hrun rfl ((j - k) * Z + o) (by omega)
    rw [← hflash, haddr]
    apply hzero
    rw [Nat.add_comm, Nat.add_mul_div_right _ _ hpos, Nat.div_eq_of_lt ho, Nat.zero_add]
  · intro hcond r s' hrun hr o ho
    have hpost := wp_runs (doWriteBlock_spec hspan ⟨.caller, base, off⟩ rfl (s := start f m) rfl) hrun
    by_cases hneed : NeedsErase (shift f (k * Z)) (fun o => m .caller (off + o)) (n * Z)
    · obtain ⟨g, hg, hflash⟩ := hpost.erased hr hneed
      have hlose := hcond.resolve_left (not_not.mpr hneed)
      have hdiv : (k * Z + o) / Z = k + o / Z := by
        rw [Nat.add_comm, Nat.add_mul_div_right _ _ hpos, Nat.add_comm]
      have hlt : o / Z < n := Nat.div_lt_of_lt_mul (by rw [Nat.mul_comm]; exact ho)
      refine (hflash o ho).trans ?_
      show g (k * Z + o) &&& m .caller (off + o) = m .caller (off + o)
      rcases hg (k + o / Z) (Nat.le_add_right ..) (Nat.add_lt_add_left hlt k) with hblank | ⟨-, hF⟩
      · rw [hblank _ hdiv, NorArray.ff_and]
      · have hz := hlose (k + o / Z) (Nat.le_add_right ..) (Nat.add_lt_add_left hlt k) hF (o % Z) (Nat.mod_lt _ hpos)
        rw [Nat.add_sub_cancel_left, Nat.div_add_mod'] at hz
        rw [hz, UInt8.and_zero]
    · exact hpost.kept hr hneed o ho

/-- A block of 0x00 over a chip full of 0x5A needs an erase, which may fail: where 1 is returned,
    and it may be, the block holds 0x00. -/
theorem success_iff_jv :
    (∃ s', Runs (nor (faulty jv.sectorSize.toNat 24 fun _ => True)) (doWriteBlock jvDriver ⟨.caller, 0x20020000, 0⟩ 5 1)
      (start (fun _ => 0x5A) fun _ _ => 0) (1 : Nat) s') ∧
    ∀ r s', Runs (nor (faulty jv.sectorSize.toNat 24 fun _ => True))
        (doWriteBlock jvDriver ⟨.caller, 0x20020000, 0⟩ 5 1) (start (fun _ => 0x5A) fun _ _ => 0) r s' →
      r = (1 : Nat) → ∀ o, o < 1 * jv.sectorSize.toNat → s'.flash (5 * jv.sectorSize.toNat + o) = 0 := by
  have hspan : Span (faultFree jv.sectorSize.toNat 24) jvDriver 5 1 :=
    span_of_opened jv_opened rfl (by decide) (by decide) (by decide) (by decide) (by decide)
  constructor
  · obtain ⟨r, s', hrun, hpost⟩ := exists_run (faultFree_total _ 24)
      (doWriteBlock_spec hspan ⟨.caller, 0x20020000, 0⟩ rfl (s := start (fun _ => 0x5A) fun _ _ => 0) rfl)
    have hr : r = (1 : Nat) := by
      by_contra hne
      exact Bool.false_ne_true (hpost.failed hne).2
    rw [hr] at hrun
    exact ⟨s', hrun.mono (fun _ _ _ _ _ hs => faulty_steps (fun _ _ _ => trivial) hs)
      (Prog.all_of_forall (P := fun _ => True) (fun _ => trivial) _)⟩
  · exact (success_iff jv_opened (by decide) (by decide) (by decide) (fun _ => True) (fun _ => 0x5A) (fun _ _ => 0)
      0x20020000 0 (by decide) (by decide)).mpr (Or.inr fun _ _ _ _ _ _ => rfl)

/-- One all-0xFF block over a chip full of 0x5A, and its erase fails: the call returns 1 and
    the block does not hold the data. -/
theorem success_without_data : ¬ ∀ r s',
    Runs (nor (faulty jv.sectorSize.toNat 24 fun _ => True)) (doWriteBlock jvDriver ⟨.caller, 0x20020000, 0⟩ 0 1)
        (start (fun _ => 0x5A) fun _ _ => 0xFF) r s' →
      r = (1 : Nat) → ∀ o, o < 1 * jv.sectorSize.toNat → s'.flash (0 * jv.sectorSize.toNat + o) = 0xFF := by
  intro h
  have hspan : Span (faultFree jv.sectorSize.toNat 24) jvDriver 0 1 :=
    span_of_opened jv_opened rfl (by decide) (by decide) (by decide) (by decide) (by decide)
  obtain ⟨s', hrun, hzero⟩ := lost_write (F := fun _ => True) hspan ⟨.caller, 0x20020000, 0⟩ rfl
    (s := start (fun _ => 0x5A) fun _ _ => 0xFF) rfl (Or.inl fun _ _ => rfl) (j := 0) trivial (by decide) (by decide)
  have hff := h _ s' hrun rfl 0 (by decide)
  rw [hzero _ (by decide)] at hff
  exact absurd hff (by decide)

end QspiFlash.Block.Success
