/-
  QspiFlash.Block.Sync — an opened block device is in sync with its chip.

  The bus is `Bus.Modes`' own with every failure allowed: any call or wait may fail, without
  effect on the chip. From a new object and a chip awake in either mode, over any run of
  `do_vopen`, `do_close`, `do_read_block` and `do_write_block`, the open flag is truthful
  (`Inv`): while it is set, the chip is awake in quad mode and the object has its descriptor
  and its geometry.

  - `dataOp_inv`: the data operations send nothing that changes the mode.
  - `doVopen_inv`, `doClose_inv`: opening and closing, wherever they break off.
  - `opened_in_sync`: every reachable state, and what the two return from there.
-/

import QspiFlash.Bus.Modes
import QspiFlash.Driver.Api

namespace QspiFlash.Block.Sync

open Interact Driver Bus.Modes

variable {x : Chip}

structure Inv (x : Chip) (q : Qspi) (s : St) : Prop where
  token : s.token = false
  awake : s.chip.powerDown = false
  opened : q.isOpened = true → InSync x q s ∧ Opened q x.device

/-! ## The block operations -/

/-- Questions that leave the mode and the latency alone. -/
def Tame : Call → Prop
  | .halCommand cmd _ | .halAutoPollingIT cmd _ => Mild cmd.instruction
  | .halTransmit .. => False
  | _ => True

theorem asked_tame {l : List Instruction} (hl : ∀ i ∈ l, Mild i) : ∀ c, Asked l c → Tame c := by
  intro c h
  cases c with
  | halCommand cmd t => exact hl _ h.1
  | halAutoPollingIT cmd cfg =>
    show Mild cmd.instruction
    rw [h.1]
    trivial
  | halTransmit b t => exact absurd h id
  | _ => trivial

theorem attempt_cases {P : St → Prop} {s t s' : St} {r : HalStatus} (h : Attempt True s t r s') (hs : P s) (ht : P t) : P s' := by
  rcases h with ⟨-, rfl⟩ | ⟨-, -, rfl⟩
  · exact ht
  · exact hs

theorem lands_frame {s s' : St} {t : Transfer} (h : Lands x s t s') : s'.chip = s.chip ∧ s'.token = s.token := by
  cases h <;> exact ⟨rfl, rfl⟩

/-- The state as the block operations find it and leave it. -/
structure Alike (s s' : St) : Prop where
  token : s'.token = false
  awake : s'.chip.powerDown = false
  quad : s'.chip.quad = s.chip.quad
  dummyCycles : s'.chip.dummyCycles = s.chip.dummyCycles

theorem Alike.of_chip {s s₁ s₂ : St} (h : Alike s s₁) (ht : s₂.token = s₁.token) (hc : s₂.chip = s₁.chip) : Alike s s₂ :=
  ⟨ht.trans h.token, by rw [hc]; exact h.awake, by rw [hc]; exact h.quad, by rw [hc]; exact h.dummyCycles⟩

theorem Alike.send {s s₁ : St} (h : Alike s s₁) {cmd : QspiCommand} (hm : Mild cmd.instruction) :
    Alike s (send x s₁ cmd) := by
  have hsteady := send_steady (x := x) s₁ hm
  exact ⟨hsteady.kept.token.trans h.token, hsteady.awake h.awake, hsteady.quad.trans h.quad,
    hsteady.dummyCycles.trans h.dummyCycles⟩

theorem tame_step {s : St} (s₁ : St) (c : Call) (r : c.Resp) (s₂ : St) (hc : Tame c) (h : Alike s s₁)
    (hs : (bus x True).step s₁ c r s₂) : Alike s s₂ := by
  cases c with
  | halCommand cmd t =>
    obtain ⟨g, -, hs⟩ := hs
    exact attempt_cases hs h ((h.send hc).of_chip rfl rfl)
  | halAutoPollingIT cmd cfg => exact attempt_cases hs h ((h.send hc).of_chip rfl rfl)
  | halReceiveIT => exact attempt_cases hs h (h.of_chip rfl rfl)
  | halReceiveDMA p => exact attempt_cases hs h (h.of_chip rfl rfl)
  | halTransmitDMA p =>
    obtain ⟨g, hs⟩ := hs
    exact attempt_cases hs h ⟨h.token, h.awake, h.quad, h.dummyCycles⟩
  | halTransmit b t => exact absurd hc id
  | timedWait t =>
    rcases hs with ⟨-, htok, -⟩ | ⟨-, -, u, -, hland⟩ | ⟨-, -, -, rfl⟩
    · rw [h.token] at htok
      cases htok
    · exact h.of_chip (lands_frame hland).2 (lands_frame hland).1
    · exact h.of_chip rfl rfl
  | idBytes => exact h.of_chip (by rw [hs.2]) (by rw [hs.2])
  | load p => exact h.of_chip (by rw [hs.2]) (by rw [hs.2])
  | _ => exact h.of_chip (by rw [show s₂ = s₁ from hs]) (by rw [show s₂ = s₁ from hs])

theorem Alike.inv {q : Qspi} {s s' : St} (h : Inv x q s) (ha : Alike s s') : Inv x q s' := by
  refine ⟨ha.token, ha.awake, fun ho => ?_⟩
  obtain ⟨hsync, hopened⟩ := h.opened ho
  exact ⟨⟨hsync.pdevice, ⟨ha.quad.trans hsync.quad.1, ha.awake⟩, ha.dummyCycles.trans hsync.latency⟩, hopened⟩

theorem blocks_inv {α : Type} {q : Qspi} {s : St} {p : M α} (hp : p.All Tame) (h : Inv x q s) :
    wp (bus x True) p (fun _ s' => Inv x q s') s := by
  have halike : Alike s s := ⟨h.token, h.awake, rfl, rfl⟩
  exact wp_mono (wp_inv (fun _ _ _ _ => trivial) tame_step hp halike) fun _ _ ha => ha.inv h

theorem dataOp_inv {o : Op} (ho : DataOp o) {q : Qspi} {s : St} (h : Inv x q s) :
    wp (bus x True) (exec qspiManufacturers o q) (fun y s' => Inv x y.2 s') s := by
  obtain ⟨α, out, p, heq, hp⟩ := dataOp_asks (asked_tame (by decide)) (fun _ _ => trivial) qspiManufacturers ho q
  rw [heq]
  exact wp_seq (blocks_inv hp h) fun _ _ hq => hq

/-! ## Opening and closing -/

/-- Every device of the tables has sectors. -/
theorem table_sectors : ∀ m ∈ qspiManufacturers, ∀ d ∈ m.known, 0 < d.capacity / d.sectorSize.toNat := by decide

theorem numBlocks_pos {q : Qspi} (h : Opened q x.device) : 0 < q.numBlocks := by
  rw [h.numBlocks, getSectorCount, h.pdevice]
  exact table_sectors _ x.listed _ x.known

theorem setErrno_spec {α : Type} {e : Errno} {a : α} {Q : α → St → Prop} {s : St} (h : Q a s) :
    wp (bus x True) (do ask (.setErrno e); pure a : M α) Q s := by
  refine ⟨trivial, ?_⟩
  intro _ s' hs
  rw [show s' = s from hs]
  exact h

theorem vopenFinish_inv {q : Qspi} {s s' : St} {y : QspiResult × Qspi} (h : Inv x q s) (hclosed : q.isOpened = false)
    (hpost : InitPost x True q s y s') : wp (bus x True) (vopenFinish y.1 y.2)
      (fun z s' => Inv x z.2 s' ∧ (z.1 = -1 → z.2.isOpened = q.isOpened)) s' := by
  have htoken : s'.token = false := hpost.kept.token.trans h.token
  have hawake : s'.chip.powerDown = false := hpost.awake h.awake
  have hstill : y.2.isOpened = false := hpost.isOpened.trans hclosed
  have hfail : ∀ q' : Qspi, q'.isOpened = false → Inv x q' s' ∧ ((-1 : Int) = -1 → q'.isOpened = q.isOpened) := by
    intro q' hq'
    refine ⟨⟨htoken, hawake, fun ho => ?_⟩, fun _ => hq'.trans hclosed.symm⟩
    rw [hq'] at ho
    cases ho
  unfold vopenFinish
  refine wp_ite (fun _ => setErrno_spec (hfail y.2 hstill)) fun hr => ?_
  have hsync := hpost.inSync (not_not.mp hr)
  refine wp_ite (fun _ => setErrno_spec (hfail _ hstill)) fun _ => wp_pure.mpr ?_
  have hsize : getSectorSize y.2 = x.device.sectorSize.toNat := by
    unfold getSectorSize
    rw [hsync.pdevice]
  exact ⟨⟨htoken, hawake, fun _ => ⟨⟨hsync.pdevice, hsync.quad, hsync.latency⟩, hsync.pdevice, rfl, rfl, hsize, hsize⟩⟩, nofun⟩

theorem doVopen_inv {q : Qspi} {s : St} (h : Inv x q s) : wp (bus x True) (doVopen qspiManufacturers q)
    (fun y s' => Inv x y.2 s' ∧ (y.1 = -1 → y.2.isOpened = q.isOpened)) s := by
  refine wp_ite (fun _ => setErrno_spec ⟨h, fun _ => rfl⟩) fun ho => ?_
  refine wp_ite (fun _ => setErrno_spec ⟨h, fun _ => rfl⟩) fun _ => ?_
  have hw : s.chip.Wakeable := by
    intro hp
    rw [h.awake] at hp
    cases hp
  refine wp_seq (initialize_spec h.token hw q) ?_
  intro y s' hpost
  exact vopenFinish_inv h (by simpa using ho) hpost

/-- What `do_close` leaves of an opened device. -/
def Closed (x : Chip) (y : Int × Qspi) (s' : St) : Prop :=
  (y.1 = 0 ∧ y.2.isOpened = false ∧ s'.chip.Spi) ∨ (y.1 = -1 ∧ InSync x y.2 s' ∧ Opened y.2 x.device)

theorem doClose_inv {q : Qspi} {s : St} (h : Inv x q s) : wp (bus x True) (doClose q)
    (fun y s' => Inv x y.2 s' ∧ (q.isOpened = true → Closed x y s')) s := by
  have huninit : wp (bus x True) (uninitializeQspi q) (fun y s' => y.2 = { q with pimpl := none } ∧ s'.token = false ∧
      s'.chip.powerDown = false ∧ (y.1 = .ok → s.chip.Quad → s'.chip = x.powerUp) ∧
      (y.1 ≠ .ok → s'.chip.quad = s.chip.quad ∧ s'.chip.dummyCycles = s.chip.dummyCycles)) s := by
    refine wp_seq (wake_spec s) ?_
    intro _ s₁ h₁
    obtain ⟨hsteady, -⟩ := h₁
    refine wp_seq (resetChip_spec s₁) ?_
    intro r s₂ h₂
    refine wp_pure.mpr ⟨rfl, ?_⟩
    by_cases hr : r = .ok
    · obtain ⟨hkept, hawake, hup⟩ := h₂.1 hr
      exact ⟨(hsteady.kept.trans hkept).token.trans h.token, hawake (hsteady.awake h.awake),
        fun _ hq => hup (hsteady.isQuad hq), fun h => absurd hr h⟩
    · have hsteady := hsteady.trans (h₂.2 hr).2
      exact ⟨hsteady.kept.token.trans h.token, hsteady.awake h.awake, fun h => absurd h hr,
        fun _ => ⟨hsteady.quad, hsteady.dummyCycles⟩⟩
  refine wp_seq huninit ?_
  intro y s' hy
  obtain ⟨hq', htoken, hawake, hup, hsame⟩ := hy
  refine wp_ite (fun hr => setErrno_spec ?_) fun hr => wp_pure.mpr ?_
  · obtain ⟨hquad, hdummy⟩ := hsame hr
    have hstill : q.isOpened = true → InSync x y.2 s' ∧ Opened y.2 x.device := by
      intro ho
      obtain ⟨hsync, hopened⟩ := h.opened ho
      rw [hq']
      exact ⟨⟨hsync.pdevice, ⟨hquad.trans hsync.quad.1, hawake⟩, hdummy.trans hsync.latency⟩,
        hopened.pdevice, hopened.isOpened, hopened.numBlocks, hopened.logicalSize, hopened.physicalSize⟩
    refine ⟨⟨htoken, hawake, fun ho => hstill ?_⟩, fun ho => Or.inr ⟨rfl, hstill ho⟩⟩
    rw [hq'] at ho
    exact ho
  · refine ⟨⟨htoken, hawake, nofun⟩, fun ho => Or.inl ⟨rfl, rfl, ?_⟩⟩
    rw [hup (not_not.mp hr) (h.opened ho).1.quad]
    exact ⟨rfl, rfl⟩

/-! ## Runs -/

def DeviceOp : Op → Prop
  | .doVopen | .doClose | .doReadBlock .. | .doWriteBlock .. => True
  | _ => False

/-- A new object, and a chip awake in either mode. -/
structure Start (q : Qspi) (s : St) : Prop where
  fresh : Fresh q
  token : s.token = false
  awake : s.chip.powerDown = false

theorem exec_inv (o : Op) (ho : DeviceOp o) {q : Qspi} {s : St} (h : Inv x q s) :
    wp (bus x True) (exec qspiManufacturers o q) (fun y s' => Inv x y.2 s') s := by
  cases o with
  | doVopen => exact wp_seq (doVopen_inv h) fun _ _ hy => hy.1
  | doClose => exact wp_seq (doClose_inv h) fun _ _ hy => hy.1
  | doReadBlock buf k n => exact dataOp_inv (o := .doReadBlock buf k n) trivial h
  | doWriteBlock buf k n => exact dataOp_inv (o := .doWriteBlock buf k n) trivial h
  | _ => exact absurd ho id

theorem inv_reach {q : Qspi} {s : St} (h : Reach (bus x True) (exec qspiManufacturers) DeviceOp Start q s) :
    Inv x q s := by
  refine reach_inv ?_ (fun o q s ho hi => exec_inv o ho hi) h
  intro q s h
  refine ⟨h.token, h.awake, fun ho => ?_⟩
  rw [h.fresh.isOpened] at ho
  cases ho

/-- Between calls an open device is in sync with its chip and has its geometry. `do_vopen`
    returning -1 leaves the open flag, and asks the bus nothing if it was set; `do_close` of an
    open device leaves the chip in SPI mode, or returns -1 and leaves it open and in sync. -/
theorem opened_in_sync {q : Qspi} {s : St} (h : Reach (bus x True) (exec qspiManufacturers) DeviceOp Start q s) :
    (q.isOpened = true → InSync x q s ∧ Opened q x.device ∧ 0 < q.numBlocks) ∧
    (∀ y s', Runs (bus x True) (doVopen qspiManufacturers q) s y s' → y.1 = -1 → y.2.isOpened = q.isOpened) ∧
    (q.isOpened = true → doVopen qspiManufacturers q = (do ask (.setErrno .eexist); pure (-1, q))) ∧
    (q.isOpened = true → ∀ y s', Runs (bus x True) (doClose q) s y s' → Closed x y s') := by
  have hinv := inv_reach h
  refine ⟨fun ho => ?_, ?_, fun ho => ?_, ?_⟩
  · obtain ⟨hsync, hopened⟩ := hinv.opened ho
    exact ⟨hsync, hopened, numBlocks_pos hopened⟩
  · intro y s' hrun
    exact (wp_runs (doVopen_inv hinv) hrun).2
  · unfold doVopen
    rw [if_pos ho]
  · intro ho y s' hrun
    exact (wp_runs (doClose_inv hinv) hrun).2 ho

/-- A W25Q128JV, opened. -/
theorem opened_in_sync_jv : ∃ q s, q.isOpened = true ∧ InSync jvChip q s := by
  have hrun := (runs_run (I := fun _ => True) (fun s c _ => answer_steps jvChip True s c) (fun _ _ _ => trivial)
    (exec qspiManufacturers .doVopen freshDriver) (s := jvStart) trivial).1
  have hopen : ((exec qspiManufacturers .doVopen freshDriver).run (answer jvChip) jvStart).1.2.isOpened = true := by
    decide +kernel
  have hstart : Start freshDriver jvStart := ⟨fresh_driver, rfl, rfl⟩
  have hsync := opened_in_sync (.op (o := .doVopen) (.init hstart) trivial hrun)
  exact ⟨_, _, hopen, (hsync.1 hopen).1⟩

end QspiFlash.Block.Sync
