/-
  QspiFlash.Bus.Resync — `initialize` brings driver and chip back together, after any run.

  `faulty x` is the worst bus with the chip `x`: any call may fail, its command having
  reached the chip or not, waits and identifications end in any way, and events leave tokens
  as they like. What the chip hears it acts on as in `Bus.Modes`.

  The invariant is that a sleeping chip is in quad mode (`ChipSt.Wakeable`): POWER_DOWN is
  only ever sent on four lines, so only a chip in quad mode hears it, and asleep it hears
  nothing that would change its mode.

  - `exec_sends`: what the operations send.
  - `wakeable_reach`: the invariant, over any run.
  - `initialize_resyncs`: then `initialize` on a bus without failures returns `ok`, in sync.
-/

import QspiFlash.Bus.Modes
import QspiFlash.Driver.Identity

namespace QspiFlash.Bus.Resync

open Interact Driver Bus.Modes

variable (x : Chip)

/-- The chip, and what it heard last, are as they were. -/
structure SameChip (s s' : St) : Prop where
  chip : s'.chip = s.chip
  cmd : s'.cmd = s.cmd
  heard : s'.heard = s.heard

/-- `t` reached the chip, or the call failed and it did not. -/
def Reached (s t : St) (r : HalStatus) (s' : St) : Prop := SameChip t s' ∨ (r ≠ .ok ∧ SameChip s s')

def faultyStep (s : St) : (c : Call) → c.Resp → St → Prop
  | .halCommand cmd _, r, s' | .halAutoPollingIT cmd _, r, s' => Reached s (send x s cmd) r s'
  | .halTransmit b _, r, s' => Reached s (sendByte x s b) r s'
  | .halTransmitDMA _, r, s' => Reached s { s with chip := { s.chip with writeEnabled := false } } r s'
  | _, _, s' => SameChip s s'

def faulty : Env Call Call.Resp St where
  guard _ _ := True
  step := faultyStep x

/-- POWER_DOWN is only sent on four lines. -/
def Sends : Call → Prop
  | .halCommand cmd _ | .halAutoPollingIT cmd _ => cmd.instruction = .POWER_DOWN → cmd.instructionMode = .four
  | _ => True

variable {x}

/-! ## What the operations send -/

theorem asked_sends {l : List Instruction} : ∀ c, Asked l c → Sends c := by
  intro c h
  cases c <;> first | trivial | exact fun _ => h.2

theorem switches_sends : ∀ c, Switches c → Sends c := by
  intro c h
  cases c <;> trivial

theorem callFactory_sends (v : Option Vendor) : (callFactory v).All Sends := by
  cases v with
  | none => exact Prog.all_bind ((Prog.all_ask Call.nullDeref).mpr trivial) fun _ => trivial
  | some v => exact Prog.all_bind ((Prog.all_ask (Call.qspiFactory v)).mpr trivial) fun _ => trivial

theorem readJedecId_sends (tbl : List QspiManuf) (q : Qspi) : (readJedecId tbl q).All Sends := by
  apply readJedecId_asks
  · intro c hc
    cases c with
    | halCommand cmd t => exact fun hp => absurd (Eq.trans (Eq.symm hc) hp) nofun
    | halAutoPollingIT cmd cfg => exact absurd hc id
    | _ => trivial
  · exact fun m _ => callFactory_sends _

theorem initializeQspi_sends (tbl : List QspiManuf) (q : Qspi) : (initializeQspi tbl q).All Sends := by
  have hfinish : ∀ y : QspiResult × Qspi, (if y.1 = .ok then do let result ← enterQuadMode y.2; pure (result, y.2)
      else pure y : M (QspiResult × Qspi)).All Sends := fun y =>
    Prog.all_ite (fun _ => Prog.all_bind ((enterQuadMode_switches y.2).mono switches_sends) fun _ => trivial) fun _ => trivial
  refine Prog.all_bind (readJedecId_sends tbl q) fun y => Prog.all_ite (fun _ => ?_) fun _ => hfinish y
  refine Prog.all_bind ((sleep_switches false).mono switches_sends) fun _ =>
    Prog.all_bind (resetChip_switches.mono switches_sends) fun r => Prog.all_ite (fun _ => ?_) fun _ => hfinish _
  exact Prog.all_bind (readJedecId_sends tbl y.2) hfinish

theorem setErrno_sends {α : Type} (e : Errno) (a : α) : (do ask (.setErrno e); pure a : M α).All Sends :=
  Prog.all_bind ((Prog.all_ask (Call.setErrno e)).mpr trivial) fun _ => trivial

theorem doVopen_sends (tbl : List QspiManuf) (q : Qspi) : (doVopen tbl q).All Sends := by
  refine Prog.all_ite (fun _ => setErrno_sends _ _) fun _ => Prog.all_ite (fun _ => setErrno_sends _ _) fun _ => ?_
  refine Prog.all_bind (initializeQspi_sends tbl q) fun y => Prog.all_ite (fun _ => setErrno_sends _ _) fun _ => ?_
  exact Prog.all_ite (fun _ => setErrno_sends _ _) fun _ => trivial

theorem doClose_sends (q : Qspi) : (doClose q).All Sends :=
  Prog.all_bind ((uninitializeQspi_switches q).mono switches_sends) fun _ =>
    Prog.all_ite (fun _ => setErrno_sends _ _) fun _ => trivial

/-! ## Any run of operations -/

/-- Every operation but the memory mapped mode, in which the bus takes no commands. -/
def BusOp : Op → Prop
  | .enterMemMapped | .exitMemMapped => False
  | _ => True

theorem exec_sends (tbl : List QspiManuf) (o : Op) (ho : BusOp o) (q : Qspi) : (exec tbl o q).All Sends := by
  have hkeep : ∀ {α : Type} (out : α → Out) {p : M α}, p.All Sends → (keep q out p).All Sends := fun out p hp =>
    Prog.all_bind hp fun _ => trivial
  by_cases hdata : DataOp o
  · obtain ⟨α, out, p, heq, hp⟩ := dataOp_asks asked_sends (fun _ _ => trivial) tbl hdata q
    rw [heq]
    exact hkeep out hp
  cases o with
  | initializeQspi => exact Prog.all_bind (initializeQspi_sends tbl q) fun _ => trivial
  | uninitializeQspi => exact Prog.all_bind ((uninitializeQspi_switches q).mono switches_sends) fun _ => trivial
  | doVopen => exact Prog.all_bind (doVopen_sends tbl q) fun _ => trivial
  | doClose => exact Prog.all_bind (doClose_sends q) fun _ => trivial
  | sleep state => exact hkeep _ ((sleep_switches state).mono switches_sends)
  | resetChip => exact hkeep _ (resetChip_switches.mono switches_sends)
  | enterMemMapped => exact absurd ho id
  | exitMemMapped => exact absurd ho id
  | _ => exact absurd trivial hdata

theorem sendByte_wakeable {s : St} {b : UInt8} (h : s.chip.Wakeable) : (sendByte x s b).chip.Wakeable := by
  unfold sendByte
  split
  · rename_i hawake
    intro hp
    rw [data_awake, hawake.2] at hp
    cases hp
  · exact h

theorem send_wakeable {s : St} {cmd : QspiCommand} (hcmd : cmd.instruction = .POWER_DOWN → cmd.instructionMode = .four)
    (h : s.chip.Wakeable) : (send x s cmd).chip.Wakeable := by
  unfold send
  split
  · exact act_wakeable hcmd ‹_›
  · exact h

theorem SameChip.wakeable {s s' : St} (h : SameChip s s') (hw : s.chip.Wakeable) : s'.chip.Wakeable := by
  rw [h.chip]
  exact hw

theorem Reached.wakeable {s t s' : St} {r : HalStatus} (h : Reached s t r s') (hw : s.chip.Wakeable)
    (ht : t.chip.Wakeable) :
    s'.chip.Wakeable :=
  h.elim (fun h => h.wakeable ht) fun h => h.2.wakeable hw

theorem step_wakeable (s : St) (c : Call) (r : c.Resp) (s' : St) (hc : Sends c) (hw : s.chip.Wakeable)
    (hs : (faulty x).step s c r s') : s'.chip.Wakeable := by
  cases c with
  | halCommand cmd t => exact Reached.wakeable hs hw (send_wakeable hc hw)
  | halAutoPollingIT cmd cfg => exact Reached.wakeable hs hw (send_wakeable hc hw)
  | halTransmit b t => exact Reached.wakeable hs hw (sendByte_wakeable hw)
  | halTransmitDMA p => exact Reached.wakeable hs hw hw
  | _ => exact SameChip.wakeable hs hw

/-- From power-up, the chip asleep is in quad mode. -/
theorem wakeable_reach {tbl : List QspiManuf} {q : Qspi} {s : St}
    (h : Reach (faulty x) (exec tbl) BusOp (fun q s => Fresh q ∧ s.chip = x.powerUp) q s) : s.chip.Wakeable := by
  refine reach_inv (I := fun _ s => s.chip.Wakeable) ?_ ?_ h
  · intro q s h hp
    rw [h.2] at hp
    cases hp
  · intro o q s ho hw
    exact wp_inv (fun _ _ _ _ => trivial) step_wakeable (exec_sends tbl o ho q) hw

/-! ## A run that puts the chip to sleep -/

theorem taken_same (s : Modes.St) : SameChip s (taken x s).2 := by
  unfold taken
  split
  · exact ⟨rfl, rfl, rfl⟩
  · cases s.transfer with
    | none => exact ⟨rfl, rfl, rfl⟩
    | some t => cases t <;> exact ⟨rfl, rfl, rfl⟩

/-- On the worst bus every call may go well. -/
theorem answer_faulty (s : Modes.St) (c : Call) : (faulty x).step s c (answer x s c).1 (answer x s c).2 := by
  cases c with
  | timedWait t => exact taken_same s
  | halCommand | halAutoPollingIT | halTransmit | halTransmitDMA => exact Or.inl ⟨rfl, rfl, rfl⟩
  | _ => exact ⟨rfl, rfl, rfl⟩

/-- One operation on the bus where every call goes well. -/
def afterWell (x : Chip) (o : Op) (y : Qspi × Modes.St) : Qspi × Modes.St :=
  (((exec qspiManufacturers o y.1).run (answer x) y.2).1.2, ((exec qspiManufacturers o y.1).run (answer x) y.2).2)

theorem afterWell_reach {o : Op} (ho : BusOp o) {y : Qspi × Modes.St}
    (h : Reach (faulty x) (exec qspiManufacturers) BusOp (fun q s => Fresh q ∧ s.chip = x.powerUp) y.1 y.2) :
    Reach (faulty x) (exec qspiManufacturers) BusOp (fun q s => Fresh q ∧ s.chip = x.powerUp)
      (afterWell x o y).1 (afterWell x o y).2 := by
  have hrun := (runs_run (E := faulty x) (I := fun _ => True) (f := answer x) (fun s c _ => answer_faulty s c)
    (fun _ _ _ => trivial) (exec qspiManufacturers o y.1) (s := y.2) trivial).1
  exact .op h ho hrun

/-- A W25Q128JV identified and then put to sleep. -/
def jvAsleep : Qspi × St := afterWell jvChip (.sleep true) (afterWell jvChip .initializeQspi (freshDriver, jvStart))

theorem jvAsleep_reach : Reach (faulty jvChip) (exec qspiManufacturers) BusOp
    (fun q s => Fresh q ∧ s.chip = jvChip.powerUp) jvAsleep.1 jvAsleep.2 :=
  afterWell_reach (o := .sleep true) trivial
    (afterWell_reach (o := .initializeQspi) trivial (y := (freshDriver, jvStart)) (.init ⟨fresh_driver, rfl⟩))

theorem jvAsleep_sleeps : jvAsleep.2.chip.powerDown = true := by decide +kernel

/-! ## `initialize` after it -/

/-- After any run from power-up that leaves no token, `initialize` on a bus without failures
    returns, and returns `ok`: the chip is awake in quad mode, the driver has its descriptor,
    and the next read returns the flash's bytes. -/
theorem initialize_resyncs {q : Qspi} {s : St} (ht : s.token = false)
    (h : Reach (faulty x) (exec qspiManufacturers) BusOp (fun q s => Fresh q ∧ s.chip = x.powerUp) q s) :
    (∃ y s', Runs (bus x False) (initializeQspi qspiManufacturers q) s y s') ∧
    ∀ y s', Runs (bus x False) (initializeQspi qspiManufacturers q) s y s' → y.1 = .ok ∧ InSync x y.2 s' ∧
      ∀ a p n, (∃ r s'', Runs (bus x False) (Driver.read y.2 a p n) s' r s'') ∧
        ∀ r s'', Runs (bus x False) (Driver.read y.2 a p n) s' r s'' →
          r = .ok ∧ ∀ i, i < n → s''.mem p.region (p.off + i) = s.flash (a + i) := by
  have hinit := @initialize_spec x False s ht (wakeable_reach h) q
  refine ⟨?_, ?_⟩
  · obtain ⟨y, s', hrun, -⟩ := exists_run (bus_total x False) hinit
    exact ⟨y, s', hrun⟩
  · intro y s' hrun
    have hpost := wp_runs hinit hrun
    have hok : y.1 = .ok := by
      by_contra hr
      exact hpost.failed hr
    have hsync := hpost.inSync hok
    refine ⟨hok, hsync, ?_⟩
    intro a p n
    have hread := @read_spec x False y.2 s' (hpost.kept.token.trans ht) hsync a p n
    refine ⟨?_, ?_⟩
    · obtain ⟨r, s'', hrun, -⟩ := exists_run (bus_total x False) hread
      exact ⟨r, s'', hrun⟩
    · intro r s'' hrun
      obtain ⟨hfail, hbytes⟩ := wp_runs hread hrun
      have hr : r = .ok := by
        by_contra hr
        exact hfail hr
      rw [← hpost.kept.flash]
      exact ⟨hr, hbytes hr⟩

/-- A W25Q128JV that was identified and put to sleep. -/
theorem initialize_resyncs_jv : jvAsleep.2.chip.powerDown = true ∧
    ∃ y s', Runs (bus jvChip False) (initializeQspi qspiManufacturers jvAsleep.1) jvAsleep.2 y s' ∧
      y.1 = .ok ∧ InSync jvChip y.2 s' := by
  have htoken : jvAsleep.2.token = false := by decide +kernel
  obtain ⟨⟨y, s', hrun⟩, hall⟩ := initialize_resyncs htoken jvAsleep_reach
  obtain ⟨hok, hsync, -⟩ := hall y s' hrun
  exact ⟨jvAsleep_sleeps, y, s', hrun, hok, hsync⟩

end QspiFlash.Bus.Resync
