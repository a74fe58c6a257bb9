/-
  QspiFlash.Bus.Modes — the chip's modes, and a bus on which it hears a command only in its mode.

  The chip is in SPI or quad mode, awake or in deep power-down. It hears a command only if
  the instruction comes on the lines of its mode, in power-down only RELEASE_POWER_DOWN, and
  ignores every other. RESET_ENABLE then RESET_DEVICE brings back the power-up settings. The
  vendors switch to quad mode as their chips are documented: a Winbond chip on
  ENTER_QUAD_MODE, once its quad enable bit is set; a Micron chip on the write of its
  enhanced volatile register. An identification it did not hear returns bytes that stand for
  no device.

  `bus x fails` is a bus with the chip `x`, on which a call may fail, without effect, only if
  `fails`. A transfer's event comes before its wait ends, or the wait fails and it never
  comes; a token left over is taken instead.

  - `readJedec_spec`, `enterQuad_spec`, `reset_spec`: the parts of `initialize`.
  - `initialize_spec`: it returns `ok` only in sync, and on a bus without failures always.
  - `read_spec`: in sync, a read that returns `ok` has the flash's bytes.
-/

import QspiFlash.Bus.Nor
import QspiFlash.Driver.Asks
import QspiFlash.Driver.Identify
import QspiFlash.Driver.Opened

namespace QspiFlash.Bus.Modes

open Interact Driver
open NorArray (Bytes)

/-! ## The chip -/

/-- A chip of the tables, with its power-up settings. -/
structure Chip where
  manuf : QspiManuf
  device : QspiDevice
  listed : manuf ∈ qspiManufacturers
  known : device ∈ manuf.known
  quadEnable : Bool
  dummyCycles : Nat

def Chip.id (x : Chip) : UInt8 × UInt8 × UInt8 :=
  (x.manuf.manufacturerID, (x.device.deviceID >>> 8).toUInt8, x.device.deviceID.toUInt8)

theorem Chip.id_named (x : Chip) : named qspiManufacturers x.id = some (x.manuf, x.device) :=
  named_known x.manuf x.listed x.device x.known

structure ChipSt where
  quad : Bool
  powerDown : Bool
  resetEnabled : Bool
  writeEnabled : Bool
  /-- Write enabled for the volatile status registers. -/
  volatileEnabled : Bool
  quadEnable : Bool
  /-- The cycles between the address and the data of a fast read. -/
  dummyCycles : Nat
  deriving DecidableEq, Repr

def Chip.powerUp (x : Chip) : ChipSt := ⟨false, false, false, false, false, x.quadEnable, x.dummyCycles⟩

def ChipSt.Hears (c : ChipSt) (cmd : QspiCommand) : Prop :=
  cmd.instructionMode = (if c.quad then .four else .one) ∧ (c.powerDown = true → cmd.instruction = .RELEASE_POWER_DOWN)

instance (c : ChipSt) (cmd : QspiCommand) : Decidable (c.Hears cmd) := by unfold ChipSt.Hears; infer_instance

/-- What an instruction heard does. -/
def Chip.act (x : Chip) (c : ChipSt) (i : Instruction) : ChipSt :=
  if i = .RESET_DEVICE ∧ c.resetEnabled = true then x.powerUp
  else
    let c := { c with resetEnabled := decide (i = .RESET_ENABLE) }
    match i with
    | .POWER_DOWN => { c with powerDown := true }
    | .RELEASE_POWER_DOWN => { c with powerDown := false }
    | .WRITE_ENABLE => { c with writeEnabled := true }
    | .VOLATILE_SR_WRITE_ENABLE => { c with volatileEnabled := decide (x.manuf.qspiFactory = some .winbond) }
    | .ENTER_QUAD_MODE =>
      if x.manuf.qspiFactory = some .winbond ∧ c.quadEnable = true then { c with quad := true } else c
    | .SECTOR_ERASE | .BLOCK_32K_ERASE | .BLOCK_64K_ERASE | .CHIP_ERASE => { c with writeEnabled := false }
    | _ => c

/-- What a data byte after the instruction `i` does. -/
def Chip.data (x : Chip) (c : ChipSt) (i : Instruction) (b : UInt8) : ChipSt :=
  match x.manuf.qspiFactory, i with
  | some .winbond, .WRITE_STATUS_REGISTER_2 =>
    if c.volatileEnabled = true ∨ c.writeEnabled = true then
      { c with quadEnable := decide (b &&& 2 ≠ 0), volatileEnabled := false, writeEnabled := false }
    else c
  | some .winbond, .SET_READ_PARAMETERS => { c with dummyCycles := 2 * (((b >>> 4) &&& 3).toNat + 1) }
  | some .micron, .WRITE_VOLATILE_STATUS_REGISTER =>
    if c.writeEnabled = true then
      { c with dummyCycles := if b >>> 4 = 0 ∨ b >>> 4 = 15 then x.dummyCycles else (b >>> 4).toNat, writeEnabled := false }
    else c
  | some .micron, .WRITE_ENH_VOLATILE_STATUS_REGISTER =>
    if c.writeEnabled = true then { c with quad := decide (b &&& 0x80 = 0), writeEnabled := false } else c
  | _, _ => c

/-- The cycles a command has between its address and its data. -/
def latency (cmd : QspiCommand) : Nat :=
  let bits := match cmd.alternateBytesSize with
    | .bits8 => 8
    | .bits16 => 16
    | .bits32 => 32
  let alternate := match cmd.alternateByteMode with
    | .none => 0
    | .one => bits
    | .two => bits / 2
    | .four => bits / 4
  alternate + cmd.dummyCycles

/-! ## The bus -/

inductive Transfer where
  | receiveIT
  | receive (p : Ptr)
  | other
  deriving DecidableEq, Repr

structure St where
  chip : ChipSt
  flash : Bytes
  mem : Region → Nat → UInt8
  idBuff : UInt8 × UInt8 × UInt8
  /-- The last command sent, and whether the chip heard it. -/
  cmd : QspiCommand
  heard : Bool
  token : Bool
  /-- The transfer started whose event has not come. -/
  transfer : Option Transfer

variable (x : Chip) (fails : Prop)

def send (s : St) (cmd : QspiCommand) : St :=
  if s.chip.Hears cmd then { s with chip := x.act s.chip cmd.instruction, cmd := cmd, heard := true }
  else { s with cmd := cmd, heard := false }

def sendByte (s : St) (b : UInt8) : St :=
  if s.heard = true ∧ s.chip.powerDown = false then { s with chip := x.data s.chip s.cmd.instruction b } else s

/-- The bytes of a transfer have come. -/
inductive Lands (s : St) : Transfer → St → Prop
  | identified {b : UInt8 × UInt8 × UInt8} :
      (if s.heard = true ∧ s.cmd.instruction = .JEDEC_ID then b = x.id else named qspiManufacturers b = none) →
      Lands s .receiveIT { s with transfer := none, idBuff := b }
  | received {p : Ptr} {bytes : Bytes} :
      (s.heard = true → s.cmd.instruction = .FAST_READ_QUAD_IN_OUT → latency s.cmd = s.chip.dummyCycles →
        ∀ i, i < s.cmd.nbData → bytes i = s.flash (s.cmd.address + i)) →
      Lands s (.receive p) { s with transfer := none, mem := Nor.fill s.mem p s.cmd.nbData bytes }
  | other : Lands s .other { s with transfer := none }

/-- A call that went well, with the state `t`, or failed without effect. -/
def Attempt (s t : St) (r : HalStatus) (s' : St) : Prop := (r = .ok ∧ s' = t) ∨ (fails ∧ r ≠ .ok ∧ s' = s)

def step (s : St) : (c : Call) → c.Resp → St → Prop
  | .halCommand cmd _, r, s' =>
    ∃ g, (IsErase cmd.instruction ∨ g = s.flash) ∧ Attempt fails s { send x s cmd with flash := g } r s'
  | .halAutoPollingIT cmd _, r, s' => Attempt fails s { send x s cmd with transfer := some .other } r s'
  | .halReceiveIT, r, s' => Attempt fails s { s with transfer := some .receiveIT } r s'
  | .halReceiveDMA p, r, s' => Attempt fails s { s with transfer := some (.receive p) } r s'
  | .halTransmitDMA _, r, s' => ∃ g, Attempt fails s
      { s with flash := g, transfer := some .other, chip := { s.chip with writeEnabled := false } } r s'
  | .halTransmit b _, r, s' => Attempt fails s (sendByte x s b) r s'
  | .timedWait _, r, s' =>
    (r = true ∧ s.token = true ∧ s' = { s with token := false }) ∨
    (r = true ∧ s.token = false ∧ ∃ t, s.transfer = some t ∧ Lands x s t s') ∨
    ((fails ∨ s.transfer = none) ∧ r = false ∧ s.token = false ∧ s' = { s with transfer := none })
  | .idBytes, b, s' => b = s.idBuff ∧ s' = s
  | .load p, b, s' => b = s.mem p.region p.off ∧ s' = s
  | _, _, s' => s' = s

def bus : Env Call Call.Resp St where
  guard _ _ := True
  step := step x fails

/-! ## Modes -/

def ChipSt.Spi (c : ChipSt) : Prop := c.quad = false ∧ c.powerDown = false

def ChipSt.Quad (c : ChipSt) : Prop := c.quad = true ∧ c.powerDown = false

instance (c : ChipSt) : Decidable c.Spi := by unfold ChipSt.Spi; infer_instance

/-- Asleep only in quad mode. -/
def ChipSt.Wakeable (c : ChipSt) : Prop := c.powerDown = true → c.quad = true

/-- The driver knows its chip, and the chip is awake in quad mode with the latency of a read. -/
structure InSync (q : Qspi) (s : St) : Prop where
  pdevice : q.pdevice = some x.device
  quad : s.chip.Quad
  latency : s.chip.dummyCycles = latency (fastRead x.device)

variable {x fails}

/-- Only POWER_DOWN puts the chip to sleep. -/
theorem act_awake {c : ChipSt} {i : Instruction} (hi : i ≠ .POWER_DOWN) (h : c.powerDown = false) :
    (x.act c i).powerDown = false := by
  unfold Chip.act
  split
  · rfl
  · cases i <;> simp_all
    split <;> simp_all

/-- Only a reset and ENTER_QUAD_MODE change the mode. -/
theorem act_quad {c : ChipSt} {i : Instruction} (hr : i ≠ .RESET_DEVICE) (he : i ≠ .ENTER_QUAD_MODE) :
    (x.act c i).quad = c.quad := by
  unfold Chip.act
  rw [if_neg fun h => hr h.1]
  cases i <;> simp_all

/-- With POWER_DOWN on four lines only, what the chip hears leaves it asleep only in quad mode. -/
theorem act_wakeable {c : ChipSt} {cmd : QspiCommand} (hpd : cmd.instruction = .POWER_DOWN → cmd.instructionMode = .four)
    (hc : c.Hears cmd) : (x.act c cmd.instruction).Wakeable := by
  by_cases hi : cmd.instruction = .POWER_DOWN
  · have hquad : c.quad = true := by
      have hmode := hc.1
      rw [hpd hi] at hmode
      by_contra hq
      simp [hq] at hmode
    intro _
    rw [act_quad (by rw [hi]; decide) (by rw [hi]; decide)]
    exact hquad
  · have hawake : (x.act c cmd.instruction).powerDown = false := by
      by_cases hpow : c.powerDown = true
      · rw [hc.2 hpow]
        rfl
      · exact act_awake hi (by simpa using hpow)
    intro hp
    rw [hawake] at hp
    cases hp

theorem data_awake (c : ChipSt) (i : Instruction) (b : UInt8) : (x.data c i b).powerDown = c.powerDown := by
  unfold Chip.data
  split <;> first | rfl | (split <;> rfl)

/-! ## Commands -/

@[simp] theorem send_token (s : St) (cmd : QspiCommand) : (send x s cmd).token = s.token := by unfold send; split <;> rfl
@[simp] theorem send_flash (s : St) (cmd : QspiCommand) : (send x s cmd).flash = s.flash := by unfold send; split <;> rfl

@[simp] theorem send_cmd (s : St) (cmd : QspiCommand) : (send x s cmd).cmd = cmd := by unfold send; split <;> rfl

theorem send_heard {s : St} {cmd : QspiCommand} (h : s.chip.Hears cmd) :
    send x s cmd = { s with chip := x.act s.chip cmd.instruction, cmd := cmd, heard := true } := if_pos h

theorem send_deaf {s : St} {cmd : QspiCommand} (h : ¬ s.chip.Hears cmd) :
    send x s cmd = { s with cmd := cmd, heard := false } :=
  if_neg h

theorem send_withFlash (s : St) (cmd : QspiCommand) : { send x s cmd with flash := s.flash } = send x s cmd := by
  unfold send
  split <;> rfl

/-- The program goes well, from `s` to `t`, or fails without effect. -/
def Does (x : Chip) (fails : Prop) (p : M QspiResult) (s t : St) : Prop :=
  wp (bus x fails) p (fun r s' => (r = .ok ∧ s' = t) ∨ (fails ∧ r ≠ .ok ∧ s' = s)) s

theorem Does.onOk {p k : M QspiResult} {s t : St} {Q : QspiResult → St → Prop} (h : Does x fails p s t)
    (hk : wp (bus x fails) k Q t) (hfail : fails → ∀ r, r ≠ .ok → Q r s) : wp (bus x fails) (onOk p k) Q s := by
  refine wp_onOk (wp_mono h ?_)
  intro r s' h
  rcases h with ⟨rfl, rfl⟩ | ⟨hf, hr, rfl⟩
  · exact ⟨fun _ => hk, fun h => absurd rfl h⟩
  · exact ⟨fun h => absurd h hr, fun _ => hfail hf r hr⟩

theorem Does.last {p : M QspiResult} {s t : St} {Q : QspiResult → St → Prop} (h : Does x fails p s t)
    (hok : Q .ok t) (hfail : fails → ∀ r, r ≠ .ok → Q r s) : wp (bus x fails) p Q s := by
  refine wp_mono h ?_
  intro r s' h
  rcases h with ⟨rfl, rfl⟩ | ⟨hf, hr, rfl⟩
  · exact hok
  · exact hfail hf r hr

/-- With no token left over, the wait for a transfer ends with its bytes or fails. -/
theorem wait_spec {s : St} {u : Transfer} (ht : s.token = false) (hu : s.transfer = some u) (lim : Timeout) :
    wp (bus x fails) (timedWait lim)
      (fun r s' => (r = .ok ∧ Lands x s u s') ∨ (fails ∧ r ≠ .ok ∧ s' = { s with transfer := none })) s := by
  refine wp_timedWait.mpr ⟨trivial, ?_⟩
  intro r s' hs
  rcases hs with ⟨-, htok, -⟩ | ⟨rfl, -, t, htr, hland⟩ | ⟨hf, rfl, -, rfl⟩
  · rw [ht] at htok
    cases htok
  · obtain rfl := Option.some.inj (hu.symm.trans htr)
    exact Or.inl ⟨rfl, hland⟩
  · refine Or.inr ⟨hf.resolve_right ?_, nofun, rfl⟩
    rw [hu]
    exact nofun

/-- A command, its retry included. -/
theorem command_does {s : St} {cmd : QspiCommand} {t : Timeout} (he : ¬ IsErase cmd.instruction) :
    Does x fails (qspiCommand cmd t) s (send x s cmd) := by
  have hstep : ∀ r s', (bus x fails).step s (.halCommand cmd t) r s' → Attempt fails s (send x s cmd) r s' := by
    intro r s' hs
    obtain ⟨g, hg, hs⟩ := hs
    rcases hg with h | rfl
    · exact absurd h he
    · rwa [send_withFlash] at hs
  apply wp_attempts (I := (· = s)) rfl
  · exact fun _ _ => trivial
  · intro s₁ s' he hs
    subst he
    rcases hstep _ _ hs with ⟨-, rfl⟩ | ⟨-, hr, -⟩
    · exact Or.inl ⟨rfl, rfl⟩
    · exact absurd rfl hr
  · intro s₁ r s' he hr hs
    subst he
    rcases hstep _ _ hs with ⟨h, -⟩ | ⟨hf, -, rfl⟩
    · exact absurd h hr
    · exact ⟨Or.inr ⟨hf, fun h => hr (ofHal_eq_ok.mp h), rfl⟩, trivial, fun _ ha => ha⟩

theorem transmit_does {s : St} {b : UInt8} {t : Timeout} : Does x fails (halTransmit b t) s (sendByte x s b) := by
  refine wp_halTransmit.mpr ⟨trivial, ?_⟩
  intro r s' hs
  rcases hs with ⟨rfl, rfl⟩ | ⟨hf, hr, rfl⟩
  · exact Or.inl ⟨rfl, rfl⟩
  · exact Or.inr ⟨hf, fun h => hr (ofHal_eq_ok.mp h), rfl⟩

theorem send_awake {s : St} {cmd : QspiCommand} (hi : cmd.instruction ≠ .POWER_DOWN) (h : s.chip.powerDown = false) :
    (send x s cmd).chip.powerDown = false := by
  unfold send
  split
  · exact act_awake hi h
  · exact h

/-- The chip hears a command on four lines when it is awake in quad mode, one on one line
    when it is awake in SPI mode. -/
theorem quad_hears {c : ChipSt} {cmd : QspiCommand} (h : c.Quad) (hmode : cmd.instructionMode = .four) : c.Hears cmd :=
  ⟨by rw [hmode, h.1]; rfl, fun hp => by rw [h.2] at hp; cases hp⟩

theorem spi_hears {c : ChipSt} {cmd : QspiCommand} (h : c.Spi) (hmode : cmd.instructionMode = .one) : c.Hears cmd :=
  ⟨by rw [hmode, h.1]; rfl, fun hp => by rw [h.2] at hp; cases hp⟩

theorem spi_of_hears {c : ChipSt} {cmd : QspiCommand} (h : c.Hears cmd) (hmode : cmd.instructionMode = .one)
    (hi : cmd.instruction ≠ .RELEASE_POWER_DOWN) : c.Spi := by
  have hquad := h.1
  rw [hmode] at hquad
  refine ⟨?_, ?_⟩
  · by_contra hq
    simp [hq] at hquad
  · by_contra hp
    exact hi (h.2 (by simpa using hp))

/-! ## The parts of `initialize` -/

/-- No token came or went, and the flash is as it was. -/
structure Kept (s s' : St) : Prop where
  token : s'.token = s.token
  flash : s'.flash = s.flash

theorem Kept.refl (s : St) : Kept s s := ⟨rfl, rfl⟩

theorem Kept.trans {s s₁ s₂ : St} (h : Kept s s₁) (h' : Kept s₁ s₂) : Kept s s₂ :=
  ⟨h'.token.trans h.token, h'.flash.trans h.flash⟩

theorem send_kept (s : St) (cmd : QspiCommand) : Kept s (send x s cmd) := ⟨send_token s cmd, send_flash s cmd⟩

/-- The mode is as it was. -/
structure SameMode (c c' : ChipSt) : Prop where
  quad : c'.quad = c.quad
  powerDown : c'.powerDown = c.powerDown

theorem SameMode.spi {c c' : ChipSt} (h : SameMode c c') : c'.Spi ↔ c.Spi := by
  unfold ChipSt.Spi
  rw [h.quad, h.powerDown]

/-- The transfer of an identification. -/
def jedecId : QspiCommand := { instruction := .JEDEC_ID, instructionMode := .one, dataMode := .one, nbData := 3 }

theorem jedecId_sent (s : St) :
    SameMode s.chip (send x s jedecId).chip ∧ ((send x s jedecId).heard = true ↔ s.chip.Spi) := by
  by_cases h : s.chip.Hears jedecId
  · rw [send_heard h]
    exact ⟨⟨rfl, rfl⟩, fun _ => spi_of_hears h rfl (by decide), fun _ => rfl⟩
  · rw [send_deaf h]
    exact ⟨⟨rfl, rfl⟩, nofun, fun hspi => absurd (spi_hears hspi rfl) h⟩

/-- The bytes are the chip's own if it heard the command, and else stand for no device. -/
theorem idBytes_spec {s : St} (ht : s.token = false) :
    wp (bus x fails) (onOk (qspiCommand jedecId .TIMEOUT) <| onOk halReceiveIT <| timedWait .TIMEOUT)
      (fun r s' => Kept s s' ∧ SameMode s.chip s'.chip ∧ (r ≠ .ok → fails) ∧
        (r = .ok → if s.chip.Spi then s'.idBuff = x.id else named qspiManufacturers s'.idBuff = none)) s := by
  obtain ⟨hmode, hheard⟩ := jedecId_sent (x := x) s
  have hkept := send_kept (x := x) s jedecId
  refine (command_does id).onOk ?_ fun hf r hr => ⟨.refl s, ⟨rfl, rfl⟩, fun _ => hf, fun h => absurd h hr⟩
  refine wp_onOk (wp_halReceiveIT.mpr ⟨trivial, ?_⟩)
  intro r s₁ hs
  rcases hs with ⟨rfl, rfl⟩ | ⟨hf, hr, rfl⟩
  · refine ⟨fun _ => wp_mono (wait_spec ?_ rfl .TIMEOUT) ?_, fun h => absurd rfl h⟩
    · exact hkept.token.trans ht
    intro r s₂ h
    rcases h with ⟨rfl, hland⟩ | ⟨hf, hr, rfl⟩
    · cases hland with
      | identified hb =>
        refine ⟨⟨hkept.token, hkept.flash⟩, hmode, fun h => absurd rfl h, fun _ => ?_⟩
        by_cases hspi : s.chip.Spi
        · rw [if_pos ⟨hheard.mpr hspi, by rw [send_cmd]; rfl⟩] at hb
          rw [if_pos hspi]
          exact hb
        · rw [if_neg fun h => hspi (hheard.mp h.1)] at hb
          rw [if_neg hspi]
          exact hb
    · exact ⟨⟨hkept.token, hkept.flash⟩, hmode, fun _ => hf, fun h => absurd h hr⟩
  · exact ⟨fun h => absurd (ofHal_eq_ok.mp h) hr, fun h => ⟨hkept, hmode, fun _ => hf, fun h' => absurd h' h⟩⟩

theorem quiet_looks : ∀ c, Looks c → Quiet (bus x fails) c := by
  intro c hc s
  cases c <;> first | exact absurd hc id | exact ⟨trivial, fun _ _ h => h⟩

/-- Identification succeeds only with a chip awake in SPI mode, and finds its descriptor. -/
theorem readJedecId_spec {s : St} (ht : s.token = false) (q : Qspi) :
    wp (bus x fails) (readJedecId qspiManufacturers q) (fun y s' => Kept s s' ∧ SameMode s.chip s'.chip ∧
      (y.1 = .ok → s.chip.Spi ∧ y.2 = (q.withId x.id).identified x.manuf x.device) ∧
      (y.1 ≠ .ok → (s.chip.Spi → fails) ∧ y.2.isOpened = q.isOpened)) s := by
  refine wp_seq (idBytes_spec ht) ?_
  intro r s₁ h
  obtain ⟨hkept, hmode, hfail, hbuff⟩ := h
  refine wp_ite (fun hr => ?_) fun hr => ⟨hkept, hmode, fun h => absurd h hr, fun _ => ⟨fun _ => hfail hr, rfl⟩⟩
  refine wp_mono (identify_spec quiet_looks qspiManufacturers q (P := fun b s' => b = s₁.idBuff ∧ s' = s₁)
    (trivial) fun _ _ h => h) ?_
  intro y s₂ h
  obtain ⟨b, ⟨rfl, rfl⟩, rfl⟩ := h
  have hb := hbuff hr
  refine ⟨hkept, hmode, ?_⟩
  by_cases hspi : s.chip.Spi
  · rw [if_pos hspi] at hb
    rw [hb, x.id_named]
    exact ⟨fun _ => ⟨hspi, rfl⟩, fun h => absurd rfl h⟩
  · rw [if_neg hspi] at hb
    rw [hb]
    exact ⟨nofun, fun _ => ⟨fun h => absurd h hspi, rfl⟩⟩

/-! ## Switching to quad mode -/

/-- After an attempt to switch, from `s`. -/
structure Switched (x : Chip) (fails : Prop) (s : St) (r : QspiResult) (s' : St) : Prop where
  kept : Kept s s'
  awake : s'.chip.powerDown = false
  failed : r ≠ .ok → fails
  quad : r = .ok → s'.chip.quad = true
  latency : r = .ok → s'.chip.dummyCycles = latency (fastRead x.device)

theorem switch_failed {s s' : St} {r : QspiResult} (hk : Kept s s') (h : s'.chip.powerDown = false) (hf : fails)
    (hr : r ≠ .ok) :
    Switched x fails s r s' :=
  ⟨hk, h, fun _ => hf, fun h => absurd h hr, fun h => absurd h hr⟩

/-- The dummy cycles both vendors set are those a read has. -/
theorem winbond_latency : ∀ m ∈ qspiManufacturers, m.qspiFactory = some .winbond → ∀ d ∈ m.known,
    2 * (((QspiWinbond.readParameters d.dummyCycles >>> 4) &&& 3).toNat + 1) = latency (fastRead d) := by
  decide

theorem micron_latency : ∀ m ∈ qspiManufacturers, m.qspiFactory = some .micron → ∀ d ∈ m.known,
    ¬ (QspiMicron.volatileConfiguration d.dummyCycles >>> 4 = 0 ∨ QspiMicron.volatileConfiguration d.dummyCycles >>> 4 = 15) ∧
      (QspiMicron.volatileConfiguration d.dummyCycles >>> 4).toNat = latency (fastRead d) := by
  decide

theorem manuf_factory :
    ∀ m ∈ qspiManufacturers, ∀ d ∈ m.known, m.qspiFactory = some .winbond ∨ m.qspiFactory = some .micron := by
  decide

/-- A command a chip in SPI mode hears on one line, that neither resets it nor puts it to sleep. -/
theorem spi_send {s : St} {cmd : QspiCommand} (h : s.chip.Spi) (hmode : cmd.instructionMode = .one) :
    send x s cmd = { s with chip := x.act s.chip cmd.instruction, cmd := cmd, heard := true } :=
  send_heard (spi_hears h hmode)

theorem byte_heard {s : St} {b : UInt8} (hheard : s.heard = true) (h : s.chip.powerDown = false) :
    sendByte x s b = { s with chip := x.data s.chip s.cmd.instruction b } := if_pos ⟨hheard, h⟩

/-! ### What the vendors' commands do -/

section Vendors

variable {c : ChipSt} {b : UInt8}

theorem data_status2 (hv : x.manuf.qspiFactory = some .winbond) (h : c.volatileEnabled = true) :
    x.data c .WRITE_STATUS_REGISTER_2 2 =
      { c with quadEnable := true, volatileEnabled := false, writeEnabled := false } := by
  simp [Chip.data, hv, h]

theorem act_enterQuad (hv : x.manuf.qspiFactory = some .winbond) (h : c.quadEnable = true) :
    x.act c .ENTER_QUAD_MODE = { c with resetEnabled := false, quad := true } := by
  simp [Chip.act, hv, h]

theorem data_readParameters (hv : x.manuf.qspiFactory = some .winbond) :
    x.data c .SET_READ_PARAMETERS b = { c with dummyCycles := 2 * (((b >>> 4) &&& 3).toNat + 1) } := by
  simp [Chip.data, hv]

theorem data_volatile (hv : x.manuf.qspiFactory = some .micron) (h : c.writeEnabled = true)
    (hb : ¬ (b >>> 4 = 0 ∨ b >>> 4 = 15)) : x.data c .WRITE_VOLATILE_STATUS_REGISTER b =
      { c with dummyCycles := (b >>> 4).toNat, writeEnabled := false } := by
  simp [Chip.data, hv, h, hb]

theorem data_enhanced (hv : x.manuf.qspiFactory = some .micron) (h : c.writeEnabled = true) :
    x.data c .WRITE_ENH_VOLATILE_STATUS_REGISTER 0x6F = { c with quad := true, writeEnabled := false } := by
  have hbit : (0x6F : UInt8) &&& 0x80 = 0 := by decide
  simp [Chip.data, hv, h, hbit]

end Vendors

theorem dummyCyclesOf_eq {q : Qspi} {d : QspiDevice} (h : q.pdevice = some d) : dummyCyclesOf q = pure d.dummyCycles := by
  unfold dummyCyclesOf
  rw [h]

theorem winbond_spec {q : Qspi} {s : St} (hv : x.manuf.qspiFactory = some .winbond) (hd : q.pdevice = some x.device)
    (h : s.chip.Spi) : wp (bus x fails) (QspiWinbond.enterQuadMode q) (Switched x fails s) s := by
  obtain ⟨⟨quad, powerDown, resetEnabled, writeEnabled, volatileEnabled, quadEnable, dummyCycles⟩, flash, mem, idBuff, cmd,
    heard, token, transfer⟩ := s
  obtain ⟨rfl, rfl⟩ := h
  unfold QspiWinbond.enterQuadMode
  refine (command_does id).onOk ?_ fun hf r hr => switch_failed ⟨rfl, rfl⟩ rfl hf hr
  rw [spi_send ⟨rfl, rfl⟩ rfl]
  refine (command_does id).onOk ?_ fun hf r hr => switch_failed ⟨rfl, rfl⟩ rfl hf hr
  rw [spi_send ⟨rfl, rfl⟩ rfl]
  refine transmit_does.onOk ?_ fun hf r hr => switch_failed ⟨rfl, rfl⟩ rfl hf hr
  rw [byte_heard rfl rfl, data_status2 hv (decide_eq_true hv)]
  refine (command_does id).onOk ?_ fun hf r hr => switch_failed ⟨rfl, rfl⟩ rfl hf hr
  rw [spi_send ⟨rfl, rfl⟩ rfl, act_enterQuad hv rfl]
  refine (command_does id).onOk ?_ fun hf r hr => switch_failed ⟨rfl, rfl⟩ rfl hf hr
  rw [send_heard (quad_hears ⟨rfl, rfl⟩ rfl), dummyCyclesOf_eq hd, pure_bind]
  refine transmit_does.last ?_ fun hf r hr => switch_failed ⟨rfl, rfl⟩ rfl hf hr
  rw [byte_heard rfl rfl, data_readParameters hv]
  exact ⟨⟨rfl, rfl⟩, rfl, fun h => absurd rfl h, fun _ => rfl, fun _ => winbond_latency _ x.listed hv _ x.known⟩

theorem micron_spec {q : Qspi} {s : St} (hv : x.manuf.qspiFactory = some .micron) (hd : q.pdevice = some x.device)
    (h : s.chip.Spi) : wp (bus x fails) (QspiMicron.enterQuadMode q) (Switched x fails s) s := by
  obtain ⟨⟨quad, powerDown, resetEnabled, writeEnabled, volatileEnabled, quadEnable, dummyCycles⟩, flash, mem, idBuff, cmd,
    heard, token, transfer⟩ := s
  obtain ⟨rfl, rfl⟩ := h
  obtain ⟨hnibble, hlatency⟩ := micron_latency _ x.listed hv _ x.known
  unfold QspiMicron.enterQuadMode
  refine (command_does id).onOk ?_ fun hf r hr => switch_failed ⟨rfl, rfl⟩ rfl hf hr
  rw [spi_send ⟨rfl, rfl⟩ rfl]
  refine (command_does id).onOk ?_ fun hf r hr => switch_failed ⟨rfl, rfl⟩ rfl hf hr
  rw [spi_send ⟨rfl, rfl⟩ rfl, dummyCyclesOf_eq hd, pure_bind]
  refine transmit_does.onOk ?_ fun hf r hr => switch_failed ⟨rfl, rfl⟩ rfl hf hr
  rw [byte_heard rfl rfl, data_volatile hv rfl hnibble]
  refine (command_does id).onOk ?_ fun hf r hr => switch_failed ⟨rfl, rfl⟩ rfl hf hr
  rw [spi_send ⟨rfl, rfl⟩ rfl]
  refine (command_does id).onOk ?_ fun hf r hr => switch_failed ⟨rfl, rfl⟩ rfl hf hr
  rw [spi_send ⟨rfl, rfl⟩ rfl]
  refine transmit_does.onOk ?_ fun hf r hr => switch_failed ⟨rfl, rfl⟩ rfl hf hr
  rw [byte_heard rfl rfl, data_enhanced hv rfl]
  -- the chip is in quad mode already and ignores the last command, on one line
  refine (command_does id).last ?_ fun hf r hr => switch_failed ⟨rfl, rfl⟩ rfl hf hr
  rw [send_deaf fun h => Lines.noConfusion (show Lines.one = .four from h.1)]
  exact ⟨⟨rfl, rfl⟩, rfl, fun h => absurd rfl h, fun _ => rfl, fun _ => hlatency⟩

theorem enterQuadMode_spec {q : Qspi} {s : St} (hi : q.pimpl = x.manuf.qspiFactory) (hd : q.pdevice = some x.device)
    (h : s.chip.Spi) : wp (bus x fails) (enterQuadMode q) (Switched x fails s) s := by
  unfold enterQuadMode
  rcases manuf_factory _ x.listed _ x.known with hv | hv
  · rw [hi, hv]
    exact winbond_spec hv hd h
  · rw [hi, hv]
    exact micron_spec hv hd h

/-! ## A bus without failures -/

variable (x fails)

/-- The bytes of transfer `t`, as a bus without failures brings them. -/
def land (s : St) : Transfer → St
  | .receiveIT =>
    { s with transfer := none, idBuff := if s.heard = true ∧ s.cmd.instruction = .JEDEC_ID then x.id else (0, 0, 0) }
  | .receive p => { s with transfer := none, mem := Nor.fill s.mem p s.cmd.nbData fun i => s.flash (s.cmd.address + i) }
  | .other => { s with transfer := none }

/-- A wait there. -/
def taken (s : St) : Bool × St :=
  if s.token = true then (true, { s with token := false })
  else s.transfer.elim (false, { s with transfer := none }) fun t => (true, land x s t)

/-- A bus on which every call goes well. -/
def answer (s : St) : (c : Call) → c.Resp × St
  | .halCommand cmd _ => (.ok, send x s cmd)
  | .halAutoPollingIT cmd _ => (.ok, { send x s cmd with transfer := some .other })
  | .halReceiveIT => (.ok, { s with transfer := some .receiveIT })
  | .halReceiveDMA p => (.ok, { s with transfer := some (.receive p) })
  | .halTransmitDMA _ => (.ok, { s with transfer := some .other, chip := { s.chip with writeEnabled := false } })
  | .halTransmit b _ => (.ok, sendByte x s b)
  | .timedWait _ => taken x s
  | .idBytes => (s.idBuff, s)
  | .load p => (s.mem p.region p.off, s)
  | .halMemoryMapped .. | .halAbort => (.ok, s)
  | .dcacheEnabled => (false, s)
  | .nullDeref => (0, s)
  | .crAbort | .cleanInvalidateDCache .. | .cleanDCache .. | .qspiFactory _ | .setErrno _ => ((), s)
  | .wrapped | .overrun | .dropped .. => ((), s)

theorem land_lands (s : St) (t : Transfer) : Lands x s t (land x s t) := by
  cases t with
  | receiveIT =>
    refine .identified ?_
    by_cases h : s.heard = true ∧ s.cmd.instruction = .JEDEC_ID
    · rw [if_pos h, if_pos h]
    · rw [if_neg h, if_neg h]
      decide
  | receive p => exact .received fun _ _ _ _ _ => rfl
  | other => exact .other

theorem answer_steps (s : St) (c : Call) : (bus x fails).step s c (answer x s c).1 (answer x s c).2 := by
  cases c with
  | timedWait t =>
    show (bus x fails).step s (.timedWait t) (taken x s).1 (taken x s).2
    unfold taken
    by_cases htok : s.token = true
    · rw [if_pos htok]
      exact Or.inl ⟨rfl, htok, rfl⟩
    rw [if_neg htok]
    cases htr : s.transfer with
    | none => exact Or.inr (Or.inr ⟨Or.inr htr, rfl, by simpa using htok, rfl⟩)
    | some u => exact Or.inr (Or.inl ⟨rfl, by simpa using htok, u, htr, land_lands x s u⟩)
  | halCommand cmd t => exact ⟨s.flash, Or.inr rfl, Or.inl ⟨rfl, (send_withFlash s cmd).symm⟩⟩
  | halTransmitDMA p => exact ⟨s.flash, Or.inl ⟨rfl, rfl⟩⟩
  | halAutoPollingIT cmd cfg => exact Or.inl ⟨rfl, rfl⟩
  | halReceiveIT => exact Or.inl ⟨rfl, rfl⟩
  | halReceiveDMA p => exact Or.inl ⟨rfl, rfl⟩
  | halTransmit b t => exact Or.inl ⟨rfl, rfl⟩
  | idBytes => exact ⟨rfl, rfl⟩
  | load p => exact ⟨rfl, rfl⟩
  | _ => rfl

/-- Every question has an answer. -/
theorem bus_total : (bus x fails).Total := fun s c _ => ⟨_, _, answer_steps x fails s c⟩

variable {x fails}

/-! ## Waking and resetting -/

/-- The mode's lines and the latency are as they were, and a chip awake stays awake. -/
structure Steady (s s' : St) : Prop where
  kept : Kept s s'
  quad : s'.chip.quad = s.chip.quad
  dummyCycles : s'.chip.dummyCycles = s.chip.dummyCycles
  awake : s.chip.powerDown = false → s'.chip.powerDown = false

theorem Steady.refl (s : St) : Steady s s := ⟨.refl s, rfl, rfl, id⟩

theorem Steady.trans {s s₁ s₂ : St} (h : Steady s s₁) (h' : Steady s₁ s₂) : Steady s s₂ :=
  ⟨h.kept.trans h'.kept, h'.quad.trans h.quad, h'.dummyCycles.trans h.dummyCycles, fun hp => h'.awake (h.awake hp)⟩

theorem Steady.isQuad {s s' : St} (h : Steady s s') (hq : s.chip.Quad) : s'.chip.Quad := ⟨h.quad.trans hq.1, h.awake hq.2⟩

/-- An instruction of the data path, or one that wakes the chip or enables its reset. -/
def Mild : Instruction → Prop
  | .RESET_DEVICE | .POWER_DOWN | .ENTER_QUAD_MODE => False
  | _ => True

instance (i : Instruction) : Decidable (Mild i) := by
  unfold Mild
  split <;> infer_instance

theorem act_mild {c : ChipSt} {i : Instruction} (h : Mild i) :
    (x.act c i).quad = c.quad ∧ (x.act c i).dummyCycles = c.dummyCycles ∧
      (c.powerDown = false → (x.act c i).powerDown = false) := by
  cases i <;> first | exact absurd h id | exact ⟨rfl, rfl, id⟩ | exact ⟨rfl, rfl, fun _ => rfl⟩

theorem send_steady (s : St) {cmd : QspiCommand} (h : Mild cmd.instruction) : Steady s (send x s cmd) := by
  refine ⟨send_kept s cmd, ?_, ?_, ?_⟩ <;> unfold send <;> split
  · exact (act_mild h).1
  · rfl
  · exact (act_mild h).2.1
  · rfl
  · exact (act_mild h).2.2
  · exact id

theorem wake_spec (s : St) : wp (bus x fails) (sleep false)
    (fun _ s' => Steady s s' ∧ (s.chip.quad = true → fails ∨ s'.chip.powerDown = false)) s := by
  refine (command_does id).last ⟨send_steady s trivial, fun hq => Or.inr ?_⟩ fun hf _ _ => ⟨.refl s, fun _ => Or.inl hf⟩
  rw [send_heard ⟨by rw [hq]; rfl, fun _ => rfl⟩]
  rfl

theorem resetChip_spec (s : St) : wp (bus x fails) resetChip
    (fun r s' => (r = .ok → Kept s s' ∧ (s.chip.powerDown = false → s'.chip.powerDown = false) ∧
      (s.chip.Quad → s'.chip = x.powerUp)) ∧ (r ≠ .ok → fails ∧ Steady s s')) s := by
  have hsteady : Steady s (send x s { instruction := .RESET_ENABLE, instructionMode := .four }) := send_steady s trivial
  refine (command_does id).onOk ((command_does id).last ⟨fun _ => ?_, fun h => absurd rfl h⟩ ?_) ?_
  · refine ⟨hsteady.kept.trans (send_kept _ _), fun hp => send_awake (by decide) (hsteady.awake hp), fun hq => ?_⟩
    rw [send_heard (quad_hears (hsteady.isQuad hq) rfl), send_heard (quad_hears hq rfl)]
    rfl
  · exact fun hf r hr => ⟨fun h => absurd h hr, fun _ => ⟨hf, hsteady⟩⟩
  · exact fun hf r hr => ⟨fun h => absurd h hr, fun _ => ⟨hf, .refl s⟩⟩

/-! ## `initialize` and `read` -/

/-- `initialize` returns `ok` only in sync, and on a bus without failures it does. -/
structure InitPost (x : Chip) (fails : Prop) (q : Qspi) (s : St) (y : QspiResult × Qspi) (s' : St) : Prop where
  kept : Kept s s'
  awake : s.chip.powerDown = false → s'.chip.powerDown = false
  failed : y.1 ≠ .ok → fails
  inSync : y.1 = .ok → InSync x y.2 s'
  isOpened : y.2.isOpened = q.isOpened

/-- The last step: to quad mode, if the chip was identified. -/
theorem finish_spec {q : Qspi} {s s₁ : St} {y : QspiResult × Qspi} (hkept : Kept s s₁)
    (hawake : s.chip.powerDown = false → s₁.chip.powerDown = false) (hfail : y.1 ≠ .ok → fails)
    (hok : y.1 = .ok → s₁.chip.Spi ∧ y.2.pdevice = some x.device ∧ y.2.pimpl = x.manuf.qspiFactory)
    (hopen : y.2.isOpened = q.isOpened) :
    wp (bus x fails) (if y.1 = .ok then do let result ← enterQuadMode y.2; pure (result, y.2) else pure y)
      (InitPost x fails q s) s₁ := by
  refine wp_ite (fun hr => ?_) fun hr => ⟨hkept, hawake, hfail, fun h => absurd h hr, hopen⟩
  obtain ⟨hspi, hd, hi⟩ := hok hr
  refine wp_seq (enterQuadMode_spec hi hd hspi) ?_
  intro r s₂ h
  exact ⟨hkept.trans h.kept, fun _ => h.awake, h.failed, fun hr => ⟨hd, ⟨h.quad hr, h.awake⟩, h.latency hr⟩, hopen⟩

theorem initialize_spec {s : St} (ht : s.token = false) (hw : s.chip.Wakeable) (q : Qspi) :
    wp (bus x fails) (initializeQspi qspiManufacturers q) (InitPost x fails q s) s := by
  unfold initializeQspi
  refine wp_seq (readJedecId_spec ht q) ?_
  intro y s₁ h
  obtain ⟨hkept₁, hmode₁, hok, hbad⟩ := h
  have hawake₁ : s.chip.powerDown = false → s₁.chip.powerDown = false := fun hp => hmode₁.powerDown.trans hp
  refine wp_ite (fun hr => ?_) fun hr => ?_
  · obtain ⟨hnospi, hopen⟩ := hbad hr
    refine wp_seq (wake_spec s₁) ?_
    intro _ s₂ h
    obtain ⟨hsteady, hwake⟩ := h
    refine wp_seq (resetChip_spec s₂) ?_
    intro r s₃ h
    obtain ⟨hreset, hfail⟩ := h
    refine wp_ite (fun hr => ?_) fun hr => ?_
    · obtain ⟨hkept₃, hawake₃, hup⟩ := hreset hr
      have hkept : Kept s s₃ := (hkept₁.trans hsteady.kept).trans hkept₃
      -- without a failure the chip was in quad mode, so it woke and was reset
      have hspi : s₃.chip.Spi ∨ fails := by
        by_cases hquad : s.chip.quad = true
        · have hquad₁ : s₁.chip.quad = true := hmode₁.quad.trans hquad
          rcases hwake hquad₁ with hf | hp
          · exact Or.inr hf
          · rw [hup ⟨hsteady.quad.trans hquad₁, hp⟩]
            exact Or.inl ⟨rfl, rfl⟩
        · refine Or.inr (hnospi ⟨by simpa using hquad, ?_⟩)
          by_contra hp
          exact hquad (hw (by simpa using hp))
      refine wp_seq (readJedecId_spec (hkept.token.trans ht) y.2) ?_
      intro y' s₄ h
      obtain ⟨hkept₄, hmode₄, hok', hbad'⟩ := h
      refine finish_spec (hkept.trans hkept₄) ?_ ?_ ?_ ?_
      · exact fun hp => hmode₄.powerDown.trans (hawake₃ (hsteady.awake (hawake₁ hp)))
      · exact fun hr => hspi.elim (hbad' hr).1 id
      · intro hr
        obtain ⟨hspi₃, hy⟩ := hok' hr
        rw [hy]
        exact ⟨hmode₄.spi.mpr hspi₃, rfl, rfl⟩
      · by_cases hr : y'.1 = .ok
        · rw [(hok' hr).2]
          exact hopen
        · exact (hbad' hr).2.trans hopen
    · obtain ⟨hf, hsteady'⟩ := hfail hr
      refine finish_spec (hkept₁.trans (hsteady.trans hsteady').kept) ?_ (fun _ => hf) (fun h => absurd h hr) hopen
      exact fun hp => hsteady'.awake (hsteady.awake (hawake₁ hp))
  · have hr := not_not.mp hr
    obtain ⟨hspi, hy⟩ := hok hr
    refine finish_spec hkept₁ hawake₁ (fun h => absurd hr h) (fun _ => ?_) ?_
    · rw [hy]
      exact ⟨hmode₁.spi.mpr hspi, rfl, rfl⟩
    · rw [hy]
      rfl

theorem quiet_invalidateDcache (p : Ptr) (n : Nat) : (invalidateDcache p n).All (Quiet (bus x fails)) :=
  all_invalidateDcache (fun _ => ⟨trivial, fun _ _ h => h⟩)
    (fun _ _ _ => ⟨trivial, fun _ _ h => h⟩) (fun _ => ⟨trivial, fun _ _ h => h⟩) p n

/-- In sync, a read goes well on a bus without failures, and well only with the flash's bytes. -/
theorem read_spec {q : Qspi} {s : St} (ht : s.token = false) (h : InSync x q s) (a : Nat) (p : Ptr) (n : Nat) :
    wp (bus x fails) (Driver.read q a p n) (fun r s' => (r ≠ .ok → fails) ∧
      (r = .ok → ∀ i, i < n → s'.mem p.region (p.off + i) = s.flash (a + i))) s := by
  unfold Driver.read
  rw [h.pdevice]
  refine (command_does id).onOk ?_ fun hf r hr => ⟨fun _ => hf, fun h => absurd h hr⟩
  rw [send_heard (quad_hears h.quad rfl)]
  refine wp_when (wp_allQuiet (quiet_invalidateDcache p n) _) ?_
  refine wp_onOk (wp_halReceiveDMA.mpr ⟨trivial, ?_⟩)
  intro r s₁ hs
  rcases hs with ⟨rfl, rfl⟩ | ⟨hf, hr, rfl⟩
  · refine ⟨fun _ => wp_mono (wait_spec ?_ rfl .TIMEOUT) ?_, fun h => absurd rfl h⟩
    · exact ht
    intro r s₂ h
    rcases h with ⟨rfl, hland⟩ | ⟨hf, hr, -⟩
    · cases hland with
      | received hbytes =>
        refine ⟨fun h => absurd rfl h, fun _ i hi => ?_⟩
        rw [← hbytes rfl rfl h.latency.symm i hi]
        exact Nor.fill_on hi
    · exact ⟨fun _ => hf, fun h => absurd h hr⟩
  · exact ⟨fun h => absurd (ofHal_eq_ok.mp h) hr, fun h => ⟨fun _ => hf, fun h' => absurd h' h⟩⟩

/-- A W25Q128JV as it powers up, and a bus with it. -/
def jvChip : Chip where
  manuf := ⟨0xEF, some "Winbond", winbondDevices, some .winbond⟩
  device := jv
  listed := by decide
  known := by decide
  quadEnable := false
  dummyCycles := 2

def jvStart : St where
  chip := jvChip.powerUp
  flash := fun _ => 0xFF
  mem := fun _ _ => 0
  idBuff := (0, 0, 0)
  cmd := { instruction := .READ_STATUS_REGISTER, instructionMode := .none }
  heard := false
  token := false
  transfer := none

end QspiFlash.Bus.Modes
