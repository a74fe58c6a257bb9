/-
  QspiFlash.Bus.Default — what `uninitialize` and `do_close` leave when they report success.

  `refusing x f` is a bus with the chip `x` on which each command is refused as `f` says, the
  first time and when it is retried; a command refused does not reach the chip. `uninitialize`
  sends three commands, and returns the result of the last step only: what `sleep` says of
  RELEASE_POWER_DOWN is not looked at, and a chip that has not woken hears no reset.

  - `uninitialize_spec`: its result and the chip's state, for every pattern of refusals.
  - `default_iff`: success means awake in SPI mode unless a sleeping chip's wake-up is refused
    twice and the reset commands are not.
  - `asleep_closed`: such a run.
-/

import QspiFlash.Bus.Resync
import QspiFlash.Driver.Initialised

namespace QspiFlash.Bus.Default

open Interact Driver Bus.Modes Bus.Resync

/-- Is the command refused, the first time (`false`) and after the abort (`true`)? -/
abbrev Pattern := Instruction → Bool → Bool

/-- Refused both times. -/
def Refused (f : Pattern) (i : Instruction) : Prop := f i false = true ∧ f i true = true

instance (f : Pattern) (i : Instruction) : Decidable (Refused f i) := by unfold Refused; infer_instance

/-- The bus, and whether the next command is a retry. -/
structure St where
  bus : Modes.St
  retry : Bool

def refusingStep (x : Chip) (f : Pattern) (s : St) : (c : Call) → c.Resp → St → Prop
  | .halCommand cmd _, r, s' =>
    if f cmd.instruction s.retry then r ≠ .ok ∧ s' = { s with retry := false }
    else r = .ok ∧ s' = ⟨send x s.bus cmd, false⟩
  | .crAbort, _, s' => s' = { s with retry := true }
  | _, _, s' => s' = s

def refusing (x : Chip) (f : Pattern) : Env Call Call.Resp St where
  guard _ _ := True
  step := refusingStep x f

variable {x : Chip} {f : Pattern}

theorem refusing_total (s : St) (c : Call) : ∃ r s', (refusing x f).step s c r s' := by
  cases c with
  | halCommand cmd t =>
    by_cases hf : f cmd.instruction s.retry = true
    · exact ⟨.error, { s with retry := false }, (if_pos hf).mpr ⟨nofun, rfl⟩⟩
    · exact ⟨.ok, ⟨send x s.bus cmd, false⟩, (if_neg hf).mpr ⟨rfl, rfl⟩⟩
  | crAbort => exact ⟨(), { s with retry := true }, rfl⟩
  | _ => exact ⟨Initialised.goesWell (0, 0, 0) _, s, rfl⟩

/-! ## Commands -/

/-- A command, its retry included, is refused twice or reaches the chip. -/
theorem command_spec (b : Modes.St) (cmd : QspiCommand) (t : Timeout) :
    wp (refusing x f) (qspiCommand cmd t) (fun r s' =>
      (Refused f cmd.instruction ∧ r ≠ .ok ∧ s' = ⟨b, false⟩) ∨
      (¬ Refused f cmd.instruction ∧ r = .ok ∧ s' = ⟨send x b cmd, false⟩)) ⟨b, false⟩ := by
  have hsent : ∀ (retry : Bool) (r : HalStatus) (s' : St), (refusing x f).step ⟨b, retry⟩ (.halCommand cmd t) r s' →
      (f cmd.instruction retry = true ∧ r ≠ .ok ∧ s' = ⟨b, false⟩) ∨
      (f cmd.instruction retry = false ∧ r = .ok ∧ s' = ⟨send x b cmd, false⟩) := by
    intro retry r s' hs
    by_cases hf : f cmd.instruction retry = true
    · exact Or.inl ⟨hf, (if_pos hf).mp hs⟩
    · exact Or.inr ⟨by simpa using hf, (if_neg hf).mp hs⟩
  apply wp_qspiCommand trivial
  · intro s₁ hs
    rcases hsent false _ s₁ hs with ⟨-, hr, -⟩ | ⟨hf, -, rfl⟩
    · exact absurd rfl hr
    · exact Or.inr ⟨fun h => by simp [h.1] at hf, rfl, rfl⟩
  · intro r s₁ hr hs
    rcases hsent false _ s₁ hs with ⟨hf, -, rfl⟩ | ⟨-, hok, -⟩
    · refine ⟨trivial, ?_⟩
      intro s₂ hs₂
      obtain rfl : s₂ = ⟨b, true⟩ := hs₂
      refine ⟨trivial, ?_⟩
      intro r' s₃ hs₃
      rcases hsent true r' s₃ hs₃ with ⟨hf', hr', rfl⟩ | ⟨hf', rfl, rfl⟩
      · exact Or.inl ⟨⟨hf, hf'⟩, fun h => hr' (ofHal_eq_ok.mp h), rfl⟩
      · exact Or.inr ⟨fun h => by simp [h.2] at hf', rfl, rfl⟩
    · exact absurd hok hr

/-- A chip that can be woken is awake once RELEASE_POWER_DOWN has reached it. -/
theorem release_wakes {b : Modes.St} (hw : b.chip.Wakeable) {cmd : QspiCommand}
    (hi : cmd.instruction = .RELEASE_POWER_DOWN)
    (hm : cmd.instructionMode = .four) : (send x b cmd).chip.powerDown = false := by
  by_cases hp : b.chip.powerDown = true
  · rw [send_heard ⟨by simp [hm, hw hp], fun _ => hi⟩, hi]
    rfl
  · exact send_awake (by simp [hi]) (by simpa using hp)

/-- A chip that hears neither of two commands is as it was. -/
theorem send_twice_deaf {b : Modes.St} {c₁ c₂ : QspiCommand} (h₁ : ¬ b.chip.Hears c₁) (h₂ : ¬ b.chip.Hears c₂) :
    (send x (send x b c₁) c₂).chip = b.chip := by
  have hsecond : ¬ ({ b with cmd := c₁, heard := false } : Modes.St).chip.Hears c₂ := h₂
  rw [send_deaf h₁, send_deaf hsecond]

/-- The two reset commands bring an awake chip to SPI mode, and leave one asleep. -/
theorem reset_spi (b : Modes.St) {enable device : QspiCommand} (he : enable.instruction = .RESET_ENABLE)
    (hd : device.instruction = .RESET_DEVICE) (hme : enable.instructionMode = .four)
    (hmd : device.instructionMode = .four) :
    (send x (send x b enable) device).chip.Spi ↔ b.chip.powerDown = false := by
  by_cases hp : b.chip.powerDown = true
  · -- asleep it hears neither
    have hdeaf : ∀ {cmd : QspiCommand}, cmd.instruction ≠ .RELEASE_POWER_DOWN → ¬ b.chip.Hears cmd :=
      fun hi h => hi (h.2 hp)
    rw [send_twice_deaf (hdeaf (by simp [he])) (hdeaf (by simp [hd]))]
    simp [ChipSt.Spi, hp]
  · have hp : b.chip.powerDown = false := by simpa using hp
    refine iff_of_true ?_ hp
    by_cases hq : b.chip.quad = true
    · have hmild : Mild enable.instruction := by rw [he]; trivial
      rw [send_heard (quad_hears ((send_steady b hmild).isQuad ⟨hq, hp⟩) hmd), send_heard (quad_hears ⟨hq, hp⟩ hme), he, hd]
      exact ⟨rfl, rfl⟩
    · -- in SPI mode it hears nothing on four lines
      have hq : b.chip.quad = false := by simpa using hq
      have hdeaf : ∀ {cmd : QspiCommand}, cmd.instructionMode = .four → ¬ b.chip.Hears cmd := by
        intro cmd hm h
        simp [ChipSt.Hears, hq, hm] at h
      rw [send_twice_deaf (hdeaf hme) (hdeaf hmd)]
      exact ⟨hq, hp⟩

/-! ## `uninitialize` -/

/-- The chip is awake, or will hear that it is to wake. -/
def Wakes (f : Pattern) (c : ChipSt) : Prop := c.powerDown = false ∨ ¬ Refused f .RELEASE_POWER_DOWN

/-- The result is that of the reset; whether the chip heard it is that of the wake-up. -/
structure UninitPost (f : Pattern) (b : Modes.St) (r : QspiResult) (s' : St) : Prop where
  ok : r = .ok ↔ ¬ Refused f .RESET_ENABLE ∧ ¬ Refused f .RESET_DEVICE
  spi : r = .ok → (s'.bus.chip.Spi ↔ Wakes f b.chip)

theorem sleep_spec {b : Modes.St} (hw : b.chip.Wakeable) :
    wp (refusing x f) (sleep false) (fun _ s' => s'.retry = false ∧ (s'.bus.chip.powerDown = false ↔ Wakes f b.chip))
      ⟨b, false⟩ := by
  refine wp_mono (command_spec b _ _) ?_
  intro r s' h
  rcases h with ⟨hf, -, rfl⟩ | ⟨hf, -, rfl⟩
  · refine ⟨rfl, ?_⟩
    simp only [Wakes]
    exact ⟨Or.inl, fun h => h.resolve_right (absurd hf)⟩
  · exact ⟨rfl, iff_of_true (release_wakes hw rfl rfl) (Or.inr hf)⟩

theorem reset_spec (b : Modes.St) : wp (refusing x f) resetChip (fun r s' =>
    (r = .ok ↔ ¬ Refused f .RESET_ENABLE ∧ ¬ Refused f .RESET_DEVICE) ∧
    (r = .ok → (s'.bus.chip.Spi ↔ b.chip.powerDown = false))) ⟨b, false⟩ := by
  refine wp_onOk (wp_mono (command_spec b _ _) ?_)
  intro r s' h
  rcases h with ⟨hf, hr, rfl⟩ | ⟨hf, rfl, rfl⟩
  · exact ⟨fun h => absurd h hr, fun _ => ⟨iff_of_false hr fun h => h.1 hf, fun h => absurd h hr⟩⟩
  · refine ⟨fun _ => wp_mono (command_spec _ _ _) ?_, fun h => absurd rfl h⟩
    intro r s' h
    rcases h with ⟨hf', hr, rfl⟩ | ⟨hf', rfl, rfl⟩
    · exact ⟨iff_of_false hr fun h => h.2 hf', fun h => absurd h hr⟩
    · exact ⟨iff_of_true rfl ⟨hf, hf'⟩, fun _ => reset_spi b rfl rfl rfl rfl⟩

theorem uninitialize_spec {b : Modes.St} (hw : b.chip.Wakeable) (q : Qspi) :
    wp (refusing x f) (uninitializeQspi q) (fun y s' => UninitPost f b y.1 s') ⟨b, false⟩ := by
  refine wp_seq (sleep_spec hw) ?_
  intro _ s₁ h
  obtain ⟨b₁, retry⟩ := s₁
  obtain ⟨rfl, hawake⟩ := h
  refine wp_seq (reset_spec b₁) ?_
  intro r s₂ h
  obtain ⟨hok, hspi⟩ := h
  exact ⟨hok, fun hr => (hspi hr).trans hawake⟩

theorem doClose_spec {b : Modes.St} (hw : b.chip.Wakeable) (q : Qspi) :
    wp (refusing x f) (doClose q) (fun y s' => ∃ r, (y.1 = 0 ↔ r = .ok) ∧ UninitPost f b r s') ⟨b, false⟩ := by
  refine wp_seq (uninitialize_spec hw q) ?_
  intro y s₁ h
  apply wp_ite
  · intro hr
    refine ⟨trivial, ?_⟩
    intro _ s₂ hs
    obtain rfl : s₂ = s₁ := hs
    exact ⟨y.1, iff_of_false (by simp) hr, h⟩
  · intro hr
    exact ⟨y.1, iff_of_true rfl (not_not.mp hr), h⟩

/-! ## Success -/

/-- A sleeping chip's wake-up is not refused, or else a reset command is. -/
def Sound (f : Pattern) (c : ChipSt) : Prop := Wakes f c ∨ Refused f .RESET_ENABLE ∨ Refused f .RESET_DEVICE

/-- Over all runs, success means the default state exactly where the pattern is sound. -/
theorem sound_iff {α : Type} {p : M α} {b : Modes.St} {ok : α → Prop}
    (h : wp (refusing x f) p (fun a s' => ∃ r, (ok a ↔ r = .ok) ∧ UninitPost f b r s') ⟨b, false⟩) :
    (∀ a s', Runs (refusing x f) p ⟨b, false⟩ a s' → ok a → s'.bus.chip.Spi) ↔ Sound f b.chip := by
  constructor
  · intro hall
    obtain ⟨a, s', hrun⟩ := run_total refusing_total p ⟨b, false⟩
    obtain ⟨r, hr, hpost⟩ := wp_runs h hrun
    by_cases hreset : Refused f .RESET_ENABLE ∨ Refused f .RESET_DEVICE
    · exact Or.inr hreset
    · have hok := hpost.ok.mpr (not_or.mp hreset)
      exact Or.inl ((hpost.spi hok).mp (hall a s' hrun (hr.mpr hok)))
  · intro hsound a s' hrun hok
    obtain ⟨r, hr, hpost⟩ := wp_runs h hrun
    have hok := hr.mp hok
    obtain ⟨he, hd⟩ := hpost.ok.mp hok
    refine (hpost.spi hok).mpr (hsound.resolve_right fun h => ?_)
    exact h.elim he hd

/-- After any run from power-up and for every pattern of refusals, success of `uninitialize`
    and of `do_close` means that the chip is awake in SPI mode exactly if the pattern is sound. -/
theorem default_iff {tbl : List QspiManuf} {q : Qspi} {b : Modes.St}
    (h : Reach (faulty x) (exec tbl) BusOp (fun q s => Fresh q ∧ s.chip = x.powerUp) q b) (f : Pattern) :
    ((∀ y s', Runs (refusing x f) (uninitializeQspi q) ⟨b, false⟩ y s' → y.1 = .ok → s'.bus.chip.Spi) ↔ Sound f b.chip) ∧
    ((∀ y s', Runs (refusing x f) (doClose q) ⟨b, false⟩ y s' → y.1 = 0 → s'.bus.chip.Spi) ↔ Sound f b.chip) := by
  have hw := wakeable_reach h
  refine ⟨sound_iff (wp_mono (uninitialize_spec hw q) ?_), sound_iff (doClose_spec hw q)⟩
  exact fun y s' hpost => ⟨y.1, Iff.rfl, hpost⟩

/-- RELEASE_POWER_DOWN is refused, and taken when it is sent again. -/
def lateWakeUp : Pattern := fun i retry => i = .RELEASE_POWER_DOWN && !retry

/-- A W25Q128JV asleep, which hears the second wake-up only: `uninitialize` returns `ok` with the
    chip awake in SPI mode, and so does `do_close` where it returns 0. -/
theorem default_jv :
    (∃ y s', Runs (refusing jvChip lateWakeUp) (uninitializeQspi jvAsleep.1) ⟨jvAsleep.2, false⟩ y s' ∧ y.1 = .ok ∧
      s'.bus.chip.Spi) ∧
    ∀ y s', Runs (refusing jvChip lateWakeUp) (doClose jvAsleep.1) ⟨jvAsleep.2, false⟩ y s' → y.1 = 0 →
      s'.bus.chip.Spi := by
  have hsound : Sound lateWakeUp jvAsleep.2.chip := Or.inl (Or.inr (by decide))
  have h := default_iff jvAsleep_reach lateWakeUp
  obtain ⟨y, s', hrun⟩ := run_total (E := refusing jvChip lateWakeUp) refusing_total (uninitializeQspi jvAsleep.1)
    ⟨jvAsleep.2, false⟩
  have hpost := wp_runs (uninitialize_spec (wakeable_reach jvAsleep_reach) jvAsleep.1) hrun
  have hok : y.1 = .ok := hpost.ok.mpr (by decide)
  exact ⟨⟨y, s', hrun, hok, h.1.mpr hsound y s' hrun hok⟩, h.2.mpr hsound⟩

/-! ## A run that fails -/

/-- RELEASE_POWER_DOWN alone is refused. -/
def noWakeUp : Pattern := fun i _ => i = .RELEASE_POWER_DOWN

/-- Put to sleep after `initialize`, the chip is still asleep when `uninitialize` returns `ok`. -/
theorem asleep_closed : ¬ ∀ (q : Qspi) (b : Modes.St) (f : Pattern),
    Reach (faulty jvChip) (exec qspiManufacturers) BusOp (fun q s => Fresh q ∧ s.chip = jvChip.powerUp) q b →
    ∀ y s', Runs (refusing jvChip f) (uninitializeQspi q) ⟨b, false⟩ y s' → y.1 = .ok → s'.bus.chip.Spi := by
  intro h
  have hpost := uninitialize_spec (x := jvChip) (f := noWakeUp) (wakeable_reach jvAsleep_reach) jvAsleep.1
  obtain ⟨y, s', hrun⟩ := run_total (E := refusing jvChip noWakeUp) refusing_total (uninitializeQspi jvAsleep.1)
    ⟨jvAsleep.2, false⟩
  have hpost := wp_runs hpost hrun
  have hok : y.1 = .ok := hpost.ok.mpr (by decide)
  rcases (hpost.spi hok).mp (h _ _ noWakeUp jvAsleep_reach y s' hrun hok) with hawake | hwakes
  · rw [jvAsleep_sleeps] at hawake
    cases hawake
  · exact hwakes (by decide)

end QspiFlash.Bus.Default
