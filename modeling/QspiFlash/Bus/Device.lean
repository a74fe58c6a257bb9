/-
  QspiFlash.Bus.Device — the chip whole, its modes and its flash behind one bus.

  `Bus.Modes` looks at the modes of the chip and lets an erase or a program do anything to
  its flash; `Bus.Nor` looks at the flash and takes a chip that hears every command. Here the
  chip hears commands as in `Bus.Modes`, and erases and programs only what it heard with write
  enable set. It decodes `w` address bits. With `fails`, any call may fail without effect, and
  a read may time out; a status poll always starts, and its wait and that for the end of a
  transmission end well, unless the chip did not hear.

  - `modes_simulates`: this bus is one of `Bus.Modes`.
  - `nor_simulates`: under `guard`, it is one of `Bus.Nor`.
  - `dataOp_ready`: in sync with the chip, the driver's data path keeps to `guard`.
  - `outcomes_refine`: so whole runs of it, results and all, are runs on `Bus.Nor`.
-/

import QspiFlash.Bus.Modes
import QspiFlash.Driver.Api
import QspiFlash.Interact.Simulate

namespace QspiFlash.Bus.Device

open Interact Driver Bus.Modes
open NorArray (Bytes)

variable (x : Chip) (w : Nat) (fails : Bool)

/-- The flash of `x` in the terms of `Bus.Nor`, on a bus where the failure of any erase may be
    let go. -/
def params : Nor.Params := ⟨x.device.sectorSize.toNat, w, fails, fun _ => True⟩

/-- The flash after a command. -/
def erased (s : St) (cmd : QspiCommand) : Bytes :=
  match Nor.eraseTarget (params x w fails) cmd with
  | some t => if s.chip.Hears cmd ∧ s.chip.writeEnabled = true then t.erased s.flash else s.flash
  | none => s.flash

/-- The flash after a transmission from `p`. -/
def programmed (s : St) (p : Ptr) : Bytes :=
  if s.heard = true ∧ s.cmd.instruction = .PAGE_PROGRAM ∧ s.chip.writeEnabled = true then
    NorArray.program 256 s.flash (s.cmd.address % 2 ^ w) (fun i => s.mem p.region (p.off + i)) s.cmd.nbData
  else s.flash

/-- The flash at every address, the high bits of which the chip does not see. -/
def unroll (s : St) : St := { s with flash := fun a => s.flash (a % 2 ^ w) }

def step (s : St) : (c : Call) → c.Resp → St → Prop
  | .halCommand cmd _, r, s' => Attempt (fails = true) s { send x s cmd with flash := erased x w fails s cmd } r s'
  | .halAutoPollingIT cmd _, r, s' => r = .ok ∧ s' = { send x s cmd with transfer := some .other }
  | .halReceiveIT, r, s' => Attempt (fails = true) s { s with transfer := some .receiveIT } r s'
  | .halReceiveDMA p, r, s' => Attempt (fails = true) s { s with transfer := some (.receive p) } r s'
  | .halTransmitDMA p, r, s' => Attempt (fails = true) s
      { s with flash := programmed w s p, transfer := some .other, chip := { s.chip with writeEnabled := false } } r s'
  | .halTransmit b _, r, s' => Attempt (fails = true) s (sendByte x s b) r s'
  | .timedWait _, r, s' =>
    (r = true ∧ ∃ u, s.transfer = some u ∧ Lands x (unroll w s) u (unroll w s') ∧ s'.flash = s.flash) ∨
    (r = false ∧ (s.transfer = none ∨ (fails = true ∧ (s.transfer = some .other → s.heard = false))) ∧
      s' = { s with transfer := none })
  | .idBytes, b, s' => b = s.idBuff ∧ s' = s
  | .load p, b, s' => b = s.mem p.region p.off ∧ s' = s
  | _, _, s' => s' = s

def bus : Env Call Call.Resp St where
  guard _ _ := True
  step := step x w fails

/-! ## Its modes -/

variable {x w fails}

/-- What holds before a call and of its effect holds after it, whatever it returned. -/
theorem attempt_keeps {F : Prop} {P : St → Prop} {s t s' : St} {r : HalStatus} (h : Attempt F s t r s') (hs : P s)
    (ht : P t) : P s' := by
  rcases h with ⟨-, rfl⟩ | ⟨-, -, rfl⟩
  · exact ht
  · exact hs

@[simp] theorem send_unroll (s : St) (cmd : QspiCommand) : send x (unroll w s) cmd = unroll w (send x s cmd) := by
  unfold send
  show (if s.chip.Hears cmd then _ else _) = unroll w (if s.chip.Hears cmd then _ else _)
  split <;> rfl

@[simp] theorem sendByte_unroll (s : St) (b : UInt8) : sendByte x (unroll w s) b = unroll w (sendByte x s b) := by
  unfold sendByte
  show (if s.heard = true ∧ s.chip.powerDown = false then _ else _) =
    unroll w (if s.heard = true ∧ s.chip.powerDown = false then _ else _)
  split <;> rfl

theorem eraseTarget_none {b : Nor.Params} {cmd : QspiCommand} (h : ¬ IsErase cmd.instruction) :
    Nor.eraseTarget b cmd = none := by
  unfold Nor.eraseTarget
  cases hi : cmd.instruction <;> first | rfl | exact absurd (by rw [hi]; trivial) h

theorem erased_other {s : St} {cmd : QspiCommand} (h : ¬ IsErase cmd.instruction) :
    erased x w fails s cmd = s.flash := by
  unfold erased
  rw [eraseTarget_none h]

theorem attempt_unroll {s t s' : St} {r : HalStatus} (h : Attempt (fails = true) s t r s') :
    Attempt (fails = true) (unroll w s) (unroll w t) r (unroll w s') := by
  rcases h with ⟨hr, rfl⟩ | ⟨hf, hr, rfl⟩
  · exact Or.inl ⟨hr, rfl⟩
  · exact Or.inr ⟨hf, hr, rfl⟩

/-- A bus of `Bus.Modes`, as long as no token is left over, and none ever is. -/
theorem modes_simulates :
    Simulates (bus x w fails) (Modes.bus x (fails = true)) fun s m => s.token = false ∧ m = unroll w s := by
  intro s m c r s' hrel _ hs
  obtain ⟨htok, rfl⟩ := hrel
  refine ⟨unroll w s', ?_, ?_, rfl⟩
  · cases c with
    | halCommand cmd t =>
      refine ⟨fun a => erased x w fails s cmd (a % 2 ^ w), ?_, ?_⟩
      · by_cases he : IsErase cmd.instruction
        · exact Or.inl he
        · rw [erased_other he]
          exact Or.inr rfl
      · rw [send_unroll]
        exact attempt_unroll hs
    | halAutoPollingIT cmd cfg =>
      obtain ⟨rfl, rfl⟩ := hs
      refine Or.inl ⟨rfl, ?_⟩
      rw [send_unroll]
      rfl
    | halReceiveIT => exact attempt_unroll hs
    | halReceiveDMA p => exact attempt_unroll hs
    | halTransmitDMA p => exact ⟨fun a => programmed w s p (a % 2 ^ w), attempt_unroll hs⟩
    | halTransmit b t =>
      show Attempt _ _ (sendByte x (unroll w s) b) _ _
      rw [sendByte_unroll]
      exact attempt_unroll hs
    | timedWait t =>
      rcases hs with ⟨hr, u, hu, hland, -⟩ | ⟨hr, hout, rfl⟩
      · exact Or.inr (Or.inl ⟨hr, htok, u, hu, hland⟩)
      · exact Or.inr (Or.inr ⟨hout.elim Or.inr fun h => Or.inl h.1, hr, htok, rfl⟩)
    | idBytes => exact ⟨hs.1, by rw [hs.2]⟩
    | load p => exact ⟨hs.1, by rw [hs.2]⟩
    | _ => exact congrArg (unroll w) hs
  · have hattempt : ∀ {t : St} {r : HalStatus}, Attempt (fails = true) s t r s' → t.token = false → s'.token = false :=
      fun h ht => attempt_keeps (P := fun s => s.token = false) h htok ht
    cases c with
    | halCommand cmd t => exact hattempt hs ((send_token s cmd).trans htok)
    | halAutoPollingIT cmd cfg =>
      obtain ⟨-, rfl⟩ := hs
      exact (send_token s cmd).trans htok
    | halReceiveIT => exact hattempt hs htok
    | halReceiveDMA p => exact hattempt hs htok
    | halTransmitDMA p => exact hattempt hs htok
    | halTransmit b t =>
      refine hattempt hs ?_
      unfold sendByte
      split <;> exact htok
    | timedWait t =>
      rcases hs with ⟨-, u, -, hland, -⟩ | ⟨-, -, rfl⟩
      · generalize hm : unroll w s' = m at hland
        have : m.token = false := by cases hland <;> exact htok
        rw [← hm] at this
        exact this
      · exact htok
    | idBytes => rw [hs.2]; exact htok
    | load p => rw [hs.2]; exact htok
    | _ => rw [show s' = s from hs]; exact htok

/-- What a program does to the modes there, it does here. -/
theorem wp_of_modes {α : Type} {p : M α} {Q : α → St → Prop} {s : St} (ht : s.token = false)
    (h : wp (Modes.bus x (fails = true)) p Q (unroll w s)) :
    wp (bus x w fails) p (fun a s' => s'.token = false ∧ Q a (unroll w s')) s := by
  refine wp_of_runs (wp_allowed (Prog.all_of_forall (fun _ _ => trivial) p) s) ?_
  intro a s' hrun
  obtain ⟨m, hrun', htok, rfl⟩ := hrun.simulated_of_free modes_simulates (fun _ _ => trivial) ⟨ht, rfl⟩
  exact ⟨htok, wp_runs h hrun'⟩

/-! ## Its flash -/

variable (x) in
/-- What the driver's data path asks: commands heard, an erase or a program with write enabled,
    one transfer at a time, and the buffer only when it is there. -/
def guard (s : St) : Call → Prop
  | .halCommand cmd _ => s.transfer = none ∧ s.chip.Hears cmd ∧
      (IsErase cmd.instruction → cmd.dataMode = .none ∧ s.chip.writeEnabled = true) ∧
      (cmd.instruction = .FAST_READ_QUAD_IN_OUT ∨ cmd.instruction = .PAGE_PROGRAM → cmd.dataMode ≠ .none)
  | .halReceiveDMA _ => s.transfer = none ∧ s.heard = true ∧ s.cmd.instruction = .FAST_READ_QUAD_IN_OUT ∧
      latency s.cmd = s.chip.dummyCycles
  | .halTransmitDMA _ =>
      s.transfer = none ∧ s.heard = true ∧ s.cmd.instruction = .PAGE_PROGRAM ∧ s.chip.writeEnabled = true
  | .halAutoPollingIT cmd _ => s.transfer = none ∧ s.chip.Hears cmd ∧ cmd.instruction = .READ_STATUS_REGISTER
  | .timedWait _ => s.transfer ≠ none
  | .load _ => s.transfer = none
  | .crAbort | .dcacheEnabled | .cleanInvalidateDCache .. | .cleanDCache .. => True
  | .setErrno _ | .wrapped | .dropped .. => True
  | .halReceiveIT | .halTransmit .. | .halMemoryMapped .. | .halAbort | .idBytes | .qspiFactory _ => False
  | .nullDeref | .overrun => False

variable (x w fails) in
/-- The bus, on which only this may be asked. -/
abbrev kept : Env Call Call.Resp St := (bus x w fails).guarded guard

variable (w) in
/-- The memory as it will be when the transfer under way has come. -/
def arriving (s : St) : Region → Nat → UInt8 :=
  match s.transfer with
  | some (.receive p) => Nor.fill s.mem p s.cmd.nbData fun i => s.flash ((s.cmd.address + i) % 2 ^ w)
  | _ => s.mem

theorem arriving_receive {s : St} {p : Ptr} (h : s.transfer = some (.receive p)) :
    arriving w s = Nor.fill s.mem p s.cmd.nbData fun i => s.flash ((s.cmd.address + i) % 2 ^ w) := by
  rw [arriving, h]

theorem arriving_idle {s : St} (h : s.transfer = none) : arriving w s = s.mem := by
  rw [arriving, h]

/-- A transfer under way: what the chip heard before it. -/
def Heard (s : St) (t : Nor.St) : Transfer → Prop
  | .receiveIT => False
  | .receive p => s.heard = true ∧ s.cmd.instruction = .FAST_READ_QUAD_IN_OUT ∧ latency s.cmd = s.chip.dummyCycles ∧
      t.busy = .receiving p s.cmd.nbData
  | .other => s.heard = true

/-- The same flash and memory, where `Bus.Nor` has the bytes of a transfer from its start. -/
structure Follows (w : Nat) (s : St) (t : Nor.St) : Prop where
  flash : t.flash = s.flash
  mem : t.mem = arriving w s
  cmd : s.cmd.instruction = .FAST_READ_QUAD_IN_OUT ∨ s.cmd.instruction = .PAGE_PROGRAM → t.cmd = s.cmd
  transfer : ∀ u, s.transfer = some u → Heard s t u

theorem Follows.idle {s : St} {t : Nor.St} (h : Follows w s t) (hs : s.transfer = none) : t.mem = s.mem := by
  rw [h.mem, arriving_idle hs]

theorem Follows.retry {s : St} {t : Nor.St} (h : Follows w s t) (r : Bool) : Follows w s { t with retry := r } := by
  refine ⟨h.flash, h.mem, h.cmd, fun u hu => ?_⟩
  have hheard := h.transfer u hu
  cases u <;> exact hheard

theorem spoil_same (u : Nor.Busy) (t : Nor.St) : Nor.Spoil u t t :=
  ⟨t.flash, t.mem, fun _ _ => rfl, fun _ _ _ => rfl, rfl⟩

theorem erase_target {b : Nor.Params} {cmd : QspiCommand} (h : IsErase cmd.instruction) :
    ∃ t, Nor.eraseTarget b cmd = some t := by
  unfold Nor.eraseTarget
  cases hi : cmd.instruction <;> first | exact ⟨_, rfl⟩ | exact absurd h (by rw [hi]; exact id)

/-- What a command accepted does on both. -/
theorem Follows.accept {s : St} {t : Nor.St} (h : Follows w s t) {cmd : QspiCommand} {lim : Timeout}
    (hg : guard s (.halCommand cmd lim)) :
    Follows w { send x s cmd with flash := erased x w fails s cmd } (Nor.accept (params x w fails) t cmd) := by
  obtain ⟨hidle, hhears, herase, hdata⟩ := hg
  rw [send_heard hhears]
  have hmem : ∀ s' : St, s'.transfer = s.transfer → s'.mem = s.mem → t.mem = arriving w s' := by
    intro s' ht hm
    rw [h.idle hidle, arriving_idle (ht.trans hidle), hm]
  have hpending : ∀ (s' : St) t', s'.transfer = s.transfer → ∀ u, s'.transfer = some u → Heard s' t' u := by
    intro s' t' ht u hu
    rw [ht, hidle] at hu
    cases hu
  unfold Nor.accept
  by_cases hd : cmd.dataMode = .none
  · have hnocmd : ¬ (cmd.instruction = .FAST_READ_QUAD_IN_OUT ∨ cmd.instruction = .PAGE_PROGRAM) :=
      fun hi => hdata hi hd
    rw [if_pos hd]
    by_cases he : IsErase cmd.instruction
    · obtain ⟨tgt, htgt⟩ := erase_target (b := params x w fails) he
      have herased : erased x w fails s cmd = tgt.erased s.flash := by
        unfold erased
        rw [htgt]
        exact if_pos ⟨hhears, (herase he).2⟩
      rw [htgt]
      refine ⟨?_, hmem _ rfl rfl, fun hi => absurd hi hnocmd, hpending _ _ rfl⟩
      show tgt.erased t.flash = erased x w fails s cmd
      rw [h.flash, herased]
    · rw [eraseTarget_none he, erased_other he]
      exact ⟨h.flash, hmem _ rfl rfl, fun hi => absurd hi hnocmd, hpending _ _ rfl⟩
  · have he : ¬ IsErase cmd.instruction := fun he => hd (herase he).1
    rw [if_neg hd, erased_other he]
    exact ⟨h.flash, hmem _ rfl rfl, fun _ => rfl, hpending _ _ rfl⟩

/-- The bytes of a read that have come are those `Bus.Nor` had. -/
theorem Follows.lands {s s' : St} {t : Nor.St} (h : Follows w s t) {u : Transfer} (hu : s.transfer = some u)
    (hland : Lands x (unroll w s) u (unroll w s')) (hflash : s'.flash = s.flash) : Follows w s' t := by
  have hheard := h.transfer u hu
  -- all of `s'` but its flash
  obtain ⟨hmem, htr, hcmd⟩ :
      s'.mem = (unroll w s').mem ∧ s'.transfer = (unroll w s').transfer ∧ s'.cmd = (unroll w s').cmd := ⟨rfl, rfl, rfl⟩
  have hend : ∀ {m : St}, s'.transfer = m.transfer → m.transfer = none → ∀ u, s'.transfer = some u → Heard s' t u := by
    intro m htr hnone u hu
    rw [htr, hnone] at hu
    cases hu
  generalize unroll w s' = m at hland hmem htr hcmd
  cases hland with
  | identified => exact absurd hheard id
  | @received p bytes hbytes =>
    obtain ⟨hh, hi, hlat, hbusy⟩ := hheard
    refine ⟨h.flash.trans hflash.symm, ?_, by rw [hcmd]; exact h.cmd, hend htr rfl⟩
    rw [h.mem, arriving_receive hu, arriving_idle htr, hmem]
    funext r o
    unfold Nor.fill
    by_cases hin : r = p.region ∧ p.off ≤ o ∧ o < p.off + s.cmd.nbData
    · rw [if_pos hin]
      exact (if_pos hin).trans (hbytes hh hi hlat _ (by show o - p.off < s.cmd.nbData; omega)) |>.symm
    · rw [if_neg hin]
      exact (if_neg hin).symm
  | other =>
    refine ⟨h.flash.trans hflash.symm, ?_, by rw [hcmd]; exact h.cmd, hend htr rfl⟩
    rw [h.mem, arriving, hu, arriving_idle htr, hmem]
    rfl

/-- Under the guard, a bus of `Bus.Nor`. -/
theorem nor_simulates : Simulates (kept x w fails) (Nor.nor (params x w fails)) (Follows w) := by
  intro s t c r s' h hg hs
  cases c with
  | halCommand cmd lim =>
    rcases hs with ⟨rfl, rfl⟩ | ⟨hf, hr, rfl⟩
    · exact ⟨_, Or.inl ⟨rfl, rfl⟩, h.accept (show guard s (.halCommand cmd lim) from hg)⟩
    · exact ⟨_, Or.inr ⟨hf, hr, spoil_same _ _⟩, h.retry false⟩
  | crAbort =>
    obtain rfl : s' = s := hs
    exact ⟨_, rfl, h.retry true⟩
  | halAutoPollingIT cmd cfg =>
    obtain ⟨rfl, rfl⟩ := hs
    obtain ⟨hidle, hhears, hi⟩ := hg
    refine ⟨t, Or.inl ⟨rfl, rfl⟩, ?_⟩
    rw [send_heard hhears]
    refine ⟨h.flash, ?_, ?_, ?_⟩
    · rw [h.idle hidle]
      rfl
    · intro hcmd
      rw [show cmd.instruction = .READ_STATUS_REGISTER from hi] at hcmd
      exact absurd hcmd (by decide)
    · intro u hu
      obtain rfl := Option.some.inj hu
      rfl
  | halReceiveDMA p =>
    obtain ⟨hidle, hheard, hi, hlat⟩ := hg
    rcases hs with ⟨rfl, rfl⟩ | ⟨hf, hr, rfl⟩
    · refine ⟨_, Or.inl ⟨rfl, rfl⟩, ⟨h.flash, ?_, h.cmd, ?_⟩⟩
      · show (Nor.received (params x w fails) t p).mem = _
        rw [arriving_receive rfl, Nor.received, h.idle hidle, h.cmd (Or.inl hi), h.flash]
        rfl
      · intro u hu
        obtain rfl := Option.some.inj hu
        refine ⟨hheard, hi, hlat, ?_⟩
        show Nor.Busy.receiving p t.cmd.nbData = _
        rw [h.cmd (Or.inl hi)]
    · exact ⟨t, Or.inr ⟨hf, hr, rfl⟩, h⟩
  | halTransmitDMA p =>
    obtain ⟨hidle, hheard, hi, hwel⟩ := hg
    rcases hs with ⟨rfl, rfl⟩ | ⟨hf, hr, rfl⟩
    · have hprog : programmed w s p =
          NorArray.program 256 s.flash (s.cmd.address % 2 ^ w) (fun i => s.mem p.region (p.off + i)) s.cmd.nbData :=
        if_pos ⟨hheard, hi, hwel⟩
      have hsame := h.cmd (Or.inr hi)
      refine ⟨_, Or.inl ⟨rfl, rfl⟩, ?_⟩
      unfold Nor.programmed Nor.bytesAt
      rw [if_pos (by rw [hsame, hi]), hprog, hsame, h.flash, h.idle hidle]
      refine ⟨rfl, rfl, fun _ => rfl, fun u hu => ?_⟩
      obtain rfl := Option.some.inj hu
      exact hheard
    · exact ⟨t, Or.inr ⟨hf, hr, spoil_same _ _⟩, h⟩
  | timedWait lim =>
    rcases hs with ⟨rfl, u, hu, hland, hflash⟩ | ⟨rfl, hout, rfl⟩
    · exact ⟨t, Or.inl ⟨rfl, rfl⟩, h.lands hu hland hflash⟩
    · obtain ⟨u, hu⟩ := Option.ne_none_iff_exists'.mp hg
      obtain ⟨hf, hother⟩ := hout.resolve_left hg
      have hheard := h.transfer u hu
      cases u with
      | receiveIT => exact absurd hheard id
      | receive p =>
        -- the bytes are not there, and on `Bus.Nor` the buffer may hold any
        refine ⟨{ t with mem := s.mem }, Or.inr ⟨hf, rfl, t.flash, s.mem, fun _ _ => rfl, fun r o ho => ?_, rfl⟩,
          h.flash, rfl, h.cmd, fun u hu => (by cases hu)⟩
        rw [hheard.2.2.2] at ho
        rw [h.mem, arriving_receive hu]
        exact (if_neg ho).symm
      | other => rw [hheard] at hother; exact absurd (hother hu) (by decide)
  | load p =>
    obtain ⟨rfl, rfl⟩ := hs
    exact ⟨t, ⟨by rw [h.idle hg], rfl⟩, h⟩
  | dropped n r =>
    obtain rfl : s' = s := hs
    exact ⟨t, ⟨fun _ => trivial, rfl⟩, h⟩
  | dcacheEnabled | cleanInvalidateDCache | cleanDCache | setErrno | wrapped =>
    obtain rfl : s' = s := hs
    exact ⟨t, rfl, h⟩
  | _ => exact absurd hg id

/-! ## The data path keeps to the guard -/

/-- In sync, with no transfer under way. -/
structure Ready (x : Chip) (q : Qspi) (s : St) : Prop where
  sync : InSync x q s
  idle : s.transfer = none

theorem inSync_of_chip {q : Qspi} {s s' : St} (h : InSync x q s) (hc : s'.chip.quad = s.chip.quad)
    (hp : s'.chip.powerDown = s.chip.powerDown) (hd : s'.chip.dummyCycles = s.chip.dummyCycles) : InSync x q s' :=
  ⟨h.pdevice, ⟨hc.trans h.quad.1, hp.trans h.quad.2⟩, hd.trans h.latency⟩

/-- A mild command leaves the driver in sync, whatever its two attempts return. -/
theorem command_ready {q : Qspi} {s : St} (h : Ready x q s) {cmd : QspiCommand} {t : Timeout}
    (hmode : cmd.instructionMode = .four) (hm : Mild cmd.instruction)
    (herase : IsErase cmd.instruction → cmd.dataMode = .none ∧ s.chip.writeEnabled = true)
    (hdata : cmd.instruction = .FAST_READ_QUAD_IN_OUT ∨ cmd.instruction = .PAGE_PROGRAM → cmd.dataMode ≠ .none) :
    wp (kept x w fails) (qspiCommand cmd t) (fun r s₁ => Ready x q s₁ ∧
      (r = .ok → s₁.heard = true ∧ s₁.cmd = cmd ∧ s₁.chip = x.act s.chip cmd.instruction)) s := by
  have hhears := quad_hears h.sync.quad hmode
  have hsteady := send_steady (x := x) s hm
  have hsent : ∀ g, Ready x q { send x s cmd with flash := g } := by
    refine fun g => ⟨⟨h.sync.pdevice, hsteady.isQuad h.sync.quad, hsteady.dummyCycles.trans h.sync.latency⟩, ?_⟩
    rw [send_heard hhears]
    exact h.idle
  apply wp_attempts (I := (· = s)) rfl
  · intro s₁ he
    subst he
    exact ⟨h.idle, hhears, herase, hdata⟩
  · intro s₁ s' he hs
    subst he
    rcases hs with ⟨-, rfl⟩ | ⟨-, hr, -⟩
    · refine ⟨hsent _, fun _ => ?_⟩
      rw [send_heard hhears]
      exact ⟨rfl, rfl, rfl⟩
    · exact absurd rfl hr
  · intro s₁ r s' he hr hs
    subst he
    rcases hs with ⟨hr', -⟩ | ⟨-, -, rfl⟩
    · exact absurd hr' hr
    · exact ⟨⟨h, fun hok => absurd (ofHal_eq_ok.mp hok) hr⟩, trivial, fun _ ha => ha⟩

/-- The wait for a transfer ends with it, or leaves the bus without it. -/
theorem wait_ready {q : Qspi} {s : St} (h : InSync x q s) (hu : s.transfer ≠ none) (lim : Timeout) :
    wp (kept x w fails) (timedWait lim) (fun _ s' => Ready x q s') s := by
  refine wp_timedWait.mpr ⟨hu, ?_⟩
  intro r s' hs
  have hend : s'.chip = s.chip ∧ s'.transfer = none := by
    rcases hs with ⟨-, v, -, hland, -⟩ | ⟨-, -, rfl⟩
    · show (unroll w s').chip = _ ∧ (unroll w s').transfer = _
      generalize unroll w s' = m at hland
      cases hland <;> exact ⟨rfl, rfl⟩
    · exact ⟨rfl, rfl⟩
  exact ⟨inSync_of_chip h (by rw [hend.1]) (by rw [hend.1]) (by rw [hend.1]), hend.2⟩

theorem quiet_invalidateDcache (p : Ptr) (n : Nat) : (invalidateDcache p n).All (Quiet (kept x w fails)) :=
  all_invalidateDcache (fun _ => ⟨trivial, fun _ _ h => h⟩) (fun _ _ _ => ⟨trivial, fun _ _ h => h⟩)
    (fun _ => ⟨trivial, fun _ _ h => h⟩) p n

theorem quiet_cleanDcache (p : Ptr) (n : Nat) : (cleanDcache p n).All (Quiet (kept x w fails)) :=
  all_cleanDcache (fun _ => ⟨trivial, fun _ _ h => h⟩) (fun _ _ _ => ⟨trivial, fun _ _ h => h⟩)
    (fun _ => ⟨trivial, fun _ _ h => h⟩) p n

theorem read_ready {q : Qspi} {s : St} (h : Ready x q s) (a : Nat) (p : Ptr) (n : Nat) :
    wp (kept x w fails) (Driver.read q a p n) (fun _ s' => Ready x q s') s := by
  unfold Driver.read
  rw [h.sync.pdevice]
  refine wp_onOk (wp_mono (command_ready h rfl trivial (fun he => absurd he id) fun _ => nofun) ?_)
  intro r s₁ h₁
  obtain ⟨h₁, hsent⟩ := h₁
  refine ⟨fun hr => ?_, fun _ => h₁⟩
  obtain ⟨hheard, hcmd, -⟩ := hsent hr
  refine wp_when (wp_allQuiet (quiet_invalidateDcache p n) s₁) ?_
  have hlat : latency s₁.cmd = s₁.chip.dummyCycles := by
    rw [hcmd]
    exact h₁.sync.latency.symm
  refine wp_onOk (wp_halReceiveDMA.mpr ⟨⟨h₁.idle, hheard, by rw [hcmd]; rfl, hlat⟩, ?_⟩)
  intro r s₂ hs
  rcases hs with ⟨rfl, rfl⟩ | ⟨-, hr, rfl⟩
  · have hsync : InSync x q { s₁ with transfer := some (.receive p) } := inSync_of_chip h₁.sync rfl rfl rfl
    exact ⟨fun _ => wait_ready hsync (Option.some_ne_none _) _, fun hne => absurd rfl hne⟩
  · exact ⟨fun hok => absurd (ofHal_eq_ok.mp hok) hr, fun _ => h₁⟩

/-- The poll that ends an erase or a program. -/
theorem poll_ready {q : Qspi} {s : St} (h : Ready x q s) {cmd : QspiCommand}
    (hi : cmd.instruction = .READ_STATUS_REGISTER) (hmode : cmd.instructionMode = .four) (lim : Timeout) :
    wp (kept x w fails) (onOk (halAutoPollingIT cmd statusPoll) (timedWait lim)) (fun _ s' => Ready x q s') s := by
  have hm : Mild cmd.instruction := by rw [hi]; trivial
  have hsteady := send_steady (x := x) s hm
  refine wp_onOk (wp_halAutoPollingIT.mpr ⟨⟨h.idle, quad_hears h.sync.quad hmode, hi⟩, ?_⟩)
  intro r s₁ hs
  obtain ⟨rfl, rfl⟩ := hs
  refine ⟨fun _ => wait_ready ?_ (Option.some_ne_none _) lim, fun hne => absurd rfl hne⟩
  exact ⟨h.sync.pdevice, hsteady.isQuad h.sync.quad, hsteady.dummyCycles.trans h.sync.latency⟩

/-- WRITE_ENABLE sets write enable. -/
theorem writeEnable_ready {q : Qspi} {s : St} (h : Ready x q s) {t : Timeout} :
    wp (kept x w fails) (qspiCommand { instruction := .WRITE_ENABLE, instructionMode := .four } t)
      (fun r s₁ => Ready x q s₁ ∧ (r = .ok → s₁.chip.writeEnabled = true)) s := by
  refine wp_mono (command_ready h rfl trivial (fun he => absurd he id) (by decide)) ?_
  intro r s₁ h₁
  refine ⟨h₁.1, fun hr => ?_⟩
  rw [(h₁.2 hr).2.2]
  rfl

theorem pageWrite_ready {q : Qspi} {s : St} (h : Ready x q s) (a : Nat) (p : Ptr) (n : Nat) :
    wp (kept x w fails) (pageWrite q a p n) (fun _ s' => Ready x q s') s := by
  unfold pageWrite
  refine wp_onOk (wp_mono (writeEnable_ready h) ?_)
  intro r s₁ h₁
  obtain ⟨h₁, hwel⟩ := h₁
  refine ⟨fun hr => ?_, fun _ => h₁⟩
  refine wp_onOk (wp_mono (command_ready h₁ rfl trivial (fun he => absurd he id) fun _ => nofun) ?_)
  intro r s₂ h₂
  obtain ⟨h₂, hsent⟩ := h₂
  refine ⟨fun hr₂ => ?_, fun _ => h₂⟩
  obtain ⟨hheard, hcmd, hchip⟩ := hsent hr₂
  have hwel₂ : s₂.chip.writeEnabled = true := by
    rw [hchip]
    exact hwel hr
  refine wp_when (wp_allQuiet (quiet_cleanDcache p n) s₂) ?_
  refine wp_onOk (wp_halTransmitDMA.mpr ⟨⟨h₂.idle, hheard, by rw [hcmd], hwel₂⟩, ?_⟩)
  intro r s₃ hs
  rcases hs with ⟨rfl, rfl⟩ | ⟨-, hr, rfl⟩
  · refine ⟨fun _ => wp_onOk ?_, fun hne => absurd rfl hne⟩
    have hsync : InSync x q { s₂ with
        flash := programmed w s₂ p, transfer := some .other, chip := { s₂.chip with writeEnabled := false } } :=
      inSync_of_chip h₂.sync rfl rfl rfl
    refine wp_mono (wait_ready hsync (Option.some_ne_none _) _) ?_
    exact fun r s₄ h₄ => ⟨fun _ => poll_ready h₄ rfl rfl _, fun _ => h₄⟩
  · exact ⟨fun hok => absurd (ofHal_eq_ok.mp hok) hr, fun _ => h₂⟩

theorem erase_ready {q : Qspi} {s : St} (h : Ready x q s) {which : Instruction} (hw : IsErase which) (a : Nat) :
    wp (kept x w fails) (erase q a which) (fun _ s' => Ready x q s') s := by
  unfold erase
  rw [h.sync.pdevice]
  refine wp_onOk (wp_mono (writeEnable_ready h) ?_)
  intro r s₁ h₁
  obtain ⟨h₁, hwel⟩ := h₁
  refine ⟨fun hr => ?_, fun _ => h₁⟩
  have hkind : Mild which ∧ ¬ (which = .FAST_READ_QUAD_IN_OUT ∨ which = .PAGE_PROGRAM) := by
    cases which <;> first | exact absurd hw id | exact ⟨trivial, by decide⟩
  refine wp_onOk (wp_mono (command_ready h₁ rfl hkind.1 (fun _ => ⟨rfl, hwel hr⟩) fun hi => absurd hi hkind.2) ?_)
  intro r s₂ h₂
  exact ⟨fun _ => poll_ready h₂.1 rfl rfl _, fun _ => h₂.1⟩

/-- In sync, the data path keeps to the guard, and stays in sync. -/
theorem dataOp_ready (tbl : List QspiManuf) {o : Op} (ho : DataOp o) {q : Qspi} {s : St} (h : Ready x q s) :
    wp (kept x w fails) (exec tbl o q) (fun y s' => y.2 = q ∧ Ready x q s') s := by
  have hcomposes : Composes fun {α} (p : M α) => ∀ s, Ready x q s →
      wp (kept x w fails) p (fun _ s' => Ready x q s') s := by
    refine ⟨fun _ _ h => h, fun hp hf s h => wp_seq (hp s h) fun a => hf a, fun c hc hn s h => ?_⟩
    refine ⟨?_, fun r s' hs => ?_⟩
    · cases c <;> first | exact absurd hc id | exact absurd rfl hn | exact h.idle | trivial
    · have hsame : s' = s := by
        cases c <;> first | exact absurd hc id | exact hs.2 | exact hs
      rw [hsame]
      exact h
  obtain ⟨α, out, p, heq, hp⟩ := hcomposes.dataOp (q := q) tbl ho
    (fun s h => by rw [sectorSizeOf_eq h.sync.pdevice]; exact h)
    (fun a p n _ s h => read_ready h a p n) (fun a p n _ s h => pageWrite_ready h a p n)
    (fun i a hi s h => erase_ready h hi a) fun n r s h => ⟨trivial, fun _ s' hs => by rw [show s' = s from hs]; exact h⟩
  rw [heq]
  exact wp_seq (hp s h) fun _ _ h' => ⟨rfl, h'⟩

/-! ## Whole runs -/

/-- Every question has an answer. -/
theorem bus_total (s : St) (c : Call) : ∃ r s', (bus x w fails).step s c r s' := by
  cases c with
  | timedWait t =>
    cases hu : s.transfer with
    | none => exact ⟨false, _, Or.inr ⟨rfl, Or.inl hu, rfl⟩⟩
    | some u =>
      have hunroll : unroll w { land x (unroll w s) u with flash := s.flash } = land x (unroll w s) u := by
        cases u <;> rfl
      refine ⟨true, { land x (unroll w s) u with flash := s.flash }, Or.inl ⟨rfl, u, hu, ?_, rfl⟩⟩
      rw [hunroll]
      exact land_lands x (unroll w s) u
  | halCommand cmd t => exact ⟨.ok, _, Or.inl ⟨rfl, rfl⟩⟩
  | halAutoPollingIT cmd cfg => exact ⟨.ok, _, rfl, rfl⟩
  | halReceiveIT => exact ⟨.ok, _, Or.inl ⟨rfl, rfl⟩⟩
  | halReceiveDMA p => exact ⟨.ok, _, Or.inl ⟨rfl, rfl⟩⟩
  | halTransmitDMA p => exact ⟨.ok, _, Or.inl ⟨rfl, rfl⟩⟩
  | halTransmit b t => exact ⟨.ok, _, Or.inl ⟨rfl, rfl⟩⟩
  | halMemoryMapped cmd cfg => exact ⟨.ok, _, rfl⟩
  | halAbort => exact ⟨.ok, _, rfl⟩
  | idBytes => exact ⟨_, _, rfl, rfl⟩
  | load p => exact ⟨_, _, rfl, rfl⟩
  | dcacheEnabled => exact ⟨false, _, rfl⟩
  | nullDeref => exact ⟨0, _, rfl⟩
  | _ => exact ⟨(), _, rfl⟩

/-- The state of `Bus.Nor` with the chip's flash. -/
def norSide (s : St) : Nor.St := { Nor.start s.flash s.mem with cmd := s.cmd }

theorem norSide_follows {s : St} (h : s.transfer = none) : Follows w s (norSide s) := by
  refine ⟨rfl, (arriving_idle h).symm, fun _ => rfl, fun u hu => ?_⟩
  rw [h] at hu
  cases hu

end QspiFlash.Bus.Device
