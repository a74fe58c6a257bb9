/-
  QspiFlash.Bus.Nor — the bus with a NOR flash behind it, fault-free or faulty.

  The state is the flash, the memory the driver's pointers reach, and what the
  controller and the chip are busy with. A read fills its buffer, a PAGE_PROGRAM is
  `NorArray.program` on 256-byte pages, an erase is `NorArray.eraseUnit`, each with the `NbData`
  of its command and the address taken modulo the chip's address bits.

  With `faults`, any HAL call may fail and any wait may time out. What then happens to
  the flash is confined to the target of the operation that failed: the sector of a
  failed erase and the page of a failed program are left with any content (`Spoil`).
  No event is taken by another wait than its own, and the chip is idle when the next command
  comes. A PAGE_PROGRAM whose command fails once and is accepted at the retry is not a failed
  program. `eraseMayFail n` says which sectors' `erase_sector` may return a failure.

  One specification for each driver operation: `read_spec`, `pageWrite_spec`,
  `writeLoop_spec`, `erase_spec`.
-/

import QspiFlash.Nor.Array
import QspiFlash.Driver.Asks

namespace QspiFlash.Bus.Nor

open Interact Driver
open NorArray (Bytes)

structure Params where
  /-- The chip's sector, in bytes. -/
  sectorSize : Nat
  /-- The address bits the chip decodes. -/
  addrBits : Nat
  faults : Bool
  eraseMayFail : Nat → Prop

/-- What an erase or a program works on: the aligned unit of an address, or the chip. -/
inductive Target where
  | unit (size addr : Nat)
  | all
  deriving DecidableEq, Repr

def Target.Has : Target → Nat → Prop
  | .unit U a, x => x / U = a / U
  | .all, _ => True

@[simp] theorem has_unit {U a x : Nat} : (Target.unit U a).Has x ↔ x / U = a / U := Iff.rfl

def Target.erased : Target → Bytes → Bytes
  | .unit U a, f => NorArray.eraseUnit U f a
  | .all, _ => fun _ => 0xFF

/-- What the last started operation works on. -/
inductive Busy where
  | idle
  | receiving (buff : Ptr) (n : Nat)
  | writing (t : Target)

inductive ChipOp where
  | erase (which : Instruction) (t : Target)
  | program (address count : Nat)
  deriving DecidableEq, Repr

structure St where
  flash : Bytes
  mem : Region → Nat → UInt8
  /-- The last command accepted with a data phase. -/
  cmd : QspiCommand
  /-- The next command is the retry of one that failed. -/
  retry : Bool
  busy : Busy
  /-- The erases and programs the chip accepted. -/
  log : List ChipOp

/-- The bus before any call. -/
def start (flash : Bytes) (mem : Region → Nat → UInt8) : St :=
  ⟨flash, mem, { instruction := .READ_STATUS_REGISTER, instructionMode := .none }, false, .idle, []⟩

variable (b : Params)

def decode (a : Nat) : Nat := a % 2 ^ b.addrBits

def eraseTarget (cmd : QspiCommand) : Option Target :=
  match cmd.instruction with
  | .SECTOR_ERASE => some (.unit b.sectorSize (decode b cmd.address))
  | .BLOCK_32K_ERASE => some (.unit 0x8000 (decode b cmd.address))
  | .BLOCK_64K_ERASE => some (.unit 0x10000 (decode b cmd.address))
  | .CHIP_ERASE => some .all
  | _ => none

/-- An accepted command: one with a data phase waits for its transfer. -/
def accept (s : St) (cmd : QspiCommand) : St :=
  if cmd.dataMode = .none then
    match eraseTarget b cmd with
    | some t => { s with
        flash := t.erased s.flash, busy := .writing t, log := s.log ++ [.erase cmd.instruction t], retry := false }
    | none => { s with retry := false }
  else { s with cmd := cmd, retry := false }

def page (cmd : QspiCommand) : Target := .unit 256 (decode b cmd.address)

/-- What a command that fails leaves in an unknown state. -/
def commandTarget (s : St) (cmd : QspiCommand) : Busy :=
  match eraseTarget b cmd with
  | some t => .writing t
  | none => if cmd.instruction = .PAGE_PROGRAM ∧ s.retry = true then .writing (page b cmd) else .idle

/-- The bytes at `p` in memory. -/
def bytesAt (s : St) (p : Ptr) : Bytes := fun i => s.mem p.region (p.off + i)

def fill (m : Region → Nat → UInt8) (p : Ptr) (n : Nat) (d : Bytes) : Region → Nat → UInt8 :=
  fun r o => if r = p.region ∧ p.off ≤ o ∧ o < p.off + n then d (o - p.off) else m r o

def received (s : St) (p : Ptr) : St :=
  { s with
    mem := fill s.mem p s.cmd.nbData fun i => s.flash (decode b (s.cmd.address + i))
    busy := .receiving p s.cmd.nbData }

def programmed (s : St) (p : Ptr) : St :=
  if s.cmd.instruction = .PAGE_PROGRAM then
    { s with
      flash := NorArray.program 256 s.flash (decode b s.cmd.address) (bytesAt s p) s.cmd.nbData
      busy := .writing (page b s.cmd)
      log := s.log ++ [.program (decode b s.cmd.address) s.cmd.nbData] }
  else s

def Busy.Flash : Busy → Nat → Prop
  | .writing t, x => t.Has x
  | _, _ => False

def Busy.Buffer : Busy → Region → Nat → Prop
  | .receiving p n, r, o => r = p.region ∧ p.off ≤ o ∧ o < p.off + n
  | _, _, _ => False

/-- `s'` is `s` but for what `t` works on. -/
def Spoil (t : Busy) (s s' : St) : Prop :=
  ∃ g m, (∀ x, ¬ t.Flash x → g x = s.flash x) ∧ (∀ r o, ¬ t.Buffer r o → m r o = s.mem r o) ∧
    s' = { s with flash := g, mem := m }

def step (s : St) : (c : Call) → c.Resp → St → Prop
  | .halCommand cmd _, r, s' => (r = .ok ∧ s' = accept b s cmd) ∨
      (b.faults = true ∧ r ≠ .ok ∧ Spoil (commandTarget b s cmd) { s with retry := false } s')
  | .crAbort, _, s' => s' = { s with retry := true }
  | .halReceiveDMA p, r, s' => (r = .ok ∧ s' = received b s p) ∨ (b.faults = true ∧ r ≠ .ok ∧ s' = s)
  | .halTransmitDMA p, r, s' => (r = .ok ∧ s' = programmed b s p) ∨
      (b.faults = true ∧ r ≠ .ok ∧ Spoil (.writing (page b s.cmd)) s s')
  | .halAutoPollingIT _ _, r, s' => (r = .ok ∧ s' = s) ∨ (b.faults = true ∧ r ≠ .ok ∧ Spoil s.busy s s')
  | .timedWait _, r, s' => (r = true ∧ s' = s) ∨ (b.faults = true ∧ r = false ∧ Spoil s.busy s s')
  | .halReceiveIT, r, s' => (r = .ok ∨ b.faults = true) ∧ s' = s
  | .halTransmit _ _, r, s' => (r = .ok ∨ b.faults = true) ∧ s' = s
  | .halMemoryMapped _ _, r, s' => (r = .ok ∨ b.faults = true) ∧ s' = s
  | .halAbort, r, s' => (r = .ok ∨ b.faults = true) ∧ s' = s
  | .load p, r, s' => r = s.mem p.region p.off ∧ s' = s
  | .dropped n r, _, s' => (r ≠ .ok → b.eraseMayFail n) ∧ s' = s
  | .idBytes, _, s' | .dcacheEnabled, _, s' | .cleanInvalidateDCache .., _, s' => s' = s
  | .cleanDCache .., _, s' | .qspiFactory _, _, s' | .setErrno _, _, s' | .wrapped, _, s' => s' = s
  | .nullDeref, _, s' | .overrun, _, s' => s' = s

/-- The bus. -/
def nor : Env Call Call.Resp St where
  guard _ _ := True
  step := step b

/-- The fault-free bus with sectors of `Z` bytes and `w` address bits. -/
def faultFree (Z w : Nat) : Params := ⟨Z, w, false, fun _ => True⟩

/-- The faulty bus, where the erases of the sectors in `F` may fail. -/
def faulty (Z w : Nat) (F : Nat → Prop) : Params := ⟨Z, w, true, F⟩

theorem faultFree_total (Z w : Nat) : (nor (faultFree Z w)).Total := by
  intro s c _
  cases c with
  | halCommand cmd t => exact ⟨.ok, _, Or.inl ⟨rfl, rfl⟩⟩
  | halReceiveDMA p => exact ⟨.ok, _, Or.inl ⟨rfl, rfl⟩⟩
  | halTransmitDMA p => exact ⟨.ok, _, Or.inl ⟨rfl, rfl⟩⟩
  | halAutoPollingIT cmd cfg => exact ⟨.ok, _, Or.inl ⟨rfl, rfl⟩⟩
  | timedWait t => exact ⟨true, _, Or.inl ⟨rfl, rfl⟩⟩
  | halReceiveIT => exact ⟨.ok, _, Or.inl rfl, rfl⟩
  | halTransmit d t => exact ⟨.ok, _, Or.inl rfl, rfl⟩
  | halMemoryMapped cmd cfg => exact ⟨.ok, _, Or.inl rfl, rfl⟩
  | halAbort => exact ⟨.ok, _, Or.inl rfl, rfl⟩
  | load p => exact ⟨_, _, rfl, rfl⟩
  | dropped n r => exact ⟨(), _, fun _ => trivial, rfl⟩
  | idBytes => exact ⟨(0, 0, 0), _, rfl⟩
  | dcacheEnabled => exact ⟨false, _, rfl⟩
  | nullDeref => exact ⟨0, _, rfl⟩
  | _ => exact ⟨(), _, rfl⟩

/-! ## Commands -/

variable {b}

/-- Nothing the driver or its caller can see has changed. -/
structure Kept (s s' : St) : Prop where
  flash : s'.flash = s.flash
  mem : s'.mem = s.mem
  log : s'.log = s.log
  retry : s'.retry = false

theorem Kept.refl {s : St} (h : s.retry = false) : Kept s s := ⟨rfl, rfl, rfl, h⟩

theorem Kept.trans {s s₁ s₂ : St} (h : Kept s s₁) (h' : Kept s₁ s₂) : Kept s s₂ :=
  ⟨h'.flash.trans h.flash, h'.mem.trans h.mem, h'.log.trans h.log, h'.retry⟩

/-- The flash is as it was outside `T`, the memory too. -/
structure Within (T : Nat → Prop) (s s' : St) : Prop where
  flash : ∀ x, ¬ T x → s'.flash x = s.flash x
  mem : s'.mem = s.mem
  retry : s'.retry = false

theorem Kept.within {s s' : St} (h : Kept s s') (T : Nat → Prop) : Within T s s' :=
  ⟨fun x _ => by rw [h.flash], h.mem, h.retry⟩

theorem Within.trans {T : Nat → Prop} {s s₁ s₂ : St} (h : Within T s s₁) (h' : Within T s₁ s₂) : Within T s s₂ :=
  ⟨fun x hx => (h'.flash x hx).trans (h.flash x hx), h'.mem.trans h.mem, h'.retry⟩

theorem Within.mono {T T' : Nat → Prop} {s s' : St} (h : Within T s s') (hT : ∀ x, T x → T' x) : Within T' s s' :=
  ⟨fun x hx => h.flash x fun ht => hx (hT x ht), h.mem, h.retry⟩

theorem spoil_idle {s s' : St} (h : Spoil .idle s s') : s' = s := by
  obtain ⟨g, m, hg, hm, rfl⟩ := h
  have : g = s.flash := funext fun x => hg x id
  have : m = s.mem := funext fun r => funext fun o => hm r o id
  subst g m
  rfl

theorem spoil_writing {t : Target} {s s' : St} (h : Spoil (.writing t) s s') (hs : s.retry = false) :
    Within t.Has s s' := by
  obtain ⟨g, m, hg, hm, rfl⟩ := h
  exact ⟨hg, funext fun r => funext fun o => hm r o id, hs⟩

/-- The two attempts of a command: accepted at once, accepted after a failure, or failed twice. -/
theorem command_attempts {cmd : QspiCommand} {t : Timeout} {s : St} {Q : QspiResult → St → Prop}
    (hok : Q .ok (accept b s cmd))
    (hretry : ∀ s₁, b.faults = true → Spoil (commandTarget b s cmd) { s with retry := false } s₁ →
      Q .ok (accept b { s₁ with retry := true } cmd) ∧
      ∀ r s₂, r ≠ .ok → Spoil (commandTarget b { s₁ with retry := true } cmd) { s₁ with retry := false } s₂ → Q r s₂) :
    wp (nor b) (qspiCommand cmd t) Q s := by
  apply wp_qspiCommand trivial
  · intro s₁ hstep
    rcases hstep with ⟨-, rfl⟩ | ⟨-, h, -⟩
    · exact hok
    · exact absurd rfl h
  · intro r s₁ hr hstep
    rcases hstep with ⟨h, -⟩ | ⟨hf, -, hsp⟩
    · exact absurd h hr
    obtain ⟨haccepted, hfailed⟩ := hretry s₁ hf hsp
    refine ⟨trivial, fun s₂ h2 => ⟨trivial, ?_⟩⟩
    cases h2
    intro r' s₃ hstep
    rcases hstep with ⟨rfl, rfl⟩ | ⟨-, hr', hsp'⟩
    · exact haccepted
    · exact hfailed _ s₃ (fun h => hr' (ofHal_eq_ok.mp h)) hsp'

/-- A command without an effect on the flash. -/
theorem command_spec {cmd : QspiCommand} {t : Timeout} {s : St} (hs : s.retry = false)
    (he : eraseTarget b cmd = none) (hp : cmd.instruction ≠ .PAGE_PROGRAM) :
    wp (nor b) (qspiCommand cmd t) (fun r s' => Kept s s' ∧ (r = .ok → cmd.dataMode ≠ .none → s'.cmd = cmd) ∧
      (r ≠ .ok → b.faults = true)) s := by
  have hacc : ∀ s₀ : St, Kept s s₀ ∨ (∃ s₁, Kept s s₁ ∧ s₀ = { s₁ with retry := true }) →
      Kept s (accept b s₀ cmd) ∧ (cmd.dataMode ≠ .none → (accept b s₀ cmd).cmd = cmd) := by
    intro s₀ h
    unfold accept
    rcases h with h | ⟨s₁, h, rfl⟩
    · split
      · rw [he]; exact ⟨⟨h.flash, h.mem, h.log, rfl⟩, fun hn => absurd ‹_› hn⟩
      · exact ⟨⟨h.flash, h.mem, h.log, rfl⟩, fun _ => rfl⟩
    · split
      · rw [he]; exact ⟨⟨h.flash, h.mem, h.log, rfl⟩, fun hn => absurd ‹_› hn⟩
      · exact ⟨⟨h.flash, h.mem, h.log, rfl⟩, fun _ => rfl⟩
  have hidle : ∀ s₀ : St, commandTarget b s₀ cmd = .idle := by
    intro s₀; unfold commandTarget; rw [he]; exact if_neg fun h => hp h.1
  apply command_attempts
  · obtain ⟨h1, h2⟩ := hacc s (Or.inl (.refl hs))
    exact ⟨h1, fun _ => h2, fun h => absurd rfl h⟩
  · intro s₁ hf hsp
    rw [hidle] at hsp
    have h1 : Kept s s₁ := by rw [spoil_idle hsp]; exact ⟨rfl, rfl, rfl, rfl⟩
    constructor
    · obtain ⟨h3, h4⟩ := hacc { s₁ with retry := true } (Or.inr ⟨s₁, h1, rfl⟩)
      exact ⟨h3, fun _ => h4, fun _ => hf⟩
    · intro r s₂ hr hsp'
      rw [hidle] at hsp'
      rw [spoil_idle hsp']
      exact ⟨⟨h1.flash, h1.mem, h1.log, rfl⟩, fun h => absurd h hr, fun _ => hf⟩

/-- The command of a program: its page is at stake only when both attempts fail. -/
theorem program_command_spec {cmd : QspiCommand} {t : Timeout} {s : St} (hs : s.retry = false)
    (hi : cmd.instruction = .PAGE_PROGRAM) (hd : cmd.dataMode ≠ .none) :
    wp (nor b) (qspiCommand cmd t) (fun r s' => (r = .ok → Kept s s' ∧ s'.cmd = cmd) ∧
      (r ≠ .ok → b.faults = true ∧ Within (page b cmd).Has s s')) s := by
  have he : eraseTarget b cmd = none := by unfold eraseTarget; rw [hi]
  have hacc : ∀ s₀ : St, accept b s₀ cmd = { s₀ with cmd := cmd, retry := false } := fun s₀ => if_neg hd
  apply command_attempts
  · rw [hacc]
    exact ⟨fun _ => ⟨⟨rfl, rfl, rfl, rfl⟩, rfl⟩, fun h => absurd rfl h⟩
  · intro s₁ hf hsp
    have hidle : commandTarget b s cmd = .idle := by
      unfold commandTarget; rw [he]; exact if_neg fun h => by rw [hs] at h; cases h.2
    rw [hidle] at hsp
    have h1 : Kept s s₁ := by rw [spoil_idle hsp]; exact ⟨rfl, rfl, rfl, rfl⟩
    constructor
    · rw [hacc]
      exact ⟨fun _ => ⟨⟨h1.flash, h1.mem, h1.log, rfl⟩, rfl⟩, fun h => absurd rfl h⟩
    · intro r s₂ hr hsp'
      have hpage : commandTarget b { s₁ with retry := true } cmd = .writing (page b cmd) := by
        unfold commandTarget; rw [he]; exact if_pos ⟨hi, rfl⟩
      rw [hpage] at hsp'
      have hw := spoil_writing hsp' rfl
      refine ⟨fun h => absurd h hr, fun _ => ⟨hf, fun x hx => ?_, ?_, hw.retry⟩⟩
      · exact (hw.flash x hx).trans (congrFun h1.flash x)
      · exact hw.mem.trans h1.mem

theorem erased_of_within {t : Target} {f g : Bytes} (h : ∀ x, ¬ t.Has x → g x = f x) : t.erased g = t.erased f := by
  funext x
  cases t with
  | unit U a =>
    simp only [Target.erased, NorArray.eraseUnit]
    split
    · rfl
    · exact h x ‹_›
  | all => rfl

/-- The command of an erase. -/
theorem erase_command_spec {cmd : QspiCommand} {t : Timeout} {tgt : Target} {s : St}
    (he : eraseTarget b cmd = some tgt) (hd : cmd.dataMode = .none) :
    wp (nor b) (qspiCommand cmd t) (fun r s' => s'.mem = s.mem ∧ s'.retry = false ∧
      (r = .ok → s'.flash = tgt.erased s.flash ∧ s'.log = s.log ++ [.erase cmd.instruction tgt] ∧ s'.busy = .writing tgt) ∧
      (r ≠ .ok → b.faults = true ∧ Within tgt.Has s s')) s := by
  have hacc : ∀ s₀ : St, accept b s₀ cmd = { s₀ with
      flash := tgt.erased s₀.flash, busy := .writing tgt, log := s₀.log ++ [.erase cmd.instruction tgt]
      retry := false } := by
    intro s₀; unfold accept; rw [if_pos hd, he]
  have htgt : ∀ s₀ : St, commandTarget b s₀ cmd = .writing tgt := by
    intro s₀; unfold commandTarget; rw [he]
  apply command_attempts
  · rw [hacc]
    exact ⟨rfl, rfl, fun _ => ⟨rfl, rfl, rfl⟩, fun h => absurd rfl h⟩
  · intro s₁ hf hsp
    rw [htgt] at hsp
    obtain ⟨g, m, hg, hm, rfl⟩ := hsp
    have hmem : m = s.mem := funext fun r => funext fun o => hm r o id
    subst hmem
    constructor
    · rw [hacc]
      exact ⟨rfl, rfl, fun _ => ⟨erased_of_within hg, rfl, rfl⟩, fun h => absurd rfl h⟩
    · intro r s₂ hr hsp'
      rw [htgt] at hsp'
      have hw := spoil_writing hsp' rfl
      refine ⟨hw.mem, hw.retry, fun h => absurd h hr, fun _ => ⟨hf, fun x hx => ?_, hw.mem, hw.retry⟩⟩
      exact (hw.flash x hx).trans (hg x hx)

/-- The questions with no effect on the bus: marks, `errno`, the cache. -/
def Silent (c : Call) : Prop := ∀ (b : Params) (s : St) r s', step b s c r s' → s' = s

theorem silent_spec {p : M α} (hp : p.All Silent) (s : St) : wp (nor b) p (fun _ s' => s' = s) s :=
  wp_inv (fun _ _ _ _ => trivial) (fun s₀ _ r s' hc hs he => (hc b s₀ r s' he).trans hs) hp rfl

theorem silent_cleanDcache (p : Ptr) (n : Nat) : (cleanDcache p n).All Silent :=
  all_cleanDcache (fun _ _ _ _ h => h) (fun _ _ _ _ _ _ h => h) (fun _ _ _ _ h => h) p n

theorem silent_invalidateDcache (p : Ptr) (n : Nat) : (invalidateDcache p n).All Silent :=
  all_invalidateDcache (fun _ _ _ _ h => h) (fun _ _ _ _ _ _ h => h) (fun _ _ _ _ h => h) p n

theorem wp_setErrno {e : Errno} {Q : Unit → St → Prop} {s : St} : wp (nor b) (ask (.setErrno e)) Q s ↔ Q () s :=
  ⟨fun h => h.2 () s rfl, fun h => ⟨trivial, fun _ _ hs => by cases hs; exact h⟩⟩

/-! ## The driver's operations -/

/-- After `read` of `n` bytes at `a` into `p`. -/
structure ReadPost (b : Params) (s : St) (a : Nat) (p : Ptr) (n : Nat) (r : QspiResult) (s' : St) : Prop where
  flash : s'.flash = s.flash
  log : s'.log = s.log
  retry : s'.retry = false
  ok : r = .ok → s'.mem = fill s.mem p n fun i => s.flash (decode b (a + i))
  failed : r ≠ .ok → b.faults = true
  frame : ∀ t o, ¬ (t = p.region ∧ p.off ≤ o ∧ o < p.off + n) → s'.mem t o = s.mem t o

theorem fill_off {m : Region → Nat → UInt8} {p : Ptr} {n : Nat} {d : Bytes} {t : Region} {o : Nat}
    (h : ¬ (t = p.region ∧ p.off ≤ o ∧ o < p.off + n)) : fill m p n d t o = m t o := if_neg h

theorem fill_on {m : Region → Nat → UInt8} {p : Ptr} {n i : Nat} {d : Bytes} (h : i < n) :
    fill m p n d p.region (p.off + i) = d i := by
  unfold fill; rw [if_pos ⟨rfl, by omega, by omega⟩, Nat.add_sub_cancel_left]

theorem read_spec {q : Qspi} {d : QspiDevice} (hq : q.pdevice = some d) (a : Nat) (p : Ptr) (n : Nat) {s : St}
    (hs : s.retry = false) : wp (nor b) (Driver.read q a p n) (ReadPost b s a p n) s := by
  unfold Driver.read
  rw [hq]
  refine wp_onOk (wp_mono (command_spec hs rfl nofun) ?_)
  intro r s₁ hpost
  obtain ⟨hk, hcmd, hfail⟩ := hpost
  refine ⟨fun hr => ?_, fun hr => ⟨hk.flash, hk.log, hk.retry, fun h => absurd h hr, hfail, fun _ _ _ => by rw [hk.mem]⟩⟩
  have hc := hcmd hr nofun
  refine wp_when (silent_spec (silent_invalidateDcache _ _) s₁) ?_
  refine wp_onOk (wp_halReceiveDMA.mpr ⟨trivial, ?_⟩)
  intro r₂ s₂ hstep
  rcases hstep with ⟨rfl, rfl⟩ | ⟨hf, hr₂, rfl⟩
  · refine ⟨fun _ => wp_timedWait.mpr ⟨trivial, ?_⟩, fun h => absurd rfl h⟩
    have hok : ∀ s' : St, s' = received b s₁ p → ReadPost b s a p n .ok s' := by
      rintro _ rfl
      refine ⟨hk.flash, hk.log, hk.retry, fun _ => ?_, fun h => absurd rfl h, fun t o ho => ?_⟩
      · simp only [received, hc, hk.mem, hk.flash]
      · simp only [received, hc, hk.mem]; exact fill_off ho
    intro r₃ s₃ hstep
    rcases hstep with ⟨rfl, rfl⟩ | ⟨hf, rfl, g, m, hg, hm, rfl⟩
    · exact hok _ rfl
    · have hflash : g = s.flash := funext fun x => (hg x id).trans (congrFun hk.flash x)
      refine ⟨hflash, hk.log, hk.retry, nofun, fun _ => hf, fun t o ho => ?_⟩
      have := hm t o (by simpa only [received, Busy.Buffer, hc] using ho)
      simp only [received, hc, hk.mem] at this
      exact this.trans (fill_off ho)
  · have hne : ofHal r₂ ≠ .ok := fun h => hr₂ (ofHal_eq_ok.mp h)
    exact ⟨fun h => absurd h hne, fun _ => ⟨hk.flash, hk.log, hk.retry, fun h => absurd h hne, fun _ => hf,
      fun _ _ _ => by rw [hk.mem]⟩⟩

/-- The poll that ends a program or an erase: one that fails spoils what is in progress. -/
theorem poll_spec {cmd : QspiCommand} {t : Timeout} {tgt : Target} {s : St} (hs : s.retry = false)
    (hb : s.busy = .writing tgt) : wp (nor b) (onOk (halAutoPollingIT cmd statusPoll) (timedWait t))
      (fun r s' => (r = .ok → s' = s) ∧ (r ≠ .ok → b.faults = true ∧ Within tgt.Has s s')) s := by
  refine wp_onOk (wp_halAutoPollingIT.mpr ⟨trivial, ?_⟩)
  intro r s₁ hstep
  rcases hstep with ⟨rfl, rfl⟩ | ⟨hf, hr, hsp⟩
  · refine ⟨fun _ => wp_timedWait.mpr ⟨trivial, ?_⟩, fun h => absurd rfl h⟩
    intro r s₂ hstep
    rcases hstep with ⟨rfl, rfl⟩ | ⟨hf, rfl, hsp⟩
    · exact ⟨fun _ => rfl, fun h => absurd rfl h⟩
    · rw [hb] at hsp
      exact ⟨nofun, fun _ => ⟨hf, spoil_writing hsp hs⟩⟩
  · rw [hb] at hsp
    have hne : ofHal r ≠ .ok := fun h => hr (ofHal_eq_ok.mp h)
    exact ⟨fun h => absurd h hne, fun _ => ⟨fun h => absurd h hne, fun _ => ⟨hf, spoil_writing hsp hs⟩⟩⟩

/-- After `page_write` of `n` bytes at `a` from `p`. -/
structure PagePost (b : Params) (s : St) (a : Nat) (p : Ptr) (n : Nat) (r : QspiResult) (s' : St) : Prop where
  within : Within (Target.unit 256 (decode b a)).Has s s'
  ok : r = .ok → s'.flash = NorArray.program 256 s.flash (decode b a) (bytesAt s p) n ∧
    s'.log = s.log ++ [.program (decode b a) n]
  failed : r ≠ .ok → b.faults = true

theorem PagePost.fail {s s' : St} {a n : Nat} {p : Ptr} {r : QspiResult} (hr : r ≠ .ok) (hf : b.faults = true)
    (h : Within (Target.unit 256 (decode b a)).Has s s') : PagePost b s a p n r s' :=
  ⟨h, fun h => absurd h hr, fun _ => hf⟩

theorem pageWrite_spec (q : Qspi) (a : Nat) (p : Ptr) (n : Nat) {s : St} (hs : s.retry = false) :
    wp (nor b) (pageWrite q a p n) (PagePost b s a p n) s := by
  unfold pageWrite
  refine wp_onOk (wp_mono (command_spec hs rfl nofun) ?_)
  intro r s₁ hpost
  obtain ⟨hk, -, hf⟩ := hpost
  refine ⟨fun _ => ?_, fun hr => .fail hr (hf hr) (hk.within _)⟩
  refine wp_onOk (wp_mono (program_command_spec hk.retry rfl nofun) ?_)
  intro r s₂ hpost
  obtain ⟨hok, hbad⟩ := hpost
  refine ⟨fun hr => ?_, fun hr => .fail hr (hbad hr).1 ((hk.within _).trans (hbad hr).2)⟩
  obtain ⟨hk₂, hc⟩ := hok hr
  have hk := hk.trans hk₂
  refine wp_when (silent_spec (silent_cleanDcache _ _) s₂) ?_
  refine wp_onOk (wp_halTransmitDMA.mpr ⟨trivial, ?_⟩)
  intro r s₃ hstep
  rcases hstep with ⟨rfl, rfl⟩ | ⟨hf, hr, hsp⟩
  · refine ⟨fun _ => ?_, fun h => absurd rfl h⟩
    have hp : programmed b s₂ p = { s₂ with
        flash := NorArray.program 256 s.flash (decode b a) (bytesAt s p) n, busy := .writing (.unit 256 (decode b a)),
        log := s.log ++ [.program (decode b a) n] } := by
      unfold programmed bytesAt
      rw [if_pos (by rw [hc]), hc, hk.flash, hk.mem, hk.log]
      rfl
    rw [hp]
    have hw : Within (Target.unit 256 (decode b a)).Has s
        { s₂ with
          flash := NorArray.program 256 s.flash (decode b a) (bytesAt s p) n
          busy := .writing (.unit 256 (decode b a))
          log := s.log ++ [.program (decode b a) n] } :=
      ⟨fun x hx => NorArray.program_frame (by omega) _ _ _ hx n, hk.mem, hk.retry⟩
    refine wp_onOk (wp_timedWait.mpr ⟨trivial, ?_⟩)
    intro r s₄ hstep
    rcases hstep with ⟨rfl, rfl⟩ | ⟨hf, rfl, hsp⟩
    · refine ⟨fun _ => wp_mono (poll_spec hk.retry rfl) ?_, fun h => absurd rfl h⟩
      intro r s₅ hpost
      obtain ⟨hok, hbad⟩ := hpost
      by_cases hr : r = .ok
      · rw [hok hr]; exact ⟨hw, fun _ => ⟨rfl, rfl⟩, fun h => absurd hr h⟩
      · exact .fail hr (hbad hr).1 (hw.trans (hbad hr).2)
    · exact ⟨nofun, fun hr => .fail hr hf (hw.trans (spoil_writing hsp hk.retry))⟩
  · have hne : ofHal r ≠ .ok := fun h => hr (ofHal_eq_ok.mp h)
    rw [show page b s₂.cmd = .unit 256 (decode b a) by rw [hc]; rfl] at hsp
    exact ⟨fun h => absurd h hne, fun _ => .fail hne hf ((hk.within _).trans (spoil_writing hsp hk.retry))⟩

/-- After the erase `which` of `t`. -/
structure ErasePost (b : Params) (s : St) (which : Instruction) (t : Target) (r : QspiResult) (s' : St) : Prop where
  within : Within t.Has s s'
  ok : r = .ok → s'.flash = t.erased s.flash ∧ s'.log = s.log ++ [.erase which t]
  failed : r ≠ .ok → b.faults = true

theorem ErasePost.fail {s s' : St} {which : Instruction} {t : Target} {r : QspiResult} (hr : r ≠ .ok)
    (hf : b.faults = true) (h : Within t.Has s s') : ErasePost b s which t r s' :=
  ⟨h, fun h => absurd h hr, fun _ => hf⟩

theorem erased_frame {t : Target} {f : Bytes} {x : Nat} (hx : ¬ t.Has x) : t.erased f x = f x := by
  cases t with
  | unit U a => exact if_neg hx
  | all => exact absurd trivial hx

/-- What `erase (address, which)` addresses, where `which` is one of the erases. -/
theorem erase_spec {q : Qspi} {d : QspiDevice} (hq : q.pdevice = some d) {a : Nat} {which : Instruction} {t : Target}
    (ht : ∀ cmd : QspiCommand, cmd.instruction = which → cmd.address = a → eraseTarget b cmd = some t) {s : St}
    (hs : s.retry = false) : wp (nor b) (erase q a which) (ErasePost b s which t) s := by
  unfold erase
  rw [hq]
  refine wp_onOk (wp_mono (command_spec hs rfl nofun) ?_)
  intro r s₁ hpost
  obtain ⟨hk, -, hf⟩ := hpost
  refine ⟨fun _ => ?_, fun hr => .fail hr (hf hr) (hk.within _)⟩
  refine wp_onOk (wp_mono (erase_command_spec (ht _ rfl rfl) rfl) ?_)
  intro r s₂ hpost
  obtain ⟨hm, hret, hok, hbad⟩ := hpost
  refine ⟨fun hr => ?_, fun hr => .fail hr (hbad hr).1 ((hk.within _).trans (hbad hr).2)⟩
  obtain ⟨hfl, hlog, hbusy⟩ := hok hr
  rw [hk.flash] at hfl
  have hw : Within t.Has s s₂ := ⟨fun x hx => by rw [hfl]; exact erased_frame hx, hm.trans hk.mem, hret⟩
  refine wp_mono (poll_spec hret hbusy) ?_
  intro r s₃ hpost
  obtain ⟨hok, hbad⟩ := hpost
  by_cases hr : r = .ok
  · rw [hok hr]; exact ⟨hw, fun _ => ⟨hfl, by rw [hlog, hk.log]⟩, fun h => absurd hr h⟩
  · exact .fail hr (hbad hr).1 (hw.trans (hbad hr).2)

/-- The pages `[a, a + n)` meets. -/
def Pages (a n x : Nat) : Prop := a / 256 ≤ x / 256 ∧ x / 256 ≤ (a + n - 1) / 256

/-- A page-aligned range of whole pages is its pages. -/
theorem pages_iff {a n x : Nat} (ha : 256 ∣ a) (hd : 256 ∣ n) (hn : 0 < n) : Pages a n x ↔ a ≤ x ∧ x < a + n := by
  obtain ⟨k, rfl⟩ := ha
  obtain ⟨m, rfl⟩ := hd
  unfold Pages
  omega

def programs (a n : Nat) : List ChipOp := (NorArray.cells 256 a n).map fun c => .program c.1 c.2

/-- After `write` of `n` bytes at `a` from `p`. -/
structure WritePost (b : Params) (s : St) (a : Nat) (p : Ptr) (n : Nat) (r : QspiResult) (s' : St) : Prop where
  within : Within (Pages a n) s s'
  ok : r = .ok → s'.flash = NorArray.andRange s.flash a n (bytesAt s p) ∧ s'.log = s.log ++ programs a n
  failed : r ≠ .ok → b.faults = true

theorem bytesAt_add {s s' : St} (h : s'.mem = s.mem) (p : Ptr) (m : Nat) :
    bytesAt s' (p.add m) = fun i => bytesAt s p (m + i) := by
  funext i
  simp only [bytesAt, h, Ptr.add_region, Ptr.add_off, Nat.add_assoc]

theorem writeLoop_spec (q : Qspi) : ∀ {n a : Nat} {p : Ptr} {s : St}, 0 < n → a + n ≤ 2 ^ b.addrBits →
    a + n < 2 ^ 32 → s.retry = false → wp (nor b) (writeLoop q a p n) (WritePost b s a p n) s := by
  intro n
  induction n using Nat.strongRecOn with
  | ind n ih =>
    intro a p s hn hb hu hs
    have hm := Nat.mod_lt a (show 0 < 256 by omega)
    rw [writeLoop, inBlockCount_eq]
    generalize hmin : min (256 - a % 256) n = m
    have hdec : decode b a = a := Nat.mod_eq_of_lt (by omega)
    refine wp_onOk (wp_mono (pageWrite_spec q a p m hs) ?_)
    intro r s₁ hpost
    obtain ⟨hw, hok, hfail⟩ := hpost
    rw [hdec] at hw hok
    have hin : ∀ x, (Target.unit 256 a).Has x → Pages a n x := fun x hx =>
      ⟨Nat.le_of_eq (Eq.symm hx), Nat.le_trans (Nat.le_of_eq hx) (Nat.div_le_div_right (by omega))⟩
    refine ⟨fun hr => ?_, fun hr => ⟨hw.mono hin, fun h => absurd h hr, hfail⟩⟩
    obtain ⟨hfl, hlog⟩ := hok hr
    rw [NorArray.program_eq _ _ (by omega)] at hfl
    rw [u32_lt (show a + m < 2 ^ 32 by omega), pure_bind]
    have hcells := NorArray.cells_cons (a := a) (show 0 < 256 by omega) hn
    rw [hmin] at hcells
    by_cases hrest : n - m > 0
    · -- the next page: the invariant is what the pages so far have made of the range
      rw [dif_pos hrest]
      rw [if_pos hrest] at hcells
      refine wp_mono (ih (n - m) (by omega) hrest (by omega) (by omega) hw.retry) ?_
      intro r s₂ hpost
      obtain ⟨hw₂, hok₂, hfail₂⟩ := hpost
      refine ⟨(hw.mono hin).trans (hw₂.mono fun x hx => ⟨?_, ?_⟩), fun hr => ?_, hfail₂⟩
      · exact Nat.le_trans (Nat.div_le_div_right (by omega)) hx.1
      · rw [show a + n - 1 = a + m + (n - m) - 1 by omega]; exact hx.2
      · obtain ⟨hfl₂, hlog₂⟩ := hok₂ hr
        constructor
        · rw [hfl₂, hfl, bytesAt_add hw.mem, NorArray.andRange_append, show m + (n - m) = n by omega]
        · rw [hlog₂, hlog, List.append_assoc]
          unfold programs
          rw [hcells]
          rfl
    · rw [dif_neg hrest]
      rw [if_neg hrest] at hcells
      refine wp_pure.mpr ⟨hw.mono hin, fun _ => ⟨?_, ?_⟩, fun h => absurd rfl h⟩
      · rw [hfl, show m = n by omega]
      · unfold programs; rw [hlog, hcells]; rfl

theorem write_spec {q : Qspi} {d : QspiDevice} (hq : q.pdevice = some d) {n a : Nat} (p : Ptr) {s : St} (hn : 0 < n)
    (hb : a + n ≤ 2 ^ b.addrBits) (hu : a + n < 2 ^ 32) (hs : s.retry = false) :
    wp (nor b) (write q a p n) (WritePost b s a p n) s := by
  unfold write
  rw [hq]
  exact writeLoop_spec q hn hb hu hs

end QspiFlash.Bus.Nor
