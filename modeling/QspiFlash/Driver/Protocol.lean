/-
  QspiFlash.Driver.Protocol — the order of the driver's HAL calls, whatever is answered.

  The HAL has one controller for everything: a command with data must be followed by its
  transfer, a transfer by the wait for its event, an erase or a program by a status poll. A
  `Phase` says what is due; `protocol` answers everything with anything, allows only what is
  due, and moves on with the answer. In it
  - a command that fails is aborted and sent once more, as it was;
  - what follows a command with data is the start of its own transfer, or what lies between
    its HAL calls (`Neutral`);
  - each start that goes well is followed by the one wait for its event, and each erase or
    program by the poll of the status register, with the limits of its kind;
  - a failure anywhere ends what was due.

  - `command_due`: what is due after a command.
  - `read_due`, `pageWrite_due`, `erase_due`, `enterQuadMode_due`, `readJedecId_due`: from
    nothing due to nothing due.
  - `follows_protocol`: so any sequence of public operations, and nothing is due between them.
-/

import QspiFlash.Driver.Identity

namespace QspiFlash.Driver.Protocol

open Interact

/-! ## What is due -/

inductive Phase where
  | idle
  /-- A command failed: its abort is due. -/
  | failed (cmd : QspiCommand) (timeout : Timeout)
  /-- It was aborted: the same command is due. -/
  | aborted (cmd : QspiCommand) (timeout : Timeout)
  /-- A command with data was accepted: its transfer is due. -/
  | armed (cmd : QspiCommand)
  /-- Something was started: the wait for its event is due, and then a poll with the limit `poll`. -/
  | waiting (limit : Timeout) (poll : Option Timeout)
  /-- The chip erases or programs: the status poll is due. -/
  | busy (limit : Timeout)
  deriving DecidableEq, Repr

/-- What the driver does between its HAL calls. -/
def Neutral : Call → Prop
  | .load _ | .idBytes | .dcacheEnabled | .cleanInvalidateDCache .. | .cleanDCache .. | .qspiFactory _ | .setErrno _ => True
  | .wrapped | .nullDeref | .overrun | .dropped .. => True
  | _ => False

/-- The transfer of a command with data. -/
def Carries (i : Instruction) : Call → Prop
  | .halReceiveIT => i = .JEDEC_ID
  | .halReceiveDMA _ => i = .FAST_READ_QUAD_IN_OUT
  | .halTransmitDMA _ => i = .PAGE_PROGRAM
  | .halTransmit .. => i = .WRITE_STATUS_REGISTER_2 ∨ i = .SET_READ_PARAMETERS ∨
      i = .WRITE_VOLATILE_STATUS_REGISTER ∨ i = .WRITE_ENH_VOLATILE_STATUS_REGISTER
  | _ => False

/-- How long a chip may take for an erase. -/
def eraseLimit : Instruction → Option Timeout
  | .SECTOR_ERASE | .BLOCK_32K_ERASE | .BLOCK_64K_ERASE => some .ERASE_TIMEOUT
  | .CHIP_ERASE => some .CHIP_ERASE_TIMEOUT
  | _ => none

/-- With a poll to come, or with none. -/
def pollDue : Option Timeout → Phase
  | some limit => .busy limit
  | none => .idle

def accepted (cmd : QspiCommand) : Phase :=
  if cmd.dataMode = .none then pollDue (eraseLimit cmd.instruction) else .armed cmd

def Due : Phase → Call → Prop
  | .idle, .halCommand .. | .idle, .halMemoryMapped .. | .idle, .halAbort => True
  | .idle, c => Neutral c
  | .failed .., c => c = .crAbort
  | .aborted cmd timeout, c => c = .halCommand cmd timeout
  | .armed cmd, c => Neutral c ∨ Carries cmd.instruction c
  | .waiting limit _, c => c = .timedWait limit
  | .busy _, .halAutoPollingIT cmd cfg => cmd.instruction = .READ_STATUS_REGISTER ∧ cfg = statusPoll
  | .busy _, _ => False

def next (ph : Phase) : (c : Call) → c.Resp → Phase
  | .halCommand cmd timeout, r =>
    if r = .ok then accepted cmd else if ph = .aborted cmd timeout then .idle else .failed cmd timeout
  | .crAbort, _ => match ph with
    | .failed cmd timeout => .aborted cmd timeout
    | _ => .idle
  | .halReceiveIT, r | .halReceiveDMA _, r => if r = .ok then .waiting .TIMEOUT none else .idle
  | .halTransmitDMA _, r => if r = .ok then .waiting .TIMEOUT (some .WRITE_TIMEOUT) else .idle
  | .halTransmit .., _ => .idle
  | .halAutoPollingIT .., r => match r, ph with
    | .ok, .busy limit => .waiting limit none
    | _, _ => .idle
  | .timedWait _, r => match r, ph with
    | true, .waiting _ poll => pollDue poll
    | _, _ => .idle
  | _, _ => ph

def protocol : Env Call Call.Resp Phase := Env.monitor Due next

/-! ## Commands and waits -/

/-- Nothing is due after the program, and it does only what is due. -/
def Idles {α : Type} (p : M α) : Prop := wp protocol p (fun _ ph => ph = .idle) .idle

theorem neutral_keeps {α : Type} {p : M α} (hp : p.All Neutral) {ph : Phase} (h : ∀ c, Neutral c → Due ph c) :
    wp protocol p (fun _ ph' => ph' = ph) ph := by
  refine wp_inv (I := (· = ph)) (fun ph' c hc he => ?_) (fun ph' c r ph'' hc he hs => ?_) hp rfl
  · rw [he]
    exact h c hc
  · rw [show ph'' = next ph' c r from hs, ← he]
    cases c <;> first | exact absurd hc id | rfl

theorem sequenced_idles : Sequenced Idles where
  pure _ := rfl
  bind hp hf := by
    refine wp_seq hp ?_
    intro a ph h
    rw [h]
    exact hf a
  mark c hc := by
    cases c <;> first | exact absurd hc id | exact ⟨trivial, fun _ _ h => h⟩

/-- What is due after a command. -/
theorem command_due (cmd : QspiCommand) (t : Timeout) :
    wp protocol (qspiCommand cmd t) (fun r ph => (r = .ok → ph = accepted cmd) ∧ (r ≠ .ok → ph = .idle)) .idle := by
  apply wp_qspiCommand trivial
  · intro ph hs
    rw [show ph = accepted cmd from hs]
    exact ⟨fun _ => rfl, fun h => absurd rfl h⟩
  · intro r ph hr hs
    have hph : ph = .failed cmd t := by
      rw [show ph = next .idle (.halCommand cmd t) r from hs]
      show (if r = .ok then _ else if Phase.idle = .aborted cmd t then _ else _) = _
      rw [if_neg hr, if_neg nofun]
    rw [hph]
    refine ⟨rfl, fun ph₂ ha => ?_⟩
    rw [show ph₂ = .aborted cmd t from ha]
    refine ⟨rfl, fun r' ph₃ hs' => ?_⟩
    have hph₃ : ph₃ = if r' = .ok then accepted cmd else .idle := by
      rw [show ph₃ = next (.aborted cmd t) (.halCommand cmd t) r' from hs']
      show (if r' = .ok then _ else if Phase.aborted cmd t = .aborted cmd t then _ else _) = _
      rw [if_pos (rfl : Phase.aborted cmd t = .aborted cmd t)]
    rw [hph₃]
    by_cases hr' : r' = .ok
    · exact ⟨fun _ => if_pos hr', fun h => absurd (ofHal_eq_ok.mpr hr') h⟩
    · exact ⟨fun h => absurd (ofHal_eq_ok.mp h) hr', fun _ => if_neg hr'⟩

theorem onOk_due {cmd : QspiCommand} {t : Timeout} {k : M QspiResult}
    (hk : wp protocol k (fun _ ph => ph = .idle) (accepted cmd)) : Idles (onOk (qspiCommand cmd t) k) := by
  refine wp_onOk (wp_mono (command_due cmd t) ?_)
  intro r ph h
  refine ⟨fun hr => ?_, h.2⟩
  rw [h.1 hr]
  exact hk

/-- A command with neither data nor a poll to come. -/
theorem plain_due {cmd : QspiCommand} {t : Timeout} (h : accepted cmd = .idle) : Idles (qspiCommand cmd t) := by
  refine wp_mono (command_due cmd t) ?_
  intro r ph hpost
  by_cases hr : r = .ok
  · exact (hpost.1 hr).trans h
  · exact hpost.2 hr

theorem wait_due (limit : Timeout) (poll : Option Timeout) :
    wp protocol (timedWait limit) (fun r ph => (r = .ok → ph = pollDue poll) ∧ (r ≠ .ok → ph = .idle))
      (.waiting limit poll) := by
  refine wp_timedWait.mpr ⟨rfl, ?_⟩
  intro r ph hs
  rw [show ph = next (.waiting limit poll) (.timedWait limit) r from hs]
  cases r with
  | true => exact ⟨fun _ => rfl, fun h => absurd rfl h⟩
  | false => exact ⟨nofun, fun _ => rfl⟩

theorem lastWait_due (limit : Timeout) :
    wp protocol (timedWait limit) (fun _ ph => ph = .idle) (.waiting limit none) := by
  refine wp_mono (wait_due limit none) ?_
  intro r ph h
  by_cases hr : r = .ok
  · exact h.1 hr
  · exact h.2 hr

/-- The poll that ends an erase or a program. -/
theorem poll_due {cmd : QspiCommand} (hi : cmd.instruction = .READ_STATUS_REGISTER) (limit : Timeout) :
    wp protocol (onOk (halAutoPollingIT cmd statusPoll) (timedWait limit)) (fun _ ph => ph = .idle) (.busy limit) := by
  refine wp_onOk (wp_halAutoPollingIT.mpr ⟨⟨hi, rfl⟩, ?_⟩)
  intro r ph hs
  rw [show ph = next (.busy limit) (.halAutoPollingIT cmd statusPoll) r from hs]
  cases r with
  | ok => exact ⟨fun _ => lastWait_due limit, fun h => absurd rfl h⟩
  | _ => exact ⟨nofun, fun _ => rfl⟩

/-- A byte sent after its command. -/
theorem transmit_due {cmd : QspiCommand} {b : UInt8} {t : Timeout} {k : M QspiResult}
    (hi : Carries cmd.instruction (.halTransmit b t)) (hk : Idles k) :
    wp protocol (onOk (halTransmit b t) k) (fun _ ph => ph = .idle) (.armed cmd) := by
  refine wp_onOk (wp_halTransmit.mpr ⟨Or.inr hi, ?_⟩)
  intro r ph hs
  rw [show ph = .idle from hs]
  exact ⟨fun _ => hk, fun _ => rfl⟩

/-! ## The functions of the driver -/

/-- The D-cache is maintained between a command and its transfer. -/
theorem cache_due {cmd : QspiCommand} {p : M Unit} (hp : p.All Neutral) {c : Prop} [Decidable c]
    {f : Unit → M QspiResult} (hf : wp protocol (f ()) (fun _ ph => ph = .idle) (.armed cmd)) :
    wp protocol (if c then p >>= f else f ()) (fun _ ph => ph = .idle) (.armed cmd) :=
  wp_when (neutral_keeps hp fun _ hc => Or.inl hc) hf

theorem read_due (q : Qspi) (a : Nat) (p : Ptr) (n : Nat) : Idles (read q a p n) := by
  unfold read
  cases q.pdevice with
  | none => exact rfl
  | some d =>
    refine onOk_due (cache_due (all_invalidateDcache trivial (fun _ _ => trivial) trivial p n) ?_)
    refine wp_onOk (wp_halReceiveDMA.mpr ⟨Or.inr rfl, ?_⟩)
    intro r ph hs
    rw [show ph = if r = .ok then .waiting .TIMEOUT none else .idle from hs]
    cases r with
    | ok => exact ⟨fun _ => lastWait_due .TIMEOUT, fun h => absurd rfl h⟩
    | _ => exact ⟨nofun, fun _ => rfl⟩

theorem pageWrite_due (q : Qspi) (a : Nat) (p : Ptr) (n : Nat) : Idles (pageWrite q a p n) := by
  refine onOk_due (onOk_due (cache_due (all_cleanDcache trivial (fun _ _ => trivial) trivial p n) ?_))
  refine wp_onOk (wp_halTransmitDMA.mpr ⟨Or.inr rfl, ?_⟩)
  intro r ph hs
  rw [show ph = if r = .ok then .waiting .TIMEOUT (some .WRITE_TIMEOUT) else .idle from hs]
  cases r with
  | ok =>
    refine ⟨fun _ => wp_onOk (wp_mono (wait_due _ _) ?_), fun h => absurd rfl h⟩
    intro r ph h
    refine ⟨fun hr => ?_, h.2⟩
    rw [h.1 hr]
    exact poll_due rfl .WRITE_TIMEOUT
  | _ => exact ⟨nofun, fun _ => rfl⟩

theorem erase_due (q : Qspi) (a : Nat) {which : Instruction} (hw : IsErase which) : Idles (erase q a which) := by
  unfold erase
  cases q.pdevice with
  | none => exact rfl
  | some d =>
    refine onOk_due (onOk_due ?_)
    cases which <;> first | exact absurd hw id | exact poll_due rfl _

/-- The register whose dummy cycles are set is written after its command. -/
theorem dummyCycles_due (q : Qspi) {cmd : QspiCommand} {f : UInt8 → M QspiResult}
    (hf : ∀ b, wp protocol (f b) (fun _ ph => ph = .idle) (.armed cmd)) :
    wp protocol (dummyCyclesOf q >>= f) (fun _ ph => ph = .idle) (.armed cmd) := by
  have hdummy : (dummyCyclesOf q).All Neutral := by
    unfold dummyCyclesOf
    split
    · trivial
    · exact ⟨trivial, fun _ => trivial⟩
  refine wp_seq (neutral_keeps hdummy fun _ hc => Or.inl hc) ?_
  intro b ph h
  rw [h]
  exact hf b

theorem lastTransmit_due {cmd : QspiCommand} {b : UInt8} {t : Timeout}
    (hi : Carries cmd.instruction (.halTransmit b t)) :
    wp protocol (halTransmit b t) (fun _ ph => ph = .idle) (.armed cmd) :=
  wp_halTransmit.mpr ⟨Or.inr hi, fun _ _ h => h⟩

theorem enterQuadMode_due (q : Qspi) : Idles (enterQuadMode q) := by
  unfold enterQuadMode
  split
  · exact rfl
  · refine onOk_due (onOk_due (transmit_due (Or.inl rfl) (onOk_due (onOk_due ?_))))
    exact dummyCycles_due q fun b => lastTransmit_due (Or.inr (Or.inl rfl))
  · refine onOk_due (onOk_due (dummyCycles_due q fun b => transmit_due (Or.inr (Or.inr (Or.inl rfl))) ?_))
    exact onOk_due (onOk_due (transmit_due (Or.inr (Or.inr (Or.inr rfl))) (plain_due rfl)))

theorem readJedecId_due (tbl : List QspiManuf) (q : Qspi) : Idles (readJedecId tbl q) := by
  refine sequenced_idles.bind (onOk_due (wp_onOk (wp_halReceiveIT.mpr ⟨Or.inr rfl, ?_⟩))) fun r => ?_
  · intro r ph hs
    rw [show ph = if r = .ok then .waiting .TIMEOUT none else .idle from hs]
    cases r with
    | ok => exact ⟨fun _ => lastWait_due .TIMEOUT, fun h => absurd rfl h⟩
    | _ => exact ⟨nofun, fun _ => rfl⟩
  · refine holds_ite ?_ (sequenced_idles.pure _)
    refine neutral_keeps (Prog.all_bind ((Prog.all_ask Call.idBytes).mpr trivial) fun b => ?_) fun c hc => ?_
    · refine scanManufacturers_asks trivial (fun m _ => ?_) _ _
      cases m.qspiFactory with
      | none => exact ⟨trivial, fun _ => trivial⟩
      | some v => exact ⟨trivial, fun _ => trivial⟩
    · cases c <;> first | exact trivial | exact absurd hc id

theorem sleep_due (state : Bool) : Idles (sleep state) := plain_due (by cases state <;> rfl)

theorem resetChip_due : Idles resetChip := onOk_due (plain_due rfl)

theorem initializeQspi_due (tbl : List QspiManuf) (q : Qspi) : Idles (initializeQspi tbl q) := by
  have hkeep : ∀ {α : Type} {p : M α} {ph : Phase}, Idles p → ph = .idle →
      wp protocol p (fun _ ph => ph = .idle) ph := by
    intro α p ph hp h
    rw [h]
    exact hp
  have hstart : (Phase.idle : Phase) = .idle := rfl
  refine wp_initializeQspi (I := fun _ (ph : Phase) => ph = .idle) (fun h => ?_) (fun h => ?_) (fun h => ?_)
    (fun h => ?_) hstart
  · exact hkeep (readJedecId_due tbl _) h
  · exact hkeep (sleep_due false) h
  · exact hkeep resetChip_due h
  · exact hkeep (enterQuadMode_due _) h

theorem uninitializeQspi_due (q : Qspi) : Idles (uninitializeQspi q) :=
  sequenced_idles.bind (sleep_due false) fun _ => sequenced_idles.bind resetChip_due fun _ => sequenced_idles.pure _

theorem errno_due {α : Type} (e : Errno) (a : α) : Idles (do ask (.setErrno e); pure a : M α) :=
  sequenced_idles.bind (sequenced_idles.mark (.setErrno e) trivial) fun _ => sequenced_idles.pure _

theorem doVopen_due (tbl : List QspiManuf) (q : Qspi) : Idles (doVopen tbl q) := by
  refine holds_ite (errno_due _ _) (holds_ite (errno_due _ _)
    (sequenced_idles.bind (initializeQspi_due tbl q) fun y => ?_))
  exact holds_ite (errno_due _ _) (holds_ite (errno_due _ _) (sequenced_idles.pure _))

theorem doClose_due (q : Qspi) : Idles (doClose q) :=
  sequenced_idles.bind (uninitializeQspi_due q) fun _ => holds_ite (errno_due _ _) (sequenced_idles.pure _)

/-- The memory mapped mode is entered and left with nothing due. -/
theorem mapped_due {c : Call} (hd : Due .idle c) (hn : ∀ r, next .idle c r = .idle) : Idles (ask c) :=
  ⟨hd, fun r ph hs => (show ph = next .idle c r from hs).trans (hn r)⟩

/-! ## Every operation -/

theorem exec_due (tbl : List QspiManuf) (o : Op) (q : Qspi) : Idles (exec tbl o q) := by
  have hkeep : ∀ {α : Type} (out : α → Out) {p : M α}, Idles p → Idles (keep q out p) := fun out p hp =>
    sequenced_idles.bind hp fun _ => sequenced_idles.pure _
  by_cases hdata : DataOp o
  · obtain ⟨α, out, p, heq, hp⟩ := sequenced_idles.dataOp (q := q) (read_due q) (pageWrite_due q)
      (fun i a hi => erase_due q a hi) (fun n r => ⟨trivial, fun _ _ h => h⟩) tbl hdata
    rw [heq]
    exact hkeep out hp
  cases o with
  | initializeQspi => exact sequenced_idles.bind (initializeQspi_due tbl q) fun _ => sequenced_idles.pure _
  | uninitializeQspi => exact sequenced_idles.bind (uninitializeQspi_due q) fun _ => sequenced_idles.pure _
  | doVopen => exact sequenced_idles.bind (doVopen_due tbl q) fun _ => sequenced_idles.pure _
  | doClose => exact sequenced_idles.bind (doClose_due q) fun _ => sequenced_idles.pure _
  | sleep state => exact hkeep _ (sleep_due state)
  | resetChip => exact hkeep _ resetChip_due
  | enterMemMapped =>
    refine hkeep _ ?_
    unfold enterMemMapped
    split
    · exact sequenced_idles.pure _
    · exact sequenced_idles.bind (mapped_due trivial fun _ => rfl) fun _ => sequenced_idles.pure _
  | exitMemMapped =>
    exact hkeep _ (sequenced_idles.bind (mapped_due trivial fun _ => rfl) fun _ => sequenced_idles.pure _)
  | _ => exact absurd trivial hdata

theorem session_due (tbl : List QspiManuf) (os : List Op) (q : Qspi) : Idles (session tbl os q) := by
  induction os generalizing q with
  | nil => exact sequenced_idles.pure q
  | cons o os ih => exact sequenced_idles.bind (exec_due tbl o q) fun y => ih y.2

/-- Whatever is answered, any sequence of public operations asks only what is due, and leaves
    nothing due. -/
theorem follows_protocol (tbl : List QspiManuf) (os : List Op) (q : Qspi) :
    (∀ c ph, Asks protocol (session tbl os q) .idle c ph → Due ph c) ∧
      ∀ q' ph, Runs protocol (session tbl os q) .idle q' ph → ph = .idle := by
  have hdue : wp protocol (session tbl os q) (fun _ ph => ph = .idle) .idle := session_due tbl os q
  refine ⟨fun _ _ ha => wp_asks hdue ha, ?_⟩
  intro q' ph hr
  have h := wp_runs hdue hr
  exact h

end QspiFlash.Driver.Protocol
