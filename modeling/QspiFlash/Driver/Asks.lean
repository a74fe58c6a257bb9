/-
  QspiFlash.Driver.Asks — what each function of the data path can ask, whatever is
  answered: which commands it sends, all of them on four lines, and nothing that
  identifies the chip or switches its mode; and what the functions that switch it can ask.
-/

import QspiFlash.Driver.Api
import QspiFlash.Driver.Rules

namespace QspiFlash.Driver

open Interact

/-- The questions of a function that sends the commands `l`, on four lines, with their data by
    DMA, and polls the status register. -/
def Asked (l : List Instruction) : Call → Prop
  | .halCommand cmd _ => cmd.instruction ∈ l ∧ cmd.instructionMode = .four
  | .halAutoPollingIT cmd _ => cmd.instruction = .READ_STATUS_REGISTER ∧ cmd.instructionMode = .four
  | .halReceiveIT | .halTransmit .. | .halMemoryMapped .. | .halAbort => False
  | .idBytes | .qspiFactory _ | .overrun | .dropped .. => False
  | .crAbort | .halReceiveDMA _ | .halTransmitDMA _ | .timedWait _ | .load _ | .dcacheEnabled => True
  | .cleanInvalidateDCache .. | .cleanDCache .. | .setErrno _ | .wrapped | .nullDeref => True

theorem Asked.mono {l l' : List Instruction} (h : l ⊆ l') : ∀ c, Asked l c → Asked l' c := by
  intro c hc
  cases c with
  | halCommand cmd t => exact ⟨h hc.1, hc.2⟩
  | _ => exact hc

variable {P : Call → Prop}

theorem all_onOk {p k : M QspiResult} (hp : p.All P) (hk : k.All P) : (onOk p k).All P :=
  Prog.all_bind hp fun _ => Prog.all_ite (fun _ => hk) fun _ => trivial

theorem all_when {α : Type} {c : Prop} [Decidable c] {p : M Unit} {f : Unit → M α} (hp : p.All P) (hf : ∀ u, (f u).All P) :
    (if c then p >>= f else f ()).All P :=
  Prog.all_ite (fun _ => Prog.all_bind hp hf) fun _ => hf ()

theorem all_u32 (h : P .wrapped) (x : Nat) : (u32 x).All P :=
  Prog.all_ite (fun _ => trivial) fun _ => Prog.all_bind ((Prog.all_ask _).mpr h) fun _ => trivial

theorem all_qspiCommand {cmd : QspiCommand} {t : Timeout} (h : P (.halCommand cmd t)) (ha : P .crAbort) :
    (qspiCommand cmd t).All P := by
  have hc : (halCommand cmd t).All P := ⟨h, fun _ => trivial⟩
  exact Prog.all_bind hc fun r => Prog.all_ite (fun _ => Prog.all_bind ((Prog.all_ask _).mpr ha) fun _ => hc) fun _ => trivial

theorem all_cleanDcache (he : P .dcacheEnabled) (hc : ∀ a n, P (.cleanDCache a n)) (hw : P .wrapped) (p : Ptr)
    (n : Nat) : (cleanDcache p n).All P := by
  refine Prog.all_bind ((Prog.all_ask _).mpr he) fun r => Prog.all_ite (fun _ => ?_) fun _ => trivial
  exact Prog.all_bind (all_u32 hw _) fun m => (Prog.all_ask _).mpr (hc _ m)

theorem all_invalidateDcache (he : P .dcacheEnabled) (hc : ∀ a n, P (.cleanInvalidateDCache a n)) (hw : P .wrapped)
    (p : Ptr) (n : Nat) : (invalidateDcache p n).All P := by
  refine Prog.all_bind ((Prog.all_ask _).mpr he) fun r => Prog.all_ite (fun _ => ?_) fun _ => trivial
  exact Prog.all_bind (all_u32 hw _) fun m => (Prog.all_ask _).mpr (hc _ m)

theorem all_hasData (h : ∀ p, P (.load p)) (p : Ptr) (n : Nat) : (hasData p n).All P := by
  induction n generalizing p with
  | zero => trivial
  | succ n ih => exact ⟨h p, fun _ => Prog.all_ite (fun _ => trivial) fun _ => ih _⟩

theorem all_compareChunk (h : ∀ p, P (.load p)) (p l : Ptr) (n : Nat) (v : Bool) : (compareChunk p l n v).All P := by
  induction n generalizing p l v with
  | zero => trivial
  | succ n ih => exact ⟨h p, fun _ => ⟨h l, fun _ => Prog.all_ite (fun _ => trivial) fun _ => ih ..⟩⟩

/-! ## The data path -/

/-- `read`, `page_write` and `erase` look at the device before they use it. -/
def Checked (l : List Instruction) (c : Call) : Prop := Asked l c ∧ c ≠ .nullDeref

theorem read_checked (q : Qspi) (a : Nat) (p : Ptr) (n : Nat) :
    (read q a p n).All (Checked [.FAST_READ_QUAD_IN_OUT]) := by
  have ht : ∀ c : Call, Asked [.FAST_READ_QUAD_IN_OUT] c → c ≠ .nullDeref → Checked [.FAST_READ_QUAD_IN_OUT] c :=
    fun _ => And.intro
  unfold read
  cases q.pdevice with
  | none => exact trivial
  | some d =>
    refine all_onOk (all_qspiCommand (ht _ ⟨List.mem_singleton.mpr rfl, rfl⟩ nofun) (ht _ trivial nofun)) ?_
    refine all_when (all_invalidateDcache (ht _ trivial nofun) (fun _ _ => ht _ trivial nofun) (ht _ trivial nofun) p n) fun _ => ?_
    exact all_onOk ⟨ht _ trivial nofun, fun _ => trivial⟩ ⟨ht _ trivial nofun, fun _ => trivial⟩

theorem pageWrite_checked (q : Qspi) (a : Nat) (p : Ptr) (n : Nat) :
    (pageWrite q a p n).All (Checked [.WRITE_ENABLE, .PAGE_PROGRAM]) := by
  have ht : ∀ c : Call, Asked [.WRITE_ENABLE, .PAGE_PROGRAM] c → c ≠ .nullDeref →
    Checked [.WRITE_ENABLE, .PAGE_PROGRAM] c :=
    fun _ => And.intro
  refine all_onOk (all_qspiCommand (ht _ ⟨by decide, rfl⟩ nofun) (ht _ trivial nofun)) ?_
  refine all_onOk (all_qspiCommand (ht _ ⟨by simp, rfl⟩ nofun) (ht _ trivial nofun)) ?_
  refine all_when (all_cleanDcache (ht _ trivial nofun) (fun _ _ => ht _ trivial nofun) (ht _ trivial nofun) p n) fun _ => ?_
  refine all_onOk ⟨ht _ trivial nofun, fun _ => trivial⟩ ?_
  refine all_onOk ⟨ht _ trivial nofun, fun _ => trivial⟩ ?_
  exact all_onOk ⟨ht _ ⟨rfl, rfl⟩ nofun, fun _ => trivial⟩ ⟨ht _ trivial nofun, fun _ => trivial⟩

theorem erase_checked (q : Qspi) (a : Nat) (which : Instruction) :
    (erase q a which).All (Checked [.WRITE_ENABLE, which]) := by
  have ht : ∀ c : Call, Asked [.WRITE_ENABLE, which] c → c ≠ .nullDeref → Checked [.WRITE_ENABLE, which] c :=
    fun _ => And.intro
  unfold erase
  cases q.pdevice with
  | none => exact trivial
  | some d =>
    refine all_onOk (all_qspiCommand (ht _ ⟨List.mem_cons_self, rfl⟩ nofun) (ht _ trivial nofun)) ?_
    refine all_onOk (all_qspiCommand (ht _ ⟨List.mem_cons_of_mem _ List.mem_cons_self, rfl⟩ nofun) (ht _ trivial nofun)) ?_
    exact all_onOk ⟨ht _ ⟨rfl, rfl⟩ nofun, fun _ => trivial⟩ ⟨ht _ trivial nofun, fun _ => trivial⟩

theorem read_asks (q : Qspi) (a : Nat) (p : Ptr) (n : Nat) : (read q a p n).All (Asked [.FAST_READ_QUAD_IN_OUT]) :=
  (read_checked q a p n).mono fun _ h => h.1

theorem pageWrite_asks (q : Qspi) (a : Nat) (p : Ptr) (n : Nat) :
    (pageWrite q a p n).All (Asked [.WRITE_ENABLE, .PAGE_PROGRAM]) :=
  (pageWrite_checked q a p n).mono fun _ h => h.1

theorem erase_asks (q : Qspi) (a : Nat) (which : Instruction) : (erase q a which).All (Asked [.WRITE_ENABLE, which]) :=
  (erase_checked q a which).mono fun _ h => h.1

/-! ## The modes -/

/-- The questions of `sleep`, `reset_chip` and the two switches to quad mode: POWER_DOWN goes
    out on four lines only. -/
def Switches : Call → Prop
  | .halCommand cmd _ => cmd.instruction = .POWER_DOWN → cmd.instructionMode = .four
  | .crAbort | .halTransmit .. | .nullDeref => True
  | _ => False

theorem command_switches {cmd : QspiCommand} {t : Timeout} (h : cmd.instruction = .POWER_DOWN → cmd.instructionMode = .four) :
    (qspiCommand cmd t).All Switches := all_qspiCommand h trivial

theorem transmit_switches (b : UInt8) (t : Timeout) : (halTransmit b t).All Switches := ⟨trivial, fun _ => trivial⟩

theorem dummyCyclesOf_switches (q : Qspi) : (dummyCyclesOf q).All Switches := by
  unfold dummyCyclesOf
  split
  · trivial
  · exact Prog.all_bind ((Prog.all_ask Call.nullDeref).mpr trivial) fun _ => trivial

theorem enterQuadMode_switches (q : Qspi) : (enterQuadMode q).All Switches := by
  unfold enterQuadMode
  split
  · trivial
  · refine all_onOk (command_switches nofun) (all_onOk (command_switches nofun) (all_onOk (transmit_switches 2 _) ?_))
    refine all_onOk (command_switches nofun) (all_onOk (command_switches nofun) ?_)
    exact Prog.all_bind (dummyCyclesOf_switches q) fun _ => transmit_switches _ _
  · refine all_onOk (command_switches nofun) (all_onOk (command_switches nofun)
      (Prog.all_bind (dummyCyclesOf_switches q) fun _ => ?_))
    refine all_onOk (transmit_switches _ _) (all_onOk (command_switches nofun) (all_onOk (command_switches nofun) ?_))
    exact all_onOk (transmit_switches _ _) (command_switches nofun)

theorem sleep_switches (state : Bool) : (sleep state).All Switches := command_switches fun _ => rfl

theorem resetChip_switches : resetChip.All Switches := all_onOk (command_switches nofun) (command_switches nofun)

theorem uninitializeQspi_switches (q : Qspi) : (uninitializeQspi q).All Switches :=
  Prog.all_bind (sleep_switches false) fun _ => Prog.all_bind resetChip_switches fun _ => trivial

/-! ## What is built of it -/

theorem sequenced_all (hP : ∀ c, Mark c → P c) : Sequenced fun p => p.All P where
  pure _ := trivial
  bind hp hf := Prog.all_bind hp hf
  mark c hc := (Prog.all_ask c).mpr (hP c hc)

theorem mark_asked (l : List Instruction) : ∀ c, Mark c → Asked l c := by
  intro c h
  cases c <;> first | exact trivial | exact absurd h id

theorem write_asks (q : Qspi) (a : Nat) (p : Ptr) (n : Nat) :
    (write q a p n).All (Asked [.WRITE_ENABLE, .PAGE_PROGRAM]) :=
  (sequenced_all (mark_asked _)).composes.write a p n fun a p m _ _ => pageWrite_asks q a p m

theorem eraseSector_asks (q : Qspi) (n : Nat) : (eraseSector q n).All (Asked [.WRITE_ENABLE, .SECTOR_ERASE]) :=
  (sequenced_all (mark_asked _)).composes.eraseSector ((sequenced_all (mark_asked _)).sectorSizeOf q)
    (fun a => erase_asks q a _) n

theorem hasData_asks (l : List Instruction) (n : Nat) (p : Ptr) : (hasData p n).All (Asked l) :=
  (sequenced_all (mark_asked l)).composes.hasData p n

theorem writeInPlace_asks (q : Qspi) (buf : Ptr) (address count nblocks i : Nat) (p : Ptr) :
    (writeInPlace q buf address count nblocks i p).All (Asked [.FAST_READ_QUAD_IN_OUT, .WRITE_ENABLE, .PAGE_PROGRAM]) :=
  (sequenced_all (mark_asked _)).composes.writeInPlace (fun _ => (read_asks q _ _ _).mono (Asked.mono (by decide)))
    (fun _ _ _ _ _ => (pageWrite_asks q _ _ _).mono (Asked.mono (by decide))) buf address count nblocks i p

/-- The instructions of the data path. -/
def dataInstructions : List Instruction :=
  [.FAST_READ_QUAD_IN_OUT, .WRITE_ENABLE, .PAGE_PROGRAM, .SECTOR_ERASE, .BLOCK_32K_ERASE, .BLOCK_64K_ERASE, .CHIP_ERASE]

/-- What the data operations can ask. -/
theorem dataOp_asks {P : Call → Prop} (hP : ∀ c, Asked dataInstructions c → P c) (hd : ∀ n r, P (.dropped n r))
    (tbl : List QspiManuf) {o : Op} (ho : DataOp o) (q : Qspi) :
    ∃ (α : Type) (out : α → Out) (p : M α), exec tbl o q = keep q out p ∧ p.All P := by
  have herase : ∀ i, IsErase i → [.WRITE_ENABLE, i] ⊆ dataInstructions := by
    intro i hi
    cases i <;> first | exact absurd hi id | decide
  refine (sequenced_all fun c h => hP c (mark_asked _ c h)).dataOp ?_ ?_ ?_ ?_ tbl ho
  · exact fun a p n => (read_asks q a p n).mono fun c h => hP c (Asked.mono (by decide) c h)
  · exact fun a p n => (pageWrite_asks q a p n).mono fun c h => hP c (Asked.mono (by decide) c h)
  · exact fun i a hi => (erase_asks q a i).mono fun c h => hP c (Asked.mono (herase i hi) c h)
  · exact fun n r => (Prog.all_ask (Call.dropped n r)).mpr (hd n r)

end QspiFlash.Driver
