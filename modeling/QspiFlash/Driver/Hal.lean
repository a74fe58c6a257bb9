/-
  QspiFlash.Driver.Hal — what the driver asks of the outside: the STM32F7 HAL, the
  binary semaphore of the RTOS, the memory its pointers reach, the D-cache, `errno`.

  None of this is in the repository, so the driver is a program (`Interact.Prog`) over
  these questions, and every property says which environment answers them. A transfer
  is asynchronous: the HAL call starts it, its event comes through `cb_event`, and the
  bytes are in memory only then; so memory belongs to the environment and the driver
  reads a byte by asking `load`.

  Four questions have no effect in any environment and only mark what the C++ does
  silently: `wrapped` (a 32-bit computation wrapped), `nullDeref` (a null pointer was
  read; the answer is the half-word found there), `overrun` (a table was read past its
  last row) and `dropped` (a result of `erase_sector` was not looked at).
-/

import QspiFlash.Driver.Descr
import QspiFlash.Interact.Prog

namespace QspiFlash.Driver

open Interact (Prog)

/-- `HAL_StatusTypeDef`. -/
inductive HalStatus where
  | ok
  | error
  | busy
  | timeout
  deriving DecidableEq, Repr

/-- `qspi_impl::qspi_result_t`. -/
inductive QspiResult where
  | ok
  | error
  | busy
  | timeout
  | typeNotFound
  deriving DecidableEq, Repr

/-- The cast of a HAL status: `ok = HAL_OK`, `error = HAL_ERROR`, and so on. -/
def ofHal : HalStatus → QspiResult
  | .ok => .ok
  | .error => .error
  | .busy => .busy
  | .timeout => .timeout

@[simp] theorem ofHal_eq_ok {r : HalStatus} : ofHal r = .ok ↔ r = .ok := by cases r <;> simp [ofHal]

/-- The instructions of `qspi-flash.h`, `qspi-winbond.h` and `qspi-micron.h` that the
    driver sends. -/
inductive Instruction where
  | JEDEC_ID
  | WRITE_ENABLE
  | READ_STATUS_REGISTER
  | SECTOR_ERASE
  | BLOCK_32K_ERASE
  | BLOCK_64K_ERASE
  | CHIP_ERASE
  | RESET_ENABLE
  | RESET_DEVICE
  | POWER_DOWN
  | RELEASE_POWER_DOWN
  | PAGE_PROGRAM
  | FAST_READ_QUAD_IN_OUT
  | VOLATILE_SR_WRITE_ENABLE
  | WRITE_STATUS_REGISTER_2
  | ENTER_QUAD_MODE
  | SET_READ_PARAMETERS
  | WRITE_VOLATILE_STATUS_REGISTER
  | WRITE_ENH_VOLATILE_STATUS_REGISTER
  deriving DecidableEq, Repr

def Instruction.code : Instruction → UInt8
  | .JEDEC_ID => 0x9F
  | .WRITE_ENABLE => 0x06
  | .READ_STATUS_REGISTER => 0x05
  | .SECTOR_ERASE => 0x20
  | .BLOCK_32K_ERASE => 0x52
  | .BLOCK_64K_ERASE => 0xD8
  | .CHIP_ERASE => 0xC7
  | .RESET_ENABLE => 0x66
  | .RESET_DEVICE => 0x99
  | .POWER_DOWN => 0xB9
  | .RELEASE_POWER_DOWN => 0xAB
  | .PAGE_PROGRAM => 0x02
  | .FAST_READ_QUAD_IN_OUT => 0xEB
  | .VOLATILE_SR_WRITE_ENABLE => 0x50
  | .WRITE_STATUS_REGISTER_2 => 0x31
  | .ENTER_QUAD_MODE => 0x38
  | .SET_READ_PARAMETERS => 0xC0
  | .WRITE_VOLATILE_STATUS_REGISTER => 0x81
  | .WRITE_ENH_VOLATILE_STATUS_REGISTER => 0x61

/-- The names stand for different codes, so a chip that sees the code sees the name. -/
theorem code_injective {a b : Instruction} (h : a.code = b.code) : a = b := by
  revert h; cases a <;> cases b <;> decide

/-- The instructions that erase. -/
def IsErase : Instruction → Prop
  | .SECTOR_ERASE | .BLOCK_32K_ERASE | .BLOCK_64K_ERASE | .CHIP_ERASE => True
  | _ => False

instance (i : Instruction) : Decidable (IsErase i) := by
  unfold IsErase
  split <;> infer_instance

inductive AddressSize where
  | bits24
  | bits32
  deriving DecidableEq, Repr

inductive DdrMode where
  | disable
  | enable
  deriving DecidableEq, Repr

inductive DdrHoldHalfCycle where
  | analogDelay
  | halfClkDelay
  deriving DecidableEq, Repr

inductive SiooMode where
  | everyCmd
  | onlyFirstCmd
  deriving DecidableEq, Repr

/-- `QSPI_CommandTypeDef`. The defaults are the settings every function of the driver
    starts from; a field it leaves unset is 0. -/
structure QspiCommand where
  instruction : Instruction
  instructionMode : Lines
  address : Nat := 0
  addressSize : AddressSize := .bits24
  addressMode : Lines := .none
  alternateBytes : UInt32 := 0
  alternateBytesSize : AltBytesSize := .bits8
  alternateByteMode : Lines := .none
  dummyCycles : Nat := 0
  nbData : Nat := 0
  dataMode : Lines := .none
  ddrMode : DdrMode := .disable
  ddrHoldHalfCycle : DdrHoldHalfCycle := .analogDelay
  siooMode : SiooMode := .everyCmd
  deriving DecidableEq, Repr

inductive MatchMode where
  | and
  | or
  deriving DecidableEq, Repr

/-- `QSPI_AutoPollingTypeDef`. -/
structure QspiAutoPolling where
  matchValue : Nat
  mask : Nat
  matchMode : MatchMode
  statusBytesSize : Nat
  interval : Nat
  automaticStop : Bool
  deriving DecidableEq, Repr

/-- `QSPI_MemoryMappedTypeDef`. -/
structure QspiMemoryMapped where
  timeOutActivation : Bool
  deriving DecidableEq, Repr

/-- The waiting times, 10 ms, 50 ms, 2 s and 200 s. -/
inductive Timeout where
  | TIMEOUT
  | WRITE_TIMEOUT
  | ERASE_TIMEOUT
  | CHIP_ERASE_TIMEOUT
  deriving DecidableEq, Repr

inductive Errno where
  | eexist
  | eio
  deriving DecidableEq, Repr

/-- The two byte arrays a pointer of the driver points into: one the caller passed, or
    the member `lbuff_`. -/
inductive Region where
  | caller
  | lbuff
  deriving DecidableEq, Repr

/-- A `uint8_t*`: byte `off` of its array, which starts at the address `base`. -/
structure Ptr where
  region : Region
  base : Nat
  off : Nat
  deriving DecidableEq, Repr

/-- `p + n`. -/
def Ptr.add (p : Ptr) (n : Nat) : Ptr := { p with off := p.off + n }

/-- `(uint32_t) p`. -/
def Ptr.addr (p : Ptr) : Nat := (p.base + p.off) % 2 ^ 32

@[simp] theorem Ptr.add_region (p : Ptr) (n : Nat) : (p.add n).region = p.region := rfl
@[simp] theorem Ptr.add_base (p : Ptr) (n : Nat) : (p.add n).base = p.base := rfl
@[simp] theorem Ptr.add_off (p : Ptr) (n : Nat) : (p.add n).off = p.off + n := rfl
@[simp] theorem Ptr.add_zero (p : Ptr) : p.add 0 = p := rfl
@[simp] theorem Ptr.add_add (p : Ptr) (m n : Nat) : (p.add m).add n = p.add (m + n) := by
  simp [Ptr.add, Nat.add_assoc]

inductive Call where
  | halCommand (cmd : QspiCommand) (timeout : Timeout)
  /-- `hq->Instance->CR |= QUADSPI_CR_ABORT; hq->State = HAL_QSPI_STATE_READY`. -/
  | crAbort
  /-- `HAL_QSPI_Receive_IT` into the three bytes of `read_JEDEC_ID`'s own buffer. -/
  | halReceiveIT
  | halReceiveDMA (buff : Ptr)
  /-- `HAL_QSPI_Transmit` of one byte. -/
  | halTransmit (data : UInt8) (timeout : Timeout)
  | halTransmitDMA (buff : Ptr)
  | halAutoPollingIT (cmd : QspiCommand) (cfg : QspiAutoPolling)
  | halMemoryMapped (cmd : QspiCommand) (cfg : QspiMemoryMapped)
  | halAbort
  /-- `semaphore_.timed_wait (timeout) == rtos::result::ok`. -/
  | timedWait (timeout : Timeout)
  | load (p : Ptr)
  /-- The three bytes of `read_JEDEC_ID`'s own buffer. -/
  | idBytes
  /-- `SCB->CCR & SCB_CCR_DC_Msk`. -/
  | dcacheEnabled
  | cleanInvalidateDCache (addr count : Nat)
  | cleanDCache (addr count : Nat)
  /-- A row's `qspi_factory ()`. -/
  | qspiFactory (v : Vendor)
  | setErrno (e : Errno)
  | wrapped
  | nullDeref
  | overrun
  | dropped (sector : Nat) (result : QspiResult)
  deriving DecidableEq, Repr

@[reducible] def Call.Resp : Call → Type
  | .halCommand .. | .halReceiveIT | .halReceiveDMA _ | .halTransmit .. | .halTransmitDMA _ => HalStatus
  | .halAutoPollingIT .. | .halMemoryMapped .. | .halAbort => HalStatus
  | .timedWait _ | .dcacheEnabled => Bool
  | .load _ => UInt8
  | .idBytes => UInt8 × UInt8 × UInt8
  | .nullDeref => UInt16
  | .crAbort | .cleanInvalidateDCache .. | .cleanDCache .. | .qspiFactory _ | .setErrno _ => Unit
  | .wrapped | .overrun | .dropped .. => Unit

/-- Code of the driver. -/
abbrev M := Prog Call Call.Resp

abbrev ask (c : Call) : M c.Resp := Prog.ask c

/-- A 32-bit unsigned result whose exact value is `x`. -/
def u32 (x : Nat) : M Nat :=
  if x < 2 ^ 32 then pure x
  else do
    ask .wrapped
    pure (x % 2 ^ 32)

/-- `result = p; if (result == ok) { result = k; }`. -/
def onOk (p k : M QspiResult) : M QspiResult := do
  let result ← p
  if result = .ok then k else pure result

theorem u32_lt {x : Nat} (h : x < 2 ^ 32) : u32 x = pure x := if_pos h

end QspiFlash.Driver
