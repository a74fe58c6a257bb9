/-
  QspiFlash.Driver.Core — the driver object and its lowest functions (`qspi-flash.h`,
  `qspi-flash.cpp`): `qspi_command` with its retry, the HAL calls with their casts, the
  wait for an event, the cache maintenance.
-/

import QspiFlash.Driver.Hal

namespace QspiFlash.Driver

/-- `qspi_impl`, with the block device's geometry it inherits. `hqspi_` is its `Instance`;
    `lbuff_` is where it lies, its bytes are memory. -/
structure Qspi where
  /-- `hqspi_->Instance == nullptr`. -/
  instanceNull : Bool
  pimpl : Option Vendor
  manufacturerID : UInt8
  memoryType : UInt16
  pmanufacturer : Option String
  pdevice : Option QspiDevice
  isOpened : Bool
  lbuffBase : Nat
  numBlocks : Nat
  blockLogicalSizeBytes : Nat
  blockPhysicalSizeBytes : Nat
  /-- `SRAM1_BASE` of the controller the driver is built for. -/
  sram1Base : Nat
  deriving DecidableEq, Repr

/-- A newly constructed object, whatever its base class and its build set. -/
structure Fresh (q : Qspi) : Prop where
  pimpl : q.pimpl = none
  manufacturerID : q.manufacturerID = 0
  memoryType : q.memoryType = 0
  pmanufacturer : q.pmanufacturer = none
  pdevice : q.pdevice = none
  isOpened : q.isOpened = false

/-- The member `lbuff_`, of `lbuffSize` bytes. -/
def Qspi.lbuff (q : Qspi) : Ptr := ⟨.lbuff, q.lbuffBase, 0⟩

def lbuffSize : Nat := 256

/-! ## HAL calls with the cast to `qspi_result_t` -/

def halCommand (cmd : QspiCommand) (timeout : Timeout) : M QspiResult := do
  let r ← ask (.halCommand cmd timeout)
  pure (ofHal r)

def halReceiveIT : M QspiResult := do
  let r ← ask .halReceiveIT
  pure (ofHal r)

def halReceiveDMA (buff : Ptr) : M QspiResult := do
  let r ← ask (.halReceiveDMA buff)
  pure (ofHal r)

def halTransmit (data : UInt8) (timeout : Timeout) : M QspiResult := do
  let r ← ask (.halTransmit data timeout)
  pure (ofHal r)

def halTransmitDMA (buff : Ptr) : M QspiResult := do
  let r ← ask (.halTransmitDMA buff)
  pure (ofHal r)

def halAutoPollingIT (cmd : QspiCommand) (cfg : QspiAutoPolling) : M QspiResult := do
  let r ← ask (.halAutoPollingIT cmd cfg)
  pure (ofHal r)

def halMemoryMapped (cmd : QspiCommand) (cfg : QspiMemoryMapped) : M QspiResult := do
  let r ← ask (.halMemoryMapped cmd cfg)
  pure (ofHal r)

def halAbort : M QspiResult := do
  let r ← ask .halAbort
  pure (ofHal r)

/-- `(semaphore_.timed_wait (t) == rtos::result::ok) ? ok : timeout`. -/
def timedWait (t : Timeout) : M QspiResult := do
  let r ← ask (.timedWait t)
  pure (if r then .ok else .timeout)

/-! ## Commands -/

def qspiCommand (cmd : QspiCommand) (timeout : Timeout) : M QspiResult := do
  let result ← halCommand cmd timeout
  if result ≠ .ok then
    -- the work-around of ES0290 2.4.1: abort the operation, then retry
    ask .crAbort
    halCommand cmd timeout
  else pure result

/-- The status poll both `page_write` and `erase` wait with: until WIP, bit 0, is 0. -/
def statusPoll : QspiAutoPolling where
  matchValue := 0
  mask := 1
  matchMode := .and
  statusBytesSize := 1
  interval := 0x10
  automaticStop := true

/-! ## Cache maintenance -/

def invalidateDcache (ptr : Ptr) (len : Nat) : M Unit := do
  if ← ask .dcacheEnabled then
    ask (.cleanInvalidateDCache (ptr.addr &&& 0xFFFFFFE0) (← u32 ((len &&& 0xFFFFFFE0) + 32)))

def cleanDcache (ptr : Ptr) (len : Nat) : M Unit := do
  if ← ask .dcacheEnabled then
    ask (.cleanDCache (ptr.addr &&& 0xFFFFFFE0) (← u32 ((len &&& 0xFFFFFFE0) + 32)))

/-! ## Through a null `pdevice_` -/

/-- `pdevice_->sector_size`. -/
def sectorSizeOf (q : Qspi) : M Nat :=
  match q.pdevice with
  | some d => pure d.sectorSize.toNat
  | none => do
    let half ← ask .nullDeref
    pure half.toNat

theorem sectorSizeOf_eq {q : Qspi} {d : QspiDevice} (hq : q.pdevice = some d) :
    sectorSizeOf q = pure d.sectorSize.toNat := by
  rw [sectorSizeOf, hq]

/-- `pdevice_->dummy_cycles`. -/
def dummyCyclesOf (q : Qspi) : M UInt8 :=
  match q.pdevice with
  | some d => pure d.dummyCycles
  | none => do
    let half ← ask .nullDeref
    pure half.toUInt8

end QspiFlash.Driver
