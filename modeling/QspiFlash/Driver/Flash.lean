/-
  QspiFlash.Driver.Flash — `qspi-flash.cpp`: identification, reads, the page-split
  write, erases, reset, and the block device on top of them.

  Each function takes the object and, where it changes it, returns it. The loops are
  total functions: `write`'s ends because each pass takes at least one byte off `count`,
  the compare loop's because `p` moves 256 bytes on. `do_*` results are the `ssize_t` or
  `int` the source returns.
-/

import QspiFlash.Driver.Vendor

namespace QspiFlash.Driver

/-! ## Identification and modes -/

/-- `pimpl = pqm->qspi_factory ()`. -/
def callFactory : Option Vendor → M (Option Vendor)
  | some v => do
    ask (.qspiFactory v)
    pure (some v)
  | none => do
    let _ ← ask .nullDeref
    pure none

/-- The inner loop of `read_JEDEC_ID`, over the devices of the row `pqm`. -/
def scanDevices (pqm : QspiManuf) : List QspiDevice → QspiResult → Qspi → M (QspiResult × Qspi)
  | [], result, q => do
    ask .overrun
    pure (result, q)
  | pqd :: rest, result, q =>
    if pqd.deviceID = 0 then pure (result, q)
    else if pqd.deviceID = q.memoryType then do
      let pimpl ← callFactory pqm.qspiFactory
      pure (.ok, { q with pmanufacturer := pqm.manufacturerName, pdevice := some pqd, pimpl := pimpl })
    else scanDevices pqm rest result q

/-- The outer loop of `read_JEDEC_ID`: a match does not end it. -/
def scanManufacturers : List QspiManuf → QspiResult → Qspi → M (QspiResult × Qspi)
  | [], result, q => do
    ask .overrun
    pure (result, q)
  | pqm :: rest, result, q =>
    if pqm.manufacturerID = 0 then pure (result, q)
    else if pqm.manufacturerID = q.manufacturerID then do
      let (result, q) ← scanDevices pqm pqm.devices result q
      scanManufacturers rest result q
    else scanManufacturers rest result q

/-- `manufacturer_ID_` and `memory_type_` from the three bytes received. -/
def Qspi.withId (q : Qspi) (buff : UInt8 × UInt8 × UInt8) : Qspi :=
  { q with manufacturerID := buff.1, memoryType := (buff.2.1.toUInt16 <<< 8) + buff.2.2.toUInt16 }

/-- What `read_JEDEC_ID` does with the bytes received. -/
def identify (tbl : List QspiManuf) (q : Qspi) : M (QspiResult × Qspi) := do
  let buff ← ask .idBytes
  scanManufacturers tbl .typeNotFound (q.withId buff)

/-- `tbl` is the table `qspi_manufacturers` the driver is linked with. -/
def readJedecId (tbl : List QspiManuf) (q : Qspi) : M (QspiResult × Qspi) := do
  let result ← onOk (qspiCommand { instruction := .JEDEC_ID, instructionMode := .one, dataMode := .one, nbData := 3 }
      .TIMEOUT) <| onOk halReceiveIT <| timedWait .TIMEOUT
  if result = .ok then identify tbl q else pure (result, q)

def sleep (state : Bool) : M QspiResult :=
  qspiCommand { instruction := if state then .POWER_DOWN else .RELEASE_POWER_DOWN, instructionMode := .four } .TIMEOUT

def resetChip : M QspiResult :=
  onOk (qspiCommand { instruction := .RESET_ENABLE, instructionMode := .four } .TIMEOUT) <|
  qspiCommand { instruction := .RESET_DEVICE, instructionMode := .four } .TIMEOUT

/-- `(pimpl == nullptr) ? error : pimpl->enter_quad_mode (this)`. -/
def enterQuadMode (q : Qspi) : M QspiResult :=
  match q.pimpl with
  | none => pure .error
  | some .winbond => QspiWinbond.enterQuadMode q
  | some .micron => QspiMicron.enterQuadMode q

/-- `qspi_impl::initialize`. -/
def initializeQspi (tbl : List QspiManuf) (q : Qspi) : M (QspiResult × Qspi) := do
  let x ← readJedecId tbl q
  let x ← if x.1 ≠ .ok then do
      -- flash device might be in deep sleep
      let _ ← sleep false
      let result ← resetChip
      if result = .ok then readJedecId tbl x.2 else pure (result, x.2)
    else pure x
  if x.1 = .ok then do
    let result ← enterQuadMode x.2
    pure (result, x.2)
  else pure x

/-- `qspi_impl::uninitialize`. -/
def uninitializeQspi (q : Qspi) : M (QspiResult × Qspi) := do
  let q := { q with pimpl := none }
  let _ ← sleep false
  let result ← resetChip
  pure (result, q)

/-! ## Reading, programming, erasing -/

/-- The settings of the fast read, in `read` and in `enter_mem_mapped`. -/
def fastRead (d : QspiDevice) : QspiCommand where
  instruction := .FAST_READ_QUAD_IN_OUT
  instructionMode := .four
  addressMode := .four
  dataMode := .four
  alternateByteMode := d.altBytesMode
  alternateBytesSize := d.altBytesSize
  alternateBytes := d.altBytes
  dummyCycles := (d.dummyCycles.toNat + 2 ^ 32 - d.altBytesCycles.toNat) % 2 ^ 32

def enterMemMapped (q : Qspi) : M QspiResult :=
  match q.pdevice with
  | none => pure .error
  | some d => halMemoryMapped (fastRead d) { timeOutActivation := false }

def exitMemMapped : M QspiResult := halAbort

def read (q : Qspi) (address : Nat) (buff : Ptr) (count : Nat) : M QspiResult :=
  match q.pdevice with
  | none => pure .error
  | some d =>
    onOk (qspiCommand { fastRead d with address := address, nbData := count } .TIMEOUT) do
      if (buff.add count).addr ≥ q.sram1Base then
        invalidateDcache buff count
      onOk (halReceiveDMA buff) <| timedWait .TIMEOUT

def pageWrite (q : Qspi) (address : Nat) (buff : Ptr) (count : Nat) : M QspiResult :=
  onOk (qspiCommand { instruction := .WRITE_ENABLE, instructionMode := .four } .TIMEOUT) <|
  onOk (qspiCommand { instruction := .PAGE_PROGRAM, instructionMode := .four, addressMode := .four,
                      dataMode := .four, address := address, nbData := count } .TIMEOUT) do
    if (buff.add count).addr ≥ q.sram1Base then
      cleanDcache buff count
    onOk (halTransmitDMA buff) <|
    onOk (timedWait .TIMEOUT) <|
    onOk (halAutoPollingIT { instruction := .READ_STATUS_REGISTER, instructionMode := .four, dataMode := .four,
                             address := address, nbData := count } statusPoll) <|
    timedWait .WRITE_TIMEOUT

/-- `in_block_count`, as the branches of `write` set it. -/
def inBlockCount (address count : Nat) : Nat :=
  let inBlockCount := 0x100 - (address &&& 0xFF)
  if inBlockCount > count then count
  else if inBlockCount = 0 then (if count > 0x100 then 0x100 else count)
  else inBlockCount

theorem inBlockCount_eq (address count : Nat) : inBlockCount address count = min (256 - address % 256) count := by
  have hm : address &&& 0xFF = address % 256 := Nat.and_two_pow_sub_one_eq_mod address 8
  unfold inBlockCount
  simp only [hm]
  split
  · omega
  · split <;> omega

/-- The `do`-`while` loop of `write`. -/
def writeLoop (q : Qspi) (address : Nat) (buff : Ptr) (count : Nat) : M QspiResult :=
  onOk (pageWrite q address buff (inBlockCount address count)) do
    let address' ← u32 (address + inBlockCount address count)
    if _h : count - inBlockCount address count > 0 then
      writeLoop q address' (buff.add (inBlockCount address count)) (count - inBlockCount address count)
    else pure .ok
termination_by count
decreasing_by
  rw [inBlockCount_eq] at *
  omega

def write (q : Qspi) (address : Nat) (buff : Ptr) (count : Nat) : M QspiResult :=
  match q.pdevice with
  | none => pure .error
  | some _ => writeLoop q address buff count

def erase (q : Qspi) (address : Nat) (which : Instruction) : M QspiResult :=
  match q.pdevice with
  | none => pure .error
  | some _ =>
    onOk (qspiCommand { instruction := .WRITE_ENABLE, instructionMode := .four } .TIMEOUT) <|
    onOk (qspiCommand { instruction := which, instructionMode := .four,
                        addressMode := if which = .CHIP_ERASE then .none else .four, address := address } .TIMEOUT) <|
    onOk (halAutoPollingIT { instruction := .READ_STATUS_REGISTER, instructionMode := .four, dataMode := .four,
                             address := address } statusPoll) <|
    timedWait (if which = .CHIP_ERASE then .CHIP_ERASE_TIMEOUT else .ERASE_TIMEOUT)

def eraseBlock32K (q : Qspi) (address : Nat) : M QspiResult := erase q address .BLOCK_32K_ERASE

def eraseBlock64K (q : Qspi) (address : Nat) : M QspiResult := erase q address .BLOCK_64K_ERASE

def eraseChip (q : Qspi) : M QspiResult := erase q 0 .CHIP_ERASE

def readSector (q : Qspi) (sector : Nat) (buff : Ptr) (count : Nat) : M QspiResult := do
  let address ← u32 (sector * (← sectorSizeOf q))
  read q address buff count

def writeSector (q : Qspi) (sector : Nat) (buff : Ptr) (count : Nat) : M QspiResult := do
  let address ← u32 (sector * (← sectorSizeOf q))
  write q address buff count

def eraseSector (q : Qspi) (sector : Nat) : M QspiResult := do
  let address ← u32 (sector * (← sectorSizeOf q))
  erase q address .SECTOR_ERASE

def getManufacturer (q : Qspi) : Option String := q.pmanufacturer

def getMemoryType (q : Qspi) : Option String :=
  match q.pdevice with
  | none => none
  | some d => d.deviceName

def getSectorSize (q : Qspi) : Nat :=
  match q.pdevice with
  | none => 0
  | some d => d.sectorSize.toNat

/-- A sector size of 0, which no row has and by which the source would divide, gives 0. -/
def getSectorCount (q : Qspi) : Nat :=
  match q.pdevice with
  | none => 0
  | some d => d.capacity / d.sectorSize.toNat

/-! ## The block device -/

/-- A `size_t` returned as a `ssize_t`. -/
def ssize (n : Nat) : Int := if n < 2 ^ 31 then n else n - 2 ^ 32

/-- The `size_t` that `nblocks = -1` leaves. -/
def minusOne : Nat := 2 ^ 32 - 1

theorem ssize_small {n : Nat} (h : n < 2 ^ 31) : ssize n = n := if_pos h

theorem ssize_minusOne : ssize minusOne = -1 := by decide

/-- `do_vopen` from its call of `initialize` on: the result is what `initialize` returned. -/
def vopenFinish (result : QspiResult) (q : Qspi) : M (Int × Qspi) :=
  if result ≠ .ok then do
    ask (.setErrno .eio)
    pure (-1, q)
  else do
    let q := { q with
      numBlocks := getSectorCount q
      blockLogicalSizeBytes := getSectorSize q
      blockPhysicalSizeBytes := getSectorSize q }
    if q.numBlocks = 0 ∨ q.blockPhysicalSizeBytes = 0 then do
      ask (.setErrno .eio)
      pure (-1, q)
    else pure (0, { q with isOpened := true })

def doVopen (tbl : List QspiManuf) (q : Qspi) : M (Int × Qspi) :=
  if q.isOpened then do
    ask (.setErrno .eexist)
    pure (-1, q)
  else if q.instanceNull then do
    ask (.setErrno .eio)
    pure (-1, q)
  else do
    let x ← initializeQspi tbl q
    vopenFinish x.1 x.2

def doReadBlock (q : Qspi) (buf : Ptr) (blknum nblocks : Nat) : M Int := do
  let address ← u32 (q.blockLogicalSizeBytes * blknum)
  let count ← u32 (q.blockLogicalSizeBytes * nblocks)
  let result ← read q address buf count
  if result ≠ .ok then do
    ask (.setErrno .eio)
    pure (ssize minusOne)
  else pure (ssize nblocks)

/-- The first loop of `do_write_block`: is there a byte to write among the `n` at `p`? -/
def hasData (p : Ptr) : Nat → M Bool
  | 0 => pure false
  | n + 1 => do
    let b ← ask (.load p)
    if b ≠ 0xFF then pure true else hasData (p.add 1) n

/-- `while (i--) { erase_sector (blknum++); }`. -/
def eraseBlocks (q : Qspi) : Nat → Nat → M Unit
  | 0, _ => pure ()
  | i + 1, blknum => do
    let result ← eraseSector q blknum
    ask (.dropped blknum result)
    eraseBlocks q i (← u32 (blknum + 1))

/-- The inner loop of `do_write_block`, over the `n` bytes still to compare at `p` and at
    `l` in `lbuff_`: (`to_erase`, `valid_data`). -/
def compareChunk (p l : Ptr) : Nat → Bool → M (Bool × Bool)
  | 0, validData => pure (false, validData)
  | n + 1, validData => do
    let new ← ask (.load p)
    let old ← ask (.load l)
    if new ≠ old ∧ old ≠ 0xFF then
      pure (true, validData)
    else compareChunk (p.add 1) (l.add 1) n (validData || (new ≠ 0xFF && new ≠ old))

/-- The `do`-`while` loop of `do_write_block`, at chunk `sector_256` with the pointer `p`:
    (`to_erase`, `nblocks`). -/
def writeInPlace (q : Qspi) (buf : Ptr) (address count nblocks sector256 : Nat) (p : Ptr) : M (Bool × Nat) := do
  let result ← read q (← u32 (address + (← u32 (sector256 * lbuffSize)))) q.lbuff lbuffSize
  if result ≠ .ok then
    ask (.setErrno .eio)
    pure (false, minusOne)
  else
    let x ← compareChunk p q.lbuff lbuffSize false
    if x.1 then pure (true, nblocks)
    else
      -- sector already erased, just write but only if whole data != 0xFF
      let result ← if x.2 then do
          let offset ← u32 (sector256 * lbuffSize)
          write q (← u32 (address + offset)) (buf.add offset) lbuffSize
        else pure .ok
      if result ≠ .ok then
        ask (.setErrno .eio)
        pure (false, minusOne)
      else
        let sector256 ← u32 (sector256 + 1)
        if _h : p.off + lbuffSize < buf.off + count then
          writeInPlace q buf address count nblocks sector256 (p.add lbuffSize)
        else pure (false, nblocks)
termination_by buf.off + count - p.off
decreasing_by
  simp only [Ptr.add_off, lbuffSize] at *
  omega

def doWriteBlock (q : Qspi) (buf : Ptr) (blknum nblocks : Nat) : M Int := do
  let address ← u32 (q.blockLogicalSizeBytes * blknum)
  let count ← u32 (q.blockLogicalSizeBytes * nblocks)
  let toWrite ← hasData buf count
  if toWrite = false then
    eraseBlocks q nblocks blknum
    pure (ssize nblocks)
  else
    let x ← writeInPlace q buf address count nblocks 0 buf
    if x.1 = true ∧ x.2 > 0 then
      -- write without erase did not work, so erase first the blocks to be written
      eraseBlocks q nblocks blknum
      let result ← write q address buf count
      if result ≠ .ok then
        ask (.setErrno .eio)
        pure (ssize minusOne)
      else pure (ssize x.2)
    else pure (ssize x.2)

def doClose (q : Qspi) : M (Int × Qspi) := do
  let x ← uninitializeQspi q
  if x.1 ≠ .ok then do
    ask (.setErrno .eio)
    pure (-1, x.2)
  else pure (0, { x.2 with isOpened := false })

end QspiFlash.Driver
