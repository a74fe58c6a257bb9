/-
  QspiFlash.Driver.Vendor — the two vendor classes (`qspi-winbond.cpp`,
  `qspi-micron.cpp`): how each switches its chips to quad mode.
-/

import QspiFlash.Driver.Core

namespace QspiFlash.Driver.QspiWinbond

/-- `(dummy_cycles / 2) - 1`, then `<<= 4`. -/
def readParameters (dummyCycles : UInt8) : UInt8 := (dummyCycles / 2 - 1) <<< 4

def enterQuadMode (q : Qspi) : M QspiResult :=
  let sCommand : QspiCommand := { instruction := .VOLATILE_SR_WRITE_ENABLE, instructionMode := .one, nbData := 1 }
  onOk (qspiCommand sCommand .TIMEOUT) <|
  onOk (qspiCommand { sCommand with dataMode := .one, instruction := .WRITE_STATUS_REGISTER_2 } .WRITE_TIMEOUT) <|
  onOk (halTransmit 2 .TIMEOUT) <|
  onOk (qspiCommand { sCommand with instruction := .ENTER_QUAD_MODE } .TIMEOUT) <|
  onOk (qspiCommand { sCommand with
    dataMode := .four, instructionMode := .four, instruction := .SET_READ_PARAMETERS } .TIMEOUT) do
      -- compute and set number of dummy cycles
      halTransmit (readParameters (← dummyCyclesOf q)) .TIMEOUT

end QspiFlash.Driver.QspiWinbond

namespace QspiFlash.Driver.QspiMicron

/-- `dummy_cycles << 4`, then `|= 0xB`. -/
def volatileConfiguration (dummyCycles : UInt8) : UInt8 := (dummyCycles <<< 4) ||| 0xB

def enterQuadMode (q : Qspi) : M QspiResult :=
  let sCommand : QspiCommand := { instruction := .WRITE_ENABLE, instructionMode := .one, nbData := 1 }
  onOk (qspiCommand sCommand .TIMEOUT) <|
  onOk (qspiCommand { sCommand with dataMode := .one, instruction := .WRITE_VOLATILE_STATUS_REGISTER } .TIMEOUT) do
    let datareg := volatileConfiguration (← dummyCyclesOf q)
    onOk (halTransmit datareg .TIMEOUT) <|
    onOk (qspiCommand { sCommand with instruction := .WRITE_ENABLE } .TIMEOUT) <|
    onOk (qspiCommand { sCommand with
      dataMode := .one, instruction := .WRITE_ENH_VOLATILE_STATUS_REGISTER } .TIMEOUT) <|
    onOk (halTransmit 0x6F .TIMEOUT) <|
    qspiCommand { sCommand with instruction := .ENTER_QUAD_MODE } .TIMEOUT

end QspiFlash.Driver.QspiMicron
