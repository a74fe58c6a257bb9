/-
  QspiFlash.Driver.Opened — the state `do_vopen` leaves when it returns 0, and two objects: a
  new one, and one that has opened a W25Q128JV.
-/

import QspiFlash.Driver.Flash

namespace QspiFlash.Driver

/-- The device `d` is open, with the geometry `do_vopen` takes from its descriptor. -/
structure Opened (q : Qspi) (d : QspiDevice) : Prop where
  pdevice : q.pdevice = some d
  isOpened : q.isOpened = true
  numBlocks : q.numBlocks = getSectorCount q
  logicalSize : q.blockLogicalSizeBytes = d.sectorSize.toNat
  physicalSize : q.blockPhysicalSizeBytes = d.sectorSize.toNat

/-- A fresh object, on a controller that is there. -/
def freshDriver : Qspi where
  instanceNull := false
  pimpl := none
  manufacturerID := 0
  memoryType := 0
  pmanufacturer := none
  pdevice := none
  isOpened := false
  lbuffBase := 0x20000040
  numBlocks := 0
  blockLogicalSizeBytes := 0
  blockPhysicalSizeBytes := 0
  sram1Base := 0x20010000

theorem fresh_driver : Fresh freshDriver := ⟨rfl, rfl, rfl, rfl, rfl, rfl⟩

/-- The last row of the Winbond table. -/
def jv : QspiDevice := ⟨0x7018, 4096, some "W25Q128JV", 0xF, .four, .bits8, 6, 2, true⟩

/-- A driver that has opened it. -/
def jvDriver : Qspi where
  instanceNull := false
  pimpl := some .winbond
  manufacturerID := 0xEF
  memoryType := 0x7018
  pmanufacturer := some "Winbond"
  pdevice := some jv
  isOpened := true
  lbuffBase := 0x20000040
  numBlocks := 4096
  blockLogicalSizeBytes := 4096
  blockPhysicalSizeBytes := 4096
  sram1Base := 0x20010000

theorem jv_opened : Opened jvDriver jv := ⟨rfl, rfl, by decide, rfl, rfl⟩

end QspiFlash.Driver
