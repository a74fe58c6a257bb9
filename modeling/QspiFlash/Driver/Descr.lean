/-
  QspiFlash.Driver.Descr — the supported devices (`qspi-descr.h`, `qspi-descr.cpp`).

  A table is a list of rows with its sentinel row at the end, as the source's arrays
  are: `{}` is the row whose fields are all zero. A null `const char*` or function
  pointer is `none`. A factory is named by the vendor class it makes an object of.
-/

import Mathlib.Algebra.Group.Int.Defs
import Mathlib.Algebra.Group.Nat.Defs

namespace QspiFlash.Driver

/-- The lines a phase of a command uses (`QSPI_*_NONE`, `_1_LINE`, `_2_LINES`, `_4_LINES`). -/
inductive Lines where
  | none
  | one
  | two
  | four
  deriving DecidableEq, Repr

/-- `QSPI_ALTERNATE_BYTES_8_BITS`, `_16_BITS`, `_32_BITS`. -/
inductive AltBytesSize where
  | bits8
  | bits16
  | bits32
  deriving DecidableEq, Repr

/-- The classes derived from `qspi_intern`. -/
inductive Vendor where
  | micron
  | winbond
  deriving DecidableEq, Repr

/-- `qspi_device_t`. -/
structure QspiDevice where
  deviceID : UInt16 := 0
  sectorSize : UInt16 := 0
  deviceName : Option String := none
  altBytes : UInt32 := 0
  altBytesMode : Lines := .none
  altBytesSize : AltBytesSize := .bits8
  dummyCycles : UInt8 := 0
  altBytesCycles : UInt8 := 0
  ddrSupport : Bool := false
  deriving DecidableEq, Repr

/-- `qspi_manuf_t`. -/
structure QspiManuf where
  manufacturerID : UInt8 := 0
  manufacturerName : Option String := none
  devices : List QspiDevice := []
  qspiFactory : Option Vendor := none
  deriving DecidableEq, Repr

/-- Micron devices; accepted dummy cycles can be between 1 and 14. -/
def micronDevices : List QspiDevice :=
  [⟨0xBA18, 4096, some "MT25QL128ABA", 0, .none, .bits8, 8, 0, true⟩,
   ⟨0xBB18, 4096, some "MT25QL128ABA", 0, .none, .bits8, 8, 0, true⟩,
   {}]

/-- Winbond devices; accepted dummy cycles can be either 2, 4, 6 or 8. -/
def winbondDevices : List QspiDevice :=
  [⟨0x6016, 4096, some "W25Q32FV", 0xF, .four, .bits8, 6, 2, false⟩,
   ⟨0x6017, 4096, some "W25Q64FV", 0xF, .four, .bits8, 6, 2, false⟩,
   ⟨0x6018, 4096, some "W25Q128FV", 0xF, .four, .bits8, 6, 2, false⟩,
   ⟨0x7018, 4096, some "W25Q128JV", 0xF, .four, .bits8, 6, 2, true⟩,
   {}]

def qspiManufacturers : List QspiManuf :=
  [⟨0x20, some "Micron/ST", micronDevices, some .micron⟩,
   ⟨0xEF, some "Winbond", winbondDevices, some .winbond⟩,
   {}]

/-! ## Geometry -/

/-- The capacity in bytes: `1 << (device_ID & 0xFF)` in a 32-bit `size_t`. -/
def QspiDevice.capacity (d : QspiDevice) : Nat := (1 <<< (d.deviceID.toNat &&& 0xFF)) % 2 ^ 32

/-- The devices of the tables, without the sentinels. -/
def tableDevices : List QspiDevice :=
  (qspiManufacturers.flatMap (·.devices)).filter (·.deviceID ≠ 0)

theorem capacity_le (d : QspiDevice) : d.capacity ≤ 2 ^ 31 := by
  unfold QspiDevice.capacity
  rw [Nat.one_shiftLeft]
  generalize d.deviceID.toNat &&& 0xFF = size
  by_cases h : size < 32
  · have hle : 2 ^ size ≤ 2 ^ 31 := Nat.pow_le_pow_right (by omega) (by omega)
    rw [Nat.mod_eq_of_lt (by omega)]
    exact hle
  · have hdvd : 2 ^ 32 ∣ 2 ^ size := Nat.pow_dvd_pow 2 (by omega)
    rw [Nat.mod_eq_zero_of_dvd hdvd]
    omega

/-- Every table device has 4 KiB sectors and at most 16 MiB, as the three address bytes reach. -/
theorem table_geometry : ∀ d ∈ tableDevices, d.sectorSize = 4096 ∧ d.capacity ≤ 2 ^ 24 ∧ 4096 ∣ d.capacity := by
  decide

end QspiFlash.Driver
