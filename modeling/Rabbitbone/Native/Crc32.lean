import Mathlib.Data.Nat.Notation

/-!
# CRC-32

Model of `kernel/lib/crc32.c`.
-/

namespace Rabbitbone.Native

/-- One bit of `crc32_update`. -/
def crc32Bit (crc : UInt32) : UInt32 := crc >>> 1 ^^^ (0xedb88320 &&& (0 - (crc &&& 1)))

/-- One byte of `crc32_update`. -/
def crc32Byte (crc : UInt32) (byte : UInt8) : UInt32 :=
  Nat.repeat crc32Bit 8 (crc ^^^ byte.toUInt32)

/-- `crc32_update`. -/
def crc32Update (crc : UInt32) (data : List UInt8) : UInt32 := ~~~(data.foldl crc32Byte (~~~crc))

/-- `crc32`. -/
def crc32 (data : List UInt8) : UInt32 := crc32Update 0 data

-- the values of `crc32_selftest`
example : crc32 [49, 50, 51, 52, 53, 54, 55, 56, 57] = 0xcbf43926 := by decide +kernel

example : crc32 [97, 98, 99] = 0x352441c2 := by decide +kernel

end Rabbitbone.Native
