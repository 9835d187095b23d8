import Melin.Lib.Bytes

/-! CRC32C: the Castagnoli checksum, computed bit by bit. -/

namespace Lib.Crc32c

def polynomial : UInt32 := 0x82F63B78

def shift (register : UInt32) : UInt32 :=
  if register &&& 1 = 1 then (register >>> 1) ^^^ polynomial else register >>> 1

def feed (register : UInt32) (byte : UInt8) : UInt32 :=
  Nat.iterate shift 8 (register ^^^ byte.toUInt32)

def checksum (bytes : Bytes) : UInt32 :=
  bytes.foldl feed 0xFFFFFFFF ^^^ 0xFFFFFFFF

/-- The checksum of a byte string that goes on where another one's checksum was taken. -/
def append (crc : UInt32) (bytes : Bytes) : UInt32 :=
  bytes.foldl feed (crc ^^^ 0xFFFFFFFF) ^^^ 0xFFFFFFFF

theorem append_checksum (front back : Bytes) :
    append (checksum front) back = checksum (front ++ back) := by
  -- The two inversions between the pieces cancel.
  rw [append, checksum, checksum, List.foldl_append, UInt32.xor_assoc, UInt32.xor_self,
    UInt32.xor_zero]

-- The check value every catalogue gives for this polynomial: the digits one to nine.
example : checksum [0x31, 0x32, 0x33, 0x34, 0x35, 0x36, 0x37, 0x38, 0x39] = 0xE3069283 := by
  decide +kernel

end Lib.Crc32c
