import ResumableCsv.Text.Utf8

/-!
The cyclic redundancy check of compressed members, and the little-endian words that store it.
-/

namespace ResumableCsv.Gzip

def checksumBit (register : UInt32) : UInt32 :=
  if register &&& 1 = 1 then (register >>> 1) ^^^ 0xEDB88320 else register >>> 1

def checksumByte (register : UInt32) (byte : UInt8) : UInt32 :=
  Nat.repeat checksumBit 8 (register ^^^ byte.toUInt32)

def checksum (content : Bytes) : UInt32 :=
  content.foldl checksumByte 0xFFFFFFFF ^^^ 0xFFFFFFFF

/-- The lowest `count` bytes of a number, least significant first. -/
def littleEndian : Nat → Nat → Bytes
  | 0, _ => []
  | count + 1, n => UInt8.ofNat (n % 256) :: littleEndian count (n / 256)

def ofLittleEndian : Bytes → Nat
  | [] => 0
  | byte :: rest => byte.toNat + 256 * ofLittleEndian rest

end ResumableCsv.Gzip
