/-!
# Checksums

The cyclic redundancy check CRC-32: the remainder of the message, bits reflected, modulo the
polynomial `0xEDB88320`, started from and finished with all bits set. Messages are absorbed bit by
bit, which is linear in the message.
-/

namespace BuildScript.Checksum

/-- Absorbs a zero bit. -/
def shift (state : UInt32) : UInt32 :=
  if state &&& 1 == 0 then state >>> 1 else (state >>> 1) ^^^ 0xEDB88320

/-- Absorbs a byte, lowest bit first. -/
def absorb (state : UInt32) (b : UInt8) : UInt32 := Nat.repeat shift 8 (state ^^^ b.toUInt32)

def crc32 (bytes : List UInt8) : UInt32 := bytes.foldl absorb 0xFFFFFFFF ^^^ 0xFFFFFFFF

end BuildScript.Checksum
