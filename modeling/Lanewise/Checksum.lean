/-
Lanewise/Checksum.lean

The checksum of buffers: a table-driven CRC over bytes.

The table is the usual one of the reflected polynomial `0xEDB88320`, so that its
entry `i` is the remainder of the byte `i`.  The update, however, moves the
running value by one bit for each byte, where the usual CRC-32 moves it by
eight: all recorded checksums were made with this variant.
-/
import Lanewise.Element

namespace Lanewise

namespace Crc

/-- The reflected generator polynomial. -/
def polynomial : UInt32 := 0xEDB88320

/-- Divides one bit out. -/
def reduceBit (c : UInt32) : UInt32 :=
  (c >>> 1) ^^^ (if c &&& 1 = 0 then 0 else polynomial)

/-- The remainder of one byte: eight single-bit steps. -/
def remainder (byte : UInt8) : UInt32 := Nat.repeat reduceBit 8 byte.toUInt32

/-- The remainders of all bytes. -/
def table : Vector UInt32 256 := Vector.ofFn fun i => remainder (UInt8.ofNat i)

/-- Takes one byte into the running value. -/
def update (crc : UInt32) (byte : UInt8) : UInt32 :=
  (crc >>> 1) ^^^ table.get (crc ^^^ byte.toUInt32).toUInt8.toFin

end Crc

/-- The checksum of a string of bytes. -/
def crc32 (bytes : List UInt8) : UInt32 := ~~~(bytes.foldl Crc.update 0xFFFFFFFF)

/-- The checksum of a buffer is that of its bytes in memory. -/
def checksum (e : Element) (data : Array e.Bits) : UInt32 := crc32 (e.bytesOf data)

end Lanewise
