import JvmCoupling.Bytes

/-! # Archive checksum

Members of an archive carry the 32-bit cyclic redundancy code of their content, least significant bit
first, with the polynomial of the archive format.
-/

namespace JvmCoupling.Archive

/-- The polynomial, bits reversed. -/
def checksumPolynomial : UInt32 := 0xEDB88320

/-- One bit of division by the polynomial. -/
def checksumBit (r : UInt32) : UInt32 :=
  if r &&& 1 = 1 then (r >>> 1) ^^^ checksumPolynomial else r >>> 1

/-- Takes in one byte. -/
def checksumByte (r : UInt32) (b : UInt8) : UInt32 :=
  Nat.repeat checksumBit 8 (r ^^^ b.toUInt32)

/-- The checksum of a byte string. -/
def checksum (data : Bytes) : UInt32 := data.foldl checksumByte 0xFFFFFFFF ^^^ 0xFFFFFFFF

end JvmCoupling.Archive
