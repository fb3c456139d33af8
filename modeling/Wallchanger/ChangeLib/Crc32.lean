import Wallchanger.ChangeLib.Text

/-! `crc32.hpp`: the table-driven checksum, over registers of the platform's width
of `std::uint_fast32_t`. -/

namespace Wallchanger.Helper

variable (width : Nat)

def reversePolynomial : BitVec width := 0xEDB88320

/-- One of the eight rounds that make a table entry. -/
def byteChecksumRound (checksum : BitVec width) : BitVec width :=
  (checksum >>> 1) ^^^ (if checksum &&& 1 ≠ 0 then reversePolynomial width else 0)

def byteChecksum (n : Nat) : BitVec width :=
  Nat.repeat (byteChecksumRound width) 8 (BitVec.ofNat width n)

def generateCrcTable : List (BitVec width) := (List.range 256).map (byteChecksum width)

/-- What `std::accumulate` folds over the bytes; the index is below 256, so `at`
does not throw. -/
def accumulate (checksum : BitVec width) (value : UInt8) : BitVec width :=
  (generateCrcTable width).getD ((checksum ^^^ BitVec.ofNat width value.toNat) &&& 0xFF).toNat 0
    ^^^ (checksum >>> 8)

def crc (bytes : Bytes) : BitVec width :=
  0xFFFFFFFF &&& ~~~(bytes.foldl (accumulate width) (~~~0 &&& 0xFFFFFFFF))

/-- The table index of a register and a byte stays inside the table. -/
theorem table_index_lt (checksum value : BitVec width) :
    ((checksum ^^^ value) &&& 0xFF).toNat < (generateCrcTable width).length := by
  have bound : ((checksum ^^^ value) &&& 0xFF).toNat ≤ (0xFF : BitVec width).toNat := by
    rw [BitVec.toNat_and]
    exact Nat.and_le_right
  have small : (0xFF : BitVec width).toNat ≤ 0xFF := Nat.mod_le 0xFF (2 ^ width)
  simp only [generateCrcTable, List.length_map, List.length_range]
  omega

end Wallchanger.Helper

namespace Wallchanger

/-- `static_cast<u32>` of the checksum, with 64-bit registers as on x86-64 Linux. -/
def crc32 (bytes : Bytes) : UInt32 := UInt32.ofNat (Helper.crc 64 bytes).toNat

example : crc32 [0x31, 0x32, 0x33, 0x34, 0x35, 0x36, 0x37, 0x38, 0x39] = 0xCBF43926 := by decide

end Wallchanger
