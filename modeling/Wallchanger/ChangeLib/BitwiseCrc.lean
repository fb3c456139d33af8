import Wallchanger.ChangeLib.Crc32
import Wallchanger.Foundation.ShiftRegister

/-! The checksum one bit at a time, which the table is there to save. -/

namespace Wallchanger.Helper

open Foundation.ShiftRegister

/-- The bits of a byte in the order the checksum takes them, the lowest first. -/
def bits (byte : UInt8) : List Bool := (List.range 8).map byte.toNat.testBit

def bitsOf (bytes : Bytes) : List Bool := bytes.flatMap bits

/-- The reflected CRC-32. -/
def bitwiseCrc (bytes : Bytes) : BitVec 32 := feeds 0xEDB88320 0xFFFFFFFF (bitsOf bytes) ^^^ 0xFFFFFFFF

example : bitwiseCrc [0x61] = 0xE8B7BE43 := by decide

@[simp] theorem length_bits (byte : UInt8) : (bits byte).length = 8 := by simp [bits]

theorem getD_bits (byte : UInt8) (place : Nat) : (bits byte).getD place false = byte.toNat.testBit place := by
  by_cases inside : place < 8
  · simp [bits, inside]
  · have small : byte.toNat < 2 ^ place :=
      Nat.lt_of_lt_of_le byte.toNat_lt (Nat.pow_le_pow_right Nat.two_pos (Nat.le_of_not_lt inside))
    simp [bits, inside, Nat.testBit_lt_two_pow small]

theorem word_bits (byte : UInt8) : (word (bits byte) : BitVec width) = BitVec.ofNat width byte.toNat := by
  apply BitVec.eq_of_getLsbD_eq
  intro place _
  rw [getLsbD_word, getD_bits, BitVec.getLsbD_ofNat]

theorem bits_injective : Function.Injective bits := by
  intro byte other same
  have words : BitVec.ofNat 8 byte.toNat = BitVec.ofNat 8 other.toNat := by
    rw [← word_bits, ← word_bits, same]
  have values := congrArg BitVec.toNat words
  rw [BitVec.toNat_ofNat, BitVec.toNat_ofNat, Nat.mod_eq_of_lt byte.toNat_lt,
    Nat.mod_eq_of_lt other.toNat_lt] at values
  exact UInt8.toNat_inj.mp values

theorem length_bitsOf (bytes : Bytes) : (bitsOf bytes).length = 8 * bytes.length := by
  induction bytes with
  | nil => rfl
  | cons byte rest ih =>
    change (bits byte ++ bitsOf rest).length = _
    rw [List.length_append, length_bits, ih, List.length_cons, Nat.mul_succ, Nat.add_comm]

theorem bitsOf_injective : Function.Injective bitsOf := by
  intro bytes
  induction bytes with
  | nil =>
    intro other same
    have none : 0 = 8 * other.length := by
      rw [← length_bitsOf, ← same]
      rfl
    exact (List.length_eq_zero_iff.mp (by omega)).symm
  | cons byte rest ih =>
    intro other same
    cases other with
    | nil => simp [bitsOf, bits, List.range_succ] at same
    | cons head tail =>
      have ⟨first, others⟩ := List.append_inj same (by simp)
      rw [bits_injective first, ih others]

section Table

variable (width : Nat)

theorem byteChecksumRound_eq_shift (positive : 0 < width) :
    byteChecksumRound width = shift (reversePolynomial width) := by
  funext checksum
  have lowest : checksum &&& 1 ≠ 0 ↔ checksum.getLsbD 0 = true := by
    have masked : checksum &&& 1 = ofBit (checksum.getLsbD 0) := BitVec.and_one_eq_setWidth_ofBool_getLsbD
    rw [masked]
    constructor
    · intro set
      by_contra clear
      exact set (by simp [clear, ofBit])
    · intro set zero
      have atLowest := congrArg (BitVec.getLsbD · 0) zero
      simp only [set, getLsbD_ofBit, positive, decide_true, Bool.true_and] at atLowest
      simp at atLowest
  simp only [byteChecksumRound, shift, lowest]

theorem byteChecksum_eq_shifts (positive : 0 < width) (n : Nat) :
    byteChecksum width n = shifts (reversePolynomial width) 8 (BitVec.ofNat width n) := by
  simp only [byteChecksum, byteChecksumRound_eq_shift width positive, Nat.repeat, shifts]

theorem getLsbD_mask (count place : Nat) : (BitVec.ofNat width (2 ^ count - 1)).getLsbD place =
    (decide (place < width) && decide (place < count)) := by
  rw [BitVec.getLsbD_ofNat, Nat.testBit_two_pow_sub_one]

theorem table_entry (positive : 0 < width) (register : BitVec width)
    (inside : register.toNat < (generateCrcTable width).length) :
    (generateCrcTable width).getD register.toNat 0 = shifts (reversePolynomial width) 8 register := by
  rw [List.getD_eq_getElem?_getD, List.getElem?_eq_getElem inside]
  simp only [generateCrcTable, List.getElem_map, List.getElem_range, Option.getD_some]
  rw [byteChecksum_eq_shifts width positive, BitVec.ofNat_toNat, BitVec.setWidth_eq]

/-- A look into the table does the eight steps of a byte at once. -/
theorem accumulate_eq_feeds (wide : 8 ≤ width) (checksum : BitVec width) (value : UInt8) :
    accumulate width checksum value = feeds (reversePolynomial width) checksum (bits value) := by
  have positive : 0 < width := Nat.lt_of_lt_of_le (Nat.succ_pos 7) wide
  let byte := BitVec.ofNat width value.toNat
  have mask (place : Nat) : (0xFF : BitVec width).getLsbD place =
      (decide (place < width) && decide (place < 8)) := getLsbD_mask width 8 place
  have low : ∀ place < 8,
      ((checksum ^^^ byte) &&& 0xFF).getLsbD place = (checksum ^^^ byte).getLsbD place := by
    intro place below
    have inside : place < width := Nat.lt_of_lt_of_le below wide
    rw [BitVec.getLsbD_and, mask]
    simp only [below, inside, decide_true, Bool.and_true]
  have short : ((checksum ^^^ byte) &&& 0xFF) >>> 8 = 0 := by
    apply BitVec.eq_of_getLsbD_eq
    intro place _
    rw [BitVec.getLsbD_ushiftRight, BitVec.getLsbD_and, mask]
    simp
  have high : (checksum ^^^ byte) >>> 8 = checksum >>> 8 := by
    apply BitVec.eq_of_getLsbD_eq
    intro place _
    have small : value.toNat < 2 ^ (8 + place) :=
      Nat.lt_of_lt_of_le value.toNat_lt (Nat.pow_le_pow_right Nat.two_pos (Nat.le_add_right 8 place))
    simp [byte, BitVec.getLsbD_ushiftRight, BitVec.getLsbD_ofNat, Nat.testBit_lt_two_pow small]
  calc accumulate width checksum value
    _ = shifts (reversePolynomial width) 8 ((checksum ^^^ byte) &&& 0xFF) ^^^ (checksum >>> 8) :=
      congrArg (· ^^^ _) (table_entry width positive _ (table_index_lt width checksum byte))
    _ = shifts (reversePolynomial width) 8 (checksum ^^^ byte) := by
      rw [shifts_eq_low_xor _ 8 _ _ low short, high]
    _ = feeds (reversePolynomial width) checksum (bits value) := by
      rw [feeds_eq_shifts _ (by simpa using wide), word_bits, length_bits]

theorem foldl_accumulate (wide : 8 ≤ width) (bytes : Bytes) (checksum : BitVec width) :
    bytes.foldl (accumulate width) checksum = feeds (reversePolynomial width) checksum (bitsOf bytes) := by
  induction bytes generalizing checksum with
  | nil => rfl
  | cons value rest ih =>
    rw [List.foldl_cons, ih, accumulate_eq_feeds width wide, ← feeds_append]
    rfl

theorem ofNat_eq_setWidth {value : Nat} (small : value < 2 ^ 32) :
    BitVec.ofNat width value = (BitVec.ofNat 32 value).setWidth width := by
  apply BitVec.eq_of_toNat_eq
  rw [BitVec.toNat_setWidth, BitVec.toNat_ofNat, BitVec.toNat_ofNat, Nat.mod_eq_of_lt small]

/-- A register of at least 32 bits holds the checksum of 32 bits, its other bits clear. -/
theorem crc_eq_setWidth (wide : 32 ≤ width) (bytes : Bytes) :
    crc width bytes = (bitwiseCrc bytes).setWidth width := by
  have polynomial : reversePolynomial width = (0xEDB88320 : BitVec 32).setWidth width :=
    ofNat_eq_setWidth width (by decide)
  have ones : (0xFFFFFFFF : BitVec width) = (0xFFFFFFFF : BitVec 32).setWidth width :=
    ofNat_eq_setWidth width (by decide)
  have initial : ~~~0 &&& (0xFFFFFFFF : BitVec width) = (0xFFFFFFFF : BitVec 32).setWidth width := by
    have all : ~~~(0 : BitVec width) = BitVec.allOnes width := BitVec.not_zero
    rw [← ones, all, BitVec.allOnes_and]
  have mask (place : Nat) : (0xFFFFFFFF : BitVec 32).getLsbD place =
      (decide (place < 32) && decide (place < 32)) := getLsbD_mask 32 32 place
  rw [crc, foldl_accumulate width (Nat.le_trans (by decide) wide), initial, polynomial,
    feeds_setWidth _ wide (by decide), bitwiseCrc, ones]
  apply BitVec.eq_of_getLsbD_eq
  intro place inside
  rw [BitVec.getLsbD_and, BitVec.getLsbD_not, BitVec.getLsbD_setWidth, BitVec.getLsbD_setWidth,
    BitVec.getLsbD_setWidth, BitVec.getLsbD_xor, mask]
  by_cases low : place < 32
  · simp [low, inside]
  · simp [low, inside, BitVec.getLsbD_of_ge _ place (Nat.le_of_not_lt low)]

end Table

theorem toNat_crc {width : Nat} (wide : 32 ≤ width) (bytes : Bytes) :
    (crc width bytes).toNat = (bitwiseCrc bytes).toNat := by
  rw [crc_eq_setWidth width wide, BitVec.toNat_setWidth_of_le wide]

theorem toNat_crc32 (bytes : Bytes) : (crc32 bytes).toNat = (bitwiseCrc bytes).toNat := by
  rw [crc32, UInt32.toNat_ofNat', toNat_crc (by decide), Nat.mod_eq_of_lt (bitwiseCrc bytes).isLt]

/-- The table computes the reflected CRC-32 whatever the width of the registers, which
leaves no bit above the lowest 32; so platforms agree on the hashes they store and send. -/
theorem crc_refines_bitwise {width : Nat} (wide : 32 ≤ width) (bytes : Bytes) :
    (crc width bytes).toNat = (bitwiseCrc bytes).toNat ∧ (crc width bytes).toNat < 2 ^ 32 ∧
      (∀ other, 32 ≤ other → (crc other bytes).toNat = (crc width bytes).toNat) ∧
      (crc32 bytes).toNat = (crc width bytes).toNat := by
  have value := toNat_crc wide bytes
  refine ⟨value, value ▸ (bitwiseCrc bytes).isLt, ?_, (toNat_crc32 bytes).trans value.symm⟩
  intro other wideOther
  exact (toNat_crc wideOther bytes).trans value.symm

theorem crc_refines_bitwise_letter :
    (crc 64 [0x61]).toNat = 0xE8B7BE43 ∧ (crc 32 [0x61]).toNat = 0xE8B7BE43 := by
  have letter : (bitwiseCrc [0x61]).toNat = 0xE8B7BE43 := by decide
  have ⟨value, _, other, _⟩ := @crc_refines_bitwise 64 (by decide) [0x61]
  have wide := value.trans letter
  exact ⟨wide, (other 32 (Nat.le_refl 32)).trans wide⟩

end Wallchanger.Helper
