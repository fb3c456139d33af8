import Wallchanger.ChangeLib.BitwiseCrc
import Wallchanger.Net.Message

/-! What the hash of a message notices of a body that changed on the way. -/

namespace Wallchanger.Net

open Foundation.ShiftRegister Helper

/-- The bits in which two bodies differ lie within a burst of `span` places, counted from
the lowest bit of the first byte upwards. -/
def DifferWithin (span : Nat) (body other : Bytes) : Prop :=
  ∃ start, ∀ place, (bitsOf body)[place]? ≠ (bitsOf other)[place]? → start ≤ place ∧ place < start + span

/-- Bodies of one length that differ within the width of the checksum have different ones. -/
theorem crc32_ne_of_burst {body other : Bytes} (same : body.length = other.length) (differ : body ≠ other)
    (burst : DifferWithin 32 body other) : crc32 body ≠ crc32 other := by
  have ⟨start, within⟩ := burst
  have lengths : (bitsOf body).length = (bitsOf other).length := by
    rw [length_bitsOf, length_bitsOf, same]
  have tapped : (0xEDB88320 : BitVec 32).getLsbD 31 = true := rfl
  have registers := feeds_ne_of_burst tapped lengths (bitsOf_injective.ne differ) within 0xFFFFFFFF
  intro equal
  have checksums := (toNat_crc32 body).symm.trans ((congrArg UInt32.toNat equal).trans (toNat_crc32 other))
  exact registers ((BitVec.xor_left_inj _).mp (BitVec.eq_of_toNat_eq checksums))

namespace Message

/-- A message that carries the hash of another body, changed by one short burst, does not
validate, whatever else its header holds. -/
theorem validate_of_burst {msg received : Message} (now : UInt64)
    (hash : received.header.hash = (msg.finalize now).header.hash)
    (same : received.body.length = msg.body.length) (differ : received.body ≠ msg.body)
    (burst : DifferWithin 32 received.body msg.body) : received.validate = false := by
  have checksums := crc32_ne_of_burst same differ burst
  change received.header.hash = crc32 msg.body at hash
  simpa only [validate, hash, decide_eq_false_iff_not] using checksums

theorem validate_of_burst_letter :
    { ({ body := [0x63, 0x61, 0x74] } : Message).finalize 5 with body := [0x63, 0x75, 0x74] }.validate =
      false := by
  refine validate_of_burst 5 rfl rfl (by decide) ⟨0, ?_⟩
  intro place apart
  refine ⟨Nat.zero_le place, Nat.lt_of_not_le (fun beyond => apart ?_)⟩
  rw [List.getElem?_eq_none, List.getElem?_eq_none] <;> rw [length_bitsOf]
  · exact Nat.le_trans (by decide) beyond
  · exact Nat.le_trans (by decide) beyond

end Message

end Wallchanger.Net
