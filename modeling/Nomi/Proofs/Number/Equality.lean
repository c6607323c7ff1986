import Mathlib
import Nomi.Number.Rounding

/-!
# Floats that compare as equal

Two floats that compare as equal are the same, bit for bit, except for the two
zeros.  So floats without a minus sign that compare as equal are the same, and the
numerals of sources stand for such floats.

The whole library is imported for its lemmas on the packing and comparison of floats, which
no part of it brings along.
-/

namespace Nomi.Binary64

open Float.Model

def Unsigned (x : Float) : Prop :=
  x.toBits.toNat < signBit

instance (x : Float) : Decidable (Unsigned x) :=
  inferInstanceAs (Decidable (_ < _))

theorem not_unsigned_negZero : ¬ Unsigned (-0) := by
  decide

theorem eq_of_beq {x y : Float} (hx : Unsigned x) (hy : Unsigned y) (h : (x == y) = true) :
    x = y := by
  obtain ⟨_, _, hsame | ⟨_, hzero⟩ | ⟨hzero, _⟩⟩ := Float.beq_iff_ne_nan_and_eq.1 h
  · exact hsame
  · exact absurd (hzero ▸ hy) not_unsigned_negZero
  · exact absurd (hzero ▸ hx) not_unsigned_negZero

/-- A field is packed as it is, unless it is that of no number. -/
theorem unsigned_withSign {field : Nat} (h : field < signBit) :
    Unsigned (withSign false field) := by
  let bits : BitVec Format.binary64.numBits := (UInt64.ofNat field).toBitVec
  have hbits : bits.toNat = field := Nat.mod_eq_of_lt (Nat.lt_trans h (by decide))
  have hnan : (UnpackedFloat.packedNaN .binary64).toNat < signBit := by decide
  show (UnpackedFloat.pack .binary64 (UnpackedFloat.unpack .binary64 bits)).toNat < signBit
  rw [UnpackedFloat.pack_unpack]
  split
  · exact hnan
  · rwa [hbits]

/-- The nearest float to a quotient without sign has none. -/
theorem unsigned_nearest (numerator denominator : Nat) :
    Unsigned (nearest false numerator denominator) := by
  apply unsigned_withSign
  exact Nat.lt_of_le_of_lt (Nat.min_le_right _ _) (by decide)

end Nomi.Binary64
