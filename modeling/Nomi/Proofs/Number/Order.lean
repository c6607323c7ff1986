import Nomi.Proofs.Number.Fields

/-!
# The order of floats

Floats are compared by sign, exponent and significand.  For those without a minus
sign that is the order of the magnitude fields, so whatever lies between two positive
finite floats is the float of a field between theirs.
-/

namespace Nomi.Binary64

open Float.Model

attribute [local instance (high)] instPowNat

theorem le_iff {x y : Float} :
    x ≤ y ↔ (x.toModel.unpack.compare y.toModel.unpack).any (·.isLE) = true :=
  decide_eq_true_iff

theorem lt_iff {x y : Float} :
    x < y ↔ x.toModel.unpack.compare y.toModel.unpack = some .lt :=
  Iff.trans decide_eq_true_iff beq_iff_eq

theorem lt_signBit_of_positive {bits : BitVec Format.binary64.numBits}
    (h : UnpackedFloat.Sign.ofBitVec (UnpackedFloat.unpackSign bits) = .positive) :
    bits.toNat < signBit := by
  by_contra hnot
  have hword := bits.isLt
  have hsign : UnpackedFloat.unpackSign bits = 1#1 := by
    apply BitVec.eq_of_toNat_eq
    simp [UnpackedFloat.unpackSign, Nat.shiftRight_eq_div_pow]
    simp [signBit, fractionWidth, exponentWidth, Format.numBits] at *
    omega
  rw [hsign] at h
  cases h

/-- A positive number is unpacked to the significand and the spacing of its field. -/
theorem unpack_eq_finite {bits : BitVec Format.binary64.numBits} {significand : Nat}
    {exponent : Int} {hpos : 0 < significand}
    (h : UnpackedFloat.unpack .binary64 bits = .finite .positive significand exponent hpos) :
    ∃ steps : Nat, bits.toNat = steps * 2 ^ 52 + significand ∧ significand < 2 ^ 53 ∧
      (steps = 0 ∨ 2 ^ 52 ≤ significand) ∧ exponent = steps - 1074 ∧
      bits.toNat < infinityField := by
  have hexponent := exponent_toNat bits
  have hfraction := fraction_toNat bits
  have hbias : (Format.binary64.exponentBias : Int) = 1023 := by decide
  rw [UnpackedFloat.unpack.eq_1] at h
  split_ifs at h with hlimit hzero hzero hnone
  · obtain ⟨hsign, rfl, rfl⟩ := UnpackedFloat.finite.inj h
    have hlow := lt_signBit_of_positive hsign
    rw [hzero] at hexponent
    rw [hfraction, hbias, hzero]
    simp only [signBit, fractionWidth, exponentWidth, infinityField, exponentLimit,
      BitVec.toNat_ofNat] at *
    refine ⟨0, ?_, ?_, ?_, ?_, ?_⟩ <;> omega
  · obtain ⟨hsign, rfl, rfl⟩ := UnpackedFloat.finite.inj h
    have hlow := lt_signBit_of_positive hsign
    have hfinite : bits.toNat / 2 ^ fractionWidth % 2 ^ exponentWidth ≠ 2047 := by
      rw [← hexponent]
      exact fun heq => hlimit (BitVec.eq_of_toNat_eq heq)
    have hnormal : bits.toNat / 2 ^ fractionWidth % 2 ^ exponentWidth ≠ 0 := by
      rw [← hexponent]
      exact fun heq => hzero (BitVec.eq_of_toNat_eq heq)
    have hleading : (1#1 ++ UnpackedFloat.unpackMantissa bits).toNat =
        2 ^ 52 + bits.toNat % 2 ^ 52 := by
      have hlt : bits.toNat % 2 ^ 52 < 2 ^ 52 := Nat.mod_lt _ (by decide)
      rw [BitVec.toNat_append, hfraction]
      exact (Nat.shiftLeft_add_eq_or_of_lt hlt 1).symm
    rw [hleading, hbias, hexponent]
    simp only [signBit, fractionWidth, exponentWidth, infinityField, exponentLimit] at *
    refine ⟨bits.toNat / 2 ^ 52 - 1, ?_, ?_, ?_, ?_, ?_⟩ <;> omega

/-- What compares between two positive numbers is positive itself. -/
theorem positive_of_between {low high middle : UnpackedFloat} {m₁ m₂ : Nat} {e₁ e₂ : Int} {h₁ h₂}
    (hlow : low = .finite .positive m₁ e₁ h₁) (hhigh : high = .finite .positive m₂ e₂ h₂)
    (hle : (low.compare middle).any (·.isLE) = true) (hlt : middle.compare high = some .lt) :
    ∃ significand exponent hpos, middle = .finite .positive significand exponent hpos ∧
      (e₁ < exponent ∨ e₁ = exponent ∧ m₁ ≤ significand) ∧
      (exponent < e₂ ∨ exponent = e₂ ∧ significand < m₂) := by
  subst hlow hhigh
  cases middle with
  | notANumber => simp [UnpackedFloat.compare] at hle
  | infinity sign => cases sign <;> simp [UnpackedFloat.compare] at hle hlt
  | zero sign => simp [UnpackedFloat.compare] at hle
  | finite sign significand exponent hpos =>
      cases sign with
      | negative => simp [UnpackedFloat.compare] at hle
      | positive =>
          refine ⟨significand, exponent, hpos, rfl, ?_, ?_⟩
          · simp [UnpackedFloat.compare, Ordering.isLE_then_iff_and, Std.isLE_compare,
              Std.compare_eq_lt] at hle
            omega
          · simpa [UnpackedFloat.compare, Ordering.then_eq_lt, Std.compare_eq_lt] using hlt

/-- Whatever lies between two positive numbers is the float of a field between
theirs. -/
theorem exists_field_of_le_of_lt {low high x : Float} {m₁ m₂ : Nat} {e₁ e₂ : Int} {h₁ h₂}
    (hlow : low.toModel.unpack = .finite .positive m₁ e₁ h₁)
    (hhigh : high.toModel.unpack = .finite .positive m₂ e₂ h₂) (hle : low ≤ x) (hlt : x < high) :
    ∃ field, x = withSign false field ∧ low.toBits.toNat ≤ field ∧
      field < high.toBits.toNat ∧ field < infinityField := by
  obtain ⟨significand, exponent, hpos, hx, habove, hbelow⟩ :=
    positive_of_between hlow hhigh (le_iff.1 hle) (lt_iff.1 hlt)
  obtain ⟨s₁, hbits₁, hlt₁, hnormal₁, hexponent₁, -⟩ := unpack_eq_finite hlow
  obtain ⟨s₂, hbits₂, hlt₂, hnormal₂, hexponent₂, -⟩ := unpack_eq_finite hhigh
  obtain ⟨steps, hbits, hwidth, hnormal, hexponent, hfinite⟩ := unpack_eq_finite hx
  have hfloat : x = withSign false x.toBits.toNat := by
    show x = Float.ofBits (UInt64.ofNat x.toBits.toNat)
    rw [UInt64.ofNat_toNat, Float.ofBits_toBits]
  refine ⟨x.toBits.toNat, hfloat, ?_, ?_, hfinite⟩
  · show low.toModel.toBits.toBitVec.toNat ≤ x.toModel.toBits.toBitVec.toNat
    omega
  · show x.toModel.toBits.toBitVec.toNat < high.toModel.toBits.toBitVec.toNat
    omega

end Nomi.Binary64
