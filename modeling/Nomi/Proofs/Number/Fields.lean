import Nomi.Proofs.Number.Equality

/-!
# Magnitude fields

The low sixty-three bits of a float, read as a natural number, are its magnitude
field.  Fields count the magnitudes of floats in their order: the next field stands
for the next magnitude, and the step between the two is the spacing there.  A
finite float is a sign and a field below that of infinity.
-/

namespace Nomi.Binary64

open Float.Model

attribute [local instance (high)] instPowNat

/-- The ticks that a magnitude field stands for; the field of infinity counts as
the next power of two. -/
def fieldTicks (field : Nat) : Nat :=
  ticksOf (field / 2 ^ fractionWidth) (field % 2 ^ fractionWidth)

/-- A significand below `2 ^ 53` and a spacing are written as one field.  At
`2 ^ 53` the carry goes into the exponent. -/
theorem fieldTicks_of_significand {significand steps : Nat} (hle : significand ≤ 2 ^ 53)
    (hnormal : steps = 0 ∨ 2 ^ 52 ≤ significand) :
    fieldTicks (steps * 2 ^ 52 + significand) = significand * 2 ^ steps := by
  unfold fieldTicks fractionWidth
  by_cases hsmall : significand < 2 ^ 52
  · obtain rfl : steps = 0 := by omega
    rw [Nat.zero_mul, Nat.zero_add, Nat.div_eq_of_lt hsmall, Nat.mod_eq_of_lt hsmall]
    simp [ticksOf]
  · by_cases hcarry : significand = 2 ^ 53
    · have hfield : steps * 2 ^ 52 + significand = (steps + 2) * 2 ^ 52 := by omega
      rw [hfield, Nat.mul_div_cancel _ (by decide), Nat.mul_mod_left, hcarry]
      show (2 ^ 52 + 0) * 2 ^ (steps + 1) = 2 ^ 53 * 2 ^ steps
      rw [Nat.pow_succ 2 steps]
      omega
    · have hdiv : (steps * 2 ^ 52 + significand) / 2 ^ 52 = steps + 1 := by omega
      have hmod : (steps * 2 ^ 52 + significand) % 2 ^ 52 = significand - 2 ^ 52 := by omega
      rw [hdiv, hmod]
      show (2 ^ 52 + (significand - 2 ^ 52)) * 2 ^ steps = significand * 2 ^ steps
      rw [Nat.add_sub_cancel' (by omega)]

/-- Every field is a significand and a spacing. -/
theorem exists_significand (field : Nat) :
    ∃ significand steps, field = steps * 2 ^ 52 + significand ∧ significand < 2 ^ 53 ∧
      (steps = 0 ∨ 2 ^ 52 ≤ significand) ∧ fieldTicks field = significand * 2 ^ steps := by
  have hfield (significand steps : Nat) (heq : field = steps * 2 ^ 52 + significand)
      (hlt : significand < 2 ^ 53) (hnormal : steps = 0 ∨ 2 ^ 52 ≤ significand) :
      fieldTicks field = significand * 2 ^ steps := by
    rw [heq]
    exact fieldTicks_of_significand (by omega) hnormal
  by_cases hlow : field < 2 ^ 53
  · refine ⟨field, 0, by omega, hlow, .inl rfl, ?_⟩
    exact hfield field 0 (by omega) hlow (.inl rfl)
  · have heq : field = (field / 2 ^ 52 - 1) * 2 ^ 52 + (2 ^ 52 + field % 2 ^ 52) := by omega
    refine ⟨2 ^ 52 + field % 2 ^ 52, field / 2 ^ 52 - 1, heq, by omega, .inr (by omega), ?_⟩
    exact hfield _ _ heq (by omega) (.inr (by omega))

/-- The next field is one spacing further. -/
theorem fieldTicks_succ {significand steps : Nat} (hlt : significand < 2 ^ 53)
    (hnormal : steps = 0 ∨ 2 ^ 52 ≤ significand) :
    fieldTicks (steps * 2 ^ 52 + significand + 1) = (significand + 1) * 2 ^ steps := by
  rw [Nat.add_assoc]
  exact fieldTicks_of_significand (by omega) (by omega)

theorem fieldTicks_strictMono : StrictMono fieldTicks := by
  apply strictMono_nat_of_lt_succ
  intro field
  obtain ⟨significand, steps, heq, hlt, hnormal, hticks⟩ := exists_significand field
  have hnext := fieldTicks_succ hlt hnormal
  rw [hticks, heq, hnext]
  exact Nat.mul_lt_mul_of_pos_right (by omega) (Nat.pow_pos (by decide))

@[simp] theorem fieldTicks_zero : fieldTicks 0 = 0 := by
  decide

theorem fieldTicks_pos_iff {field : Nat} : 0 < fieldTicks field ↔ 0 < field := by
  have hlt := fieldTicks_strictMono.lt_iff_lt (a := 0) (b := field)
  rwa [fieldTicks_zero] at hlt

theorem fieldTicks_pos {field : Nat} (h : 0 < field) : 0 < fieldTicks field :=
  fieldTicks_pos_iff.2 h

/-- The floats next to a magnitude are no nearer than its part of `2 ^ -53`. -/
theorem fieldTicks_gap (field : Nat) :
    fieldTicks (field + 1) ≤ 2 ^ 53 * (fieldTicks (field + 1) - fieldTicks field) := by
  obtain ⟨significand, steps, heq, hlt, hnormal, hticks⟩ := exists_significand field
  have hnext := fieldTicks_succ hlt hnormal
  rw [← heq] at hnext
  have hstep : fieldTicks (field + 1) - fieldTicks field = 2 ^ steps := by
    rw [hnext, hticks, Nat.succ_mul, Nat.add_sub_cancel_left]
  rw [hstep, hnext]
  exact Nat.mul_le_mul_right _ hlt

theorem unit_pos : 0 < unit :=
  Nat.pow_pos (by decide)

/-- Small whole numbers are floats. -/
theorem exists_field_of_whole {n : Nat} (h : n ≤ 2 ^ 53) :
    ∃ field < infinityField, fieldTicks field = n * unit := by
  by_cases hzero : n = 0
  · exact ⟨0, by decide, by simp [hzero]⟩
  by_cases hcarry : n = 2 ^ 53
  · refine ⟨unitPower * 2 ^ 52 + n, by rw [hcarry]; decide, ?_⟩
    exact fieldTicks_of_significand h (.inr (by omega))
  -- The significand has fifty-three bits, so the places below the unit are shared.
  have hlog : Nat.log2 n ≤ 52 := by
    have := (Nat.log2_lt hzero).2 (show n < 2 ^ 53 by omega)
    omega
  let places := 52 - Nat.log2 n
  have hlow : 2 ^ 52 ≤ n * 2 ^ places := by
    calc 2 ^ 52 = 2 ^ Nat.log2 n * 2 ^ places := by rw [← Nat.pow_add]; congr 1; omega
      _ ≤ n * 2 ^ places := Nat.mul_le_mul_right _ (Nat.log2_self_le hzero)
  have hhigh : n * 2 ^ places < 2 ^ 53 := by
    calc n * 2 ^ places < 2 ^ (Nat.log2 n + 1) * 2 ^ places :=
          Nat.mul_lt_mul_of_pos_right Nat.lt_log2_self (Nat.pow_pos (by decide))
      _ = 2 ^ 53 := by rw [← Nat.pow_add]; congr 1; omega
  refine ⟨(unitPower - places) * 2 ^ 52 + n * 2 ^ places, ?_, ?_⟩
  · have hsteps : (unitPower - places) * 2 ^ 52 ≤ unitPower * 2 ^ 52 :=
      Nat.mul_le_mul_right _ (Nat.sub_le ..)
    have hroom : unitPower * 2 ^ 52 + 2 ^ 53 ≤ infinityField := by decide
    omega
  · have hplaces : places + (unitPower - places) = unitPower := by
      apply Nat.add_sub_cancel'
      exact Nat.le_trans (Nat.sub_le ..) (show 52 ≤ unitPower by decide)
    rw [fieldTicks_of_significand (by omega) (.inr hlow), Nat.mul_assoc, ← Nat.pow_add, hplaces]
    rfl

theorem exponent_toNat (bits : BitVec Format.binary64.numBits) :
    (UnpackedFloat.unpackExponent bits).toNat =
      bits.toNat / 2 ^ fractionWidth % 2 ^ exponentWidth := by
  simp [UnpackedFloat.unpackExponent, fractionWidth, exponentWidth, Nat.shiftRight_eq_div_pow]

theorem fraction_toNat (bits : BitVec Format.binary64.numBits) :
    (UnpackedFloat.unpackMantissa bits).toNat = bits.toNat % 2 ^ fractionWidth := by
  simp [UnpackedFloat.unpackMantissa, fractionWidth]

def signedField (negative : Bool) (field : Nat) : Nat :=
  if negative then signBit + field else field

theorem signedField_exponent (negative : Bool) {field : Nat} (h : field < signBit) :
    signedField negative field / 2 ^ fractionWidth % 2 ^ exponentWidth =
      field / 2 ^ fractionWidth := by
  unfold signedField
  simp only [signBit, exponentWidth, fractionWidth] at *
  split <;> omega

theorem signedField_fraction (negative : Bool) (field : Nat) :
    signedField negative field % 2 ^ fractionWidth = field % 2 ^ fractionWidth := by
  unfold signedField
  simp only [signBit, exponentWidth, fractionWidth]
  split <;> omega

theorem signBit_le_signedField {negative : Bool} {field : Nat} (h : field < signBit) :
    signBit ≤ signedField negative field ↔ negative = true := by
  cases negative <;> simp [signedField, h]

theorem toBits_withSign {negative : Bool} {field : Nat} (h : field ≤ infinityField) :
    (withSign negative field).toBits.toNat = signedField negative field := by
  let bits : BitVec Format.binary64.numBits := (UInt64.ofNat (signedField negative field)).toBitVec
  have hlimit : infinityField + signBit < 2 ^ 64 := by decide
  have hbelow : infinityField < signBit := by decide
  have hbits : bits.toNat = signedField negative field := by
    apply Nat.mod_eq_of_lt
    unfold signedField
    split <;> omega
  have hnumber : UnpackedFloat.isNaNBits bits = false := by
    apply decide_eq_false
    rintro ⟨hexponent, hfraction⟩
    -- All exponent bits are set only in infinity's own field, which has no fraction.
    have hset : field / 2 ^ fractionWidth = exponentLimit := by
      rw [← signedField_exponent negative (by omega), ← hbits, ← exponent_toNat, hexponent]
      decide
    have hwhole : field = infinityField := by
      have hmod := Nat.div_add_mod field (2 ^ fractionWidth)
      rw [hset] at hmod
      unfold infinityField at h ⊢
      rw [Nat.mul_comm] at hmod
      omega
    apply hfraction
    apply BitVec.eq_of_toNat_eq
    rw [fraction_toNat, hbits, signedField_fraction, hwhole]
    decide
  show (UnpackedFloat.pack .binary64 (UnpackedFloat.unpack .binary64 bits)).toNat = _
  rw [UnpackedFloat.pack_unpack, hnumber]
  exact hbits

theorem withSign_inj {negative : Bool} {field other : Nat} (hfield : field ≤ infinityField)
    (hother : other ≤ infinityField) (h : withSign negative field = withSign negative other) :
    field = other := by
  have hbits : signedField negative field = signedField negative other := by
    rw [← toBits_withSign hfield, ← toBits_withSign hother, h]
  unfold signedField at hbits
  split at hbits <;> omega

/-- The sign and the field are read back from the bits. -/
theorem ofBits_signedField {negative : Bool} {field : Nat} (h : field < infinityField) :
    ofBits (signedField negative field) = .finite negative (fieldTicks field) := by
  have hbelow : infinityField < signBit := by decide
  have hfinite : field / 2 ^ fractionWidth ≠ exponentLimit := by
    have := (Nat.div_lt_iff_lt_mul (by decide)).2 h
    omega
  unfold ofBits
  simp only [signedField_exponent negative (show field < signBit by omega), signedField_fraction,
    signBit_le_signedField (show field < signBit by omega), if_neg hfinite, Bool.decide_eq_true]
  rfl

theorem ofFloat_withSign {negative : Bool} {field : Nat} (h : field < infinityField) :
    ofFloat (withSign negative field) = .finite negative (fieldTicks field) := by
  unfold ofFloat
  rw [toBits_withSign (by omega), ofBits_signedField h]

/-- A finite float is a sign and a field below infinity's. -/
theorem exists_withSign {x : Float} {negative : Bool} {ticks : Nat}
    (h : ofFloat x = .finite negative ticks) :
    ∃ field < infinityField, ticks = fieldTicks field ∧ x = withSign negative field := by
  have hword : x.toBits.toNat < 2 * signBit := x.toBits.toNat_lt
  obtain ⟨sign, field, hlt, hbits⟩ : ∃ sign field, field < signBit ∧
      x.toBits.toNat = signedField sign field := by
    by_cases hsign : signBit ≤ x.toBits.toNat
    · exact ⟨true, x.toBits.toNat - signBit, by omega, (Nat.add_sub_cancel' hsign).symm⟩
    · exact ⟨false, x.toBits.toNat, by omega, rfl⟩
  have hfloat : x = withSign sign field := by
    show x = Float.ofBits (UInt64.ofNat (signedField sign field))
    rw [← hbits, UInt64.ofNat_toNat, Float.ofBits_toBits]
  have hfinite : field < infinityField := by
    by_contra hnot
    have hexponent : field / 2 ^ fractionWidth = exponentLimit := by
      apply Nat.div_eq_of_lt_le
      · exact Nat.not_lt.1 hnot
      · exact Nat.lt_of_lt_of_le hlt (by decide)
    unfold ofFloat ofBits at h
    simp only [hbits, signedField_exponent sign hlt, hexponent, if_true] at h
    split at h <;> cases h
  unfold ofFloat at h
  rw [hbits, ofBits_signedField hfinite] at h
  obtain ⟨rfl, rfl⟩ := Binary64.finite.inj h
  exact ⟨field, hfinite, rfl, hfloat⟩

end Nomi.Binary64
