import Nomi.Number.Binary64

/-!
# Rounding a quotient to the nearest float

Quotients are measured in ticks.  A magnitude of at least `2 ^ 52` ticks keeps
fifty-three significant bits, so its spacing is the power of two that leaves
the whole part of the scaled quotient below `2 ^ 53`; below that the spacing is
the tick itself.
-/

namespace Nomi

/-- The whole number nearest to `numerator / denominator`; a half goes to the
even neighbour. -/
def roundEven (numerator denominator : Nat) : Nat :=
  let low := numerator / denominator
  match compare (2 * (numerator % denominator)) denominator with
  | .lt => low
  | .gt => low + 1
  | .eq => if low % 2 = 0 then low else low + 1

/-- The rounded quotient is one of the two whole numbers next to the exact one,
and no further from it than half a unit. -/
theorem roundEven_cases (numerator denominator : Nat) :
    (roundEven numerator denominator = numerator / denominator ∧
        2 * (numerator % denominator) ≤ denominator) ∨
      (roundEven numerator denominator = numerator / denominator + 1 ∧
        denominator ≤ 2 * (numerator % denominator)) := by
  unfold roundEven
  dsimp only
  split
  · next h =>
      rw [Nat.compare_eq_lt] at h
      exact .inl ⟨rfl, by omega⟩
  · next h =>
      rw [Nat.compare_eq_gt] at h
      exact .inr ⟨rfl, by omega⟩
  · next h =>
      rw [Nat.compare_eq_eq] at h
      split
      · exact .inl ⟨rfl, by omega⟩
      · exact .inr ⟨rfl, by omega⟩

/-- A quotient without remainder is not changed. -/
theorem roundEven_mul_right {denominator : Nat} (n : Nat) (h : 0 < denominator) :
    roundEven (n * denominator) denominator = n := by
  have hcases := roundEven_cases (n * denominator) denominator
  rw [Nat.mul_div_cancel n h, Nat.mul_mod_left] at hcases
  omega

namespace Binary64

attribute [local instance (high)] instPowNat

/-- How often the spacing of floats has doubled at a magnitude of `ticks`. -/
def doublings (ticks : Nat) : Nat :=
  Nat.log2 ticks - fractionWidth

/--
The magnitude field of the float nearest to `numerator / denominator` ticks.

A significand that rounds up to `2 ^ 53` carries into the exponent bits, which
is the field of the next power of two.  Fields past the last finite one are cut
to infinity.
-/
def nearestField (numerator denominator : Nat) : Nat :=
  let steps := doublings (numerator / denominator)
  min (steps * 2 ^ fractionWidth + roundEven numerator (denominator * 2 ^ steps)) infinityField

/-- Less than half a tick rounds to zero. -/
theorem nearestField_of_small {numerator denominator : Nat} (h : 2 * numerator < denominator) :
    nearestField numerator denominator = 0 := by
  have hdiv : numerator / denominator = 0 := Nat.div_eq_of_lt (by omega)
  have hmod : numerator % denominator = numerator := Nat.mod_eq_of_lt (by omega)
  have hlow : roundEven numerator denominator = 0 := by
    have hcases := roundEven_cases numerator denominator
    rw [hdiv, hmod] at hcases
    omega
  simp [nearestField, doublings, hdiv, hlow]

theorem le_log2_of_pow_le {exponent n : Nat} (hzero : n ≠ 0) (h : 2 ^ exponent ≤ n) :
    exponent ≤ Nat.log2 n :=
  (Nat.le_log2 hzero).2 h

def outOfRange : Nat :=
  2 ^ (exponentLimit + fractionWidth)

/-- What is out of range rounds to infinity. -/
theorem nearestField_of_large {numerator denominator : Nat} (hpos : 0 < denominator)
    (h : outOfRange * denominator ≤ numerator) :
    nearestField numerator denominator = infinityField := by
  have hdiv : outOfRange ≤ numerator / denominator := (Nat.le_div_iff_mul_le hpos).2 h
  have hzero : numerator / denominator ≠ 0 :=
    Nat.ne_of_gt (Nat.lt_of_lt_of_le (by decide +kernel) hdiv)
  have hlog : exponentLimit + fractionWidth ≤ Nat.log2 (numerator / denominator) := by
    unfold outOfRange at hdiv
    exact le_log2_of_pow_le hzero hdiv
  have hsteps : exponentLimit ≤ doublings (numerator / denominator) := by
    unfold doublings
    omega
  have hfield := Nat.mul_le_mul_right (2 ^ fractionWidth) hsteps
  unfold nearestField infinityField
  dsimp only
  exact Nat.min_eq_right (Nat.le_trans hfield (Nat.le_add_right _ _))

/-- The float nearest to `± numerator / denominator` ticks, ties to even. -/
def nearest (negative : Bool) (numerator denominator : Nat) : Float :=
  withSign negative (nearestField numerator denominator)

end Binary64

end Nomi
