import Nomi.Number.Rounding

/-!
# Decimal numbers

A decimal is a natural number of digits and a power of ten.  Its float is the
correctly rounded one, and its digits are written in base ten without leading
zeros.
-/

namespace Nomi

/-- The number `digits * 10 ^ exponent`. -/
structure Decimal where
  digits : Nat
  exponent : Int
  deriving DecidableEq, Repr

namespace Decimal

attribute [local instance (high)] instPowNat

/-- A power of ten beyond the range of floats in both directions. -/
def beyond : Nat :=
  400

/--
The float nearest to the decimal, with the given sign.

Powers of ten are cut off where they no longer change the result: from
`10 ^ beyond` on everything but zero rounds to infinity, and digits that are
smaller than their divisor by that much round to zero.
-/
def toFloat (d : Decimal) (negative : Bool) : Float :=
  match d.exponent with
  | .ofNat up => Binary64.nearest negative (d.digits * 10 ^ min up beyond * Binary64.unit) 1
  | .negSucc down =>
      Binary64.nearest negative (d.digits * Binary64.unit)
        (10 ^ min (down + 1) (Nat.log2 d.digits + beyond))

theorem outOfRange_le_beyond : Binary64.outOfRange ≤ 10 ^ beyond * Binary64.unit := by
  decide +kernel

theorem unit_le_beyond : 4 * Binary64.unit ≤ 10 ^ beyond := by
  decide +kernel

/-- The cut-off of large powers changes nothing. -/
theorem toFloat_ofNat (digits up : Nat) (negative : Bool) :
    toFloat ⟨digits, .ofNat up⟩ negative =
      Binary64.nearest negative (digits * 10 ^ up * Binary64.unit) 1 := by
  simp only [toFloat]
  by_cases hup : up ≤ beyond
  · rw [Nat.min_eq_left hup]
  · by_cases hdigits : digits = 0
    · simp only [hdigits, Nat.zero_mul]
    · have hlarge (power : Nat) (hpower : beyond ≤ power) :
          Binary64.nearestField (digits * 10 ^ power * Binary64.unit) 1 =
            Binary64.infinityField := by
        have hten : 10 ^ beyond ≤ 10 ^ power := Nat.pow_le_pow_right (by omega) hpower
        have hmul : 10 ^ power ≤ digits * 10 ^ power :=
          Nat.le_mul_of_pos_left _ (Nat.pos_of_ne_zero hdigits)
        apply Binary64.nearestField_of_large Nat.one_pos
        rw [Nat.mul_one]
        exact Nat.le_trans outOfRange_le_beyond (Nat.mul_le_mul_right _ (Nat.le_trans hten hmul))
      rw [Binary64.nearest, Binary64.nearest, hlarge up (by omega), hlarge _ (by omega)]

/-- The cut-off of large divisors changes nothing. -/
theorem toFloat_negSucc (digits down : Nat) (negative : Bool) :
    toFloat ⟨digits, .negSucc down⟩ negative =
      Binary64.nearest negative (digits * Binary64.unit) (10 ^ (down + 1)) := by
  simp only [toFloat]
  by_cases hdown : down + 1 ≤ Nat.log2 digits + beyond
  · rw [Nat.min_eq_left hdown]
  · have hsmall (power : Nat) (hpower : Nat.log2 digits + beyond ≤ power) :
        Binary64.nearestField (digits * Binary64.unit) (10 ^ power) = 0 := by
      apply Binary64.nearestField_of_small
      have hlog : digits < 2 ^ (Nat.log2 digits + 1) := Nat.lt_log2_self
      have hbase : 2 ^ Nat.log2 digits ≤ 10 ^ Nat.log2 digits :=
        Nat.pow_le_pow_left (by omega) _
      have hunit : 0 < 2 * Binary64.unit := by decide +kernel
      calc 2 * (digits * Binary64.unit)
          = digits * (2 * Binary64.unit) := by rw [Nat.mul_left_comm]
        _ < 2 ^ (Nat.log2 digits + 1) * (2 * Binary64.unit) :=
            Nat.mul_lt_mul_of_pos_right hlog hunit
        _ = 2 ^ Nat.log2 digits * (4 * Binary64.unit) := by
            rw [Nat.pow_succ, Nat.mul_assoc, ← Nat.mul_assoc 2 2]
        _ ≤ 10 ^ Nat.log2 digits * 10 ^ beyond := Nat.mul_le_mul hbase unit_le_beyond
        _ = 10 ^ (Nat.log2 digits + beyond) := (Nat.pow_add ..).symm
        _ ≤ 10 ^ power := Nat.pow_le_pow_right (by omega) hpower
    rw [Binary64.nearest, Binary64.nearest, hsmall _ (by omega), hsmall _ (by omega)]

def digitChar (digit : Nat) : Char :=
  Char.ofNat ('0'.toNat + digit)

def digitsOf (n : Nat) : List Char :=
  if n < 10 then [digitChar n]
  else digitsOf (n / 10) ++ [digitChar (n % 10)]
termination_by n

theorem digitsOf_of_lt {n : Nat} (h : n < 10) : digitsOf n = [digitChar n] := by
  rw [digitsOf, if_pos h]

theorem digitsOf_of_le {n : Nat} (h : 10 ≤ n) :
    digitsOf n = digitsOf (n / 10) ++ [digitChar (n % 10)] := by
  rw [digitsOf, if_neg (by omega)]

def length (n : Nat) : Nat :=
  (digitsOf n).length

/-- Moves trailing zeros of the digits into the exponent. -/
def trim (digits : Nat) (exponent : Int) : Decimal :=
  if digits ≠ 0 ∧ digits % 10 = 0 then trim (digits / 10) (exponent + 1)
  else ⟨digits, exponent⟩
termination_by digits

/-- The power of ten of the leading digit. -/
def leading (d : Decimal) : Int :=
  d.exponent + length d.digits - 1

end Decimal

end Nomi
