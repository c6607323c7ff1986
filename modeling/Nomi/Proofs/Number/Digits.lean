import Nomi.Number.Numeral
import Nomi.Number.Shortest
import Nomi.Proofs.Number.Nearest

/-!
# Decimals as numbers

A decimal stands for a rational.  How many digits it has and where the first one
stands say between which powers of ten that number lies, and zeros behind the digits
may be moved into the exponent.  The float of a decimal is the one it rounds to.
-/

namespace Nomi.Decimal

open Binary64

attribute [local instance (high)] instPowNat

def value (d : Decimal) : ℚ :=
  d.digits * 10 ^ d.exponent

def ticks (d : Decimal) : ℚ :=
  d.value * unit

theorem cast_unit_pos : (0 : ℚ) < unit :=
  Nat.cast_pos.2 unit_pos

theorem ticks_le_iff {d other : Decimal} : d.ticks ≤ other.ticks ↔ d.value ≤ other.value :=
  mul_le_mul_iff_of_pos_right cast_unit_pos

theorem ticks_inj {d other : Decimal} : d.ticks = other.ticks ↔ d.value = other.value :=
  mul_left_inj' cast_unit_pos.ne'

theorem value_mul_pow (digits count : ℕ) (exponent : ℤ) :
    value ⟨digits * 10 ^ count, exponent⟩ = value ⟨digits, exponent + count⟩ := by
  unfold value
  rw [zpow_add₀ (by norm_num), zpow_natCast]
  push_cast
  ring

/-- The float of a decimal is the one that it rounds to. -/
theorem exists_toFloat (d : Decimal) (negative : Bool) :
    ∃ field, RoundsTo d.ticks field ∧ d.toFloat negative = withSign negative field := by
  obtain ⟨digits, exponent⟩ := d
  cases exponent with
  | ofNat up =>
      refine ⟨_, ?_, toFloat_ofNat digits up negative⟩
      have hticks : ticks ⟨digits, .ofNat up⟩ = (digits * 10 ^ up * unit : ℕ) / (1 : ℕ) := by
        simp only [ticks, value, Int.ofNat_eq_natCast, zpow_natCast]
        push_cast
        ring
      rw [hticks]
      exact roundsTo_nearestField _ Nat.one_pos
  | negSucc down =>
      refine ⟨_, ?_, toFloat_negSucc digits down negative⟩
      have hticks : ticks ⟨digits, .negSucc down⟩ =
          (digits * unit : ℕ) / (10 ^ (down + 1) : ℕ) := by
        simp only [ticks, value, zpow_negSucc]
        push_cast
        ring
      rw [hticks]
      exact roundsTo_nearestField _ (Nat.pow_pos (by decide))

theorem toFloat_eq_iff {d : Decimal} {negative : Bool} {field : ℕ} (h : field ≤ infinityField) :
    d.toFloat negative = withSign negative field ↔ RoundsTo d.ticks field := by
  obtain ⟨nearest, hrounds, hfloat⟩ := exists_toFloat d negative
  rw [hfloat]
  constructor
  · intro heq
    rwa [← withSign_inj hrounds.1 h heq]
  · intro hfield
    rw [hrounds.unique hfield]

theorem length_of_lt {n : ℕ} (h : n < 10) : length n = 1 := by
  rw [length, digitsOf_of_lt h]
  rfl

theorem length_of_le {n : ℕ} (h : 10 ≤ n) : length n = length (n / 10) + 1 := by
  rw [length, digitsOf_of_le h, List.length_append]
  rfl

theorem length_pos (n : ℕ) : 0 < length n := by
  by_cases h : n < 10
  · rw [length_of_lt h]
    exact Nat.one_pos
  · rw [length_of_le (by omega)]
    exact Nat.succ_pos _

theorem lt_pow_length (n : ℕ) : n < 10 ^ length n := by
  induction n using Nat.strongRecOn with
  | ind n ih =>
      by_cases h : n < 10
      · rwa [length_of_lt h]
      · have hrest := ih (n / 10) (by omega)
        rw [length_of_le (by omega), Nat.pow_succ]
        omega

theorem pow_length_le {n : ℕ} (hpos : 0 < n) : 10 ^ (length n - 1) ≤ n := by
  induction n using Nat.strongRecOn with
  | ind n ih =>
      by_cases h : n < 10
      · rwa [length_of_lt h]
      · have hrest := ih (n / 10) (by omega) (by omega)
        obtain ⟨more, hmore⟩ := Nat.exists_eq_succ_of_ne_zero (length_pos (n / 10)).ne'
        rw [hmore, Nat.succ_sub_one] at hrest
        rw [length_of_le (by omega), hmore, Nat.add_sub_cancel, Nat.pow_succ]
        omega

/-- The length is the number of digits. -/
theorem length_le_iff {n count : ℕ} (hpos : 0 < count) : length n ≤ count ↔ n < 10 ^ count := by
  constructor
  · intro hle
    exact Nat.lt_of_lt_of_le (lt_pow_length n) (Nat.pow_le_pow_right (by decide) hle)
  · intro hlt
    by_contra hnot
    rcases Nat.eq_zero_or_pos n with rfl | hn
    · rw [length_of_lt (by decide)] at hnot
      omega
    · have hpower : 10 ^ count ≤ 10 ^ (length n - 1) := Nat.pow_le_pow_right (by decide) (by omega)
      have := pow_length_le hn
      omega

theorem exists_digit_of_mem {c : Char} {n : ℕ} (h : c ∈ digitsOf n) :
    ∃ digit < 10, c = digitChar digit := by
  induction n using Nat.strongRecOn with
  | ind n ih =>
      by_cases hlt : n < 10
      · rw [digitsOf_of_lt hlt, List.mem_singleton] at h
        exact ⟨n, hlt, h⟩
      · rw [digitsOf_of_le (by omega), List.mem_append, List.mem_singleton] at h
        rcases h with hrest | hlast
        · exact ih (n / 10) (by omega) hrest
        · exact ⟨n % 10, Nat.mod_lt _ (by decide), hlast⟩

theorem isDigit_of_mem_digitsOf {c : Char} {n : ℕ} (h : c ∈ digitsOf n) :
    c.isDigit = true := by
  have hdigits : ∀ digit < 10, (digitChar digit).isDigit = true := by decide
  obtain ⟨digit, hlt, rfl⟩ := exists_digit_of_mem h
  exact hdigits digit hlt

theorem digitsOf_inj {n other : ℕ} (h : digitsOf n = digitsOf other) : n = other := by
  rw [← Numeral.number_digitsOf n, h, Numeral.number_digitsOf]

theorem digitsOf_mul_pow {n : ℕ} (hpos : 0 < n) (count : ℕ) :
    digitsOf (n * 10 ^ count) = digitsOf n ++ List.replicate count '0' := by
  induction count with
  | zero => simp
  | succ count ih =>
      have hlarge : 0 < n * 10 ^ count := Nat.mul_pos hpos (Nat.pow_pos (by decide))
      rw [Nat.pow_succ, ← Nat.mul_assoc, digitsOf_of_le (by omega),
        Nat.mul_div_cancel _ (by decide), Nat.mul_mod_left, ih, List.append_assoc,
        List.replicate_succ']
      rfl

/-- Trimming moves zeros into the exponent. -/
theorem exists_trim (digits : ℕ) (exponent : ℤ) :
    ∃ count : ℕ, digits = (trim digits exponent).digits * 10 ^ count ∧
      (trim digits exponent).exponent = exponent + count := by
  fun_induction trim digits exponent with
  | case1 digits exponent hzero ih =>
      obtain ⟨count, hdigits, hexponent⟩ := ih
      refine ⟨count + 1, ?_, ?_⟩
      · rw [Nat.pow_succ, ← Nat.mul_assoc, ← hdigits]
        omega
      · rw [hexponent]
        push_cast
        ring
  | case2 digits exponent hstop => exact ⟨0, by simp, by simp⟩

theorem trim_mod {digits : ℕ} {exponent : ℤ} (hpos : 0 < digits) :
    (trim digits exponent).digits % 10 ≠ 0 := by
  fun_induction trim digits exponent with
  | case1 digits exponent hzero ih => exact ih (by omega)
  | case2 digits exponent hstop =>
      show digits % 10 ≠ 0
      omega

@[simp] theorem value_trim (digits : ℕ) (exponent : ℤ) :
    value (trim digits exponent) = value ⟨digits, exponent⟩ := by
  obtain ⟨count, hdigits, hexponent⟩ := exists_trim digits exponent
  calc value (trim digits exponent)
      = value ⟨(trim digits exponent).digits, exponent + count⟩ := by rw [← hexponent]
    _ = value ⟨(trim digits exponent).digits * 10 ^ count, exponent⟩ := (value_mul_pow ..).symm
    _ = value ⟨digits, exponent⟩ := by rw [← hdigits]

/-- A decimal lies between two powers of ten. -/
theorem value_bounds {d : Decimal} (hpos : 0 < d.digits) :
    (10 : ℚ) ^ d.leading ≤ d.value ∧ d.value < 10 ^ (d.leading + 1) := by
  have hlength := length_pos d.digits
  have hscale : (0 : ℚ) < 10 ^ d.exponent := by positivity
  have hlow : (10 : ℚ) ^ (length d.digits - 1) ≤ d.digits := by exact_mod_cast pow_length_le hpos
  have hhigh : (d.digits : ℚ) < 10 ^ length d.digits := by exact_mod_cast lt_pow_length d.digits
  constructor
  · have hsplit : d.leading = (length d.digits - 1 : ℕ) + d.exponent := by
      unfold leading
      omega
    rw [hsplit, zpow_add₀ (by norm_num), zpow_natCast]
    exact mul_le_mul_of_nonneg_right hlow hscale.le
  · have hsplit : d.leading + 1 = (length d.digits : ℕ) + d.exponent := by
      unfold leading
      omega
    rw [hsplit, zpow_add₀ (by norm_num), zpow_natCast]
    exact mul_lt_mul_of_pos_right hhigh hscale

end Nomi.Decimal
