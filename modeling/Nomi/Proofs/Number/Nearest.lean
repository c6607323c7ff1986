import Nomi.Proofs.Number.Fields

/-!
# Rounding to nearest

A magnitude rounds to a field if no other field stands for a nearer number, and of
two equally near ones the even one is taken.  Infinity counts as the power of two
that would come next.  Such a field exists for every magnitude and there is only
one; it grows with the magnitude, and the quotient's nearest field is it.
-/

namespace Nomi.Binary64

attribute [local instance (high)] instPowNat

/-- A magnitude of `q` ticks is nearest to what `field` stands for, ties to even. -/
def RoundsTo (q : ℚ) (field : ℕ) : Prop :=
  field ≤ infinityField ∧ ∀ other ≤ infinityField, other ≠ field →
    |q - fieldTicks field| < |q - fieldTicks other| ∨
      |q - fieldTicks field| = |q - fieldTicks other| ∧ field % 2 = 0

theorem nearer_low_iff {q low high : ℚ} (h : low < high) :
    |q - low| < |q - high| ↔ 2 * q < low + high := by
  rw [← sq_lt_sq]
  constructor <;> intro hlt <;> nlinarith

theorem nearer_high_iff {q low high : ℚ} (h : low < high) :
    |q - high| < |q - low| ↔ low + high < 2 * q := by
  rw [← sq_lt_sq]
  constructor <;> intro hlt <;> nlinarith

theorem equally_near_iff {q low high : ℚ} (h : low < high) :
    |q - low| = |q - high| ↔ 2 * q = low + high := by
  constructor
  · intro heq
    apply le_antisymm
    · exact not_lt.1 fun hlt => heq.not_gt ((nearer_high_iff h).2 hlt)
    · exact not_lt.1 fun hlt => heq.not_lt ((nearer_low_iff h).2 hlt)
  · intro heq
    apply le_antisymm
    · exact not_lt.1 fun hlt => heq.not_gt ((nearer_high_iff h).1 hlt)
    · exact not_lt.1 fun hlt => heq.not_lt ((nearer_low_iff h).1 hlt)

/-- A magnitude is not below the halfway point under a field. -/
def AboveHalf (q : ℚ) (field : ℕ) : Prop :=
  ∀ before, field = before + 1 →
    fieldTicks before + fieldTicks field < 2 * q ∨
      2 * q = fieldTicks before + fieldTicks field ∧ field % 2 = 0

/-- A magnitude is not above the halfway point over a field. -/
def BelowHalf (q : ℚ) (field : ℕ) : Prop :=
  2 * q < fieldTicks field + fieldTicks (field + 1) ∨
    2 * q = fieldTicks field + fieldTicks (field + 1) ∧ field % 2 = 0

theorem cast_fieldTicks_lt {field other : ℕ} (h : field < other) :
    (fieldTicks field : ℚ) < fieldTicks other :=
  Nat.cast_lt.2 (fieldTicks_strictMono h)

theorem cast_fieldTicks_le {field other : ℕ} (h : field ≤ other) :
    (fieldTicks field : ℚ) ≤ fieldTicks other :=
  Nat.cast_le.2 (fieldTicks_strictMono.monotone h)

/-- Only the two neighbours of a field can be nearer. -/
theorem roundsTo_iff {q : ℚ} {field : ℕ} :
    RoundsTo q field ↔
      field ≤ infinityField ∧ AboveHalf q field ∧ (field < infinityField → BelowHalf q field) := by
  constructor
  · rintro ⟨hle, hnear⟩
    refine ⟨hle, ?_, ?_⟩
    · intro before hfield
      have hlt := cast_fieldTicks_lt (show before < field by omega)
      rcases hnear before (by omega) (by omega) with hnearer | ⟨htie, heven⟩
      · exact .inl ((nearer_high_iff hlt).1 hnearer)
      · exact .inr ⟨(equally_near_iff hlt).1 htie.symm, heven⟩
    · intro hfinite
      have hlt := cast_fieldTicks_lt (Nat.lt_succ_self field)
      rcases hnear (field + 1) hfinite (by omega) with hnearer | ⟨htie, heven⟩
      · exact .inl ((nearer_low_iff hlt).1 hnearer)
      · exact .inr ⟨(equally_near_iff hlt).1 htie, heven⟩
  · rintro ⟨hle, habove, hbelow⟩
    refine ⟨hle, ?_⟩
    intro other hother hne
    rcases Nat.lt_or_gt_of_ne hne with hlow | hhigh
    · have hlt := cast_fieldTicks_lt hlow
      have hbefore := cast_fieldTicks_le (show other ≤ field - 1 by omega)
      rw [nearer_high_iff hlt, eq_comm, equally_near_iff hlt]
      rcases habove (field - 1) (by omega) with hhalf | ⟨hhalf, heven⟩
      · left
        linarith
      · rcases hbefore.lt_or_eq with hfar | hnext
        · left
          linarith
        · right
          exact ⟨by linarith, heven⟩
    · have hlt := cast_fieldTicks_lt hhigh
      have hafter := cast_fieldTicks_le (show field + 1 ≤ other by omega)
      rw [nearer_low_iff hlt, equally_near_iff hlt]
      rcases hbelow (by omega) with hhalf | ⟨hhalf, heven⟩
      · left
        linarith
      · rcases hafter.lt_or_eq with hfar | hnext
        · left
          linarith
        · right
          exact ⟨by linarith, heven⟩

/-- A greater magnitude does not round to a lesser field. -/
theorem RoundsTo.mono {q r : ℚ} {field other : ℕ} (h : RoundsTo q field) (h' : RoundsTo r other)
    (hle : q ≤ r) : field ≤ other := by
  obtain ⟨hfield, habove, -⟩ := roundsTo_iff.1 h
  obtain ⟨-, -, hbelow⟩ := roundsTo_iff.1 h'
  by_contra hnot
  have hbefore := cast_fieldTicks_le (show other ≤ field - 1 by omega)
  have hafter := cast_fieldTicks_le (show other + 1 ≤ field by omega)
  have hlow := habove (field - 1) (by omega)
  have hhigh := hbelow (by omega)
  rcases hlow with hlow | ⟨hlow, heven⟩
  · rcases hhigh with hhigh | ⟨hhigh, -⟩ <;> linarith
  · rcases hhigh with hhigh | ⟨hhigh, heven'⟩
    · linarith
    -- Both are the same halfway point, whose two sides differ in parity.
    · have hnext : other = field - 1 := by
        by_contra hne
        have := cast_fieldTicks_lt (show other < field - 1 by omega)
        linarith
      omega

theorem RoundsTo.unique {q : ℚ} {field other : ℕ} (h : RoundsTo q field)
    (h' : RoundsTo q other) : field = other :=
  Nat.le_antisymm (h.mono h' le_rfl) (h'.mono h le_rfl)

/-- What lies between two magnitudes of one field rounds to it. -/
theorem RoundsTo.between {low q high : ℚ} {field : ℕ} (h : RoundsTo low field)
    (h' : RoundsTo high field) (hlow : low ≤ q) (hhigh : q ≤ high) : RoundsTo q field := by
  obtain ⟨hfield, habove, -⟩ := roundsTo_iff.1 h
  obtain ⟨-, -, hbelow⟩ := roundsTo_iff.1 h'
  refine roundsTo_iff.2 ⟨hfield, ?_, ?_⟩
  · intro before hbefore
    rcases habove before hbefore with hhalf | ⟨hhalf, heven⟩
    · left
      linarith
    · rcases hlow.lt_or_eq with hlt | rfl
      · left
        linarith
      · exact .inr ⟨hhalf, heven⟩
  · intro hfinite
    rcases hbelow hfinite with hhalf | ⟨hhalf, heven⟩
    · left
      linarith
    · rcases hhigh.lt_or_eq with hlt | rfl
      · left
        linarith
      · exact .inr ⟨hhalf, heven⟩

theorem roundsTo_fieldTicks {field : ℕ} (h : field ≤ infinityField) :
    RoundsTo (fieldTicks field) field := by
  refine ⟨h, ?_⟩
  intro other _ hne
  left
  have hticks : (fieldTicks field : ℚ) - fieldTicks other ≠ 0 := by
    rw [sub_ne_zero, Ne, Nat.cast_inj, fieldTicks_strictMono.injective.eq_iff]
    exact hne.symm
  simpa using hticks

/-- The spacing of floats is at least `2 ^ -53` of what they stand for. -/
theorem roundsTo_of_close {q : ℚ} {field : ℕ} (hfield : field ≤ infinityField)
    (hclose : 2 ^ 54 * |q - fieldTicks field| < fieldTicks field) : RoundsTo q field := by
  have hhalf (field : ℕ) : (fieldTicks (field + 1) : ℚ) ≤
      2 ^ 53 * (fieldTicks (field + 1) - fieldTicks field) := by
    have hgap := fieldTicks_gap field
    have hle := (fieldTicks_strictMono (Nat.lt_succ_self field)).le
    zify [hle] at hgap
    exact_mod_cast hgap
  obtain ⟨hlow, hhigh⟩ := abs_lt.1 (show |q - fieldTicks field| < fieldTicks field / 2 ^ 54 by
    rw [lt_div_iff₀ (by norm_num)]
    linarith)
  refine roundsTo_iff.2 ⟨hfield, ?_, ?_⟩
  · rintro before rfl
    left
    linarith [hhalf before]
  · intro _
    left
    have hstep := cast_fieldTicks_lt (Nat.lt_succ_self field)
    linarith [hhalf field]

/-! ## The nearest field -/

theorem roundsTo_min {q : ℚ} {field : ℕ} (habove : AboveHalf q field)
    (hbelow : BelowHalf q field) : RoundsTo q (min field infinityField) := by
  by_cases hfinite : field ≤ infinityField
  · rw [Nat.min_eq_left hfinite]
    exact roundsTo_iff.2 ⟨hfinite, habove, fun _ => hbelow⟩
  · rw [Nat.min_eq_right (by omega)]
    refine roundsTo_iff.2 ⟨le_rfl, ?_, fun hlt => absurd hlt (lt_irrefl _)⟩
    intro before hbefore
    left
    have hlow := cast_fieldTicks_lt (show before < field - 1 by omega)
    have hhigh := cast_fieldTicks_lt (show infinityField < field by omega)
    rcases habove (field - 1) (by omega) with hhalf | ⟨hhalf, -⟩ <;> linarith

/-- The rounded quotient is within half a unit of the exact one, and even where it
is half a unit away. -/
theorem roundEven_half (numerator : ℕ) {denominator : ℕ} (h : 0 < denominator) :
    let exact : ℚ := numerator / denominator
    let rounded := roundEven numerator denominator
    (2 * rounded - 1 < 2 * exact ∨ 2 * exact = 2 * rounded - 1 ∧ rounded % 2 = 0) ∧
      (2 * exact < 2 * rounded + 1 ∨ 2 * exact = 2 * rounded + 1 ∧ rounded % 2 = 0) := by
  intro exact rounded
  have hpos : (0 : ℚ) < denominator := Nat.cast_pos.2 h
  let low := numerator / denominator
  let rest : ℚ := (numerator % denominator : ℕ) / denominator
  have hexact : exact = low + rest := by
    have hsplit : (denominator : ℚ) * low + (numerator % denominator : ℕ) = numerator := by
      exact_mod_cast Nat.div_add_mod numerator denominator
    show (numerator / denominator : ℚ) = _
    rw [← hsplit, add_div, mul_div_cancel_left₀ _ hpos.ne']
  have hzero : 0 ≤ rest := by positivity
  have hone : rest < 1 := (div_lt_one hpos).2 (Nat.cast_lt.2 (Nat.mod_lt _ h))
  have htwice : 2 * rest = (2 * (numerator % denominator) : ℕ) / denominator := by
    push_cast
    ring
  simp only [rounded, roundEven]
  rcases lt_trichotomy (2 * (numerator % denominator)) denominator with hlt | heq | hgt
  · have hhalf : 2 * rest < 1 := by
      rw [htwice, div_lt_one hpos]
      exact Nat.cast_lt.2 hlt
    rw [Nat.compare_eq_lt.2 hlt]
    exact ⟨.inl (by linarith), .inl (by linarith)⟩
  · have hhalf : 2 * rest = 1 := by
      rw [htwice, heq, div_self hpos.ne']
    rw [Nat.compare_eq_eq.2 heq]
    by_cases heven : low % 2 = 0
    · rw [if_pos heven]
      exact ⟨.inl (by linarith), .inr ⟨by linarith, heven⟩⟩
    · rw [if_neg heven, Nat.cast_add_one]
      exact ⟨.inr ⟨by linarith, show (low + 1) % 2 = 0 by omega⟩, .inl (by linarith)⟩
  · have hhalf : 1 < 2 * rest := by
      rw [htwice, one_lt_div hpos]
      exact Nat.cast_lt.2 hgt
    rw [Nat.compare_eq_gt.2 hgt, Nat.cast_add_one]
    exact ⟨.inl (by linarith), .inl (by linarith)⟩

/-- The spacing at a quotient leaves it fifty-three bits. -/
theorem doublings_spec (numerator : ℕ) {denominator : ℕ} (h : 0 < denominator) :
    let steps := doublings (numerator / denominator)
    numerator < 2 ^ 53 * (denominator * 2 ^ steps) ∧
      (steps = 0 ∨ 2 ^ 52 * (denominator * 2 ^ steps) ≤ numerator) := by
  intro steps
  let ticks := numerator / denominator
  have hlow : ticks * denominator ≤ numerator := Nat.div_mul_le_self ..
  have hhigh : numerator < (ticks + 1) * denominator :=
    (Nat.div_lt_iff_lt_mul h).1 (Nat.lt_succ_self _)
  have hsteps : steps = Nat.log2 ticks - 52 := rfl
  constructor
  · have hwidth : ticks + 1 ≤ 2 ^ (53 + steps) := by
      have hpower : 2 ^ (Nat.log2 ticks + 1) ≤ 2 ^ (53 + steps) :=
        Nat.pow_le_pow_right (by decide) (by omega)
      exact Nat.lt_of_lt_of_le Nat.lt_log2_self hpower
    calc numerator < (ticks + 1) * denominator := hhigh
      _ ≤ 2 ^ (53 + steps) * denominator := Nat.mul_le_mul_right _ hwidth
      _ = 2 ^ 53 * (denominator * 2 ^ steps) := by ring
  · by_cases hzero : steps = 0
    · exact .inl hzero
    · right
      have hlog : Nat.log2 ticks = 52 + steps := by omega
      have hne : ticks ≠ 0 := by
        rintro hticks
        rw [hticks, Nat.log2_zero] at hlog
        omega
      calc 2 ^ 52 * (denominator * 2 ^ steps) = 2 ^ Nat.log2 ticks * denominator := by
            rw [hlog]
            ring
        _ ≤ ticks * denominator := Nat.mul_le_mul_right _ (Nat.log2_self_le hne)
        _ ≤ numerator := hlow

section Scaled

variable {exact : ℚ} {whole rounded steps : ℕ}

/-- A rounded significand is scaled to a field that is not below its halfway point. -/
theorem aboveHalf_of_rounded (hdown : (whole : ℚ) ≤ exact)
    (hrounded : rounded = whole ∨ rounded = whole + 1) (hlow : whole < 2 ^ 53)
    (hlarge : steps = 0 ∨ 2 ^ 52 ≤ whole)
    (hhalf : 2 * rounded - 1 < 2 * exact ∨ 2 * exact = 2 * rounded - 1 ∧ rounded % 2 = 0) :
    AboveHalf (exact * 2 ^ steps) (steps * 2 ^ 52 + rounded) := by
  have hscale : (0 : ℚ) < 2 ^ steps := by positivity
  have hticks : fieldTicks (steps * 2 ^ 52 + rounded) = rounded * 2 ^ steps :=
    fieldTicks_of_significand (by omega) (by omega)
  intro before hbefore
  by_cases hinner : steps = 0 ∨ 2 ^ 52 < rounded
  · have hpositive : 1 ≤ rounded := by omega
    have hprevious : fieldTicks before = (rounded - 1) * 2 ^ steps := by
      rw [show before = steps * 2 ^ 52 + (rounded - 1) by omega]
      exact fieldTicks_of_significand (by omega) (by omega)
    rw [hticks, hprevious]
    push_cast [hpositive]
    rcases hhalf with hhalf | ⟨hhalf, heven⟩
    · left
      linarith [mul_lt_mul_of_pos_right hhalf hscale]
    · right
      exact ⟨by linear_combination 2 ^ steps * hhalf, by omega⟩
  -- At a power of two the spacing below is half as wide, but the quotient is above.
  · left
    obtain rfl : rounded = whole := by omega
    have hless := cast_fieldTicks_lt (show before < steps * 2 ^ 52 + rounded by omega)
    have hreached := mul_le_mul_of_nonneg_right hdown hscale.le
    rw [hticks] at hless ⊢
    push_cast at hless ⊢
    linarith

/-- Nor is it above the halfway point over that field. -/
theorem belowHalf_of_rounded (hup : exact < whole + 1)
    (hrounded : rounded = whole ∨ rounded = whole + 1) (hlow : whole < 2 ^ 53)
    (hlarge : steps = 0 ∨ 2 ^ 52 ≤ whole)
    (hhalf : 2 * exact < 2 * rounded + 1 ∨ 2 * exact = 2 * rounded + 1 ∧ rounded % 2 = 0) :
    BelowHalf (exact * 2 ^ steps) (steps * 2 ^ 52 + rounded) := by
  have hscale : (0 : ℚ) < 2 ^ steps := by positivity
  have hticks : fieldTicks (steps * 2 ^ 52 + rounded) = rounded * 2 ^ steps :=
    fieldTicks_of_significand (by omega) (by omega)
  by_cases hcarry : rounded = 2 ^ 53
  · left
    obtain rfl : rounded = whole + 1 := by omega
    have hmore := cast_fieldTicks_lt (Nat.lt_succ_self (steps * 2 ^ 52 + (whole + 1)))
    have hmissed := mul_lt_mul_of_pos_right hup hscale
    rw [hticks] at hmore ⊢
    push_cast at hmore ⊢
    linarith
  · have hnext : fieldTicks (steps * 2 ^ 52 + rounded + 1) = (rounded + 1) * 2 ^ steps :=
      fieldTicks_succ (by omega) (by omega)
    unfold BelowHalf
    rw [hticks, hnext]
    push_cast
    rcases hhalf with hhalf | ⟨hhalf, heven⟩
    · left
      linarith [mul_lt_mul_of_pos_right hhalf hscale]
    · right
      exact ⟨by linear_combination 2 ^ steps * hhalf, by omega⟩

end Scaled

/-- The significand that a scaled quotient is rounded to lies between the halfway
points of its field. -/
theorem half_of_roundEven {numerator spacing steps : ℕ} (hspacing : 0 < spacing)
    (hwidth : numerator < 2 ^ 53 * spacing)
    (hnormal : steps = 0 ∨ 2 ^ 52 * spacing ≤ numerator) :
    AboveHalf (numerator / spacing * 2 ^ steps) (steps * 2 ^ 52 + roundEven numerator spacing) ∧
      BelowHalf (numerator / spacing * 2 ^ steps)
        (steps * 2 ^ 52 + roundEven numerator spacing) := by
  obtain ⟨habove, hbelow⟩ := roundEven_half numerator hspacing
  have hrounded : roundEven numerator spacing = numerator / spacing ∨
      roundEven numerator spacing = numerator / spacing + 1 :=
    (roundEven_cases numerator spacing).imp And.left And.left
  have hdown : ((numerator / spacing : ℕ) : ℚ) ≤ numerator / spacing := Nat.cast_div_le
  have hup : (numerator / spacing : ℚ) < (numerator / spacing : ℕ) + 1 := by
    rw [div_lt_iff₀ (Nat.cast_pos.2 hspacing)]
    exact_mod_cast (Nat.div_lt_iff_lt_mul hspacing).1 (Nat.lt_succ_self _)
  have hlow : numerator / spacing < 2 ^ 53 := (Nat.div_lt_iff_lt_mul hspacing).2 hwidth
  have hlarge : steps = 0 ∨ 2 ^ 52 ≤ numerator / spacing :=
    hnormal.imp_right (Nat.le_div_iff_mul_le hspacing).2
  exact ⟨aboveHalf_of_rounded hdown hrounded hlow hlarge habove,
    belowHalf_of_rounded hup hrounded hlow hlarge hbelow⟩

/-- A quotient's nearest field is the one that its magnitude rounds to. -/
theorem roundsTo_nearestField (numerator : ℕ) {denominator : ℕ} (h : 0 < denominator) :
    RoundsTo (numerator / denominator) (nearestField numerator denominator) := by
  let steps := doublings (numerator / denominator)
  have hspacing : 0 < denominator * 2 ^ steps := Nat.mul_pos h (Nat.pow_pos (by decide))
  have hexact : (numerator / denominator : ℚ) =
      numerator / (denominator * 2 ^ steps : ℕ) * 2 ^ steps := by
    push_cast
    field_simp
  obtain ⟨hwidth, hnormal⟩ := doublings_spec numerator h
  obtain ⟨habove, hbelow⟩ := half_of_roundEven hspacing hwidth hnormal
  rw [hexact]
  exact roundsTo_min habove hbelow

end Nomi.Binary64
