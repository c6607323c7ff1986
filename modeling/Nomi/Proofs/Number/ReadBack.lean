import Nomi.Number.Arithmetic
import Nomi.Proofs.Number.Conventional
import Nomi.Proofs.Number.Order
import Nomi.Proofs.Number.Parts

/-!
# Written numbers read back

The text of a finite number is a numeral of the decimal that was chosen for it, wherever
the point is placed.  That decimal rounds to the number, so the text denotes the number
itself, up to the sign of a zero.  From `1e-6` up to below `1e21` the numeral has no
exponent.
-/

namespace Nomi

open Binary64

attribute [local instance (high)] instPowNat

theorem Digit.number_append_zeros (digits : List Char) (count : ℕ) :
    number (digits ++ List.replicate count '0') = number digits * 10 ^ count := by
  have hzero : value? '0' = some 0 := by decide
  induction count with
  | zero => simp
  | succ count ih =>
      rw [List.replicate_succ', ← List.append_assoc, number_append_singleton, ih, hzero,
        Option.getD_some, Nat.pow_succ]
      ring

theorem Digit.number_zeros_append (count : ℕ) (digits : List Char) :
    number (List.replicate count '0' ++ digits) = number digits := by
  induction count with
  | zero => rfl
  | succ count ih => exact ih

theorem isDigit_of_mem_zeros {c : Char} {count : ℕ} (h : c ∈ List.replicate count '0') :
    c.isDigit = true := by
  rw [List.eq_of_mem_replicate h]
  rfl

namespace Numeral

/-! ## Where the point is placed -/

section Placing

variable {run : List Char}

theorem exists_parts_whole (hne : run ≠ []) (hdigits : ∀ c ∈ run, c.isDigit = true)
    (negative : Bool) (count : ℕ) :
    ∃ p : Parts, p.text = minusText negative ++ (run ++ List.replicate count '0') ∧
      p.negative = negative ∧ p.power = none ∧
      p.decimal = ⟨Digit.number run * 10 ^ count, 0⟩ := by
  have hwhole : ∀ c ∈ run ++ List.replicate count '0', c.isDigit = true := by
    intro c hmem
    exact (List.mem_append.1 hmem).elim (hdigits c) isDigit_of_mem_zeros
  let p : Parts := {
    negative
    whole := run ++ List.replicate count '0'
    fraction := []
    power := none
    whole_ne_nil := List.append_ne_nil_of_left_ne_nil hne _
    whole_digits := hwhole
    fraction_digits := by simp
    power_digits := by simp }
  refine ⟨p, ?_, rfl, rfl, ?_⟩
  · simp [p, Parts.text, fractionText, powerText]
  · simp [p, Parts.decimal, powerValue, Digit.number_append_zeros]

theorem exists_parts_inside (hdigits : ∀ c ∈ run, c.isDigit = true) (negative : Bool)
    {place : ℕ} (hpos : 0 < place) (hlt : place < run.length) :
    ∃ p : Parts, p.text = minusText negative ++ (run.take place ++ '.' :: run.drop place) ∧
      p.negative = negative ∧ p.power = none ∧
      p.decimal = ⟨Digit.number run, (place : ℤ) - run.length⟩ := by
  have hwhole : run.take place ≠ [] := by
    apply List.ne_nil_of_length_pos
    rw [List.length_take]
    omega
  have hfraction : run.drop place ≠ [] := by
    apply List.ne_nil_of_length_pos
    rw [List.length_drop]
    omega
  let p : Parts := {
    negative
    whole := run.take place
    fraction := run.drop place
    power := none
    whole_ne_nil := hwhole
    whole_digits := fun c hmem => hdigits c (List.mem_of_mem_take hmem)
    fraction_digits := fun c hmem => hdigits c (List.mem_of_mem_drop hmem)
    power_digits := by simp }
  refine ⟨p, ?_, rfl, rfl, ?_⟩
  · simp [p, Parts.text, fractionText, powerText, hfraction]
  · simp only [p, Parts.decimal, powerValue, List.take_append_drop, List.length_drop,
      Decimal.mk.injEq, true_and]
    omega

theorem exists_parts_before (hne : run ≠ []) (hdigits : ∀ c ∈ run, c.isDigit = true)
    (negative : Bool) (count : ℕ) :
    ∃ p : Parts,
      p.text = minusText negative ++ ('0' :: '.' :: List.replicate count '0' ++ run) ∧
      p.negative = negative ∧ p.power = none ∧
      p.decimal = ⟨Digit.number run, -(count : ℤ) - run.length⟩ := by
  have hfraction : ∀ c ∈ List.replicate count '0' ++ run, c.isDigit = true := by
    intro c hmem
    exact (List.mem_append.1 hmem).elim isDigit_of_mem_zeros (hdigits c)
  let p : Parts := {
    negative
    whole := ['0']
    fraction := List.replicate count '0' ++ run
    power := none
    whole_ne_nil := by simp
    whole_digits := by simp
    fraction_digits := hfraction
    power_digits := by simp }
  refine ⟨p, ?_, rfl, rfl, ?_⟩
  · simp [p, Parts.text, fractionText, powerText, hne]
  · have hnumber := Digit.number_zeros_append (count + 1) run
    rw [List.replicate_succ, List.cons_append] at hnumber
    simp only [p, Parts.decimal, powerValue, List.cons_append, List.nil_append, hnumber,
      List.length_append, List.length_replicate, Decimal.mk.injEq, true_and]
    omega

theorem exists_parts_power (hne : run ≠ []) (hdigits : ∀ c ∈ run, c.isDigit = true)
    (negative : Bool) (power : ℤ) :
    ∃ p : Parts,
      p.text = minusText negative ++
        (run.take 1 ++ (if run.length = 1 then [] else '.' :: run.drop 1) ++
          'e' :: (if power < 0 then '-' else '+') :: Decimal.digitsOf power.natAbs) ∧
      p.negative = negative ∧ p.decimal = ⟨Digit.number run, power - (run.length - 1)⟩ := by
  have hsome : 0 < run.length := List.length_pos_iff.2 hne
  have hwhole : run.take 1 ≠ [] := by
    apply List.ne_nil_of_length_pos
    rw [List.length_take]
    omega
  have hfraction : (if run.length = 1 then [] else '.' :: run.drop 1) =
      fractionText (run.drop 1) := by
    have hdrop : run.drop 1 = [] ↔ run.length = 1 := by
      rw [List.drop_eq_nil_iff]
      omega
    unfold fractionText
    simp only [hdrop]
  have hpower : ∀ part ∈ some (decide (power < 0), Decimal.digitsOf power.natAbs),
      part.2 ≠ [] ∧ ∀ c ∈ part.2, c.isDigit = true := by
    rintro part ⟨⟩
    exact ⟨List.ne_nil_of_length_pos (Decimal.length_pos _),
      fun c => Decimal.isDigit_of_mem_digitsOf⟩
  let p : Parts := {
    negative
    whole := run.take 1
    fraction := run.drop 1
    power := some (decide (power < 0), Decimal.digitsOf power.natAbs)
    whole_ne_nil := hwhole
    whole_digits := fun c hmem => hdigits c (List.mem_of_mem_take hmem)
    fraction_digits := fun c hmem => hdigits c (List.mem_of_mem_drop hmem)
    power_digits := hpower }
  refine ⟨p, ?_, rfl, ?_⟩
  · rw [hfraction]
    simp [p, Parts.text, powerText]
  · simp only [p, Parts.decimal, powerValue, List.take_append_drop, List.length_drop,
      number_digitsOf, decide_eq_true_eq, Decimal.mk.injEq, true_and]
    split <;> omega

end Placing

/-- The conventional text is a numeral of the same number.  It has no exponent where the
first digit is at most six places behind the point and at most twenty-one before it. -/
theorem exists_parts (d : Decimal) (negative : Bool) :
    ∃ p : Parts, p.text = minusText negative ++ d.conventional ∧ p.negative = negative ∧
      p.decimal.value = d.value ∧ (-6 ≤ d.leading → d.leading < 21 → p.power = none) := by
  obtain ⟨digits, exponent⟩ := d
  have hnumber := number_digitsOf digits
  have hne : Decimal.digitsOf digits ≠ [] :=
    List.ne_nil_of_length_pos (Decimal.length_pos digits)
  have hdigits : ∀ c ∈ Decimal.digitsOf digits, c.isDigit = true :=
    fun c => Decimal.isDigit_of_mem_digitsOf
  have hleading : Decimal.leading ⟨digits, exponent⟩ =
      exponent + (Decimal.digitsOf digits).length - 1 := rfl
  unfold Decimal.conventional
  dsimp only
  rw [hleading]
  generalize Decimal.digitsOf digits = run at *
  split
  · next hwhole =>
      let count := (exponent + run.length - run.length).toNat
      have hcount : exponent = 0 + count := by omega
      obtain ⟨p, htext, hnegative, hpower, hdecimal⟩ :=
        exists_parts_whole hne hdigits negative count
      refine ⟨p, htext, hnegative, ?_, fun _ _ => hpower⟩
      rw [hdecimal, hnumber, Decimal.value_mul_pow, ← hcount]
  · split
    · next hinside =>
        obtain ⟨p, htext, hnegative, hpower, hdecimal⟩ := exists_parts_inside hdigits negative
          (show 0 < (exponent + run.length).toNat by omega) (by omega)
        refine ⟨p, htext, hnegative, ?_, fun _ _ => hpower⟩
        rw [hdecimal, hnumber, Int.toNat_of_nonneg hinside.1.le, add_sub_cancel_right]
    · split
      · next hbefore =>
          obtain ⟨p, htext, hnegative, hpower, hdecimal⟩ := exists_parts_before hne hdigits
            negative (-(exponent + run.length)).toNat
          refine ⟨p, htext, hnegative, ?_, fun _ _ => hpower⟩
          rw [hdecimal, hnumber, Int.toNat_of_nonneg (by omega), neg_neg, add_sub_cancel_right]
      · next hapart =>
          obtain ⟨p, htext, hnegative, hdecimal⟩ := exists_parts_power hne hdigits negative
            (exponent + run.length - 1)
          refine ⟨p, htext, hnegative, ?_, fun _ _ => by omega⟩
          rw [hdecimal, hnumber, sub_sub_sub_cancel_right, add_sub_cancel_right]

end Numeral

namespace Decimal

variable {d : Decimal} {field bound : ℕ} {place : ℤ}

theorem ticks_eq_mul (digits : ℕ) (exponent : ℤ) :
    ticks ⟨digits, exponent⟩ = digits * ticks ⟨1, exponent⟩ := by
  rw [ticks, value, ticks, value, Nat.cast_one, one_mul, mul_assoc]

theorem ticks_power (place : ℤ) : ticks ⟨1, place⟩ = 10 * ticks ⟨1, place - 1⟩ := by
  have hvalue : value ⟨1, place⟩ = value ⟨1 * 10 ^ 1, place - 1⟩ := by
    rw [value_mul_pow, Nat.cast_one, sub_add_cancel]
  rw [ticks_inj.2 hvalue, ticks_eq_mul, Nat.one_mul, Nat.pow_one]
  rfl

theorem ticks_power_pos (place : ℤ) : 0 < ticks ⟨1, place⟩ :=
  mul_pos (mul_pos (Nat.cast_pos.2 Nat.one_pos) (by positivity)) cast_unit_pos

theorem value_power (place : ℤ) : value ⟨1, place⟩ = 10 ^ place := by
  rw [value, Nat.cast_one, one_mul]

/-- Below the float of a power of ten, the first digit is behind that power. -/
theorem leading_lt (hpos : 0 < d.digits) (hrounds : RoundsTo d.ticks field)
    (hbound : RoundsTo (ticks ⟨1, place⟩) bound) (hlt : field < bound) : d.leading < place := by
  by_contra hnot
  have hvalue : value ⟨1, place⟩ ≤ d.value :=
    calc value ⟨1, place⟩ = 10 ^ place := value_power place
      _ ≤ 10 ^ d.leading := zpow_le_zpow_right₀ (by norm_num) (by omega)
      _ ≤ d.value := (value_bounds hpos).1
  exact absurd (hbound.mono hrounds (ticks_le_iff.2 hvalue)) (by omega)

/-- Of one digit and below a power of ten, a decimal is at most nine tenths of it. -/
theorem ticks_le_nine (hlength : length d.digits = 1) (hlt : d.leading < place) :
    d.ticks ≤ 9 * ticks ⟨1, place - 1⟩ := by
  have hdigit : d.digits ≤ 9 := by
    have hbelow := lt_pow_length d.digits
    rw [hlength] at hbelow
    omega
  have hexponent : d.exponent ≤ place - 1 := by
    unfold leading at hlt
    omega
  have hvalue : d.value ≤ value ⟨9, place - 1⟩ :=
    mul_le_mul (Nat.cast_le.2 hdigit) (zpow_le_zpow_right₀ (by norm_num) hexponent)
      (by positivity) (by positivity)
  exact (ticks_le_iff.2 hvalue).trans_eq (ticks_eq_mul 9 _)

/-- From the float of a power of ten on, the first digit of the shortest decimal is not
behind that power: the power itself would be as short and nearer. -/
theorem IsShortest.le_leading (h : IsShortest field d) (hbound : RoundsTo (ticks ⟨1, place⟩) bound)
    (hnear : 19 * ticks ⟨1, place⟩ < 20 * fieldTicks bound) (hle : bound ≤ field) :
    place ≤ d.leading := by
  by_contra hnot
  have hbelow : d.value ≤ value ⟨1, place⟩ :=
    calc d.value ≤ 10 ^ (d.leading + 1) := (value_bounds h.positive).2.le
      _ ≤ 10 ^ place := zpow_le_zpow_right₀ (by norm_num) (by omega)
      _ = value ⟨1, place⟩ := (value_power place).symm
  have hfield := h.rounds.mono hbound (ticks_le_iff.2 hbelow)
  obtain rfl : bound = field := by omega
  have hone : length 1 = 1 := length_of_lt (by decide)
  have hlength : length d.digits = 1 := by
    have hfewest : length d.digits ≤ length 1 := h.fewest ⟨1, place⟩ Nat.one_pos hbound
    have hsome := length_pos d.digits
    omega
  have hnine := ticks_le_nine hlength (Int.not_le.1 hnot)
  have hnearest := h.nearest ⟨1, place⟩ Nat.one_pos hbound (hone.trans hlength.symm)
  have hstep := ticks_power_pos (place - 1)
  rw [ticks_power] at hnearest hnear
  rw [abs_of_nonpos (by linarith)] at hnearest
  rcases abs_cases (10 * ticks ⟨1, place - 1⟩ - fieldTicks bound) with ⟨heq, -⟩ | ⟨heq, -⟩
  · linarith
  · linarith

end Decimal

namespace Binary64

theorem exists_withSign_of_isReal {x : Float} (h : isReal x = true) :
    ∃ negative field, field < infinityField ∧ x = withSign negative field := by
  unfold isReal at h
  split at h
  · next negative ticks hx =>
      obtain ⟨field, hfinite, -, hfloat⟩ := exists_withSign hx
      exact ⟨negative, field, hfinite, hfloat⟩
  · cases h

theorem isZero_withSign {negative : Bool} {field : ℕ} (h : field < infinityField) :
    isZero (withSign negative field) = decide (field = 0) := by
  have hpos := @fieldTicks_pos_iff field
  unfold isZero
  rw [ofFloat_withSign h]
  dsimp only
  rw [decide_eq_decide]
  omega

/-- A float, and for both zeros the one without a sign. -/
def withoutZeroSign (x : Float) : Float :=
  if isZero x then 0 else x

theorem withoutZeroSign_withSign {negative : Bool} {field : ℕ} (h : field < infinityField) :
    withoutZeroSign (withSign negative field) =
      withSign (negative && decide (0 < field)) field := by
  unfold withoutZeroSign
  rw [isZero_withSign h]
  rcases Nat.eq_zero_or_pos field with rfl | hpos
  · rw [decide_eq_false (lt_irrefl 0), Bool.and_false]
    rfl
  · simp [hpos, hpos.ne']

end Binary64

/-! ## The text of a float -/

namespace Value

open Decimal Numeral

theorem roundsTo_select {field : ℕ} (h : field < infinityField) :
    RoundsTo (numberLayout.select (fieldTicks field)).ticks field := by
  rcases select_cases field with ⟨n, hticks, -, hselect⟩ | ⟨hpos, hselect⟩
  · have hexact : ticks ⟨n, 0⟩ = fieldTicks field := by
      rw [ticks, value, zpow_zero, mul_one, hticks, Nat.cast_mul]
    rw [hselect, hexact]
    exact roundsTo_fieldTicks h.le
  · rw [hselect]
    exact (isShortest_shortest hpos h).rounds

theorem toList_signText (negative : Bool) : (signText negative).toList = minusText negative := by
  cases negative <;> rfl

/-- The text of a finite float is a numeral that denotes it, and zero's bears no sign. -/
theorem exists_parts_write {negative : Bool} {field : ℕ} (h : field < infinityField) :
    ∃ p : Parts, p.text = (numberLayout.write (withSign negative field)).toList ∧
      p.negative = (negative && decide (0 < field)) ∧ RoundsTo p.decimal.ticks field ∧
      (-6 ≤ (numberLayout.select (fieldTicks field)).leading →
        (numberLayout.select (fieldTicks field)).leading < 21 → p.power = none) := by
  have hsign : decide (0 < fieldTicks field) = decide (0 < field) :=
    decide_eq_decide.2 fieldTicks_pos_iff
  obtain ⟨p, htext, hnegative, hvalue, hplain⟩ :=
    exists_parts (numberLayout.select (fieldTicks field)) (negative && decide (0 < field))
  refine ⟨p, ?_, hnegative, ?_, hplain⟩
  · rw [htext, write_finite (ofFloat_withSign h), hsign, String.toList_append, toList_signText,
      String.toList_ofList]
  · rw [ticks_inj.2 hvalue]
    exact roundsTo_select h

/-- The text of a finite float denotes it, up to the sign of a zero. -/
theorem denotes_write {x : Float} (h : isReal x = true) :
    Denotes (numberLayout.write x).toList (withoutZeroSign x) := by
  obtain ⟨negative, field, hfinite, rfl⟩ := exists_withSign_of_isReal h
  obtain ⟨p, htext, hnegative, hrounds, -⟩ := exists_parts_write hfinite
  refine ⟨p, field, htext, hrounds, ?_⟩
  rw [hnegative, withoutZeroSign_withSign hfinite]

/-- Only the two zeros share their text. -/
theorem eq_or_isZero_of_write {x y : Float} (hx : isReal x = true) (hy : isReal y = true)
    (h : numberLayout.write x = numberLayout.write y) :
    x = y ∨ isZero x = true ∧ isZero y = true := by
  have hone := denotes_write hx
  rw [h] at hone
  have hsame := denotes_unique hone (denotes_write hy)
  have hzero : isZero 0 = true := by decide
  unfold withoutZeroSign at hsame
  split at hsame <;> split at hsame
  · next hzeroX hzeroY => exact .inr ⟨hzeroX, hzeroY⟩
  · next hother => exact absurd (hsame ▸ hzero) hother
  · next hother _ => exact absurd (hsame ▸ hzero) hother
  · exact .inl hsame

theorem roundsTo_low : RoundsTo (ticks ⟨1, -6⟩) (1e-6 : Float).toBits.toNat := by
  have hfloat : toFloat ⟨1, -6⟩ false = withSign false (1e-6 : Float).toBits.toNat := by
    decide +kernel
  exact (toFloat_eq_iff (by decide)).1 hfloat

theorem roundsTo_high : RoundsTo (ticks ⟨1, 21⟩) (1e21 : Float).toBits.toNat := by
  have hfloat : toFloat ⟨1, 21⟩ false = withSign false (1e21 : Float).toBits.toNat := by
    decide +kernel
  exact (toFloat_eq_iff (by decide)).1 hfloat

theorem near_low : 19 * ticks ⟨1, -6⟩ < 20 * fieldTicks (1e-6 : Float).toBits.toNat := by
  have hnat : 19 * unit < 20 * fieldTicks (1e-6 : Float).toBits.toNat * 10 ^ 6 := by
    decide +kernel
  have hcast : (19 : ℚ) * unit < 20 * fieldTicks (1e-6 : Float).toBits.toNat * 10 ^ 6 := by
    exact_mod_cast hnat
  have hpower : value ⟨1, -6⟩ = 1 / 10 ^ 6 := by
    rw [value_power]
    norm_num
  rw [ticks, hpower, one_div_mul_eq_div, ← mul_div_assoc, div_lt_iff₀ (by norm_num)]
  exact hcast

/-- The fields of zero and of the floats from `1e-6` up to below `1e21`. -/
def Positional (field : ℕ) : Prop :=
  field = 0 ∨ (1e-6 : Float).toBits.toNat ≤ field ∧ field < (1e21 : Float).toBits.toNat

theorem leading_select {field : ℕ} (hfinite : field < infinityField) (h : Positional field) :
    -6 ≤ (numberLayout.select (fieldTicks field)).leading ∧
      (numberLayout.select (fieldTicks field)).leading < 21 := by
  rcases select_cases field with ⟨n, -, hlimit, hselect⟩ | ⟨hpos, hselect⟩
  · have hsome := length_pos n
    have hlength : length n ≤ 21 := (length_le_iff (by decide)).2 hlimit
    rw [hselect]
    unfold leading
    dsimp only
    omega
  · have hshortest := isShortest_shortest hpos hfinite
    obtain ⟨hlow, hhigh⟩ : (1e-6 : Float).toBits.toNat ≤ field ∧
        field < (1e21 : Float).toBits.toNat := h.resolve_left hpos.ne'
    rw [hselect]
    exact ⟨hshortest.le_leading roundsTo_low near_low hlow,
      leading_lt hshortest.positive hshortest.rounds roundsTo_high hhigh⟩

/-- Zero without a sign and the numbers from `1e-6` up to below `1e21`. -/
theorem exists_positional {x : Float} (h : x = 0 ∨ 1e-6 ≤ x ∧ x < 1e21) :
    ∃ field < infinityField, x = withSign false field ∧ Positional field := by
  rcases h with rfl | ⟨hlow, hhigh⟩
  · exact ⟨0, by decide, rfl, .inl rfl⟩
  · obtain ⟨m₁, e₁, h₁, hlowFinite⟩ :
        ∃ m e h, (1e-6 : Float).toModel.unpack = .finite .positive m e h := ⟨_, _, by decide, rfl⟩
    obtain ⟨m₂, e₂, h₂, hhighFinite⟩ :
        ∃ m e h, (1e21 : Float).toModel.unpack = .finite .positive m e h := ⟨_, _, by decide, rfl⟩
    obtain ⟨field, hfloat, habove, hbelow, hfinite⟩ :=
      exists_field_of_le_of_lt hlowFinite hhighFinite hlow hhigh
    exact ⟨field, hfinite, hfloat, .inr ⟨habove, hbelow⟩⟩

/-- Their texts are numerals as sources write them, and are read as these numbers. -/
theorem isPlain_write {x : Float} (h : x = 0 ∨ 1e-6 ≤ x ∧ x < 1e21) :
    isPlain (numberLayout.write x).toList = true ∧
      read? (numberLayout.write x).toList = some x := by
  obtain ⟨field, hfinite, rfl, hpositional⟩ := exists_positional h
  obtain ⟨p, htext, hnegative, hrounds, hpower⟩ := @exists_parts_write false field hfinite
  obtain ⟨hlow, hhigh⟩ := leading_select hfinite hpositional
  rw [Bool.false_and] at hnegative
  have hdenotes : Denotes p.text (withSign false field) :=
    ⟨p, field, rfl, hrounds, by rw [hnegative]⟩
  rw [← htext]
  exact ⟨isPlain_text hnegative (hpower hlow hhigh), read?_of_denotes hdenotes⟩

end Value

end Nomi
