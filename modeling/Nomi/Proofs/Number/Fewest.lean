import Nomi.Proofs.Number.Digits

/-!
# The fewest digits that read back

Grids of decimals with one to seventeen digits are searched for a neighbour of the
value that reads back.  The neighbours stand for their whole grid: a decimal of at most
so many digits that reads back lies on the far side of one of them, so that neighbour
reads back too and is no further away.  Seventeen digits are finer than the spacing of
floats, so the search finds something, and what it finds first has the fewest digits
and is the nearest among those.
-/

namespace Nomi.Decimal

open Binary64

attribute [local instance (high)] instPowNat

/-- A decimal that reads back as the float of `field`, none that does having fewer
digits, and none of as many being nearer. -/
structure IsShortest (field : ℕ) (d : Decimal) : Prop where
  positive : 0 < d.digits
  rounds : RoundsTo d.ticks field
  fewest : ∀ other : Decimal, 0 < other.digits → RoundsTo other.ticks field →
    length d.digits ≤ length other.digits
  nearest : ∀ other : Decimal, 0 < other.digits → RoundsTo other.ticks field →
    length other.digits = length d.digits →
      |d.ticks - fieldTicks field| ≤ |other.ticks - fieldTicks field|

/-- How many steps of a grid a magnitude is. -/
def steps (magnitude : ℕ) (exponent : ℤ) : ℚ :=
  magnitude / (10 ^ exponent * unit)

theorem step_pos (exponent : ℤ) : (0 : ℚ) < 10 ^ exponent * unit :=
  mul_pos (by positivity) cast_unit_pos

theorem onGrid_pos (magnitude : ℕ) (exponent : ℤ) : 0 < (onGrid magnitude exponent).2 := by
  cases exponent with
  | ofNat up => exact Nat.mul_pos unit_pos (Nat.pow_pos (by decide))
  | negSucc down => exact unit_pos

theorem onGrid_div (magnitude : ℕ) (exponent : ℤ) :
    ((onGrid magnitude exponent).1 / (onGrid magnitude exponent).2 : ℚ) =
      steps magnitude exponent := by
  have hunit := cast_unit_pos.ne'
  cases exponent with
  | ofNat up =>
      simp only [onGrid, steps, Int.ofNat_eq_natCast, zpow_natCast]
      push_cast
      field_simp
  | negSucc down =>
      simp only [onGrid, steps, zpow_negSucc]
      push_cast
      field_simp

/-- The whole steps of a grid below a magnitude. -/
def floorOn (magnitude : ℕ) (exponent : ℤ) : ℕ :=
  (onGrid magnitude exponent).1 / (onGrid magnitude exponent).2

theorem floorOn_le (magnitude : ℕ) (exponent : ℤ) :
    (floorOn magnitude exponent : ℚ) ≤ steps magnitude exponent := by
  rw [← onGrid_div]
  exact Nat.cast_div_le

theorem lt_floorOn (magnitude : ℕ) (exponent : ℤ) :
    steps magnitude exponent < floorOn magnitude exponent + 1 := by
  have hpos := onGrid_pos magnitude exponent
  rw [← onGrid_div, div_lt_iff₀ (Nat.cast_pos.2 hpos)]
  exact_mod_cast (Nat.div_lt_iff_lt_mul hpos).1 (Nat.lt_succ_self _)

theorem ticks_sub (magnitude digits : ℕ) (exponent : ℤ) :
    ticks ⟨digits, exponent⟩ - magnitude =
      (digits - steps magnitude exponent) * (10 ^ exponent * unit) := by
  rw [sub_mul, steps, div_mul_cancel₀ _ (step_pos exponent).ne', ← mul_assoc]
  rfl

theorem distance (magnitude digits : ℕ) (exponent : ℤ) :
    |ticks ⟨digits, exponent⟩ - magnitude| =
      |digits - steps magnitude exponent| * (10 ^ exponent * unit) := by
  rw [ticks_sub, abs_mul, abs_of_pos (step_pos exponent)]

/-- The nearer neighbour stands first and is at most half a step away. -/
theorem neighbours_spec (magnitude : ℕ) (exponent : ℤ) :
    ∃ near far, neighbours magnitude exponent = [⟨near, exponent⟩, ⟨far, exponent⟩] ∧
      (near = floorOn magnitude exponent ∧ far = near + 1 ∨
        far = floorOn magnitude exponent ∧ near = far + 1) ∧
      |near - steps magnitude exponent| ≤ 1 / 2 ∧ 1 / 2 ≤ |far - steps magnitude exponent| := by
  have hpos := onGrid_pos magnitude exponent
  have hcases := roundEven_cases (onGrid magnitude exponent).1 (onGrid magnitude exponent).2
  obtain ⟨hlow, hhigh⟩ := roundEven_half (onGrid magnitude exponent).1 hpos
  have hfloor := floorOn_le magnitude exponent
  have hceil := lt_floorOn magnitude exponent
  rw [onGrid_div] at hlow hhigh
  let near := roundEven (onGrid magnitude exponent).1 (onGrid magnitude exponent).2
  let far := 2 * floorOn magnitude exponent + 1 - near
  have hdown : (2 * near - 1 : ℚ) ≤ 2 * steps magnitude exponent :=
    hlow.elim le_of_lt fun htie => htie.1.ge
  have hup : 2 * steps magnitude exponent ≤ 2 * near + 1 :=
    hhigh.elim le_of_lt fun htie => htie.1.le
  refine ⟨near, far, rfl, ?_⟩
  rcases hcases with ⟨hnear, -⟩ | ⟨hnear, -⟩
  · change near = floorOn magnitude exponent at hnear
    have hfar : far = near + 1 := by omega
    rw [hfar, abs_le, le_abs, Nat.cast_add_one]
    rw [← hnear] at hfloor
    refine ⟨.inl ⟨hnear, rfl⟩, ⟨by linarith, by linarith⟩, .inl (by linarith)⟩
  · change near = floorOn magnitude exponent + 1 at hnear
    have hfar : far = floorOn magnitude exponent := by omega
    rw [hfar, abs_le, le_abs]
    have hcast : (near : ℚ) = floorOn magnitude exponent + 1 := by
      rw [hnear, Nat.cast_add_one]
    refine ⟨.inr ⟨rfl, hnear⟩, ⟨by linarith, by linarith⟩, .inr (by linarith)⟩

/-! ## A neighbour for each decimal of a grid -/

/-- The first neighbour that reads back is the nearest of those that do. -/
theorem nearest_of_find {magnitude : ℕ} {exponent : ℤ} {d : Decimal}
    (h : (neighbours magnitude exponent).find? (readsBack magnitude) = some d) :
    d ∈ neighbours magnitude exponent ∧ readsBack magnitude d = true ∧
      ∀ other ∈ neighbours magnitude exponent, readsBack magnitude other = true →
        |d.ticks - magnitude| ≤ |other.ticks - magnitude| := by
  refine ⟨List.mem_of_find?_eq_some h, List.find?_some h, ?_⟩
  obtain ⟨near, far, heq, -, hnear, hfar⟩ := neighbours_spec magnitude exponent
  have hle : |ticks ⟨near, exponent⟩ - magnitude| ≤ |ticks ⟨far, exponent⟩ - magnitude| := by
    rw [distance, distance]
    exact mul_le_mul_of_nonneg_right (hnear.trans hfar) (step_pos exponent).le
  rw [heq] at h ⊢
  intro other hother hback
  rcases List.mem_pair.1 hother with rfl | rfl
  · rw [List.find?_cons_of_pos hback, Option.some.injEq] at h
    rw [h]
  · rw [List.find?_cons] at h
    split at h
    · rw [← Option.some.inj h]
      exact hle
    · rw [List.find?_cons_of_pos hback, Option.some.injEq] at h
      rw [h]

theorem value_mono {digits other : ℕ} {exponent : ℤ} (h : digits ≤ other) :
    value ⟨digits, exponent⟩ ≤ value ⟨other, exponent⟩ :=
  mul_le_mul_of_nonneg_right (Nat.cast_le.2 h) (by positivity)

theorem pow_le_floorOn {magnitude places : ℕ} {exponent : ℤ}
    (h : (10 : ℚ) ^ (exponent + places) * unit ≤ magnitude) :
    10 ^ places ≤ floorOn magnitude exponent := by
  have hsteps : (10 : ℚ) ^ places ≤ steps magnitude exponent := by
    rwa [steps, le_div_iff₀ (step_pos exponent), ← mul_assoc, ← zpow_natCast,
      ← zpow_add₀ (by norm_num), add_comm]
  apply Nat.le_of_lt_succ
  exact_mod_cast hsteps.trans_lt (lt_floorOn magnitude exponent)

theorem floorOn_lt_pow {magnitude places : ℕ} {exponent : ℤ}
    (h : (magnitude : ℚ) < 10 ^ (exponent + places) * unit) :
    floorOn magnitude exponent < 10 ^ places := by
  have hsteps : steps magnitude exponent < 10 ^ places := by
    rwa [steps, div_lt_iff₀ (step_pos exponent), ← mul_assoc, ← zpow_natCast,
      ← zpow_add₀ (by norm_num), add_comm]
  exact_mod_cast (floorOn_le magnitude exponent).trans_lt hsteps

/-- A decimal of few digits lies beyond one of the neighbours: it is on their grid, or
its digits end before the grid's leading one. -/
theorem beyond_neighbour {magnitude fewer : ℕ} {exponent : ℤ} {d : Decimal}
    (hscale : (10 : ℚ) ^ (exponent + fewer) * unit ≤ magnitude)
    (hlength : length d.digits ≤ fewer + 1) :
    d.value ≤ value ⟨floorOn magnitude exponent, exponent⟩ ∨
      value ⟨floorOn magnitude exponent + 1, exponent⟩ ≤ d.value := by
  by_cases hgrid : exponent ≤ d.exponent
  · obtain ⟨more, hmore⟩ := Int.le.dest hgrid
    have hvalue : d.value = value ⟨d.digits * 10 ^ more, exponent⟩ := by
      rw [value_mul_pow, hmore]
    rw [hvalue]
    rcases Nat.lt_or_ge (floorOn magnitude exponent) (d.digits * 10 ^ more) with habove | hbelow
    · exact .inr (value_mono habove)
    · exact .inl (value_mono hbelow)
  · left
    have hdigits : d.digits < 10 ^ (fewer + 1) := (length_le_iff (by omega)).1 hlength
    calc d.value ≤ 10 ^ (fewer + 1) * 10 ^ (exponent - 1) := by
          apply mul_le_mul
          · exact_mod_cast hdigits.le
          · exact zpow_le_zpow_right₀ (by norm_num) (by omega)
          · positivity
          · positivity
      _ = value ⟨10 ^ fewer, exponent⟩ := by
          unfold value
          push_cast
          rw [← zpow_natCast, ← zpow_natCast, ← zpow_add₀ (by norm_num), ← zpow_add₀ (by norm_num)]
          congr 1
          push_cast
          ring
      _ ≤ value ⟨floorOn magnitude exponent, exponent⟩ := value_mono (pow_le_floorOn hscale)

theorem floor_mem_neighbours (magnitude : ℕ) (exponent : ℤ) :
    ⟨floorOn magnitude exponent, exponent⟩ ∈ neighbours magnitude exponent ∧
      ⟨floorOn magnitude exponent + 1, exponent⟩ ∈ neighbours magnitude exponent := by
  obtain ⟨near, far, heq, ⟨hnear, hfar⟩ | ⟨hfar, hnear⟩, -⟩ := neighbours_spec magnitude exponent
  · rw [heq, ← hnear, ← hfar]
    simp
  · rw [heq, ← hfar, ← hnear]
    simp

/-- The neighbours of a float's magnitude stand for all decimals of at most so many
digits. -/
theorem exists_neighbour {field fewer : ℕ} {exponent : ℤ} {d : Decimal}
    (hscale : (10 : ℚ) ^ (exponent + fewer) * unit ≤ fieldTicks field)
    (hlength : length d.digits ≤ fewer + 1) (hrounds : RoundsTo d.ticks field) :
    ∃ other ∈ neighbours (fieldTicks field) exponent, RoundsTo other.ticks field ∧
      |other.ticks - fieldTicks field| ≤ |d.ticks - fieldTicks field| := by
  have hself := roundsTo_fieldTicks hrounds.1
  obtain ⟨hfloor, hnext⟩ := floor_mem_neighbours (fieldTicks field) exponent
  have hdown : ticks ⟨floorOn (fieldTicks field) exponent, exponent⟩ ≤ fieldTicks field := by
    rw [← sub_nonpos, ticks_sub]
    exact mul_nonpos_of_nonpos_of_nonneg (sub_nonpos.2 (floorOn_le ..)) (step_pos exponent).le
  have hup : fieldTicks field ≤ ticks ⟨floorOn (fieldTicks field) exponent + 1, exponent⟩ := by
    rw [← sub_nonneg, ticks_sub, Nat.cast_add_one]
    exact mul_nonneg (sub_nonneg.2 (lt_floorOn ..).le) (step_pos exponent).le
  rcases beyond_neighbour hscale hlength with hbelow | habove
  · have hle := ticks_le_iff.2 hbelow
    refine ⟨_, hfloor, hrounds.between hself hle hdown, ?_⟩
    rw [abs_of_nonpos (by linarith), abs_of_nonpos (by linarith)]
    linarith
  · have hle := ticks_le_iff.2 habove
    refine ⟨_, hnext, hself.between hrounds hup hle, ?_⟩
    rw [abs_of_nonneg (by linarith), abs_of_nonneg (by linarith)]
    linarith

/-! ## The search -/

/-- The scale of a quotient is one above the place of its leading digit. -/
theorem scale_spec {numerator denominator : ℕ} (hpos : 0 < numerator) (hden : 0 < denominator) :
    (10 : ℚ) ^ (scale numerator denominator - 1) * denominator ≤ numerator ∧
      (numerator : ℚ) < 10 ^ scale numerator denominator * denominator := by
  unfold scale
  split
  · next hle =>
    let whole := numerator / denominator
    have hwhole : 0 < whole := Nat.div_pos hle hden
    have hlength := length_pos whole
    have hlow : 10 ^ (length whole - 1) * denominator ≤ numerator :=
      (Nat.mul_le_mul_right _ (pow_length_le hwhole)).trans (Nat.div_mul_le_self ..)
    have hhigh : numerator < 10 ^ length whole * denominator :=
      (Nat.div_lt_iff_lt_mul hden).1 (lt_pow_length whole)
    rw [show (length whole : ℤ) - 1 = (length whole - 1 : ℕ) by omega, zpow_natCast, zpow_natCast]
    exact ⟨by exact_mod_cast hlow, by exact_mod_cast hhigh⟩
  · next hlt =>
    let fit := (denominator - 1) / numerator
    have hfit : 0 < fit := Nat.div_pos (by omega) hpos
    have hlength := length_pos fit
    have hlow : denominator ≤ numerator * 10 ^ length fit := by
      have := (Nat.div_lt_iff_lt_mul hpos).1 (lt_pow_length fit)
      rw [Nat.mul_comm]
      omega
    have hhigh : numerator * 10 ^ (length fit - 1) < denominator := by
      have := (Nat.mul_le_mul_right numerator (pow_length_le hfit)).trans (Nat.div_mul_le_self ..)
      rw [Nat.mul_comm]
      omega
    have hdown : (1 - length fit - 1 : ℤ) = -(length fit : ℕ) := by ring
    have hup : (1 - length fit : ℤ) = -(length fit - 1 : ℕ) := by omega
    rw [hdown, hup, zpow_neg, zpow_neg, zpow_natCast, zpow_natCast, inv_mul_le_iff₀ (by positivity),
      lt_inv_mul_iff₀ (by positivity), mul_comm, mul_comm _ (numerator : ℚ)]
    exact ⟨by exact_mod_cast hlow, by exact_mod_cast hhigh⟩

theorem readsBack_iff {field : ℕ} {d : Decimal} (h : field ≤ infinityField) :
    readsBack (fieldTicks field) d = true ↔ RoundsTo d.ticks field := by
  have hself : nearestField (fieldTicks field) 1 = field := by
    have hrounds := roundsTo_nearestField (fieldTicks field) Nat.one_pos
    rw [Nat.cast_one, div_one] at hrounds
    exact hrounds.unique (roundsTo_fieldTicks h)
  rw [readsBack, beq_iff_eq, Float.toBits_inj, nearest, hself, toFloat_eq_iff h]

/-- The neighbours on the grid whose decimals have at most `fewer + 1` digits. -/
def onGridOf (magnitude fewer : ℕ) : List Decimal :=
  neighbours magnitude (scale magnitude unit - (fewer + 1 : ℕ))

/-- The leading digit of a magnitude is the first of such a grid. -/
theorem leading_bounds {magnitude : ℕ} (hpos : 0 < magnitude) (fewer : ℕ) :
    (10 : ℚ) ^ (scale magnitude unit - (fewer + 1 : ℕ) + fewer) * unit ≤ magnitude ∧
      (magnitude : ℚ) <
        10 ^ (scale magnitude unit - (fewer + 1 : ℕ) + (fewer + 1 : ℕ)) * unit := by
  have hplace (top : ℤ) : top - (fewer + 1 : ℕ) + fewer = top - 1 := by omega
  rw [hplace, sub_add_cancel]
  exact scale_spec hpos unit_pos

/-- Its decimals next to the magnitude have that many digits, or one more where the
next power of ten is reached. -/
theorem digits_of_mem {magnitude fewer : ℕ} {d : Decimal} (hpos : 0 < magnitude)
    (h : d ∈ onGridOf magnitude fewer) :
    10 ^ fewer ≤ d.digits ∧ d.digits ≤ 10 ^ (fewer + 1) := by
  obtain ⟨hlow, hhigh⟩ := leading_bounds hpos fewer
  have hfirst := pow_le_floorOn hlow
  have hlast := floorOn_lt_pow hhigh
  obtain ⟨near, far, heq, hnear, -⟩ :=
    neighbours_spec magnitude (scale magnitude unit - (fewer + 1 : ℕ))
  rw [onGridOf, heq, List.mem_pair] at h
  rcases h with rfl | rfl <;> dsimp only <;> omega

/-- What is found reads back on a grid before which none has such a neighbour. -/
theorem search_spec {magnitude : ℕ} {d : Decimal} (h : search magnitude = some d) :
    ∃ fewer, (onGridOf magnitude fewer).find? (readsBack magnitude) = some d ∧
      ∀ less < fewer, (onGridOf magnitude less).find? (readsBack magnitude) = none := by
  obtain ⟨before, fewer, after, hsplit, hfound, hnone⟩ := List.findSome?_eq_some_iff.1 h
  have hsorted : (List.range 17).Pairwise (· < ·) := List.pairwise_lt_range
  rw [hsplit, List.pairwise_append, List.pairwise_cons] at hsorted
  refine ⟨fewer, hfound, ?_⟩
  intro less hless
  apply hnone
  have hfewer : fewer ∈ List.range 17 := by
    rw [hsplit]
    simp
  have hmem : less ∈ List.range 17 := by
    rw [List.mem_range] at hfewer ⊢
    omega
  rw [hsplit, List.mem_append, List.mem_cons] at hmem
  rcases hmem with hbefore | rfl | hafter
  · exact hbefore
  · exact absurd hless (lt_irrefl _)
  · exact absurd (hsorted.2.1.1 less hafter) (by omega)

/-- Seventeen digits are enough: half their step is within half a spacing. -/
theorem exists_search {field : ℕ} (hpos : 0 < field) (hfinite : field < infinityField) :
    ∃ d, search (fieldTicks field) = some d := by
  apply Option.isSome_iff_exists.1
  apply List.findSome?_isSome_iff.2
  refine ⟨16, by decide, ?_⟩
  let exponent := scale (fieldTicks field) unit - (16 + 1 : ℕ)
  show ((neighbours (fieldTicks field) exponent).find? _).isSome
  obtain ⟨near, far, heq, -, hnear, -⟩ := neighbours_spec (fieldTicks field) exponent
  have hback : readsBack (fieldTicks field) ⟨near, exponent⟩ = true := by
    rw [readsBack_iff hfinite.le]
    apply roundsTo_of_close hfinite.le
    have hscale := (leading_bounds (fieldTicks_pos hpos) 16).1
    rw [add_comm, zpow_add₀ (by norm_num), mul_assoc] at hscale
    have hstep := step_pos exponent
    rw [distance]
    calc (2 : ℚ) ^ 54 * (|near - steps (fieldTicks field) exponent| * ((10 : ℚ) ^ exponent * unit))
        ≤ 2 ^ 54 * (1 / 2 * ((10 : ℚ) ^ exponent * unit)) :=
          mul_le_mul_of_nonneg_left (mul_le_mul_of_nonneg_right hnear hstep.le) (by norm_num)
      _ < (10 : ℚ) ^ ((16 : ℕ) : ℤ) * ((10 : ℚ) ^ exponent * unit) := by
          rw [← mul_assoc]
          exact mul_lt_mul_of_pos_right (by norm_num) hstep
      _ ≤ fieldTicks field := hscale
  rw [heq, List.find?_cons_of_pos hback]
  rfl

/-- Zeros at the end would make it shorter. -/
theorem IsShortest.mod_ne {field : ℕ} {d : Decimal} (h : IsShortest field d) :
    d.digits % 10 ≠ 0 := by
  intro hzero
  have hpos := h.positive
  have hvalue : d.value = value ⟨d.digits / 10, d.exponent + 1⟩ := by
    rw [← Nat.cast_one, ← value_mul_pow, Nat.pow_one, Nat.div_mul_cancel (by omega)]
  have hrounds : RoundsTo (ticks ⟨d.digits / 10, d.exponent + 1⟩) field := by
    rw [ticks, ← hvalue]
    exact h.rounds
  have hshorter : 0 < d.digits / 10 := by omega
  have hfewest : length d.digits ≤ length (d.digits / 10) := h.fewest _ hshorter hrounds
  rw [length_of_le (by omega)] at hfewest
  omega

/-- The digits that are chosen are the shortest ones. -/
theorem isShortest_shortest {field : ℕ} (hpos : 0 < field) (hfinite : field < infinityField) :
    IsShortest field (shortest (fieldTicks field)) := by
  obtain ⟨d, hsearch⟩ := exists_search hpos hfinite
  obtain ⟨fewer, hfound, hnone⟩ := search_spec hsearch
  obtain ⟨hmem, hback, hnearest⟩ := nearest_of_find hfound
  have hshortest : shortest (fieldTicks field) = trim d.digits d.exponent := by
    rw [shortest, if_neg (fieldTicks_pos hpos).ne', hsearch, Option.getD_some]
  have hticks : ticks (trim d.digits d.exponent) = d.ticks := by
    rw [ticks, value_trim, ticks]
  obtain ⟨hfirst, hlast⟩ := digits_of_mem (fieldTicks_pos hpos) hmem
  have hdigits : 0 < d.digits := Nat.lt_of_lt_of_le (Nat.pow_pos (by decide)) hfirst
  obtain ⟨count, hcount, -⟩ := exists_trim d.digits d.exponent
  have hpositive : 0 < (trim d.digits d.exponent).digits := by
    rw [hcount] at hdigits
    exact Nat.pos_of_mul_pos_right hdigits
  have hlength : length (trim d.digits d.exponent).digits ≤ fewer + 1 := by
    have hle : (trim d.digits d.exponent).digits ≤ d.digits := by
      conv_rhs => rw [hcount]
      exact Nat.le_mul_of_pos_right _ (Nat.pow_pos (by decide))
    have hpower : 10 ^ (fewer + 1) % 10 = 0 := by
      rw [Nat.pow_succ, Nat.mul_mod_left]
    rw [length_le_iff (Nat.succ_pos _)]
    apply Nat.lt_of_le_of_ne (hle.trans hlast)
    intro hreached
    exact trim_mod hdigits (hreached ▸ hpower)
  rw [hshortest]
  refine ⟨hpositive, ?_, ?_, ?_⟩
  · rw [hticks]
    exact (readsBack_iff hfinite.le).1 hback
  · intro other hother hrounds
    by_contra hless
    have hsome := length_pos other.digits
    have hlow := (leading_bounds (fieldTicks_pos hpos) (length other.digits - 1)).1
    obtain ⟨near, hnear, hreads, -⟩ := exists_neighbour hlow (by omega) hrounds
    have hmiss := List.find?_eq_none.1 (hnone (length other.digits - 1) (by omega)) near hnear
    exact hmiss ((readsBack_iff hfinite.le).2 hreads)
  · intro other hother hrounds hsame
    have hlow := (leading_bounds (fieldTicks_pos hpos) fewer).1
    obtain ⟨near, hnear, hreads, hcloser⟩ := exists_neighbour hlow (by omega) hrounds
    rw [hticks]
    exact (hnearest near hnear ((readsBack_iff hfinite.le).2 hreads)).trans hcloser

end Nomi.Decimal
