import Nomi.Proofs.Number.Fewest
import Nomi.Value.Render

/-!
# The conventional text of a number

Programs are to see numbers as JS `Number#toString` shows them: the shortest digits
that read back, filled up with zeros to a whole number up to twenty-one places, with a
point among or before them down to six places behind it, and with an exponent otherwise.
Whole numbers are written with all digits of their exact value instead.  Below `2 ^ 53`
that is the same, since every whole number there is a float; from there on it is the
same only where the shortest digits are the exact ones.
-/

namespace Nomi

open Binary64

attribute [local instance (high)] instPowNat

namespace Decimal

/-- The text of digits with the point `point` places behind the first one. -/
def conventional (d : Decimal) : List Char :=
  let digits := digitsOf d.digits
  let point := d.exponent + digits.length
  if digits.length ≤ point ∧ point ≤ 21 then
    digits ++ List.replicate (point - digits.length).toNat '0'
  else if 0 < point ∧ point ≤ 21 then
    digits.take point.toNat ++ '.' :: digits.drop point.toNat
  else if -6 < point ∧ point ≤ 0 then
    '0' :: '.' :: List.replicate (-point).toNat '0' ++ digits
  else
    digits.take 1 ++ (if digits.length = 1 then [] else '.' :: digits.drop 1) ++
      'e' :: (if point - 1 < 0 then '-' else '+') :: digitsOf (point - 1).natAbs

variable {d : Decimal}

theorem positional_eq_conventional (hlow : -6 ≤ d.leading) (hhigh : d.leading < 21) :
    Value.numberLayout.positional d = d.conventional := by
  obtain ⟨digits, exponent⟩ := d
  have hlength : 0 < (digitsOf digits).length := length_pos digits
  unfold leading length at hlow hhigh
  unfold Layout.positional conventional
  dsimp only at hlow hhigh ⊢
  generalize digitsOf digits = text at *
  cases exponent with
  | ofNat up =>
      have hwhole : (text.length : ℤ) ≤ .ofNat up + text.length := by
        rw [Int.ofNat_eq_natCast]
        omega
      rw [if_pos ⟨hwhole, by omega⟩, add_sub_cancel_right]
      exact List.append_nil _
  | negSucc down =>
      have hpoint : Int.negSucc down + text.length = text.length - (down + 1 : ℕ) := by
        rw [Int.negSucc_eq]
        push_cast
        ring
      rw [hpoint] at hlow hhigh
      have hpart : ¬ ((text.length : ℤ) ≤ text.length - (down + 1 : ℕ) ∧
          (text.length : ℤ) - (down + 1 : ℕ) ≤ 21) := by omega
      dsimp only
      rw [hpoint, if_neg hpart]
      by_cases hinside : down + 1 < text.length
      · have htaken : ((text.length : ℤ) - (down + 1 : ℕ)).toNat = text.length - (down + 1) := by
          omega
        rw [if_pos hinside, if_pos (by omega), htaken]
      · have hzeros : (-((text.length : ℤ) - (down + 1 : ℕ))).toNat = down + 1 - text.length := by
          omega
        rw [if_neg hinside, if_neg (by omega), if_pos (by omega), hzeros]
        rfl

theorem scientific_eq_conventional (h : ¬ (-6 ≤ d.leading ∧ d.leading < 21)) :
    Value.numberLayout.scientific d = d.conventional := by
  obtain ⟨digits, exponent⟩ := d
  have hlength : 0 < (digitsOf digits).length := length_pos digits
  unfold leading length at h
  unfold Layout.scientific conventional leading length
  dsimp only at h ⊢
  generalize digitsOf digits = text at *
  have hfraction : text.drop 1 = [] ↔ text.length = 1 := by
    rw [List.drop_eq_nil_iff]
    omega
  have hpower : Layout.zeros (1 - (digitsOf (exponent + text.length - 1).natAbs).length) = [] := by
    have hsome : 0 < (digitsOf (exponent + text.length - 1).natAbs).length := length_pos _
    rw [Nat.sub_eq_zero_of_le hsome]
    rfl
  have hwhole : ¬ ((text.length : ℤ) ≤ exponent + text.length ∧ exponent + text.length ≤ 21) := by
    omega
  have hinside : ¬ (0 < exponent + text.length ∧ exponent + text.length ≤ 21) := by omega
  have hbefore : ¬ (-6 < exponent + text.length ∧ exponent + text.length ≤ 0) := by omega
  rw [if_neg hwhole, if_neg hinside, if_neg hbefore]
  show _ ++ _ ++ 'e' :: _ :: Layout.zeros (1 - _) ++ _ = _
  rw [hpower, List.append_assoc]
  by_cases hone : text.length = 1
  · rw [if_pos hone, hfraction.2 hone]
    rfl
  · obtain ⟨c, rest, hrest⟩ := List.exists_cons_of_ne_nil (mt hfraction.1 hone)
    rw [if_neg hone, hrest]
    rfl

/-- The digits are placed by the conventional rules. -/
theorem place_eq_conventional (d : Decimal) : Value.numberLayout.place d = d.conventional := by
  unfold Layout.place
  split
  · next h => exact positional_eq_conventional h.1 h.2
  · next h => exact scientific_eq_conventional h

/-! ## Whole numbers -/

/-- A decimal without trailing zeros that is whole has no places behind the point. -/
theorem exists_up_of_whole {n : ℕ} (hmod : d.digits % 10 ≠ 0) (h : d.value = n) :
    ∃ up : ℕ, d.exponent = up ∧ n = d.digits * 10 ^ up := by
  obtain ⟨digits, exponent⟩ := d
  cases exponent with
  | ofNat up =>
      refine ⟨up, rfl, ?_⟩
      unfold value at h
      rw [Int.ofNat_eq_natCast, zpow_natCast] at h
      exact_mod_cast h.symm
  | negSucc down =>
      have hdigits : digits = n * 10 ^ (down + 1) := by
        unfold value at h
        rw [zpow_negSucc, ← div_eq_mul_inv, div_eq_iff (by positivity)] at h
        exact_mod_cast h
      rw [Nat.pow_succ, ← Nat.mul_assoc] at hdigits
      exact absurd (hdigits ▸ Nat.mul_mod_left ..) hmod

theorem conventional_whole {n : ℕ} (h : n < 10 ^ 21) : conventional ⟨n, 0⟩ = digitsOf n := by
  have hlength : length n ≤ 21 := (length_le_iff (by decide)).2 h
  unfold length at hlength
  unfold conventional
  dsimp only
  rw [zero_add, if_pos (by omega), sub_self]
  exact List.append_nil _

/-- The exact digits of a whole number are the shortest ones filled up with zeros, where
the shortest decimal is exact. -/
theorem conventional_of_whole {n : ℕ} (hpos : 0 < d.digits) (hmod : d.digits % 10 ≠ 0)
    (h : d.value = n) (hlimit : n < 10 ^ 21) : d.conventional = digitsOf n := by
  obtain ⟨up, hexponent, hn⟩ := exists_up_of_whole hmod h
  have hlength : length n ≤ 21 := (length_le_iff (by decide)).2 hlimit
  rw [hn, length, digitsOf_mul_pow hpos, List.length_append, List.length_replicate] at hlength
  unfold conventional
  dsimp only
  rw [hexponent, if_pos (by omega), add_sub_cancel_right, hn, digitsOf_mul_pow hpos]
  rfl

/-- A text of digits alone shows a whole number. -/
theorem value_of_conventional {n : ℕ} (hpos : 0 < d.digits) (h : d.conventional = digitsOf n) :
    d.value = n := by
  have hdigit (c : Char) (hc : c ∈ d.conventional) : c.isDigit = true := by
    rw [h] at hc
    exact isDigit_of_mem_digitsOf hc
  unfold conventional at h hdigit
  dsimp only at h hdigit
  split at h
  · next hwhole =>
      obtain ⟨up, hup⟩ := Int.eq_ofNat_of_zero_le (show 0 ≤ d.exponent by omega)
      rw [hup, add_sub_cancel_right, Int.toNat_natCast, ← digitsOf_mul_pow hpos] at h
      rw [value, hup, zpow_natCast, ← digitsOf_inj h]
      push_cast
      rfl
  · next hwhole =>
      rw [if_neg hwhole] at hdigit
      split at hdigit
      · exact absurd (hdigit '.' (by simp)) (by decide)
      · split at hdigit
        · exact absurd (hdigit '.' (by simp)) (by decide)
        · exact absurd (hdigit 'e' (by simp)) (by decide)

/-- Below `2 ^ 53` whole numbers are floats of their own. -/
theorem whole_unique {field n other : ℕ} (hticks : fieldTicks field = n * unit) (hn : n < 2 ^ 53)
    (h : RoundsTo ((other : ℚ) * unit) field) : other = n := by
  rcases Nat.lt_trichotomy other n with hless | heq | hmore
  · obtain ⟨low, hlow, hlowTicks⟩ := exists_field_of_whole (show other ≤ 2 ^ 53 by omega)
    have hself := roundsTo_fieldTicks hlow.le
    rw [hlowTicks, Nat.cast_mul] at hself
    rw [h.unique hself, hlowTicks] at hticks
    exact Nat.eq_of_mul_eq_mul_right unit_pos hticks
  · exact heq
  · obtain ⟨high, hhigh, hhighTicks⟩ := exists_field_of_whole (show n + 1 ≤ 2 ^ 53 by omega)
    have hself := roundsTo_fieldTicks hhigh.le
    rw [hhighTicks, Nat.cast_mul] at hself
    have hle : ((n + 1 : ℕ) : ℚ) * unit ≤ other * unit :=
      mul_le_mul_of_nonneg_right (Nat.cast_le.2 hmore) cast_unit_pos.le
    have hfield := fieldTicks_strictMono.monotone (hself.mono h hle)
    rw [hhighTicks, hticks] at hfield
    exact absurd (Nat.le_of_mul_le_mul_right hfield unit_pos) (by omega)

/-- A decimal with fewer digits than the whole number that it rounds to has no places
behind the point: it would be below the number's leading power of ten. -/
theorem exponent_nonneg_of_shorter {field n : ℕ} (hpositive : 0 < d.digits)
    (hrounds : RoundsTo d.ticks field) (hticks : fieldTicks field = n * unit) (hpos : 0 < n)
    (hn : n < 2 ^ 53) (hshorter : length d.digits < length n) : 0 ≤ d.exponent := by
  by_contra hplaces
  have hsome := length_pos d.digits
  have hpower : 10 ^ (length d.digits - 1) < n := by
    have hgrow : 10 ^ (length d.digits - 1) < 10 ^ (length n - 1) :=
      Nat.pow_lt_pow_right (by decide) (by omega)
    exact hgrow.trans_le (pow_length_le hpos)
  obtain ⟨low, hlow, hlowTicks⟩ :=
    exists_field_of_whole (show 10 ^ (length d.digits - 1) ≤ 2 ^ 53 by omega)
  have hself := roundsTo_fieldTicks hlow.le
  have hbelow : d.ticks ≤ fieldTicks low := by
    have hvalue : (10 : ℚ) ^ (d.leading + 1) ≤ 10 ^ ((length d.digits - 1 : ℕ) : ℤ) := by
      apply zpow_le_zpow_right₀ (by norm_num)
      unfold leading
      omega
    rw [zpow_natCast] at hvalue
    rw [hlowTicks, Nat.cast_mul, Nat.cast_pow]
    exact mul_le_mul_of_nonneg_right ((value_bounds hpositive).2.le.trans hvalue) cast_unit_pos.le
  have hfield := fieldTicks_strictMono.monotone (hrounds.mono hself hbelow)
  rw [hlowTicks, hticks] at hfield
  exact absurd (Nat.le_of_mul_le_mul_right hfield unit_pos) (by omega)

/-- Below `2 ^ 53` the shortest decimal of a whole number is exact. -/
theorem IsShortest.value_eq_of_small {field n : ℕ} (h : IsShortest field d)
    (hticks : fieldTicks field = n * unit) (hpos : 0 < n) (hn : n < 2 ^ 53) : d.value = n := by
  have hrounds := h.rounds
  let exact := trim n 0
  obtain ⟨count, hcount, -⟩ := exists_trim n 0
  have hvalue : exact.value = n := by
    rw [value_trim]
    simp [value]
  have hexact : exact.ticks = fieldTicks field := by
    rw [ticks, hvalue, hticks, Nat.cast_mul]
  have hself : RoundsTo exact.ticks field := by
    rw [hexact]
    exact roundsTo_fieldTicks hrounds.1
  have hdigits : 0 < exact.digits := by
    rw [hcount] at hpos
    exact Nat.pos_of_mul_pos_right hpos
  rcases (h.fewest exact hdigits hself).lt_or_eq with hshorter | hsame
  · have hlonger : length exact.digits ≤ length n := by
      have hle : exact.digits ≤ n := by
        conv_rhs => rw [hcount]
        exact Nat.le_mul_of_pos_right _ (Nat.pow_pos (by decide))
      exact (length_le_iff (length_pos n)).2 (hle.trans_lt (lt_pow_length n))
    have hwhole := exponent_nonneg_of_shorter h.positive hrounds hticks hpos hn (by omega)
    obtain ⟨up, hup⟩ := Int.eq_ofNat_of_zero_le hwhole
    have hinteger : d.value = (d.digits * 10 ^ up : ℕ) := by
      unfold value
      rw [hup, zpow_natCast]
      push_cast
      rfl
    rw [ticks, hinteger] at hrounds
    rw [hinteger, whole_unique hticks hn hrounds]
  · have hnearest := h.nearest exact hdigits hself hsame.symm
    rw [hexact, sub_self, abs_zero, abs_nonpos_iff, sub_eq_zero, ← hexact, ticks_inj] at hnearest
    rw [hnearest, hvalue]

end Decimal

/-! ## The text of a float -/

open Decimal

def signText (negative : Bool) : String :=
  if negative then "-" else ""

/-- The texts that the conventional rules allow for a float: where several shortest
decimals are equally near, each of them. -/
inductive Conventional (x : Float) : String → Prop
  | nan : ofFloat x = .nan → Conventional x "NaN"
  | infinity {negative} : ofFloat x = .infinite negative →
      Conventional x (signText negative ++ "Infinity")
  | zero {negative} : ofFloat x = .finite negative 0 → Conventional x "0"
  | number {negative field d} : ofFloat x = .finite negative (fieldTicks field) →
      IsShortest field d →
      Conventional x (signText negative ++ String.ofList d.conventional)

/-- A whole number of at least `2 ^ 53` and below `10 ^ 21` that is no shortest decimal
of its float. -/
structure Overlong (x : Float) (negative : Bool) (n : ℕ) : Prop where
  whole : ofFloat x = .finite negative (n * unit)
  large : 2 ^ 53 ≤ n
  limit : n < 10 ^ 21
  longer : ∀ field d, fieldTicks field = n * unit → IsShortest field d → d.value ≠ n

namespace Value

theorem whole?_mul (n : ℕ) : Layout.whole? (n * unit) = some n := by
  rw [Layout.whole?, if_pos (Nat.mul_mod_left ..), Nat.mul_div_cancel _ unit_pos]

theorem eq_of_whole? {ticks n : ℕ} (h : Layout.whole? ticks = some n) : ticks = n * unit := by
  unfold Layout.whole? at h
  split at h
  · next hzero =>
      rw [← Option.some.inj h, Nat.div_mul_cancel (Nat.dvd_of_mod_eq_zero hzero)]
  · cases h

theorem length_le_plainBelow {n : ℕ} :
    (length n : ℤ) ≤ numberLayout.plainBelow ↔ n < 10 ^ 21 := by
  rw [← length_le_iff (by decide)]
  exact Int.ofNat_le

theorem select_whole {ticks n : ℕ} (hwhole : Layout.whole? ticks = some n) (h : n < 10 ^ 21) :
    numberLayout.select ticks = ⟨n, 0⟩ := by
  have hexact : numberLayout.exactWhole = true := rfl
  unfold Layout.select
  rw [hwhole]
  exact if_pos ⟨hexact, length_le_plainBelow.2 h⟩

theorem select_shortest {ticks : ℕ} (h : ∀ n, ticks = n * unit → 10 ^ 21 ≤ n) :
    numberLayout.select ticks = shortest ticks := by
  unfold Layout.select
  split
  · next n hwhole =>
      have hlimit := h n (eq_of_whole? hwhole)
      exact if_neg fun hboth => (length_le_plainBelow.1 hboth.2).not_ge hlimit
  · rfl

/-- The digits shown are those of a whole number below `10 ^ 21`, and otherwise the
shortest ones. -/
theorem select_cases (field : ℕ) :
    (∃ n, fieldTicks field = n * unit ∧ n < 10 ^ 21 ∧
      numberLayout.select (fieldTicks field) = ⟨n, 0⟩) ∨
    0 < field ∧ numberLayout.select (fieldTicks field) = shortest (fieldTicks field) := by
  by_cases hplain : ∃ n, fieldTicks field = n * unit ∧ n < 10 ^ 21
  · obtain ⟨n, hticks, hlimit⟩ := hplain
    have hwhole := whole?_mul n
    rw [← hticks] at hwhole
    exact .inl ⟨n, hticks, hlimit, select_whole hwhole hlimit⟩
  · right
    constructor
    · by_contra hzero
      obtain rfl : field = 0 := by omega
      exact hplain ⟨0, by rw [fieldTicks_zero, Nat.zero_mul], by decide⟩
    · apply select_shortest
      intro n hn
      by_contra hlimit
      exact hplain ⟨n, hn, by omega⟩

/-- Zero is written without a sign. -/
theorem write_finite {x : Float} {negative : Bool} {ticks : ℕ}
    (h : ofFloat x = .finite negative ticks) :
    numberLayout.write x = signText (negative && decide (0 < ticks)) ++
      String.ofList (numberLayout.select ticks).conventional := by
  have hzero : numberLayout.signedZero = false := rfl
  unfold Layout.write
  rw [h, ← place_eq_conventional]
  simp [signText, hzero, Nat.pos_iff_ne_zero]

theorem write_positive {x : Float} {negative : Bool} {ticks : ℕ}
    (h : ofFloat x = .finite negative ticks) (hpos : 0 < ticks) :
    numberLayout.write x =
      signText negative ++ String.ofList (numberLayout.select ticks).conventional := by
  rw [write_finite h, decide_eq_true hpos, Bool.and_true]

theorem write_zero {x : Float} {negative : Bool} (h : ofFloat x = .finite negative 0) :
    numberLayout.write x = "0" := by
  have hwhole := whole?_mul 0
  rw [Nat.zero_mul] at hwhole
  have hdigits : String.ofList (digitsOf 0) = "0" := by
    rw [digitsOf_of_lt (by decide)]
    rfl
  rw [write_finite h, select_whole hwhole (by decide), conventional_whole (by decide), hdigits]
  simp [signText]

theorem write_overlong {x : Float} {negative : Bool} {n : ℕ} (h : Overlong x negative n) :
    numberLayout.write x = signText negative ++ String.ofList (digitsOf n) := by
  have hlarge := h.large
  have hpos : 0 < n * unit := Nat.mul_pos (by omega) unit_pos
  rw [write_positive h.whole hpos, select_whole (whole?_mul n) h.limit, conventional_whole h.limit]

/-- All digits of an overlong whole number are more than its conventional text has. -/
theorem not_conventional_of_overlong {x : Float} {negative : Bool} {n : ℕ}
    (h : Overlong x negative n) : ¬ Conventional x (numberLayout.write x) := by
  intro hconventional
  have hwrite := write_overlong h
  generalize numberLayout.write x = text at hconventional hwrite
  cases hconventional with
  | nan hx => cases h.whole.symm.trans hx
  | infinity hx => cases h.whole.symm.trans hx
  | zero hx =>
      have hticks := (Binary64.finite.inj (h.whole.symm.trans hx)).2
      have hlarge := h.large
      exact absurd hticks (Nat.mul_pos (by omega) unit_pos).ne'
  | @number sign field d hx hshortest =>
      obtain ⟨rfl, hticks⟩ := Binary64.finite.inj (h.whole.symm.trans hx)
      have hdigits : d.conventional = digitsOf n := by
        have htext := congrArg String.toList hwrite
        simpa using htext
      have hvalue := value_of_conventional hshortest.positive hdigits
      exact h.longer field d hticks.symm hshortest hvalue

/-- A whole number has its conventional text where the shortest digits are exact. -/
theorem conventional_or_overlong_whole {x : Float} {negative : Bool} {field n : ℕ}
    (hx : ofFloat x = .finite negative (fieldTicks field)) (hpos : 0 < field)
    (hfinite : field < infinityField) (hticks : fieldTicks field = n * unit)
    (hlimit : n < 10 ^ 21) :
    Conventional x (signText negative ++ String.ofList (digitsOf n)) ∨ Overlong x negative n := by
  have hshortest := isShortest_shortest hpos hfinite
  have hn : 0 < n := by
    rcases Nat.eq_zero_or_pos n with rfl | hn
    · rw [Nat.zero_mul] at hticks
      exact absurd hticks (fieldTicks_pos hpos).ne'
    · exact hn
  by_cases hexact : ∃ d, IsShortest field d ∧ d.value = n
  · obtain ⟨d, hd, hvalue⟩ := hexact
    left
    rw [← conventional_of_whole hd.positive hd.mod_ne hvalue hlimit]
    exact .number hx hd
  · right
    refine ⟨hticks ▸ hx, ?_, hlimit, ?_⟩
    · by_contra hsmall
      exact hexact ⟨_, hshortest, hshortest.value_eq_of_small hticks hn (by omega)⟩
    · intro other d hother hd hvalue
      obtain rfl := fieldTicks_strictMono.injective (hother.trans hticks.symm)
      exact hexact ⟨d, hd, hvalue⟩

/-- A text is conventional, but for whole numbers with more digits than are needed. -/
theorem conventional_or_overlong (x : Float) :
    Conventional x (numberLayout.write x) ∨ ∃ negative n, Overlong x negative n := by
  cases hx : ofFloat x with
  | nan =>
      left
      have htext : numberLayout.write x = "NaN" := by
        unfold Layout.write
        rw [hx]
        rfl
      rw [htext]
      exact .nan hx
  | infinite negative =>
      left
      have htext : numberLayout.write x = signText negative ++ "Infinity" := by
        unfold Layout.write
        rw [hx]
        rfl
      rw [htext]
      exact .infinity hx
  | finite negative ticks =>
      obtain ⟨field, hfinite, rfl, -⟩ := exists_withSign hx
      rcases Nat.eq_zero_or_pos field with rfl | hpos
      · rw [fieldTicks_zero] at hx
        left
        rw [write_zero hx]
        exact .zero hx
      · rw [write_positive hx (fieldTicks_pos hpos)]
        rcases select_cases field with ⟨n, hticks, hlimit, hselect⟩ | ⟨-, hselect⟩
        · rw [hselect, conventional_whole hlimit]
          have hwhole := conventional_or_overlong_whole hx hpos hfinite hticks hlimit
          exact hwhole.imp_right fun hoverlong => ⟨negative, n, hoverlong⟩
        · left
          rw [hselect]
          exact .number hx (isShortest_shortest hpos hfinite)

/-- The text of a float is conventional exactly where it is no overlong whole number, and
an overlong one is written with all digits of its exact value. -/
theorem write_conventional_iff (x : Float) :
    (Conventional x (numberLayout.write x) ↔ ∀ negative n, ¬ Overlong x negative n) ∧
      ∀ negative n, Overlong x negative n →
        numberLayout.write x = signText negative ++ String.ofList (digitsOf n) := by
  refine ⟨⟨?_, ?_⟩, fun negative n h => write_overlong h⟩
  · intro hconventional negative n h
    exact not_conventional_of_overlong h hconventional
  · intro hnone
    rcases conventional_or_overlong x with hconventional | ⟨negative, n, h⟩
    · exact hconventional
    · exact absurd h (hnone negative n)

/-- The float of `2 ^ 60` is written with three more digits than it needs. -/
theorem overlong_two_pow_sixty : Overlong 1152921504606846976 false (2 ^ 60) := by
  refine ⟨?_, by decide, by decide, ?_⟩
  · decide +kernel
  · intro field d hticks hshortest hvalue
    obtain ⟨up, -, hdigits⟩ := exists_up_of_whole hshortest.mod_ne hvalue
    obtain rfl : up = 0 := by
      by_contra hup
      have hten : 10 ∣ d.digits * 10 ^ up := (dvd_pow_self 10 hup).mul_left _
      rw [← hdigits] at hten
      exact absurd hten (by decide)
    have hclose : RoundsTo (ticks ⟨1152921504606847, 3⟩) field := by
      apply roundsTo_of_close hshortest.rounds.1
      have hvalue : value ⟨1152921504606847, 3⟩ = 1152921504606847000 := by norm_num [value]
      rw [hticks, Nat.cast_mul, ticks, hvalue, ← sub_mul, abs_mul, abs_of_pos cast_unit_pos,
        ← mul_assoc]
      exact mul_lt_mul_of_pos_right (by norm_num) cast_unit_pos
    have hsixteen : length 1152921504606847 ≤ 16 := (length_le_iff (by decide)).2 (by decide)
    have hfewer := (hshortest.fewest _ (by decide) hclose).trans hsixteen
    have hbelow := (length_le_iff (by decide)).1 hfewer
    omega

theorem not_conventional_of_two_pow_sixty : ¬ ∀ x, Conventional x (numberLayout.write x) := by
  intro h
  exact not_conventional_of_overlong overlong_two_pow_sixty (h _)

end Value

end Nomi
