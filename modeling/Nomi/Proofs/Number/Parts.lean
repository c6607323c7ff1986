import Nomi.Proofs.Lexical.Numerals
import Nomi.Proofs.Number.Digits

/-!
# Decimal numerals

A decimal numeral is an optional minus, digits, an optional point with digits behind it
and an optional exponent.  It denotes the float that its decimal rounds to.  Reading a
text finds that float, so a text denotes at most one.
-/

namespace Nomi

/-- The digits of one script are among those of all. -/
theorem Digit.isDigit_of_decimal {c : Char} (h : c.isDigit = true) : Digit.isDigit c = true := by
  have hrange : 48 ≤ c.toNat ∧ c.toNat < 48 + 10 := by
    simp only [Char.isDigit, Bool.and_eq_true, decide_eq_true_eq, UInt32.le_iff_toNat_le] at h
    exact ⟨h.1, Nat.lt_succ_of_le h.2⟩
  have hzero : 48 ∈ Digit.zeros := by decide
  rw [Digit.isDigit, Digit.value?, Option.isSome_map, List.find?_isSome]
  exact ⟨48, hzero, decide_eq_true hrange⟩

namespace Numeral

/-- The parts of a numeral.  An exponent bears a sign, which is `true` for minus. -/
structure Parts where
  negative : Bool
  whole : List Char
  fraction : List Char
  power : Option (Bool × List Char)
  whole_ne_nil : whole ≠ []
  whole_digits : ∀ c ∈ whole, c.isDigit = true
  fraction_digits : ∀ c ∈ fraction, c.isDigit = true
  power_digits : ∀ part ∈ power, part.2 ≠ [] ∧ ∀ c ∈ part.2, c.isDigit = true

def minusText (negative : Bool) : List Char :=
  if negative then ['-'] else []

def fractionText (fraction : List Char) : List Char :=
  if fraction = [] then [] else '.' :: fraction

def powerText : Option (Bool × List Char) → List Char
  | none => []
  | some (down, digits) => 'e' :: (if down then '-' else '+') :: digits

def powerValue : Option (Bool × List Char) → Int
  | none => 0
  | some (down, digits) => if down then -(Digit.number digits : Int) else Digit.number digits

namespace Parts

def text (p : Parts) : List Char :=
  minusText p.negative ++ (p.whole ++ (fractionText p.fraction ++ powerText p.power))

def decimal (p : Parts) : Decimal :=
  ⟨Digit.number (p.whole ++ p.fraction), powerValue p.power - p.fraction.length⟩

end Parts

/-- A text is a numeral whose decimal rounds to a float. -/
def Denotes (text : List Char) (x : Float) : Prop :=
  ∃ (p : Parts) (field : ℕ), p.text = text ∧ Binary64.RoundsTo p.decimal.ticks field ∧
    x = Binary64.withSign p.negative field

variable {p : Parts}

theorem Parts.exists_cons_whole (p : Parts) :
    ∃ c rest, p.whole = c :: rest ∧ Digit.isDigit c = true := by
  obtain ⟨c, rest, hwhole⟩ := List.exists_cons_of_ne_nil p.whole_ne_nil
  refine ⟨c, rest, hwhole, Digit.isDigit_of_decimal (p.whole_digits c ?_)⟩
  rw [hwhole]
  exact List.mem_cons_self

theorem mem_fractionText {c : Char} {fraction : List Char} (h : c ∈ fractionText fraction) :
    c = '.' ∨ c ∈ fraction := by
  unfold fractionText at h
  split at h
  · cases h
  · exact List.mem_cons.1 h

theorem Parts.mem_text {c : Char} (h : c ∈ p.text) :
    c.isDigit = true ∨ c ∈ ['-', '.', 'e', '+'] := by
  unfold text at h
  rcases List.mem_append.1 h with hsign | h
  · unfold minusText at hsign
    split at hsign <;> simp_all
  rcases List.mem_append.1 h with hwhole | h
  · exact .inl (p.whole_digits c hwhole)
  rcases List.mem_append.1 h with hfraction | hpower
  · rcases mem_fractionText hfraction with rfl | hdigit
    · exact .inr (by decide)
    · exact .inl (p.fraction_digits c hdigit)
  · cases hpart : p.power with
    | none =>
        rw [hpart] at hpower
        cases hpower
    | some part =>
        obtain ⟨down, digits⟩ := part
        rw [hpart, powerText, List.mem_cons, List.mem_cons] at hpower
        rcases hpower with rfl | rfl | hdigit
        · exact .inr (by decide)
        · cases down <;> exact .inr (by decide)
        · exact .inl ((p.power_digits _ hpart).2 c hdigit)

/-- Neither blanks nor underscores are among the characters of a numeral. -/
theorem Parts.plain_of_mem_text {c : Char} (h : c ∈ p.text) :
    Blank.isBlank c = false ∧ c ≠ '_' := by
  rcases mem_text h with hdigit | hmark
  · refine ⟨not_isBlank_of_isDigit (Digit.isDigit_of_decimal hdigit), ?_⟩
    rintro rfl
    exact absurd hdigit (by decide)
  · simp only [List.mem_cons, List.not_mem_nil, or_false] at hmark
    rcases hmark with rfl | rfl | rfl | rfl <;> decide

theorem digits_append {run rest : List Char} (hrun : ∀ c ∈ run, c.isDigit = true)
    (hrest : ∀ c ∈ rest.head?, Digit.isDigit c = false) : digits (run ++ rest) = (run, rest) := by
  have hdigits : ∀ c ∈ run, Digit.isDigit c = true :=
    fun c hmem => Digit.isDigit_of_decimal (hrun c hmem)
  rw [digits, List.takeWhile_append_of_pos hdigits, List.dropWhile_append_of_pos hdigits]
  cases rest with
  | nil => simp
  | cons c rest => simp [hrest c rfl]

theorem head_powerText (power : Option (Bool × List Char)) :
    ∀ c ∈ (powerText power).head?, c = 'e' := by
  cases power with
  | none => simp [powerText]
  | some part => simp [powerText]

theorem head_fraction_powerText (fraction : List Char) (power : Option (Bool × List Char)) :
    ∀ c ∈ (fractionText fraction ++ powerText power).head?, Digit.isDigit c = false := by
  intro c hmem
  unfold fractionText at hmem
  split at hmem
  · rw [head_powerText power c hmem]
    decide
  · cases hmem
    decide

theorem fraction_fractionText {fraction : List Char} (power : Option (Bool × List Char))
    (h : ∀ c ∈ fraction, c.isDigit = true) :
    Numeral.fraction (fractionText fraction ++ powerText power) = (fraction, powerText power) := by
  unfold fractionText
  split
  · next hnone =>
      subst hnone
      cases power <;> rfl
  · apply digits_append h
    intro c hmem
    rw [head_powerText power c hmem]
    decide

theorem sign_mark (down : Bool) (rest : List Char) :
    sign ((if down then '-' else '+') :: rest) = (down, rest) := by
  cases down <;> rfl

theorem exponent?_powerText {power : Option (Bool × List Char)}
    (h : ∀ part ∈ power, part.2 ≠ [] ∧ ∀ c ∈ part.2, c.isDigit = true) :
    exponent? (powerText power) = some (powerValue power) := by
  cases power with
  | none => rfl
  | some part =>
      obtain ⟨down, run⟩ := part
      obtain ⟨hne, hrun⟩ := h _ rfl
      have hdigits : digits (run ++ []) = (run, []) := digits_append hrun (by simp)
      rw [List.append_nil] at hdigits
      simp only [powerText, exponent?, sign_mark, hdigits, powerValue]
      simp [hne]

theorem magnitude?_text (p : Parts) :
    magnitude? (p.whole ++ (fractionText p.fraction ++ powerText p.power)) = some p.decimal := by
  have hwhole := digits_append p.whole_digits (head_fraction_powerText p.fraction p.power)
  simp only [magnitude?, hwhole, fraction_fractionText p.power p.fraction_digits,
    exponent?_powerText p.power_digits, Parts.decimal]
  simp [p.whole_ne_nil]

/-- Reading a numeral finds the float that its decimal rounds to. -/
theorem read?_text (p : Parts) : read? p.text = some (p.decimal.toFloat p.negative) := by
  have htrim : Blank.trim p.text = p.text :=
    Blank.trim_of_no_blank fun c hmem => (Parts.plain_of_mem_text hmem).1
  have hungroup : ungroup? false p.text = some p.text :=
    ungroup?_of_no_underscore false fun c hmem => (Parts.plain_of_mem_text hmem).2
  obtain ⟨c, rest, hwhole, hdigit⟩ := p.exists_cons_whole
  have hmagnitude := magnitude?_text p
  rw [hwhole, List.cons_append] at hmagnitude
  have hsign : sign p.text =
      (p.negative, c :: (rest ++ (fractionText p.fraction ++ powerText p.power))) := by
    rw [Parts.text, hwhole, List.cons_append]
    cases p.negative with
    | true => rfl
    | false => exact sign_of_isDigit _ hdigit
  simp only [read?, htrim, hungroup, Option.bind_eq_bind, Option.bind_some, hsign,
    word?_of_isDigit p.negative _ hdigit, hmagnitude, Option.map_some]

theorem read?_of_denotes {text : List Char} {x : Float} (h : Denotes text x) :
    read? text = some x := by
  obtain ⟨p, field, rfl, hrounds, rfl⟩ := h
  rw [read?_text, (Decimal.toFloat_eq_iff hrounds.1).2 hrounds]

theorem denotes_unique {text : List Char} {x y : Float} (hx : Denotes text x)
    (hy : Denotes text y) : x = y :=
  Option.some.inj ((read?_of_denotes hx).symm.trans (read?_of_denotes hy))

theorem count_point_of_digits {run : List Char} (h : ∀ c ∈ run, c.isDigit = true) :
    run.count '.' = 0 :=
  List.count_eq_zero.2 fun hmem => absurd (h '.' hmem) (by decide)

theorem getLast?_ne_of_digits {run : List Char} (h : ∀ c ∈ run, c.isDigit = true) :
    run.getLast? ≠ some '.' :=
  fun hlast => absurd (h '.' (List.mem_of_getLast? hlast)) (by decide)

/-- A numeral without sign and exponent is one that sources may hold. -/
theorem isPlain_text (hsign : p.negative = false) (hpower : p.power = none) :
    isPlain p.text = true := by
  obtain ⟨c, rest, hwhole, hdigit⟩ := p.exists_cons_whole
  have htext : p.text = p.whole ++ fractionText p.fraction := by
    simp [Parts.text, hsign, hpower, minusText, powerText]
  have hhead : p.text.head?.any Digit.isDigit = true := by
    simp [htext, hwhole, hdigit]
  have hparts : p.text.all Scanner.isNumeralPart = true := by
    rw [List.all_eq_true, htext]
    intro d hmem
    apply isNumeralPart_eq_true.2
    rcases List.mem_append.1 hmem with hmem | hmem
    · exact .inl (Digit.isDigit_of_decimal (p.whole_digits d hmem))
    · rcases mem_fractionText hmem with rfl | hmem
      · exact .inr rfl
      · exact .inl (Digit.isDigit_of_decimal (p.fraction_digits d hmem))
  have hcount : p.text.count '.' ≤ 1 := by
    rw [htext, List.count_append, count_point_of_digits p.whole_digits, fractionText]
    split
    · simp
    · simp [count_point_of_digits p.fraction_digits]
  have hlast : p.text.getLast? ≠ some '.' := by
    rw [htext, fractionText]
    split
    · rw [List.append_nil]
      exact getLast?_ne_of_digits p.whole_digits
    · next hsome =>
        obtain ⟨d, more, hfraction⟩ := List.exists_cons_of_ne_nil hsome
        rw [hfraction, List.getLast?_append_cons, List.getLast?_cons_cons, ← hfraction]
        exact getLast?_ne_of_digits p.fraction_digits
  simp [isPlain, hhead, hparts, Scanner.isNumeral, hcount, hlast]

end Numeral

end Nomi
