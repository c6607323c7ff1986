import Mathlib.Data.List.TakeWhile
import Nomi.Number.Numeral
import Nomi.Token.Scanner

/-!
# Numerals of sources

A source writes a numeral as digits with at most one point among them.  Every
such text denotes a number, whichever scripts its digits are of.
-/

namespace Nomi.Numeral

/-- Whether a text is a numeral as sources write them. -/
def isPlain (text : List Char) : Bool :=
  text.head?.any Digit.isDigit && text.all Scanner.isNumeralPart && Scanner.isNumeral text

theorem exists_zero_of_isDigit {c : Char} (h : Digit.isDigit c = true) :
    ∃ first ∈ Digit.zeros, first ≤ c.toNat ∧ c.toNat < first + 10 := by
  simp only [Digit.isDigit, Digit.value?, Option.isSome_map] at h
  obtain ⟨first, hfirst⟩ := Option.isSome_iff_exists.1 h
  have hrange := List.find?_some hfirst
  exact ⟨first, List.mem_of_find?_eq_some hfirst, by simpa using hrange⟩

/-- Among the first code points only ten are digits. -/
theorem toNat_of_isDigit {c : Char} (h : Digit.isDigit c = true) :
    0x30 ≤ c.toNat ∧ c.toNat < 0x3A ∨ 0x660 ≤ c.toNat := by
  obtain ⟨first, hmem, hrange⟩ := exists_zero_of_isDigit h
  have hzeros : ∀ first ∈ Digit.zeros, first = 0x30 ∨ 0x660 ≤ first := by decide
  have hfirst := hzeros first hmem
  omega

theorem not_isBlank_of_isDigit {c : Char} (h : Digit.isDigit c = true) :
    Blank.isBlank c = false := by
  obtain ⟨first, hmem, hrange⟩ := exists_zero_of_isDigit h
  have hapart : ∀ first ∈ Digit.zeros, ∀ range ∈ Blank.ranges,
      first + 10 ≤ range.1 ∨ range.2 < first := by decide
  simp only [Blank.isBlank, List.any_eq_false]
  intro range hblank
  have hrange' := hapart first hmem range hblank
  simp only [Bool.and_eq_true, decide_eq_true_eq]
  omega

theorem isNumeralPart_eq_true {c : Char} :
    Scanner.isNumeralPart c = true ↔ Digit.isDigit c = true ∨ c = '.' := by
  simp [Scanner.isNumeralPart]

theorem not_isBlank_of_isNumeralPart {c : Char} (h : Scanner.isNumeralPart c = true) :
    Blank.isBlank c = false := by
  rcases isNumeralPart_eq_true.1 h with hdigit | rfl
  · exact not_isBlank_of_isDigit hdigit
  · decide

theorem ne_underscore_of_isNumeralPart {c : Char} (h : Scanner.isNumeralPart c = true) :
    c ≠ '_' := by
  intro heq
  subst heq
  exact absurd h (by decide)

theorem sign_of_isDigit {c : Char} (rest : List Char) (h : Digit.isDigit c = true) :
    sign (c :: rest) = (false, c :: rest) := by
  unfold sign
  split
  · next heq => cases heq; exact absurd h (by decide)
  · next heq => cases heq; exact absurd h (by decide)
  · rfl

theorem toLower_of_isDigit {c : Char} (h : Digit.isDigit c = true) : c.toLower = c := by
  have hcode := toNat_of_isDigit h
  unfold Char.toLower
  split
  · next hupper =>
      have hrange : 65 ≤ c.toNat ∧ c.toNat ≤ 90 := by
        simpa [UInt32.le_iff_toNat_le] using hupper
      omega
  · rfl

theorem word?_of_isDigit {c : Char} (negative : Bool) (rest : List Char)
    (h : Digit.isDigit c = true) : word? negative (c :: rest) = none := by
  have hlower := toLower_of_isDigit h
  have hi : c ≠ 'i' := by
    intro heq
    subst heq
    exact absurd h (by decide)
  have hn : c ≠ 'n' := by
    intro heq
    subst heq
    exact absurd h (by decide)
  simp [word?, hlower, hi, hn]

/-- Behind the digits of a plain numeral stands nothing or a point and further
digits. -/
theorem fraction_of_isNumeral {text : List Char} (hparts : text.all Scanner.isNumeralPart = true)
    (hnumeral : Scanner.isNumeral text = true) :
    (fraction (text.dropWhile Digit.isDigit)).2 = [] := by
  have hcount : text.count '.' ≤ 1 := by
    simp only [Scanner.isNumeral, Bool.and_eq_true, decide_eq_true_eq] at hnumeral
    exact hnumeral.1
  have hsplit := List.takeWhile_append_dropWhile (p := Digit.isDigit) (l := text)
  cases hrest : text.dropWhile Digit.isDigit with
  | nil => rfl
  | cons c rest =>
      rw [hrest] at hsplit
      have hmem : ∀ d ∈ c :: rest, Scanner.isNumeralPart d = true := by
        intro d hd
        apply List.all_eq_true.1 hparts
        rw [← hsplit]
        exact List.mem_append_right _ hd
      have hhead : Digit.isDigit c = false := by
        have hdrop := List.head_dropWhile_not Digit.isDigit (l := text) (by simp [hrest])
        simpa [hrest] using hdrop
      have hpoint : c = '.' := by
        rcases isNumeralPart_eq_true.1 (hmem c List.mem_cons_self) with hdigit | hpoint
        · simp [hdigit] at hhead
        · exact hpoint
      subst hpoint
      have hnone : '.' ∉ rest := by
        intro hin
        have hpositive := List.count_pos_iff.2 hin
        rw [← hsplit, List.count_append, List.count_cons_self] at hcount
        omega
      have hdigits : ∀ d ∈ rest, Digit.isDigit d = true := by
        intro d hd
        rcases isNumeralPart_eq_true.1 (hmem d (List.mem_cons_of_mem _ hd)) with hdigit | rfl
        · exact hdigit
        · exact absurd hd hnone
      show rest.dropWhile Digit.isDigit = []
      exact List.dropWhile_eq_nil_iff.2 hdigits

theorem magnitude?_of_isPlain {c : Char} {rest : List Char} (hdigit : Digit.isDigit c = true)
    (hparts : (c :: rest).all Scanner.isNumeralPart = true)
    (hnumeral : Scanner.isNumeral (c :: rest) = true) :
    (magnitude? (c :: rest)).isSome = true := by
  have hbehind := fraction_of_isNumeral hparts hnumeral
  have hwhole : ((c :: rest).takeWhile Digit.isDigit).isEmpty = false := by
    simp [hdigit]
  simp only [magnitude?, digits, hwhole, Bool.false_eq_true, false_and, if_false, hbehind]
  rfl

/-- Every numeral of a source denotes a decimal without sign. -/
theorem read?_eq_toFloat {text : List Char} (h : isPlain text = true) :
    ∃ decimal : Decimal, read? text = some (decimal.toFloat false) := by
  simp only [isPlain, Bool.and_eq_true] at h
  obtain ⟨⟨hhead, hparts⟩, hnumeral⟩ := h
  cases text with
  | nil => simp at hhead
  | cons c rest =>
      have hdigit : Digit.isDigit c = true := by simpa using hhead
      have hmem := List.all_eq_true.1 hparts
      have htrim : Blank.trim (c :: rest) = c :: rest :=
        Blank.trim_of_no_blank fun d hd => not_isBlank_of_isNumeralPart (hmem d hd)
      have hungroup : ungroup? false (c :: rest) = some (c :: rest) :=
        ungroup?_of_no_underscore false fun d hd => ne_underscore_of_isNumeralPart (hmem d hd)
      obtain ⟨decimal, hdecimal⟩ :=
        Option.isSome_iff_exists.1 (magnitude?_of_isPlain hdigit hparts hnumeral)
      refine ⟨decimal, ?_⟩
      simp only [read?, htrim, hungroup, Option.bind_eq_bind, Option.bind_some,
        sign_of_isDigit rest hdigit, word?_of_isDigit false rest hdigit, hdecimal, Option.map_some]

theorem read?_of_isPlain {text : List Char} (h : isPlain text = true) :
    ∃ value, read? text = some value := by
  obtain ⟨decimal, hdecimal⟩ := read?_eq_toFloat h
  exact ⟨_, hdecimal⟩

end Nomi.Numeral
