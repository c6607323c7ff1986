import Nomi.Number.Decimal
import Nomi.Text.Blank
import Nomi.Text.Digit

/-!
# Reading numerals

A numeral is an optional sign, digits with an optional point among or around
them, and an optional exponent.  Digits of every script count, and an underscore
between two of them is passed over.  Its value is the nearest float.  Infinity
and the float that is not a number are written as words.  Blanks may surround
all of these.
-/

namespace Nomi.Numeral

def sign : List Char → Bool × List Char
  | '-' :: rest => (true, rest)
  | '+' :: rest => (false, rest)
  | rest => (false, rest)

def digits (text : List Char) : List Char × List Char :=
  (text.takeWhile Digit.isDigit, text.dropWhile Digit.isDigit)

/-- Takes a point and the digits after it off the front, if there is a
point. -/
def fraction : List Char → List Char × List Char
  | '.' :: rest => digits rest
  | rest => ([], rest)

/-- Reads an exponent that takes up the whole text; no text is the exponent
zero. -/
def exponent? : List Char → Option Int
  | [] => some 0
  | mark :: rest =>
      let (negative, rest) := sign rest
      let (power, rest) := digits rest
      if (mark = 'e' ∨ mark = 'E') ∧ !power.isEmpty ∧ rest.isEmpty then
        some (if negative then -(Digit.number power : Int) else Digit.number power)
      else
        none

/-- The decimal that a numeral without its sign denotes. -/
def magnitude? (text : List Char) : Option Decimal :=
  let (whole, rest) := digits text
  let (parts, rest) := fraction rest
  if whole.isEmpty ∧ parts.isEmpty then none
  else
    (exponent? rest).map fun power =>
      ⟨Digit.number (whole ++ parts), power - parts.length⟩

/-- The float that a word denotes.  Capitals count as small letters. -/
def word? (negative : Bool) (text : List Char) : Option Float :=
  let word := text.map Char.toLower
  if word = ['i', 'n', 'f'] ∨ word = ['i', 'n', 'f', 'i', 'n', 'i', 't', 'y'] then
    some (Binary64.withSign negative Binary64.infinityField)
  else if word = ['n', 'a', 'n'] then some Binary64.notANumber
  else none

/-- Drops the underscores of a text in which each one stands between two
digits.  The flag says whether a digit stands before the text. -/
def ungroup? : Bool → List Char → Option (List Char)
  | _, [] => some []
  | true, '_' :: c :: rest =>
      if Digit.isDigit c then (ungroup? true rest).map (c :: ·) else none
  | _, c :: rest =>
      if c = '_' then none else (ungroup? (Digit.isDigit c) rest).map (c :: ·)

/-- The float that a numeral or a word denotes. -/
def read? (text : List Char) : Option Float := do
  let text ← ungroup? false (Blank.trim text)
  let (negative, rest) := sign text
  match word? negative rest with
  | some value => some value
  | none => (magnitude? rest).map (·.toFloat negative)

theorem ungroup?_of_no_underscore {text : List Char} (afterDigit : Bool)
    (h : ∀ c ∈ text, c ≠ '_') : ungroup? afterDigit text = some text := by
  induction text generalizing afterDigit with
  | nil => simp [ungroup?]
  | cons c rest ih =>
      have hc : c ≠ '_' := h c List.mem_cons_self
      have hrest := ih (Digit.isDigit c) fun d hd => h d (List.mem_cons_of_mem c hd)
      unfold ungroup?
      split
      · contradiction
      · next heq => exact absurd (List.cons.inj heq).1 hc
      · next heq =>
          obtain ⟨rfl, rfl⟩ := List.cons.inj heq
          rw [if_neg hc, hrest, Option.map_some]

theorem value?_digitChar {n : Nat} (h : n < 10) :
    Digit.value? (Decimal.digitChar n) = some n := by
  match n, h with
  | 0, _ | 1, _ | 2, _ | 3, _ | 4, _ | 5, _ | 6, _ | 7, _ | 8, _ | 9, _ => rfl

/-- The digits of a number denote it. -/
@[simp] theorem number_digitsOf (n : Nat) : Digit.number (Decimal.digitsOf n) = n := by
  induction n using Nat.strongRecOn with
  | ind n ih =>
      by_cases h : n < 10
      · rw [Decimal.digitsOf_of_lt h]
        simpa [value?_digitChar h] using Digit.number_append_singleton [] (Decimal.digitChar n)
      · rw [Decimal.digitsOf_of_le (by omega), Digit.number_append_singleton,
          ih (n / 10) (by omega), value?_digitChar (Nat.mod_lt n (by omega))]
        simp only [Option.getD_some]
        omega

end Nomi.Numeral
