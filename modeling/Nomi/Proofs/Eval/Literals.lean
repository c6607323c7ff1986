import Nomi.Proofs.Eval.Joining
import Nomi.Proofs.Lexical.Spelling
import Nomi.Proofs.Number.ReadBack

/-!
# Numbers as programs

A numeral is a source of one token, and that source evaluates to the number that the
numeral is read as.  The text of a number without sign and exponent is such a source, so
what a program shows of a number gives the number again.
-/

namespace Nomi

open Lexical Grammar

section Sources

variable {source : String} {value : Float}

theorem tokenize_of_isPlain (h : Numeral.isPlain source.toList = true) :
    tokenize source = .ok [⟨.number, source, .start⟩, .endMark (placeBehind source.toList)] := by
  have hparted : Parted [] := by
    rintro c ⟨⟩
  have hlexeme : Lexeme source.toList [] .number source.toList := (Spelled.number h).lexeme hparted
  have hend : Cut ([] ++ [] ++ source.toList) [] [.endMark (placeBehind (source.toList ++ []))] :=
    .done .nothing
  have hcut := Cut.token .nothing hlexeme hend
  rw [List.append_nil, String.ofList_toList] at hcut
  exact tokenize_of_cut hcut

theorem parse_of_isPlain (h : Numeral.isPlain source.toList = true)
    (hread : Numeral.read? source.toList = some value) :
    parse source = .ok (.program .start [.number .start value]) := by
  let numeral : Token := ⟨.number, source, .start⟩
  have hprimary : Derives .greedy [numeral] (.primary (.number numeral.position value)) :=
    .number rfl hread
  have hstatement : Derives .greedy [numeral] (.statement (.number numeral.position value) false) :=
    .expressionStatement rfl (derives_expression_of_primary hprimary)
  have hderives : Derives .greedy [numeral] (.statements [.number numeral.position value]) :=
    .statement hstatement .noStatement fun _ => rfl
  have hbefore : ∀ token ∈ [numeral], token.kind ≠ .endOfSource := by
    intro token hmem
    rw [List.mem_singleton.1 hmem]
    simp [numeral]
  have hstop : (Token.endMark (placeBehind source.toList)).kind = .endOfSource := rfl
  exact parse_of_tokenize (tokenize_of_isPlain h) (parseTokens_of_derives hstop hbefore hderives)

/-- A numeral as a program has the value that it is read as, and does nothing else. -/
theorem run_of_isPlain (host : Host) (h : Numeral.isPlain source.toList = true)
    (hread : Numeral.read? source.toList = some value) (input : List String) :
    run host source input = (.ok (.number value), .initial input) := by
  unfold run
  rw [step_of_parse host (parse_of_isPlain h hread), Eval.runBody_singleton]
  rfl

end Sources

open Value Binary64 Numeral

/--
Shown numbers read back.

The text of a finite number denotes that number and no other, up to the sign of a zero,
so different numbers have different texts.  Where the text has neither sign nor exponent,
it is a program of one token, whose value is the number.
-/
theorem write_reads_back :
    (∀ x, isReal x = true → ∀ y,
      Denotes (numberLayout.write x).toList y ↔ y = withoutZeroSign x) ∧
    (∀ x y, isReal x = true → isReal y = true → x ≠ y → ¬ (isZero x = true ∧ isZero y = true) →
      numberLayout.write x ≠ numberLayout.write y) ∧
    ∀ x, x = 0 ∨ 1e-6 ≤ x ∧ x < 1e21 →
      (∃ place, tokenize (numberLayout.write x) =
        .ok [⟨.number, numberLayout.write x, .start⟩, .endMark place]) ∧
      ∀ host input, run host (numberLayout.write x) input =
        (.ok (.number x), .initial input) := by
  refine ⟨?_, ?_, ?_⟩
  · intro x hx y
    constructor
    · intro h
      exact denotes_unique h (denotes_write hx)
    · rintro rfl
      exact denotes_write hx
  · intro x y hx hy hne hzero hsame
    exact (eq_or_isZero_of_write hx hy hsame).elim hne hzero
  · intro x hx
    obtain ⟨hplain, hread⟩ := isPlain_write hx
    exact ⟨⟨_, tokenize_of_isPlain hplain⟩, fun host => run_of_isPlain host hplain hread⟩

/-- The least positive number, and the least one that is written without an exponent. -/
theorem write_reads_back_least :
    (isReal 5e-324 = true ∧ Denotes (numberLayout.write 5e-324).toList 5e-324) ∧
    (isReal 0 = true ∧ (5e-324 : Float) ≠ 0 ∧ ¬ (isZero 5e-324 = true ∧ isZero 0 = true) ∧
      numberLayout.write 5e-324 ≠ numberLayout.write 0) ∧
    ((1e-6 : Float) ≤ 1e-6 ∧ (1e-6 : Float) < 1e21 ∧
      run ⟨0, .cancels⟩ (numberLayout.write 1e-6) [] = (.ok (.number 1e-6), .initial [])) := by
  obtain ⟨hdenotes, hdiffer, hruns⟩ := write_reads_back
  have hleast : isReal 5e-324 = true := by decide +kernel
  have hreal : isReal 0 = true := by decide
  have hne : (5e-324 : Float) ≠ 0 := by decide +kernel
  have hzero : ¬ (isZero 5e-324 = true ∧ isZero 0 = true) := by decide +kernel
  have hsign : 5e-324 = withoutZeroSign 5e-324 := by decide +kernel
  have hlow : (1e-6 : Float) ≤ 1e-6 := by decide
  have hhigh : (1e-6 : Float) < 1e21 := by decide
  exact ⟨⟨hleast, (hdenotes _ hleast _).2 hsign⟩,
    ⟨hreal, hne, hzero, hdiffer _ _ hleast hreal hne hzero⟩,
    ⟨hlow, hhigh, (hruns _ (.inr ⟨hlow, hhigh⟩)).2 _ _⟩⟩

end Nomi
