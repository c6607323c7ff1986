import Nomi.Diagnostic
import Nomi.Proofs.Syntax.Origins

/-!
# Which line a diagnostic shows

The scanner begins a new line at line feeds only.  A diagnostic takes its line from a
page, where lines also end at page feeds, separators and lone carriage returns.  Up to
the first of these the two agree, except that a page has no empty last line.  Behind
it the line that is shown may be another than the line that the error is on.
-/

namespace Nomi

namespace Lines

/-- The lines of a source as the scanner counts them.  They end at line feeds, and a
carriage return before the line feed is no part of the line; what is behind the last
line feed is a line, empty or not. -/
def ofSource : List Char → List (List Char)
  | [] => [[]]
  | '\n' :: rest => [] :: ofSource rest
  | '\r' :: '\n' :: rest => [] :: ofSource rest
  | c :: rest =>
      match ofSource rest with
      | [] => [[c]]
      | line :: lines => (c :: line) :: lines

variable {isBreak : Char → Bool} {c : Char} {text line : List Char} {n : Nat}

theorem length_ofSource (text : List Char) : (ofSource text).length = text.count '\n' + 1 := by
  fun_induction ofSource text with
  | case1 => rfl
  | case2 rest ih => simp [ih]
  | case3 rest ih => simp [ih]
  | case4 c rest hfeed hreturn hnone ih => simp [hnone] at ih
  | case5 c rest hfeed hreturn line lines hlines ih =>
      have hc : c ≠ '\n' := fun h => hfeed h
      rw [hlines] at ih
      simp [← ih, hc]

theorem ofPage_lineFeed (rest : List Char) : ofPage ('\n' :: rest) = [] :: ofPage rest := by
  simp [ofPage, unify, cut, isPageBreak]

theorem ofPage_returned (rest : List Char) :
    ofPage ('\r' :: '\n' :: rest) = [] :: ofPage rest := by
  simp [ofPage, unify, cut, isPageBreak]

/-- A character that is no break goes to the line that follows. -/
theorem ofPage_plain (h : isPageBreak c = false) (rest : List Char) :
    ofPage (c :: rest) = (c :: (ofPage rest).headD []) :: (ofPage rest).tail := by
  have hreturn : c ≠ '\r' := by
    rintro rfl
    contradiction
  have hunify : unify (c :: rest) = c :: unify rest := by simp [unify, hreturn]
  simp only [ofPage, hunify, cut, h]
  cases cut isPageBreak (unify rest) <;> rfl

/-- Up to the first break of a page that is none of a source, the lines are the same,
and where a page has no line the line of the source is empty. -/
theorem getD_ofPage (hline : (ofSource text)[n]? = some line)
    (hplain : ∀ earlier ∈ (ofSource text).take (n + 1), ∀ c ∈ earlier, isPageBreak c = false) :
    (ofPage text).getD n [] = line := by
  fun_induction ofSource text generalizing n line with
  | case1 =>
      obtain ⟨_, rfl⟩ := List.getElem?_eq_some_iff.1 hline
      simp [ofPage, unify, cut]
  | case2 rest ih =>
      rw [ofPage_lineFeed]
      cases n with
      | zero => exact Option.some.inj hline
      | succ n => exact ih hline fun earlier hmem => hplain earlier (List.mem_cons_of_mem _ hmem)
  | case3 rest ih =>
      rw [ofPage_returned]
      cases n with
      | zero => exact Option.some.inj hline
      | succ n => exact ih hline fun earlier hmem => hplain earlier (List.mem_cons_of_mem _ hmem)
  | case4 c rest hfeed hreturn hnone ih =>
      have hlength := length_ofSource rest
      simp [hnone] at hlength
  | case5 c rest hfeed hreturn first more hlines ih =>
      have hfirst : ∀ d ∈ c :: first, isPageBreak d = false := hplain _ List.mem_cons_self
      rw [ofPage_plain (hfirst c List.mem_cons_self)]
      rw [hlines] at ih
      cases n with
      | zero =>
          have hhead : (ofPage rest).getD 0 [] = first := by
            refine ih rfl fun earlier hmem d hd => ?_
            rw [List.mem_singleton.1 hmem] at hd
            exact hfirst d (List.mem_cons_of_mem c hd)
          rw [← Option.some.inj hline, ← hhead]
          cases ofPage rest <;> rfl
      | succ n =>
          have htail : (ofPage rest).getD (n + 1) [] = line := by
            refine ih hline fun earlier hmem => ?_
            rcases List.mem_cons.1 hmem with rfl | hmem
            · exact fun d hd => hfirst d (List.mem_cons_of_mem c hd)
            · exact hplain earlier (List.mem_cons_of_mem _ hmem)
          rw [← htail]
          cases ofPage rest <;> rfl

/-- A line of a source that is not empty is that line of a page too, if no line up to
it has a break of its own. -/
theorem getElem?_ofPage (hline : (ofSource text)[n]? = some line) (hsome : line ≠ [])
    (hplain : ∀ earlier ∈ (ofSource text).take (n + 1), ∀ c ∈ earlier, isPageBreak c = false) :
    (ofPage text)[n]? = some line := by
  have hpage := getD_ofPage hline hplain
  rw [List.getD_eq_getElem?_getD] at hpage
  cases hfound : (ofPage text)[n]? with
  | none =>
      rw [hfound] at hpage
      exact absurd hpage.symm hsome
  | some found =>
      rw [hfound] at hpage
      exact congrArg some hpage

end Lines

/-- An error of a source stands behind a piece of the source. -/
theorem exists_place_of_parse {source : String} {error : SourceError}
    (h : parse source = .error error) :
    ∃ before after kind message, source.toList = before ++ after ∧
      Diagnostic.ofSource error = .placed kind message (Lexical.placeBehind before) := by
  rcases refused_of_parse h with ⟨refusal, rfl, hcut⟩ | ⟨refusal, tokens, rfl, hcut, hprogram⟩
  · obtain ⟨before, c, after, hsource, hplace⟩ := (Lexical.stuck_of_tokenize hcut).exists_place
    exact ⟨before, c :: after, _, _, hsource, congrArg (Diagnostic.placed _ _) hplace⟩
  · obtain ⟨token, hmem, hposition⟩ := among_of_parseTokens hcut hprogram
    have hcuts := Lexical.cut_of_tokenize hcut
    obtain ⟨before, after, hsource, hplace⟩ := hcuts.exists_place token hmem
    rw [hposition] at hplace
    exact ⟨before, after, _, _, hsource, congrArg (Diagnostic.placed _ _) hplace⟩

/-- An error of a source is on one of the lines of the source. -/
theorem exists_line_of_parse {source : String} {error : SourceError}
    (h : parse source = .error error) :
    ∃ (line column : Nat) (text : List Char),
      (Diagnostic.ofSource error).line = some ((line : Int) + 1) ∧
      (Diagnostic.ofSource error).column = some ((column : Int) + 1) ∧
      (Lines.ofSource source.toList)[line]? = some text := by
  obtain ⟨before, after, kind, message, hsource, hplaced⟩ := exists_place_of_parse h
  have hbound : before.count '\n' < (Lines.ofSource source.toList).length := by
    rw [Lines.length_ofSource, hsource, List.count_append]
    omega
  rw [hplaced]
  refine ⟨before.count '\n', (before.reverse.takeWhile (· ≠ '\n')).length, _, ?_, ?_,
    List.getElem?_eq_getElem hbound⟩
  · exact congrArg some (Int.add_comm 1 _)
  · exact congrArg some (Int.add_comm 1 _)

theorem eq_of_place {n m : Nat} (h : some ((n : Int) + 1) = some ((m : Int) + 1)) : m = n := by
  have hplace := Option.some.inj h
  omega

/-- A diagnostic with a place shows the line of the page there. -/
theorem Diagnostic.underline_eq {diagnostic : Diagnostic} {source : String} {line column : Nat}
    {text : List Char} (hline : diagnostic.line = some ((line : Int) + 1))
    (hcolumn : diagnostic.column = some ((column : Int) + 1))
    (htext : (Lines.ofPage source.toList)[line]? = some text) (style : Style) :
    diagnostic.underline style source =
      "  " ++ String.ofList text ++ "\n  " ++ String.ofList (List.replicate column ' ') ++
        style.alarm "^" := by
  have hpositive : (0 : Int) < (line : Int) + 1 := by omega
  have hshown : diagnostic.sourceLine? source = some text := by
    simp [sourceLine?, hline, hpositive, htext]
  have hcaret : diagnostic.caretColumn = column := by simp [caretColumn, hcolumn]
  simp only [underline, hshown, hcaret]

/--
A diagnostic of a source that is refused shows the line that the error is on, with the
caret under its column, if that line is not empty and no line up to it holds a
character that only ends lines on a page.
-/
theorem underline_of_parse {source : String} {error : SourceError}
    (h : parse source = .error error) :
    ∃ (line column : Nat) (text : List Char),
      (Diagnostic.ofSource error).line = some ((line : Int) + 1) ∧
      (Diagnostic.ofSource error).column = some ((column : Int) + 1) ∧
      (Lines.ofSource source.toList)[line]? = some text ∧
      (text ≠ [] →
        (∀ earlier ∈ (Lines.ofSource source.toList).take (line + 1), ∀ c ∈ earlier,
          Lines.isPageBreak c = false) →
        ∀ style : Style, (Diagnostic.ofSource error).underline style source =
          "  " ++ String.ofList text ++ "\n  " ++ String.ofList (List.replicate column ' ') ++
            style.alarm "^") := by
  obtain ⟨line, column, text, hline, hcolumn, htext⟩ := exists_line_of_parse h
  refine ⟨line, column, text, hline, hcolumn, htext, ?_⟩
  intro hsome hplain style
  exact Diagnostic.underline_eq hline hcolumn (Lines.getElem?_ofPage htext hsome hplain) style

/-- An error on the second line, behind a comment and a carriage return. -/
theorem underline_of_parse_second :
    let source := "// a\r\n let @"
    let error := SourceError.lexical ⟨.unrecognized '@', ⟨2, 6⟩⟩
    parse source = .error error ∧
      (Diagnostic.ofSource error).underline .plain source = "   let @\n       ^" := by
  intro source error
  have hparse : parse source = .error error := parse_of_refused (by decide)
  refine ⟨hparse, ?_⟩
  obtain ⟨line, column, text, hline, hcolumn, htext, hshown⟩ := underline_of_parse hparse
  obtain rfl : line = 1 := eq_of_place hline
  obtain rfl : column = 5 := eq_of_place hcolumn
  obtain rfl : text = " let @".toList := by
    have hlines : (Lines.ofSource source.toList)[1]? = some " let @".toList := by decide
    exact Option.some.inj (htext.symm.trans hlines)
  have hplain : ∀ earlier ∈ (Lines.ofSource source.toList).take 2, ∀ c ∈ earlier,
      Lines.isPageBreak c = false := by simp [source, Lines.ofSource, Lines.isPageBreak]
  rw [hshown (by decide) hplain]
  decide

/-- Behind a page feed the line that is shown is another. -/
theorem not_underline_of_page_feed :
    ¬ ∀ source error, parse source = .error error →
      ∃ (line column : Nat) (text : List Char),
        (Diagnostic.ofSource error).line = some ((line : Int) + 1) ∧
        (Diagnostic.ofSource error).column = some ((column : Int) + 1) ∧
        (Lines.ofSource source.toList)[line]? = some text ∧
        (text ≠ [] → (Diagnostic.ofSource error).underline .plain source =
          "  " ++ String.ofList text ++ "\n  " ++ String.ofList (List.replicate column ' ') ++
            Style.plain.alarm "^") := by
  intro h
  have hparse : parse "// a\x0cb\n@" = .error (.lexical ⟨.unrecognized '@', ⟨2, 1⟩⟩) :=
    parse_of_refused (by decide)
  obtain ⟨line, column, text, hline, hcolumn, htext, hshown⟩ := h _ _ hparse
  obtain rfl : line = 1 := eq_of_place hline
  obtain rfl : column = 0 := eq_of_place hcolumn
  obtain rfl : text = "@".toList := by
    have hlines : (Lines.ofSource "// a\x0cb\n@".toList)[1]? = some "@".toList := by decide
    exact Option.some.inj (htext.symm.trans hlines)
  have hpage : (Diagnostic.ofSource (.lexical ⟨.unrecognized '@', ⟨2, 1⟩⟩)).underline .plain
      "// a\x0cb\n@" = "  b\n  ^" := by decide
  rw [hpage] at hshown
  exact absurd (hshown (by decide)) (by decide)

end Nomi
