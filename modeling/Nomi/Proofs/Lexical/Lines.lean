import Nomi.Proofs.Lexical.Joining

/-!
# Sources line by line

A source that can be cut does not reach over its last line.  So what follows it on the
next line is cut, or refused, as if it stood alone, only further down.
-/

namespace Nomi

def LexicalError.down (lines : Nat) (error : LexicalError) : LexicalError :=
  { error with position := error.position.down lines }

namespace Lexical

variable {before gap text after : List Char} {tokens : List Token} {error : LexicalError}

/-- What follows a text and a line feed is refused as if it stood alone, further down. -/
theorem Stuck.down (first : List Char) (h : Stuck before text error) :
    Stuck (first ++ '\n' :: before) text (error.down (height first)) := by
  induction h with
  | @here before gap rest cause hgap hrefused =>
      have hplace := placeBehind_join first (before ++ gap)
      rw [← List.cons_append, ← List.append_assoc] at hplace
      have hhere : Stuck (first ++ '\n' :: before) (gap ++ rest)
          ⟨cause, placeBehind (first ++ '\n' :: before ++ gap)⟩ := .here hgap hrefused
      rw [hplace] at hhere
      exact hhere
  | @later before gap raw rest text kind error hgap hlexeme _ ih =>
      have hmore : Stuck ((first ++ '\n' :: before) ++ gap ++ raw) rest
          (error.down (height first)) := by
        simpa only [List.append_assoc, List.cons_append] using ih
      exact .later hgap hlexeme hmore

/-- A gap in front of a text that is refused is passed over. -/
theorem Stuck.gap_append (hgap : Gap gap text) (h : Stuck (before ++ gap) text error) :
    Stuck before (gap ++ text) error := by
  cases h with
  | @here _ more rest cause hmore hrefused =>
      rw [List.append_assoc before, ← List.append_assoc gap]
      exact .here (hgap.append hmore) hrefused
  | @later _ more raw rest _ _ _ hmore hlexeme hrest =>
      rw [List.append_assoc before] at hrest
      rw [← List.append_assoc gap]
      exact .later (hgap.append hmore) hlexeme hrest

/-- A text that can be cut is cut before what follows its line feed is refused. -/
theorem Cut.append_refused (h : Cut before text tokens)
    (hafter : Stuck (before ++ text ++ ['\n']) after error) :
    Stuck before (text ++ '\n' :: after) error := by
  induction h with
  | @done before gap hgap =>
      have hfeed : Gap ['\n'] after := .blank (by decide) .nothing
      have hboth : Gap (gap ++ ['\n']) after := Gap.append (hgap.append_lineFeed after) hfeed
      rw [List.append_assoc] at hafter
      have hstuck := Stuck.gap_append hboth hafter
      rwa [List.append_assoc] at hstuck
  | @token before gap raw rest text kind tokens hgap hlexeme _ ih =>
      rw [List.append_assoc, List.append_assoc]
      have hlater := ih (by simpa only [List.append_assoc] using hafter)
      have hbefore := hgap.append_lineFeed after
      rw [List.append_assoc] at hbefore
      exact .later hbefore (hlexeme.append_lineFeed after) hlater

theorem tokenize_join_error {first second : String}
    (hfirst : tokenize first = .ok tokens) (hsecond : tokenize second = .error error) :
    tokenize (first ++ "\n" ++ second) = .error (error.down (height first.toList)) := by
  apply tokenize_of_stuck
  have hbelow := (stuck_of_tokenize hsecond).down first.toList
  have hjoined := (cut_of_tokenize hfirst).append_refused hbelow
  simpa using hjoined

/--
Lexing goes line by line.

Behind a source that has tokens and a line feed, a second source gives what it gives
alone, so many lines further down as the first source is high and in the same columns:
its tokens, end mark included, after those of the first without their end mark, or its
error.
-/
theorem tokenize_lines {first : String} (second : String) (h : tokenize first = .ok tokens) :
    ∃ body stop, tokens = body ++ [stop] ∧ stop.kind = .endOfSource ∧
      tokenize (first ++ "\n" ++ second) =
        match tokenize second with
        | .ok others => .ok (body ++ others.map (Token.down (height first.toList)))
        | .error error => .error (error.down (height first.toList)) := by
  obtain ⟨body, stop, rfl, hstop, _⟩ := (cut_of_tokenize h).exists_body
  refine ⟨body, stop, rfl, hstop, ?_⟩
  cases hsecond : tokenize second with
  | ok others => exact tokenize_join h hsecond
  | error error => exact tokenize_join_error h hsecond

/-- A comment, a string over two lines and a number at the end, before a source that is
refused on its second line. -/
theorem tokenize_lines_refused :
    let first := "// a\n'b\nc' 1"
    let second := "\n @"
    tokenize first = .ok [⟨.string, "b\nc", ⟨2, 1⟩⟩, ⟨.number, "1", ⟨3, 4⟩⟩, .endMark ⟨3, 5⟩] ∧
      tokenize (first ++ "\n" ++ second) = .error ⟨.unrecognized '@', ⟨5, 2⟩⟩ := by
  intro first second
  have hfirst : tokenize first =
      .ok [⟨.string, "b\nc", ⟨2, 1⟩⟩, ⟨.number, "1", ⟨3, 4⟩⟩, .endMark ⟨3, 5⟩] := by decide
  have hsecond : tokenize second = .error ⟨.unrecognized '@', ⟨2, 2⟩⟩ := by decide
  have hdown : LexicalError.down (height first.toList) ⟨.unrecognized '@', ⟨2, 2⟩⟩ =
      ⟨.unrecognized '@', ⟨5, 2⟩⟩ := by decide
  obtain ⟨_, _, _, _, hjoined⟩ := tokenize_lines second hfirst
  rw [hsecond] at hjoined
  exact ⟨hfirst, hjoined.trans (congrArg Except.error hdown)⟩

end Lexical

end Nomi
