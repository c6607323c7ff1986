import Mathlib.Data.List.Induction
import Nomi.Proofs.Lexical.Tokens

/-!
# Sources joined by a line feed

A line feed ends whatever a source ends with.  So the tokens of two sources with a
line feed between them are those of the first and then those of the second, only
further down.
-/

namespace Nomi

def Position.down (lines : Nat) (position : Position) : Position :=
  ⟨position.line + lines, position.column⟩

theorem Position.down_after (lines : Nat) (position : Position) (c : Char) :
    (position.after c).down lines = (position.down lines).after c := by
  by_cases h : c = '\n'
  · subst h
    simp only [Position.down, Position.after_lineFeed, Position.mk.injEq, and_true]
    omega
  · simp only [Position.down, Position.after_of_ne _ h]

def Token.down (lines : Nat) (token : Token) : Token :=
  { token with position := token.position.down lines }

namespace Lexical

open Scanner (isBlank isNumeralPart isWordPart)

/-- How many lines a text takes up. -/
def height (text : List Char) : Nat :=
  1 + text.count '\n'

theorem placeBehind_join (first before : List Char) :
    placeBehind (first ++ '\n' :: before) = (placeBehind before).down (height first) := by
  induction before using List.reverseRecOn with
  | nil =>
      rw [placeBehind_append_singleton, Position.after_lineFeed]
      simp only [placeBehind, height, Position.down, List.count_nil, List.reverse_nil,
        List.takeWhile_nil, List.length_nil, Position.mk.injEq]
      omega
  | append_singleton before c ih =>
      rw [← List.cons_append, ← List.append_assoc, placeBehind_append_singleton, ih,
        placeBehind_append_singleton, Position.down_after]

/-- What follows a text and a line feed is cut as if it stood alone, further down. -/
theorem Cut.down {before text : List Char} {tokens : List Token} (first : List Char)
    (h : Cut before text tokens) :
    Cut (first ++ '\n' :: before) text (tokens.map (Token.down (height first))) := by
  induction h with
  | @done before gap hgap =>
      have hplace := placeBehind_join first (before ++ gap)
      rw [← List.cons_append, ← List.append_assoc] at hplace
      have hdone : Cut (first ++ '\n' :: before) gap
          [.endMark (placeBehind (first ++ '\n' :: before ++ gap))] := .done hgap
      rw [hplace] at hdone
      exact hdone
  | @token before gap raw rest text kind tokens hgap hlexeme _ ih =>
      have hplace := placeBehind_join first (before ++ gap)
      rw [← List.cons_append, ← List.append_assoc] at hplace
      have hmore : Cut ((first ++ '\n' :: before) ++ gap ++ raw) rest
          (tokens.map (Token.down (height first))) := by
        simpa only [List.append_assoc, List.cons_append] using ih
      have htoken := Cut.token hgap hlexeme hmore
      rw [hplace] at htoken
      exact htoken

variable {part : Char → Bool} {gap more rest after : List Char}

/-- What ends a run still ends it when a line feed and more follow. -/
theorem Ends.append_lineFeed (h : Ends part rest) (hpart : part '\n' = false)
    (after : List Char) : Ends part (rest ++ '\n' :: after) := by
  cases rest with
  | nil =>
      rintro c ⟨⟩
      exact hpart
  | cons c others => exact h

theorem Gap.append_lineFeed (h : Gap gap rest) (after : List Char) :
    Gap gap (rest ++ '\n' :: after) := by
  induction h with
  | nothing => exact .nothing
  | blank hblank _ ih => exact .blank hblank ih
  | comment hbody hend _ ih =>
      refine .comment hbody ?_ ih
      rw [← List.append_assoc]
      exact hend.append_lineFeed (by decide) after

theorem Lexeme.append_lineFeed {raw text : List Char} {kind : Token.Kind}
    (h : Lexeme raw rest kind text) (after : List Char) :
    Lexeme raw (rest ++ '\n' :: after) kind text := by
  cases h with
  | string hquote hbody => exact .string hquote hbody
  | number hrun hpoints hlast =>
      have hlongest := hrun.longest.append_lineFeed (by decide) after
      exact .number ⟨hrun.head, hrun.parts, hlongest⟩ hpoints hlast
  | word hstart hparts hlongest =>
      exact .word hstart hparts (hlongest.append_lineFeed (by decide) after)
  | symbol hsymbol hslash =>
      exact .symbol hsymbol fun h => (hslash h).append_lineFeed (by decide) after

/-- Two gaps in a row are one. -/
theorem Gap.append (h : Gap gap (more ++ rest)) (hmore : Gap more rest) :
    Gap (gap ++ more) rest := by
  generalize hwhole : more ++ rest = whole at h
  induction h with
  | nothing => exact hmore
  | blank hblank _ ih => exact .blank hblank (ih hwhole)
  | comment hbody hend _ ih =>
      subst hwhole
      rw [List.cons_append, List.cons_append, List.append_assoc]
      refine .comment hbody ?_ (ih rfl)
      rw [List.append_assoc]
      exact hend

/-- A gap in front of a text is passed over. -/
theorem Cut.gap_append {before text : List Char} {tokens : List Token} (hgap : Gap gap text)
    (h : Cut (before ++ gap) text tokens) : Cut before (gap ++ text) tokens := by
  cases h with
  | done hmore =>
      have hboth : Gap (gap ++ text) [] := Gap.append (by rwa [List.append_nil]) hmore
      rw [List.append_assoc]
      exact .done hboth
  | @token _ more raw rest _ _ _ hmore hlexeme hrest =>
      rw [List.append_assoc before] at hrest ⊢
      rw [← List.append_assoc gap]
      exact .token (hgap.append hmore) hlexeme hrest

theorem Cut.ne_nil {before text : List Char} {tokens : List Token} (h : Cut before text tokens) :
    tokens ≠ [] := by
  cases h <;> exact List.cons_ne_nil _ _

/-- The tokens before the end mark of a text stay when a line feed and more follow. -/
theorem Cut.append_lineFeed {before text after : List Char} {tokens others : List Token}
    (h : Cut before text tokens) (hafter : Cut (before ++ text ++ ['\n']) after others) :
    Cut before (text ++ '\n' :: after) (tokens.dropLast ++ others) := by
  induction h with
  | @done before gap hgap =>
      -- The last gap, the line feed and the first gap of what follows become one.
      have hfeed : Gap ['\n'] after := .blank (by decide) .nothing
      have hboth : Gap (gap ++ ['\n']) after := Gap.append (hgap.append_lineFeed after) hfeed
      rw [List.append_assoc] at hafter
      have hcut := Cut.gap_append hboth hafter
      rwa [List.append_assoc] at hcut
  | @token before gap raw rest text kind tokens hgap hlexeme hmore ih =>
      rw [List.dropLast_cons_of_ne_nil hmore.ne_nil, List.append_assoc, List.append_assoc]
      have hlater := ih (by simpa only [List.append_assoc] using hafter)
      have hbefore := hgap.append_lineFeed after
      rw [List.append_assoc] at hbefore
      exact .token hbefore (hlexeme.append_lineFeed after) hlater

/-- The tokens of two sources with a line feed between them. -/
theorem tokenize_join {first second : String} {tokens others : List Token} {stop : Token}
    (hfirst : tokenize first = .ok (tokens ++ [stop])) (hsecond : tokenize second = .ok others) :
    tokenize (first ++ "\n" ++ second) =
      .ok (tokens ++ others.map (Token.down (height first.toList))) := by
  apply tokenize_of_cut
  have hbelow := (cut_of_tokenize hsecond).down first.toList
  have hjoined := (cut_of_tokenize hfirst).append_lineFeed hbelow
  simpa using hjoined

/-- Every token stands on a line of the text it was cut from. -/
theorem Cut.line_bounds {before text : List Char} {tokens : List Token}
    (h : Cut before text tokens) :
    ∀ token ∈ tokens, 1 ≤ token.position.line ∧
      token.position.line ≤ height (before ++ text) := by
  have hplace : ∀ before after : List Char, 1 ≤ (placeBehind before).line ∧
      (placeBehind before).line ≤ height (before ++ after) := by
    intro before after
    simp only [placeBehind, height, List.count_append]
    omega
  induction h with
  | @done before gap hgap =>
      intro token hmem
      rw [List.mem_singleton.1 hmem]
      have hend := hplace (before ++ gap) []
      rwa [List.append_nil] at hend
  | @token before gap raw rest text kind tokens hgap hlexeme _ ih =>
      intro token hmem
      rcases List.mem_cons.1 hmem with rfl | hmem
      · simpa only [List.append_assoc] using hplace (before ++ gap) (raw ++ rest)
      · simpa only [List.append_assoc] using ih token hmem

end Lexical

end Nomi
