import Nomi.Token.Scanner

/-!
# How a source is cut

Which texts are lexemes and what may stand between them, stated without a
scanner.  A place depends on the text before it alone.

The longest match shows in conditions on the rest behind a piece: a numeral or a
word ends where it could not go on, and a slash is an operator only before
something else than a slash.
-/

namespace Nomi.Lexical

open Scanner (isBlank isNumeralPart isWordPart isWordStart)

/-- The place behind a text: its line feeds tell the line, and what follows the
last of them tells the column. -/
def placeBehind (before : List Char) : Position :=
  ⟨1 + before.count '\n', 1 + (before.reverse.takeWhile (· ≠ '\n')).length⟩

@[simp] theorem placeBehind_nil : placeBehind [] = .start := rfl

theorem placeBehind_append_singleton (before : List Char) (c : Char) :
    placeBehind (before ++ [c]) = (placeBehind before).after c := by
  by_cases h : c = '\n'
  · subst h
    have hcount : (before ++ ['\n']).count '\n' = before.count '\n' + 1 := by simp
    simp only [placeBehind, hcount, Position.after_lineFeed, Position.mk.injEq]
    constructor
    · omega
    · simp
  · have hcount : (before ++ [c]).count '\n' = before.count '\n' := by simp [h]
    simp only [placeBehind, hcount, Position.after_of_ne _ h, Position.mk.injEq, true_and]
    simp [h]
    omega

/-- Whether a text is empty or begins with a character that ends a run. -/
def Ends (part : Char → Bool) (rest : List Char) : Prop :=
  ∀ c ∈ rest.head?, part c = false

/-- Blanks and comments before the given rest.  A comment runs up to the next
line feed or the end of the source. -/
inductive Gap : List Char → List Char → Prop
  | nothing {rest : List Char} : Gap [] rest
  | blank {c : Char} {more rest : List Char} (hblank : isBlank c = true)
      (hmore : Gap more rest) : Gap (c :: more) rest
  | comment {body more rest : List Char} (hbody : ∀ c ∈ body, (c != '\n') = true)
      (hend : Ends (· != '\n') (more ++ rest)) (hmore : Gap more rest) :
      Gap ('/' :: '/' :: (body ++ more)) rest

/-- What stands inside a literal: the quote only behind a backslash, and a
backslash only before another character. -/
inductive Quoted (quote : Char) : List Char → Prop
  | nothing : Quoted quote []
  | plain {c : Char} {more : List Char} (hbackslash : c ≠ '\\') (hquote : c ≠ quote)
      (hmore : Quoted quote more) : Quoted quote (c :: more)
  | escaped {c : Char} {more : List Char} (hmore : Quoted quote more) :
      Quoted quote ('\\' :: c :: more)

def quotes : List Char :=
  ['"', '\'']

/-- The longest run of digits and points before the given rest. -/
structure Run (run rest : List Char) : Prop where
  head : run.head?.any Digit.isDigit = true
  parts : ∀ c ∈ run, isNumeralPart c = true
  longest : Ends isNumeralPart rest

/-- A lexeme, before the given rest, with its kind and the text of its token. -/
inductive Lexeme : List Char → List Char → Token.Kind → List Char → Prop
  | string {quote : Char} {body rest : List Char} (hquote : quote ∈ quotes)
      (hbody : Quoted quote body) :
      Lexeme (quote :: (body ++ [quote])) rest .string (Escape.decode body)
  | number {run rest : List Char} (hrun : Run run rest) (hpoints : run.count '.' ≤ 1)
      (hlast : run.getLast? ≠ some '.') : Lexeme run rest .number run
  | word {c : Char} {more rest : List Char} (hstart : isWordStart c = true)
      (hparts : ∀ d ∈ more, isWordPart d = true) (hlongest : Ends isWordPart rest) :
      Lexeme (c :: more) rest (.ofWord (String.ofList (c :: more))) (c :: more)
  | symbol {c : Char} {rest : List Char} {kind : Token.Kind}
      (hsymbol : Token.Kind.ofSymbol? c = some kind)
      (hslash : c = '/' → Ends (· == '/') rest) : Lexeme [c] rest kind [c]

/-- Why no lexeme begins a text. -/
inductive Refused : List Char → LexicalCause → Prop
  | malformedNumber {run rest : List Char} (hrun : Run run rest)
      (hpoints : 1 < run.count '.' ∨ run.getLast? = some '.') :
      Refused (run ++ rest) (.malformedNumber (String.ofList run))
  | unterminatedString {quote : Char} {rest : List Char} (hquote : quote ∈ quotes)
      (hopen : ∀ body more, rest = body ++ quote :: more → ¬ Quoted quote body) :
      Refused (quote :: rest) .unterminatedString
  | unrecognized {c : Char} {rest : List Char} (hblank : isBlank c = false)
      (hquote : c ∉ quotes) (hdigit : Digit.isDigit c = false) (hword : isWordStart c = false)
      (hsymbol : Token.Kind.ofSymbol? c = none) : Refused (c :: rest) (.unrecognized c)

/-- The tokens and the end mark of what stands behind the given text: gaps and
lexemes by turns, each token at the place behind all before it. -/
inductive Cut : List Char → List Char → List Token → Prop
  | done {before gap : List Char} (hgap : Gap gap []) :
      Cut before gap [.endMark (placeBehind (before ++ gap))]
  | token {before gap raw rest text : List Char} {kind : Token.Kind} {tokens : List Token}
      (hgap : Gap gap (raw ++ rest)) (hlexeme : Lexeme raw rest kind text)
      (hmore : Cut (before ++ gap ++ raw) rest tokens) :
      Cut before (gap ++ (raw ++ rest))
        (⟨kind, String.ofList text, placeBehind (before ++ gap)⟩ :: tokens)

/-- The error at the first place, in what stands behind the given text, where a
lexeme should begin and none does. -/
inductive Stuck : List Char → List Char → LexicalError → Prop
  | here {before gap rest : List Char} {cause : LexicalCause} (hgap : Gap gap rest)
      (hrefused : Refused rest cause) :
      Stuck before (gap ++ rest) ⟨cause, placeBehind (before ++ gap)⟩
  | later {before gap raw rest text : List Char} {kind : Token.Kind} {error : LexicalError}
      (hgap : Gap gap (raw ++ rest)) (hlexeme : Lexeme raw rest kind text)
      (hmore : Stuck (before ++ gap ++ raw) rest error) :
      Stuck before (gap ++ (raw ++ rest)) error

end Nomi.Lexical
