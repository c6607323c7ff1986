import Nomi.Text.Digit
import Nomi.Text.Escape
import Nomi.Token.Basic

/-!
# Cutting a source into tokens

A source is read one character at a time.  The scanner holds the place of the
next character, what it is in the middle of, and the tokens so far.  A lexeme
whose end shows only in the character after it is closed before that character
is looked at afresh, so every lexeme is as long as it can be.
-/

namespace Nomi

namespace Scanner

/-- Spaces, tabulators and line breaks separate tokens. -/
def isBlank (c : Char) : Bool :=
  c = ' ' || c = '\t' || c = '\r' || c = '\n'

def isWordStart (c : Char) : Bool :=
  c.isAlpha || c = '_'

def isWordPart (c : Char) : Bool :=
  c.isAlphanum || c = '_'

def isNumeralPart (c : Char) : Bool :=
  Digit.isDigit c || c = '.'

end Scanner

inductive LexicalCause where
  /-- A numeral with two points or with a point at its end. -/
  | malformedNumber (numeral : String)
  /-- A quote that no later quote closes. -/
  | unterminatedString
  | unrecognized (c : Char)
  deriving DecidableEq, Repr

/-- A cause and the place where the offending lexeme begins. -/
structure LexicalError where
  cause : LexicalCause
  position : Position
  deriving DecidableEq, Repr

def LexicalCause.message : LexicalCause → String
  | .malformedNumber numeral => "Malformed number '" ++ numeral ++ "'"
  | .unterminatedString => "Unterminated string literal"
  | .unrecognized c => "Unrecognized character '" ++ String.singleton c ++ "'"

/-- What the scanner is in the middle of.  Lexemes hold their place and their
characters so far, last character first. -/
inductive Mode where
  | between
  /-- After a slash, which the next character makes an operator or a comment. -/
  | slash (position : Position)
  | comment
  | word (position : Position) (text : List Char)
  | numeral (position : Position) (text : List Char)
  /-- Inside a literal; `escaped` tells whether a backslash is pending. -/
  | quoted (position : Position) (quote : Char) (text : List Char) (escaped : Bool)
  deriving DecidableEq, Repr

structure Scanner where
  /-- The place of the next character. -/
  position : Position
  mode : Mode
  /-- The tokens so far, last token first. -/
  tokens : List Token
  deriving DecidableEq, Repr

namespace Scanner

def start : Scanner :=
  ⟨.start, .between, []⟩

def emit (s : Scanner) (kind : Token.Kind) (text : List Char) (position : Position) : Scanner :=
  { s with mode := .between, tokens := ⟨kind, String.ofList text, position⟩ :: s.tokens }

/-- Whether a run of digits and points is a numeral. -/
def isNumeral (text : List Char) : Bool :=
  text.count '.' ≤ 1 && text.getLast? != some '.'

/-- Closes the lexeme in progress, which the next character does not continue
or after which the source ends. -/
def close (s : Scanner) : Except LexicalError Scanner :=
  match s.mode with
  | .between | .comment => .ok { s with mode := .between }
  | .slash position => .ok (s.emit .operator ['/'] position)
  | .word position text =>
      let word := text.reverse
      .ok (s.emit (.ofWord (String.ofList word)) word position)
  | .numeral position text =>
      let numeral := text.reverse
      if isNumeral numeral then .ok (s.emit .number numeral position)
      else .error ⟨.malformedNumber (String.ofList numeral), position⟩
  | .quoted position .. => .error ⟨.unterminatedString, position⟩

/-- Looks at a character between lexemes. -/
def begin (s : Scanner) (c : Char) : Except LexicalError Scanner :=
  if isBlank c then .ok s
  else if c = '/' then .ok { s with mode := .slash s.position }
  else if c = '"' ∨ c = '\'' then .ok { s with mode := .quoted s.position c [] false }
  else if Digit.isDigit c then .ok { s with mode := .numeral s.position [c] }
  else if isWordStart c then .ok { s with mode := .word s.position [c] }
  else
    match Token.Kind.ofSymbol? c with
    | some kind => .ok (s.emit kind [c] s.position)
    | none => .error ⟨.unrecognized c, s.position⟩

/-- The state after a character that goes on with the lexeme in progress, or
nothing if it does not. -/
def extend? (s : Scanner) (c : Char) : Option Scanner :=
  match s.mode with
  | .between => none
  | .slash _ => if c = '/' then some { s with mode := .comment } else none
  | .comment => if c = '\n' then none else some s
  | .word position text =>
      if isWordPart c then some { s with mode := .word position (c :: text) } else none
  | .numeral position text =>
      if isNumeralPart c then some { s with mode := .numeral position (c :: text) } else none
  | .quoted position quote text escaped =>
      if escaped then some { s with mode := .quoted position quote (c :: text) false }
      else if c = '\\' then some { s with mode := .quoted position quote (c :: text) true }
      else if c = quote then some (s.emit .string (Escape.decode text.reverse) position)
      else some { s with mode := .quoted position quote (c :: text) false }

def advance (s : Scanner) (c : Char) : Scanner :=
  { s with position := s.position.after c }

def feed (s : Scanner) (c : Char) : Except LexicalError Scanner :=
  match s.extend? c with
  | some next => .ok (next.advance c)
  | none => do
      let closed ← s.close
      let next ← closed.begin c
      return next.advance c

/-- All tokens of a source that ends here, with the end mark. -/
def finish (s : Scanner) : Except LexicalError (List Token) := do
  let closed ← s.close
  return (Token.endMark closed.position :: closed.tokens).reverse

end Scanner

def tokenize (source : String) : Except LexicalError (List Token) := do
  let last ← source.toList.foldlM Scanner.feed Scanner.start
  last.finish

end Nomi
