import Nomi.Text.Position

/-!
# Tokens

A token is a kind, the text it carries and the place of its first character.
The text of a string token is what the literal means; every other token carries
its text as written.
-/

namespace Nomi

namespace Token

inductive Kind where
  | number
  | string
  | identifier
  | letWord
  | constWord
  | fnWord
  | readWord
  | openParen
  | closeParen
  | openBrace
  | closeBrace
  | openBracket
  | closeBracket
  | comma
  | dot
  | colon
  | semicolon
  | equals
  /-- One of `+ - * / % < >`; the token's text tells which. -/
  | operator
  | endOfSource
  deriving DecidableEq, Repr

namespace Kind

def all : List Kind :=
  [.number, .string, .identifier, .letWord, .constWord, .fnWord, .readWord,
    .openParen, .closeParen, .openBrace, .closeBrace, .openBracket, .closeBracket,
    .comma, .dot, .colon, .semicolon, .equals, .operator, .endOfSource]

def name : Kind → String
  | .number => "NUMBER"
  | .string => "STRING"
  | .identifier => "IDENTIFIER"
  | .letWord => "LET"
  | .constWord => "CONST"
  | .fnWord => "FN"
  | .readWord => "READ"
  | .openParen => "OPEN_PAREN"
  | .closeParen => "CLOSE_PAREN"
  | .openBrace => "OPEN_BRACE"
  | .closeBrace => "CLOSE_BRACE"
  | .openBracket => "OPEN_BRACKET"
  | .closeBracket => "CLOSE_BRACKET"
  | .comma => "COMMA"
  | .dot => "DOT"
  | .colon => "COLON"
  | .semicolon => "SEMICOLON"
  | .equals => "EQUALS"
  | .operator => "BINARY_OPERATOR"
  | .endOfSource => "EOF"

def ofName? (name : String) : Option Kind :=
  all.find? (·.name == name)

def ofWord (word : String) : Kind :=
  match word with
  | "let" => .letWord
  | "const" => .constWord
  | "fn" => .fnWord
  | "read" => .readWord
  | _ => .identifier

/-- The kind of a character that is a token by itself. -/
def ofSymbol? (c : Char) : Option Kind :=
  match c with
  | '(' => some .openParen
  | ')' => some .closeParen
  | '{' => some .openBrace
  | '}' => some .closeBrace
  | '[' => some .openBracket
  | ']' => some .closeBracket
  | ',' => some .comma
  | '.' => some .dot
  | ':' => some .colon
  | ';' => some .semicolon
  | '=' => some .equals
  | '+' | '-' | '*' | '/' | '%' | '<' | '>' => some .operator
  | _ => none

end Kind

end Token

structure Token where
  kind : Token.Kind
  lexeme : String
  position : Position
  deriving DecidableEq, Repr

namespace Token

def endMark (position : Position) : Token :=
  ⟨.endOfSource, "EndOfFile", position⟩

end Token

end Nomi
