import Nomi.Text.Quoted
import Nomi.Token.Basic

/-!
# The token table

One line a token, in columns of fixed least width.  Long texts are cut first;
what is left is shown with escapes if it holds a line feed or a tabulator.
-/

namespace Nomi.Token

/-- The longest text that is shown in full. -/
def shownLength : Nat :=
  50

def pad (width : Nat) (text : String) : String :=
  text ++ String.ofList (List.replicate (width - text.length) ' ')

def clip (text : List Char) : List Char :=
  if text.length ≤ shownLength then text else text.take (shownLength - 3) ++ ['.', '.', '.']

def shown (lexeme : String) : String :=
  let text := clip lexeme.toList
  String.ofList (if text.contains '\n' || text.contains '\t' then Quoted.body text else text)

def row (line column kind text : String) : String :=
  pad 6 line ++ "| " ++ pad 7 column ++ "| " ++ pad 20 kind ++ "| " ++ text ++ "\n"

def describe (token : Token) : String :=
  row (toString token.position.line) (toString token.position.column) token.kind.name
    (shown token.lexeme)

def table (tokens : List Token) : String :=
  if tokens.isEmpty then "No tokens found!\n"
  else
    row "Line" "Column" "Token" "Lexeme"
      ++ String.ofList (List.replicate 60 '-') ++ "\n"
      ++ String.join (tokens.map describe)

end Nomi.Token
