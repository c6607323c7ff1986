import Nomi.Text.Quoted
import Nomi.Token.Basic

/-!
# Syntax errors

A syntax error names what the grammar asked for and the place of the token that
did not fit, or of the construct that broke a rule of its own.
-/

namespace Nomi

/-- The places of the grammar that ask for one kind of token. -/
inductive Expectation where
  | declaredName
  | declarationEnd
  /-- After `let name = read`. -/
  | readValueEnd
  | functionName
  | functionBody
  | functionEnd
  | readName
  | readEnd
  | arrayEnd
  | objectKey
  | objectColon
  | objectSeparator
  | objectEnd
  | indexEnd
  | argumentsStart
  | argumentsEnd
  | groupEnd
  /-- An expectation that is worded by whoever asks. -/
  | worded (text : String)
  deriving DecidableEq, Repr

def Expectation.message : Expectation → String
  | .declaredName => "Expected identifier name following let | const keywords."
  | .declarationEnd => "Variable declaration statement must end with ';'."
  | .readValueEnd => "Expected a semicolon after 'read' in variable declaration."
  | .functionName => "Expected function name following fn keyword."
  | .functionBody => "Expected function body following declaration."
  | .functionEnd => "Closing brace expected inside function declaration."
  | .readName => "Expected an identifier after 'read'."
  | .readEnd => "Expected a semicolon after 'read'."
  | .arrayEnd => "Expected ']' to close array literal."
  | .objectKey => "Object literal key expected."
  | .objectColon => "Missing ':' following identifier in ObjectExpr."
  | .objectSeparator => "Expected ',' or '\x7d' following property."
  | .objectEnd => "Object literal missing '\x7d'."
  | .indexEnd => "Missing ']' in computed value."
  | .argumentsStart => "Expected '('."
  | .argumentsEnd => "Missing ')' inside arguments list."
  | .groupEnd => "Unexpected token found inside parenthesised expression. Expected ')'."
  | .worded text => text

inductive SyntaxCause where
  /-- A token of another kind than the one the grammar asks for. -/
  | expected (expectation : Expectation) (kind found : Token.Kind)
  /-- A token that no expression begins with. -/
  | unexpected (kind : Token.Kind) (lexeme : String)
  | constantWithoutValue
  | parameterNotIdentifier
  | memberNotIdentifier
  /-- A number token whose text denotes no number; no source holds one. -/
  | notANumeral (lexeme : String)
  deriving DecidableEq, Repr

def SyntaxCause.message : SyntaxCause → String
  | .expected expectation kind found =>
      expectation.message ++ " Expecting: " ++ kind.name ++ ". Got: " ++ found.name ++ "."
  | .unexpected kind lexeme =>
      "Unexpected token " ++ kind.name ++ " ('" ++ lexeme ++ "') found during parsing."
  | .constantWithoutValue => "Must assign value to constant expression. No value provided."
  | .parameterNotIdentifier =>
      "Inside function declaration expected parameters to be identifiers."
  | .memberNotIdentifier =>
      "Cannot use '.' operator without right hand side being an identifier."
  | .notANumeral lexeme =>
      "could not convert string to float: " ++ String.ofList (Quoted.write lexeme.toList)

structure SyntaxError where
  cause : SyntaxCause
  position : Position
  deriving DecidableEq, Repr

end Nomi
