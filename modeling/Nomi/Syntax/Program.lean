import Nomi.Syntax.Expression
import Nomi.Token.Scanner

/-!
# Statements and programs

Declarations, functions and reads begin with a keyword.  Everything else is an
expression, and the semicolon after it may be left out.
-/

namespace Nomi

namespace Parser

/-- A declaration's value that is a line of input. -/
def readValue (name : String) (token : Token) : Parser Node := do
  let _ ← expect .semicolon .readValueEnd
  return .read token.position name "string" false

/-- What follows `let` or `const`: a name and perhaps a value.  The keyword has
been taken. -/
def declaration (expression : Parser Node) (keyword : Token) : Parser Node := do
  let constant := decide (keyword.kind = .constWord)
  let name ← expect .identifier .declaredName
  match ← accept .equals with
  | some _ =>
      match ← accept .readWord with
      | some token =>
          let value ← readValue name.lexeme token
          return .declaration keyword.position name.lexeme constant value
      | none =>
          let value ← expression
          let _ ← expect .semicolon .declarationEnd
          return .declaration keyword.position name.lexeme constant value
  | none =>
      let _ ← expect .semicolon .declarationEnd
      if constant then fail .constantWithoutValue keyword.position
      else return .declaration keyword.position name.lexeme constant .absent

def parameterNames : List Node → Except SyntaxError (List String)
  | [] => .ok []
  | .identifier _ name :: rest => (parameterNames rest).map (name :: ·)
  | other :: _ => .error ⟨.parameterNotIdentifier, other.position⟩

def function (expression statement : Parser Node) (keyword : Token) : Parser Node := do
  let name ← expect .identifier .functionName
  let written ← arguments expression
  match parameterNames written with
  | .error error => throw error
  | .ok parameters =>
      let _ ← expect .openBrace .functionBody
      let body ← itemsUntil .closeBrace statement
      let _ ← expect .closeBrace .functionEnd
      return .function keyword.position name.lexeme parameters body

def expressionStatement (expression : Parser Node) : Parser Node := do
  let value ← expression
  let _ ← accept .semicolon
  return value

/-- A statement that holds functions nested less deep than the bound. -/
def statement : Nat → Parser Node
  | 0 => unexpected
  | depth + 1 => do
      match (← peek).kind with
      | .letWord | .constWord => declaration (expression depth) (← advance)
      | .fnWord => function (expression depth) (statement depth) (← advance)
      | .readWord => readInto
      | _ => expressionStatement (expression (depth + 1))

def program : Parser Node := do
  let depth ← remaining
  let body ← itemsUntil .endOfSource (statement depth)
  return .program .start body

end Parser

def parseTokens (tokens : List Token) : Except SyntaxError Node :=
  match Parser.program (Cursor.ofList tokens) with
  | .ok program _ => .ok program
  | .error error _ => .error error

inductive SourceError where
  | lexical (error : LexicalError)
  | syntactic (error : SyntaxError)
  deriving DecidableEq, Repr

/-- The program that a source holds. -/
def parse (source : String) : Except SourceError Node := do
  let tokens ← (tokenize source).mapError .lexical
  (parseTokens tokens).mapError .syntactic

end Nomi
