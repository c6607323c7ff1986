import Nomi.Number.Numeral
import Nomi.Syntax.Node
import Nomi.Syntax.Parser

/-!
# Expressions

The levels of precedence are parsers over a parser for full expressions, which
is needed only inside brackets, after an equals sign and after a colon.  All of
these follow a token, so the depth of full expressions is bounded by the number
of tokens ahead.
-/

namespace Nomi.Parser

def numeral (token : Token) : Parser Node :=
  match Numeral.read? token.lexeme.toList with
  | some value => return .number token.position value
  | none => fail (.notANumeral token.lexeme) token.position

/-- Names, literals and expressions in parentheses. -/
def primary (expression : Parser Node) : Parser Node := do
  let token ← peek
  match token.kind with
  | .identifier =>
      let _ ← advance
      return .identifier token.position token.lexeme
  | .number =>
      let _ ← advance
      numeral token
  | .string =>
      let _ ← advance
      return .string token.position token.lexeme
  | .openParen =>
      let _ ← advance
      let inner ← expression
      let _ ← expect .closeParen .groupEnd
      return inner
  | _ => unexpected

def arguments (expression : Parser Node) : Parser (List Node) := do
  let _ ← expect .openParen .argumentsStart
  let values ← if (← get).check .closeParen then pure [] else separated expression
  let _ ← expect .closeParen .argumentsEnd
  return values

def memberName : Parser Node := do
  let token ← peek
  if token.kind = .identifier then
    let _ ← advance
    return .identifier token.position token.lexeme
  else
    fail .memberNotIdentifier token.position

/-- One suffix of an expression: a member, an index or arguments. -/
def suffix? (expression : Parser Node) (object : Node) : Parser (Option Node) := do
  match (← peek).kind with
  | .dot =>
      let _ ← advance
      let name ← memberName
      return some (.member object.position object name false)
  | .openBracket =>
      let _ ← advance
      let key ← expression
      let _ ← expect .closeBracket .indexEnd
      return some (.member object.position object key true)
  | .openParen =>
      let values ← arguments expression
      return some (.call object.position object values)
  | _ => return none

def suffixed (expression : Parser Node) : Parser Node :=
  extend (primary expression) (suffix? expression)

def multiplicativeSymbols : List String :=
  ["*", "/", "%"]

def additiveSymbols : List String :=
  ["+", "-"]

def comparisonSymbols : List String :=
  ["<", ">"]

def operation? (symbols : List String) (operand : Parser Node) (left : Node) :
    Parser (Option Node) := do
  if (← get).checkOperator symbols then
    let token ← advance
    let right ← operand
    return some (.binary token.position (.ofSymbol token.lexeme) left right)
  else
    return none

/-- Operands with the given operators between them, grouped to the left. -/
def chain (symbols : List String) (operand : Parser Node) : Parser Node :=
  extend operand (operation? symbols operand)

/-- Products, sums and comparisons, from the tightest level outwards. -/
def comparison (expression : Parser Node) : Parser Node :=
  chain comparisonSymbols (chain additiveSymbols (chain multiplicativeSymbols
    (suffixed expression)))

/-- The comma after an entry, which the last entry may lack. -/
def entryEnd : Parser Unit := do
  if (← get).check .closeBrace then return ()
  else
    let _ ← expect .comma .objectSeparator
    return ()

def entryValue (expression : Parser Node) : Parser Node := do
  let _ ← expect .colon .objectColon
  let value ← expression
  entryEnd
  return value

/-- One entry of an object.  The shorthand `{ key }` has no value. -/
def entry (expression : Parser Node) : Parser Node := do
  let key ← expect .identifier .objectKey
  match ← accept .comma with
  | some _ => return .property key.position key.lexeme .absent
  | none =>
      if (← get).check .closeBrace then
        return .property key.position key.lexeme .absent
      else
        let value ← entryValue expression
        return .property key.position key.lexeme value

def object (expression : Parser Node) : Parser Node := do
  let token ← advance
  let properties ← itemsUntil .closeBrace (entry expression)
  let _ ← expect .closeBrace .objectEnd
  return .object token.position properties

def array (expression : Parser Node) : Parser Node := do
  let token ← advance
  let elements ← commaItemsUntil .closeBracket expression
  let _ ← expect .closeBracket .arrayEnd
  return .array token.position elements

/-- A read into a variable, `read name;`, with its semicolon. -/
def readInto : Parser Node := do
  let token ← advance
  let name ← expect .identifier .readName
  let _ ← expect .semicolon .readEnd
  return .read token.position name.lexeme "string" true

/-- An object or a comparison, perhaps with a value assigned to it. -/
def assignment (expression : Parser Node) : Parser Node := do
  let target ←
    if (← get).check .openBrace then object expression else comparison expression
  match ← accept .equals with
  | none => return target
  | some _ =>
      let value ← expression
      return .assignment target.position target value

/-- An expression that holds full expressions nested less deep than the
bound. -/
def expression : Nat → Parser Node
  | 0 => unexpected
  | depth + 1 => do
      match (← peek).kind with
      | .openBracket => array (expression depth)
      | .readWord => readInto
      | _ => assignment (expression depth)

end Nomi.Parser
