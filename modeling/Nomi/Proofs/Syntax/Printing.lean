import Nomi.Proofs.Lexical.Numerals
import Nomi.Proofs.Syntax.Grammar

/-!
# Printing programs

A program is printed as tokens that are read as the same program.  Parentheses stand
around an expression where only a tighter one may stand.  They also stand around a
read that a declaration takes its value from, because the word `read` behind the
equals sign has another meaning there.
-/

namespace Nomi

namespace Grammar

/-- The places of expressions, from the tightest outwards: before a suffix, in a chain
of operators, and where any expression may stand. -/
inductive Slot where
  | operand
  | chain (level : Level)
  | full
  deriving DecidableEq, Repr

def Slot.rank : Slot → Nat
  | .operand => 0
  | .chain .product => 1
  | .chain .sum => 2
  | .chain .comparison => 3
  | .full => 4

/-- The slot behind an operator of a level.  Operators group to the left, so it is
tighter than the one before it. -/
def Level.behind : Level → Slot
  | .product => .operand
  | .sum => .chain .product
  | .comparison => .chain .sum

end Grammar

open Grammar

def Operator.level? : Operator → Option Level
  | .multiply | .divide | .remainder => some .product
  | .add | .subtract => some .sum
  | .less | .greater => some .comparison
  | .other _ => none

/-- The tightest slot of an expression without parentheses. -/
def Node.slot : Node → Slot
  | .binary _ operator _ _ =>
      match operator.level? with
      | some level => .chain level
      | none => .full
  | .array .. | .object .. | .read .. | .assignment .. => .full
  | _ => .operand

namespace Print

/-- A token that stands nowhere yet. -/
def sign (kind : Token.Kind) (lexeme : String) : Token :=
  ⟨kind, lexeme, .nowhere⟩

def enclosed (tokens : List Token) : List Token :=
  sign .openParen "(" :: (tokens ++ [sign .closeParen ")"])

/-- The tokens of an expression in a slot, in parentheses if the slot is too tight. -/
def fill (slot : Slot) (node : Node) (tokens : List Token) : List Token :=
  if node.slot.rank ≤ slot.rank then tokens else enclosed tokens

def commas (parts : List (List Token)) : List Token :=
  [sign .comma ","].intercalate parts

@[simp] theorem commas_singleton (part : List Token) : commas [part] = part :=
  List.intercalate_singleton

@[simp] theorem commas_cons_cons (first second : List Token) (rest : List (List Token)) :
    commas (first :: second :: rest) = first ++ sign .comma "," :: commas (second :: rest) := by
  simp [commas, List.intercalate_cons_cons]

def property (key : String) (value : Node) (tokens : List Token) : List Token :=
  match value with
  | .absent => [sign .identifier key]
  | _ => sign .identifier key :: sign .colon ":" :: tokens

variable (write : Float → String)

mutual

/-- The tokens of an expression, with numbers written in a given way. -/
def expression : Node → List Token
  | .identifier _ name => [sign .identifier name]
  | .number _ value => [sign .number (write value)]
  | .string _ value => [sign .string value]
  | .array _ elements =>
      sign .openBracket "[" :: (commas (expressions elements) ++ [sign .closeBracket "]"])
  | .object _ properties =>
      sign .openBrace "\x7b" :: (commas (entries properties) ++ [sign .closeBrace "\x7d"])
  | .read _ name _ _ => [sign .readWord "read", sign .identifier name, sign .semicolon ";"]
  | .assignment _ target value =>
      fill (.chain .comparison) target (expression target) ++
        sign .equals "=" :: expression value
  | .binary _ operator left right =>
      match operator.level? with
      | some level =>
          fill (.chain level) left (expression left) ++
            sign .operator operator.symbol :: fill level.behind right (expression right)
      | none => []
  | .call _ callee values =>
      fill .operand callee (expression callee) ++ enclosed (commas (expressions values))
  | .member _ owner key true =>
      fill .operand owner (expression owner) ++
        sign .openBracket "[" :: (expression key ++ [sign .closeBracket "]"])
  | .member _ owner key false =>
      fill .operand owner (expression owner) ++ sign .dot "." :: expression key
  | _ => []

def expressions : List Node → List (List Token)
  | [] => []
  | node :: rest => expression node :: expressions rest

def entries : List Node → List (List Token)
  | [] => []
  | .property _ key value :: rest => property key value (expression value) :: entries rest
  | _ :: rest => entries rest

end

def initialValue : Node → List Token
  | .absent => []
  | .read _ _ _ false => [sign .equals "=", sign .readWord "read"]
  | .read position name type true =>
      sign .equals "=" :: enclosed (expression write (.read position name type true))
  | value => sign .equals "=" :: expression write value

def keyword (constant : Bool) : Token :=
  if constant then sign .constWord "const" else sign .letWord "let"

def parameterNames (parameters : List String) : List Token :=
  enclosed (commas (parameters.map fun name => [sign .identifier name]))

mutual

/-- The tokens of a statement.  Its last one is a semicolon or a closing brace. -/
def statement : Node → List Token
  | .declaration _ name constant value =>
      keyword constant :: sign .identifier name ::
        (initialValue write value ++ [sign .semicolon ";"])
  | .function _ name parameters body =>
      sign .fnWord "fn" :: sign .identifier name ::
        (parameterNames parameters ++ sign .openBrace "\x7b" ::
          (statements body ++ [sign .closeBrace "\x7d"]))
  | .read position name type standalone =>
      expression write (.read position name type standalone)
  | node => expression write node ++ [sign .semicolon ";"]

def statements : List Node → List Token
  | [] => []
  | node :: rest => statement node ++ statements rest

end

end Print

namespace Node

variable (names : String → Prop)

mutual

/-- Whether a tree is an expression that a source can hold, with such names. -/
def ProperExpression : Node → Prop
  | .identifier _ name => names name
  | .number _ value => ∃ text, Numeral.isPlain text = true ∧ Numeral.read? text = some value
  | .string .. => True
  | .array _ elements => ProperExpressions elements
  | .object _ properties => ProperEntries properties
  | .read _ name type standalone => names name ∧ type = "string" ∧ standalone = true
  | .assignment _ target value => ProperExpression target ∧ ProperExpression value
  | .binary _ operator left right =>
      operator.level? ≠ none ∧ ProperExpression left ∧ ProperExpression right
  | .call _ callee values => ProperExpression callee ∧ ProperExpressions values
  | .member _ owner key computed =>
      ProperExpression owner ∧ ProperExpression key ∧
        (computed = false → ∃ position name, key = .identifier position name)
  | _ => False

def ProperExpressions : List Node → Prop
  | [] => True
  | node :: rest => ProperExpression node ∧ ProperExpressions rest

/-- Whether trees are entries of an object, each with a value or without one. -/
def ProperEntries : List Node → Prop
  | [] => True
  | .property _ key value :: rest =>
      names key ∧ (value = .absent ∨ ProperExpression value) ∧ ProperEntries rest
  | _ :: _ => False

end

/-- Whether a declaration may have a value: none, if the name may be assigned, the line
of a read of the declared name, or an expression. -/
def ProperValue (declared : String) (constant : Bool) : Node → Prop
  | .absent => constant = false
  | .read _ name type false => name = declared ∧ type = "string"
  | value => ProperExpression names value

mutual

def ProperStatement : Node → Prop
  | .declaration _ name constant value => names name ∧ ProperValue names name constant value
  | .function _ name parameters body =>
      names name ∧ (∀ parameter ∈ parameters, names parameter) ∧ ProperStatements body
  | node => ProperExpression names node

def ProperStatements : List Node → Prop
  | [] => True
  | node :: rest => ProperStatement node ∧ ProperStatements rest

end

end Node

end Nomi
