import Nomi.Eval.World
import Nomi.Number.Arithmetic
import Nomi.Value.Render

/-!
# Operations on values

What operators, members and built-in functions do with values that have been
computed.
-/

namespace Nomi

/-- The number that a function gives, which has to be defined where it is
asked for. -/
def Value.ofDefined (function : String) (result : Option Float) : Except OperationCause Value :=
  match result with
  | some value => .ok (.number value)
  | none => .error (.outsideDomain function)

def Operator.onNumbers (operator : Operator) (left right : Float) :
    Except OperationCause Value :=
  match operator with
  | .add => .ok (.number (left + right))
  | .subtract => .ok (.number (left - right))
  | .multiply => .ok (.number (left * right))
  | .divide => Value.ofDefined "division" (Binary64.divide? left right)
  | .remainder => Value.ofDefined "remainder" (Binary64.remainder? left right)
  | .less => .ok (.boolean (decide (left < right)))
  | .greater => .ok (.boolean (decide (right < left)))
  | .other symbol => .error (.numericOperator symbol)

def Operator.onStrings (operator : Operator) (left right : String) :
    Except OperationCause Value :=
  match operator with
  | .add => .ok (.string (left ++ right))
  | operator => .error (.stringOperator operator.symbol)

/-- An operator between two values.  Operands of different types or of other
types give null. -/
def Operator.apply (operator : Operator) (left right : Value) : Except OperationCause Value :=
  match left, right with
  | .number left, .number right => operator.onNumbers left right
  | .string left, .string right => operator.onStrings left right
  | _, _ => .ok .null

namespace Value

def property (target : Value) (key : String) : Except OperationCause Value :=
  match target with
  | .object fields =>
      match Fields.get? fields key with
      | some value => .ok value
      | none => .error (.noSuchProperty key)
  | other => .error (.noProperties key other.typeName)

def element (elements : List Value) (index : Float) : Except OperationCause Value :=
  if Binary64.isReal index then
    match Binary64.floor? index with
    | none => .error (.outsideDomain "whole part")
    | some place =>
        match if 0 ≤ place then elements[place.toNat]? else none with
        | some value => .ok value
        | none => .error .indexOutOfBounds
  else
    .error .invalidIndex

def index (target key : Value) : Except OperationCause Value :=
  match target, key with
  | .array elements, .number index => element elements index
  | .object fields, .string key => property (.object fields) key
  | _, _ => .error .notIndexable

end Value

def Builtin.call (host : Host) (function : Builtin) (arguments : List Value) : Eval Value :=
  match function with
  | .print =>
      match arguments.mapM Value.render? with
      | some texts => do
          Eval.writeLine (String.join texts)
          return .null
      | none => throw (.fault .notRenderable)
  | .time => return .number host.clock
  | .other name => throw (.fault (.notBuiltIn name))

end Nomi
