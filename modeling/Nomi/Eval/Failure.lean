import Nomi.Syntax.Program
import Nomi.Value.Store

/-!
# How a run can fail

A program fails with an error of the language, at the end of its input, or by
nesting too deep.  What is called a fault here befalls only trees that were not
read from a source.
-/

namespace Nomi

/-- Why an expression has no value. -/
inductive OperationCause where
  /-- An assignment to something else than a name. -/
  | notAssignable (className : String)
  | stringOperator (symbol : String)
  | numericOperator (symbol : String)
  /-- An index that is no real number. -/
  | invalidIndex
  | indexOutOfBounds
  /-- A computed member of something else than an array by a number or an
  object by a string. -/
  | notIndexable
  | noProperties (key typeName : String)
  | noSuchProperty (key : String)
  | notCallable (typeName : String)
  /-- A function of numbers where it is not defined.  No operation asks for
  one. -/
  | outsideDomain (function : String)
  deriving DecidableEq, Repr

def OperationCause.message : OperationCause → String
  | .notAssignable className => "Invalid LHS inside assignment expr: " ++ className
  | .stringOperator symbol => "Unsupported string operator: " ++ symbol
  | .numericOperator symbol => "Unsupported numeric operator: " ++ symbol
  | .invalidIndex => "Invalid array index"
  | .indexOutOfBounds => "Array index out of bounds"
  | .notIndexable => "Invalid array or index"
  | .noProperties key typeName => "Cannot read property '" ++ key ++ "' of " ++ typeName
  | .noSuchProperty key => "Object has no property '" ++ key ++ "'"
  | .notCallable typeName => "Cannot call value that is not a function: " ++ typeName
  | .outsideDomain function => "The " ++ function ++ " is not defined here"

/-- What cannot happen to a program that was read from a source. -/
inductive Fault where
  /-- A node that has no value of its own. -/
  | notEvaluable (className : String)
  | notRenderable
  /-- A node without the part that its place asks for: behind a point, which
  asks for a name, or inside an object, which asks for a key and a value. -/
  | lacksPart (className part : String)
  | notBuiltIn (name : String)
  deriving DecidableEq, Repr

def Fault.message : Fault → String
  | .notEvaluable className =>
      "AST node " ++ className ++ " has not been set up for interpretation."
  | .notRenderable => "cannot render RuntimeVal"
  | .lacksPart className part => "'" ++ className ++ "' object has no attribute '" ++ part ++ "'"
  | .notBuiltIn name => name ++ " is not built in"

/-- Why a run ends without a value. -/
inductive Failure where
  | source (error : SourceError)
  | scope (error : ScopeError)
  | operation (cause : OperationCause) (position : Position)
  /-- A read at the end of the input. -/
  | cancelled
  /-- A read that the user broke off. -/
  | interrupted
  /-- Evaluation nested deeper than its limit. -/
  | tooDeep
  | fault (fault : Fault)
  deriving DecidableEq, Repr

end Nomi
