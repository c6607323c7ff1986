import Nomi.Eval.Operation

/-!
# Evaluation

Trees are evaluated in a scope, operands from left to right.  A call runs the
body of the function in a new scope whose parent is the one that the function
was declared in.  Evaluation carries the depth to which it may nest, and every
node takes one level of it.
-/

namespace Nomi

namespace Eval

def operation {α : Type} (result : Except OperationCause α) (position : Position) : Eval α :=
  match result with
  | .ok value => return value
  | .error cause => fail cause position

/-- Runs statements in order; the value is that of the last one. -/
def runBody (statement : Node → Eval Value) (body : List Node) : Eval Value :=
  body.foldlM (fun _ node => statement node) .null

/-- The value of a node that holds one but has no key.  It is evaluated before
the key is missed. -/
def keyless (expression : Node → Eval Value) (node value : Node) : Eval (String × Value) := do
  match value with
  | .absent => pure ()
  | value => let _ ← expression value
  throw (.fault (.lacksPart node.className "key"))

/-- One entry of an object.  The shorthand reads the variable of its name.  What
a literal holds in the place of a value is no node. -/
def entry (scope : ScopeId) (expression : Node → Eval Value) : Node → Eval (String × Value)
  | .property _ key .absent => do
      let value ← ofStore (·.lookup scope key)
      return (key, value)
  | .property _ key node => do
      let value ← expression node
      return (key, value)
  | node@(.declaration _ _ _ value) => keyless expression node value
  | node@(.assignment _ _ value) => keyless expression node value
  | .string .. => throw (.fault (.notEvaluable "str"))
  | .number .. => throw (.fault (.notEvaluable "float"))
  | other => throw (.fault (.lacksPart other.className "value"))

/-- The value that a declaration gives its name, which is null if none is
written. -/
def initialValue (expression : Node → Eval Value) : Node → Eval Value
  | .absent => return .null
  | value => expression value

def createScope (parent : ScopeId) : Eval ScopeId :=
  fun world => .ok world.store.size { world with store := world.store.create (some parent) }

/-- Binds parameters to arguments by position.  Missing arguments are null,
and those left over are dropped. -/
def bindParameters (scope : ScopeId) : List String → List Value → Eval Unit
  | [], _ => return ()
  | name :: names, values => do
      changeStore (·.declare scope name (values.headD .null) false)
      bindParameters scope names values.tail

/-- Stores a value in a variable, if the variable is there and may be
assigned. -/
def storeIfWritable (scope : ScopeId) (name : String) (value : Value) : Eval Unit :=
  modify fun world => { world with store := world.store.overwrite scope name value }

/-- Takes a line.  A standalone read also stores it, where that can be done. -/
def readLine (host : Host) (scope : ScopeId) (name : String) (standalone : Bool) :
    Eval Value := do
  let line ← takeLine host
  if standalone then
    storeIfWritable scope name (.string line)
    return .string line
  else
    return .string line

end Eval

open Eval in
/-- The value of a tree in a scope, for evaluation nested at most as deep as
the bound. -/
def evaluate (host : Host) : Nat → ScopeId → Node → Eval Value
  | 0, _, _ => throw .tooDeep
  | depth + 1, scope, node =>
      match node with
      | .number _ value => return .number value
      | .string _ value => return .string value
      | .identifier _ name => ofStore (·.lookup scope name)
      | .object _ properties => do
          let writings ← properties.mapM (entry scope (evaluate host depth scope))
          return .object (Fields.ofList writings)
      | .array _ elements => do
          let values ← elements.mapM (evaluate host depth scope)
          return .array values
      | .call position callee arguments => do
          let function ← evaluate host depth scope callee
          let values ← arguments.mapM (evaluate host depth scope)
          match function with
          | .builtin function => function.call host values
          | .function _ parameters body home => do
              let inner ← createScope home
              bindParameters inner parameters values
              runBody (evaluate host depth inner) body
          | other => fail (.notCallable other.typeName) position
      | .assignment position target value =>
          match target with
          | .identifier _ name => do
              let value ← evaluate host depth scope value
              changeStore (·.assign scope name value)
              return value
          | other => fail (.notAssignable other.className) position
      | .binary position operator left right => do
          let left ← evaluate host depth scope left
          let right ← evaluate host depth scope right
          operation (operator.apply left right) position
      | .member position object key computed => do
          let target ← evaluate host depth scope object
          if computed then
            let key ← evaluate host depth scope key
            operation (target.index key) position
          else
            match key with
            | .identifier _ name => operation (target.property name) position
            | other => throw (.fault (.lacksPart other.className "symbol"))
      | .read _ name _ standalone => readLine host scope name standalone
      | .program _ body => runBody (evaluate host depth scope) body
      | .declaration _ name constant value => do
          let value ← initialValue (evaluate host depth scope) value
          changeStore (·.declare scope name value constant)
          return value
      | .function _ name parameters body => do
          let value := Value.function name parameters body scope
          changeStore (·.declare scope name value false)
          return value
      | .property .. | .abstract .. | .absent =>
          throw (.fault (.notEvaluable node.className))

end Nomi
