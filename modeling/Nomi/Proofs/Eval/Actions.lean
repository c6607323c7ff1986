import Nomi.Eval.Evaluate

/-!
# Operands and actions

Whatever kind a node is of, it is evaluated in two parts.  Its operands are evaluated first,
from left to right, and the node alone tells which they are.  Then one action is taken,
which the node and the values of its operands tell.  So what holds of all operands and of
all actions holds of evaluation.
-/

namespace Nomi

/-- What is evaluated for a node: another node, or the variable of a name.  Something else
may stand where one of them is asked for. -/
inductive Operand where
  | node (node : Node)
  | name (name : String)
  | fault (fault : Fault)

/-- What is done with the values of the operands.  A value that is declared or assigned is
also given, and so is a line that is read.  To enter a function is to run its body in a new
scope. -/
inductive Action where
  | give (value : Value)
  | fault (fault : Fault)
  | refuse (cause : OperationCause) (position : Position)
  | declare (name : String) (value : Value) (constant : Bool)
  | assign (name : String) (value : Value)
  | read (name : String) (standalone : Bool)
  | write (line : String)
  | enter (home : ScopeId) (parameters : List String) (values : List Value) (body : List Node)

namespace Operand

def ofOptional : Node → List Operand
  | .absent => []
  | value => [.node value]

def ofEntry : Node → List Operand
  | .property _ key .absent => [.name key]
  | .property _ _ value => [.node value]
  | entry@(.declaration _ _ _ value) | entry@(.assignment _ _ value) =>
      ofOptional value ++ [.fault (.lacksPart entry.className "key")]
  | .string .. => [.fault (.notEvaluable "str")]
  | .number .. => [.fault (.notEvaluable "float")]
  | other => [.fault (.lacksPart other.className "value")]

def run (visit : Node → Eval Value) (scope : ScopeId) : Operand → Eval Value
  | .node part => visit part
  | .name key => Eval.ofStore (·.lookup scope key)
  | .fault cause => throw (.fault cause)

end Operand

namespace Action

def ofResult (result : Except OperationCause Value) (position : Position) : Action :=
  match result with
  | .ok value => .give value
  | .error cause => .refuse cause position

def ofCall (host : Host) (position : Position) (function : Value) (values : List Value) : Action :=
  match function with
  | .builtin .print =>
      match values.mapM Value.render? with
      | some texts => .write (String.join texts)
      | none => .fault .notRenderable
  | .builtin .time => .give (.number host.clock)
  | .builtin (.other name) => .fault (.notBuiltIn name)
  | .function _ parameters body home => .enter home parameters values body
  | other => .refuse (.notCallable other.typeName) position

open Eval in
def run (host : Host) (visit : ScopeId → Node → Eval Value) (scope : ScopeId) :
    Action → Eval Value
  | .give value => return value
  | .fault cause => throw (.fault cause)
  | .refuse cause position => fail cause position
  | .declare name value constant => do
      changeStore (·.declare scope name value constant)
      return value
  | .assign name value => do
      changeStore (·.assign scope name value)
      return value
  | .read name standalone => readLine host scope name standalone
  | .write line => do
      writeLine line
      return .null
  | .enter home parameters values body => do
      let inner ← createScope home
      bindParameters inner parameters values
      runBody (visit inner) body

end Action

namespace Node

def key : Node → String
  | .property _ key _ => key
  | _ => ""

def operands : Node → List Operand
  | .identifier _ name => [.name name]
  | .object _ properties => properties.flatMap Operand.ofEntry
  | .array _ nodes | .program _ nodes => nodes.map .node
  | .call _ callee arguments => .node callee :: arguments.map .node
  | .assignment _ (.identifier ..) value => [.node value]
  | .binary _ _ left right => [.node left, .node right]
  | .member _ owner key true => [.node owner, .node key]
  | .member _ owner _ false => [.node owner]
  | .declaration _ _ _ value => Operand.ofOptional value
  | _ => []

/-- What is done for a node.  A declaration without a value and a program without statements
have no operand, and null stands for its value. -/
def action (host : Host) (scope : ScopeId) (node : Node) (values : List Value) : Action :=
  match node with
  | .number _ value => .give (.number value)
  | .string _ value => .give (.string value)
  | .identifier .. => .give (values.headD .null)
  | .object _ properties => .give (.object (Fields.ofList ((properties.map key).zip values)))
  | .array .. => .give (.array values)
  | .call position .. => .ofCall host position (values.headD .null) values.tail
  | .assignment position target _ =>
      match target with
      | .identifier _ name => .assign name (values.headD .null)
      | other => .refuse (.notAssignable other.className) position
  | .binary position operator .. =>
      .ofResult (operator.apply (values.headD .null) (values.getD 1 .null)) position
  | .member position _ _ true =>
      .ofResult ((values.headD .null).index (values.getD 1 .null)) position
  | .member position _ key false =>
      match key with
      | .identifier _ name => .ofResult ((values.headD .null).property name) position
      | other => .fault (.lacksPart other.className "symbol")
  | .read _ name _ standalone => .read name standalone
  | .program .. => .give (values.getLastD .null)
  | .declaration _ name constant _ => .declare name (values.headD .null) constant
  | .function _ name parameters body => .declare name (.function name parameters body scope) false
  | .property .. | .abstract .. | .absent => .fault (.notEvaluable node.className)

end Node

namespace Eval

variable {visit : Node → Eval Value} {scope : ScopeId}

def operandValues (visit : Node → Eval Value) (scope : ScopeId) (operands : List Operand) :
    Eval (List Value) :=
  operands.mapM (Operand.run visit scope)

theorem operandValues_cons (operand : Operand) (rest : List Operand) :
    operandValues visit scope (operand :: rest) =
      operand.run visit scope >>= fun value =>
        operandValues visit scope rest >>= fun values => return value :: values :=
  List.mapM_cons

theorem operandValues_nodes (nodes : List Node) :
    operandValues visit scope (nodes.map .node) = nodes.mapM visit := by
  induction nodes with
  | nil => rfl
  | cons node rest ih =>
      rw [List.map_cons, operandValues_cons, ih, List.mapM_cons]
      rfl

/-- The value of a body is that of its last statement. -/
theorem runBody_eq_mapM (body : List Node) :
    runBody visit body = body.mapM visit >>= fun values => return values.getLastD .null := by
  have hfold : ∀ last : Value, body.foldlM (fun _ node => visit node) last =
      body.mapM visit >>= fun values => return values.getLastD last := by
    induction body with
    | nil => exact fun last => (pure_bind [] _).symm
    | cons node rest ih =>
        intro last
        simp only [List.foldlM_cons, ih, List.mapM_cons, bind_assoc, pure_bind,
          List.getLastD_cons]
  exact hfold .null

theorem throw_bind {α β : Type} (failure : Failure) (rest : α → Eval β) :
    (throw failure >>= rest) = throw failure :=
  rfl

theorem run_fault (cause : Fault) :
    Operand.run visit scope (.fault cause) = throw (.fault cause) :=
  rfl

/-- An entry of an object has one operand, or has another one to which no key belongs. -/
theorem entry_cases (visit : Node → Eval Value) (scope : ScopeId) (property : Node) :
    (∃ operand, Operand.ofEntry property = [operand] ∧
      entry scope visit property =
        operand.run visit scope >>= fun value => return (property.key, value)) ∨
    ∃ operand cause, Operand.ofEntry property = [operand, .fault cause] ∧
      entry scope visit property =
        operand.run visit scope >>= fun _ => throw (.fault cause) := by
  cases property with
  | property position key value => cases value <;> exact .inl ⟨_, rfl, rfl⟩
  | declaration position name constant value =>
      cases value with
      | absent => exact .inl ⟨_, rfl, rfl⟩
      | _ => exact .inr ⟨_, _, rfl, rfl⟩
  | assignment position target value =>
      cases value with
      | absent => exact .inl ⟨_, rfl, rfl⟩
      | _ => exact .inr ⟨_, _, rfl, rfl⟩
  | _ => exact .inl ⟨_, rfl, rfl⟩

/-- The values of the entries of an object, with their keys. -/
theorem mapM_entry (properties : List Node) :
    properties.mapM (entry scope visit) =
      operandValues visit scope (properties.flatMap Operand.ofEntry) >>= fun values =>
        return (properties.map Node.key).zip values := by
  induction properties with
  | nil => exact (pure_bind [] _).symm
  | cons property rest ih =>
      rw [List.mapM_cons, ih, List.flatMap_cons]
      rcases entry_cases visit scope property with ⟨operand, hoperands, hentry⟩ |
        ⟨operand, cause, hoperands, hentry⟩
      · simp only [hoperands, hentry, List.singleton_append, operandValues_cons, bind_assoc,
          pure_bind, List.map_cons, List.zip_cons_cons]
      · simp only [hoperands, hentry, List.cons_append, List.nil_append, operandValues_cons,
          bind_assoc, run_fault, throw_bind]

section

variable (host : Host) (visit : ScopeId → Node → Eval Value) (scope : ScopeId)
  (position : Position)

theorem run_ofResult (result : Except OperationCause Value) :
    (Action.ofResult result position).run host visit scope = operation result position := by
  cases result <;> rfl

theorem run_ofCall (function : Value) (values : List Value) :
    (Action.ofCall host position function values).run host visit scope =
      match function with
      | .builtin function => function.call host values
      | .function _ parameters body home => do
          let inner ← createScope home
          bindParameters inner parameters values
          runBody (visit inner) body
      | other => fail (.notCallable other.typeName) position := by
  cases function with
  | builtin function =>
      cases function with
      | print =>
          simp only [Action.ofCall, Builtin.call]
          cases values.mapM Value.render? <;> rfl
      | time | other => rfl
  | _ => rfl

end

/-- A node is evaluated by its operands and its action. -/
theorem evaluate_succ (host : Host) (depth : Nat) (scope : ScopeId) (node : Node) :
    evaluate host (depth + 1) scope node =
      operandValues (evaluate host depth scope) scope node.operands >>= fun values =>
        (node.action host scope values).run host (evaluate host depth) scope := by
  cases node with
  | number | string | identifier | read | property | abstract | absent | function =>
      simp [evaluate, Node.operands, Node.action, operandValues, Operand.run, Action.run]
  | array position nodes | program position nodes =>
      simp [evaluate, Node.operands, Node.action, operandValues_nodes, Action.run,
        runBody_eq_mapM]
  | object position properties =>
      simp [evaluate, Node.operands, Node.action, mapM_entry, Action.run]
  | declaration position name constant value =>
      cases value <;> simp [evaluate, initialValue, Node.operands, Operand.ofOptional, Node.action,
        operandValues, Operand.run, Action.run]
  | assignment position target value =>
      cases target <;>
        simp [evaluate, Node.operands, Node.action, operandValues, Operand.run, Action.run]
  | binary position operator left right =>
      simp [evaluate, Node.operands, Node.action, operandValues, Operand.run, run_ofResult]
  | member position owner key computed =>
      cases computed with
      | true =>
          simp [evaluate, Node.operands, Node.action, operandValues, Operand.run, run_ofResult]
      | false =>
          cases key with
          | identifier place name =>
              simp [evaluate, Node.operands, Node.action, operandValues, Operand.run, run_ofResult]
          | _ =>
              simp [evaluate, Node.operands, Node.action, operandValues, Operand.run, Action.run]
  | call position callee arguments =>
      simp only [evaluate, Node.operands, Node.action, operandValues_cons, operandValues_nodes,
        Operand.run, bind_assoc, pure_bind, List.headD_cons, List.tail_cons]
      refine bind_congr fun function => bind_congr fun values => ?_
      exact (run_ofCall host (evaluate host depth) scope position function values).symm

end Eval

end Nomi
