import Nomi.Text.Position

/-!
# Syntax trees

Statements and expressions are nodes of one type, because either may stand
where the other is expected in a tree that was not read from a source.  A node
carries the place it is reported at.
-/

namespace Nomi

inductive Operator where
  | add
  | subtract
  | multiply
  | divide
  | remainder
  | less
  | greater
  /-- An operator that no source can hold. -/
  | other (symbol : String)
  deriving DecidableEq, Repr

namespace Operator

def symbol : Operator → String
  | .add => "+"
  | .subtract => "-"
  | .multiply => "*"
  | .divide => "/"
  | .remainder => "%"
  | .less => "<"
  | .greater => ">"
  | .other symbol => symbol

def ofSymbol (symbol : String) : Operator :=
  match symbol with
  | "+" => .add
  | "-" => .subtract
  | "*" => .multiply
  | "/" => .divide
  | "%" => .remainder
  | "<" => .less
  | ">" => .greater
  | symbol => .other symbol

end Operator

/-- The node classes that stand for no construct of the language. -/
inductive Abstract where
  | node
  | statement
  | expression
  deriving DecidableEq, Repr

inductive Node where
  | program (position : Position) (body : List Node)
  /-- A `let` or `const`; the value is absent in a declaration without one. -/
  | declaration (position : Position) (name : String) (constant : Bool) (value : Node)
  | function (position : Position) (name : String) (parameters : List String) (body : List Node)
  | array (position : Position) (elements : List Node)
  /-- Takes a line of input; a standalone one also stores it in the variable. -/
  | read (position : Position) (name type : String) (standalone : Bool)
  | assignment (position : Position) (target value : Node)
  | binary (position : Position) (operator : Operator) (left right : Node)
  | call (position : Position) (callee : Node) (arguments : List Node)
  /-- Either `object.name` or, computed, `object[key]`. -/
  | member (position : Position) (object key : Node) (computed : Bool)
  | identifier (position : Position) (name : String)
  | number (position : Position) (value : Float)
  | string (position : Position) (value : String)
  /-- One entry of an object; the value is absent in the shorthand `{ key }`. -/
  | property (position : Position) (key : String) (value : Node)
  | object (position : Position) (properties : List Node)
  | abstract (position : Position) (kind : Abstract)
  /-- Stands where no node is. -/
  | absent
  deriving Inhabited, Repr

namespace Node

/-- The place a node is reported at. -/
def position : Node → Position
  | .program position ..
  | .declaration position ..
  | .function position ..
  | .array position ..
  | .read position ..
  | .assignment position ..
  | .binary position ..
  | .call position ..
  | .member position ..
  | .identifier position ..
  | .number position ..
  | .string position ..
  | .property position ..
  | .object position ..
  | .abstract position .. => position
  | .absent => .nowhere

/-- The name of a node's class in messages and printed trees. -/
def className : Node → String
  | .program .. => "Program"
  | .declaration .. => "VarDeclaration"
  | .function .. => "FunctionDeclaration"
  | .array .. => "ArrayDeclaration"
  | .read .. => "Read"
  | .assignment .. => "AssignmentExpr"
  | .binary .. => "BinaryExpr"
  | .call .. => "CallExpr"
  | .member .. => "MemberExpr"
  | .identifier .. => "Identifier"
  | .number .. => "NumericLiteral"
  | .string .. => "StringLiteral"
  | .property .. => "Property"
  | .object .. => "ObjectLiteral"
  | .abstract _ .node => "Node"
  | .abstract _ .statement => "Stmt"
  | .abstract _ .expression => "Expr"
  | .absent => "NoneType"

mutual

/-- Whether two trees are the same up to places.  Numbers are compared as
floats. -/
def same : Node → Node → Bool
  | .program _ a, .program _ b => sameAll a b
  | .declaration _ a c x, .declaration _ b d y => a == b && c == d && same x y
  | .function _ a ps x, .function _ b qs y => a == b && ps == qs && sameAll x y
  | .array _ a, .array _ b => sameAll a b
  | .read _ a s x, .read _ b t y => a == b && s == t && x == y
  | .assignment _ a x, .assignment _ b y => same a b && same x y
  | .binary _ f a x, .binary _ g b y => f == g && same a b && same x y
  | .call _ f a, .call _ g b => same f g && sameAll a b
  | .member _ a x c, .member _ b y d => same a b && same x y && c == d
  | .identifier _ a, .identifier _ b => a == b
  | .number _ a, .number _ b => a == b
  | .string _ a, .string _ b => a == b
  | .property _ a x, .property _ b y => a == b && same x y
  | .object _ a, .object _ b => sameAll a b
  | .abstract _ a, .abstract _ b => a == b
  | .absent, .absent => true
  | _, _ => false

def sameAll : List Node → List Node → Bool
  | [], [] => true
  | a :: as, b :: bs => same a b && sameAll as bs
  | _, _ => false

end

end Node

end Nomi
