import Nomi.Syntax.Node

/-!
# Trees without their places

Places are for reports only.  Forgetting them leaves what a tree says, so two
trees say the same when they agree without their places.
-/

namespace Nomi.Node

mutual

def unplaced : Node → Node
  | .program _ body => .program .nowhere (unplacedAll body)
  | .declaration _ name constant value => .declaration .nowhere name constant (unplaced value)
  | .function _ name parameters body => .function .nowhere name parameters (unplacedAll body)
  | .array _ elements => .array .nowhere (unplacedAll elements)
  | .read _ name type standalone => .read .nowhere name type standalone
  | .assignment _ target value => .assignment .nowhere (unplaced target) (unplaced value)
  | .binary _ operator left right => .binary .nowhere operator (unplaced left) (unplaced right)
  | .call _ callee values => .call .nowhere (unplaced callee) (unplacedAll values)
  | .member _ owner key computed => .member .nowhere (unplaced owner) (unplaced key) computed
  | .identifier _ name => .identifier .nowhere name
  | .number _ value => .number .nowhere value
  | .string _ value => .string .nowhere value
  | .property _ key value => .property .nowhere key (unplaced value)
  | .object _ properties => .object .nowhere (unplacedAll properties)
  | .abstract _ kind => .abstract .nowhere kind
  | .absent => .absent

def unplacedAll : List Node → List Node
  | [] => []
  | node :: rest => unplaced node :: unplacedAll rest

end

attribute [simp] unplaced unplacedAll

theorem position_unplaced (node : Node) : node.unplaced.position = .nowhere := by
  cases node <;> rfl

end Nomi.Node
