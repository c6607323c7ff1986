import Nomi.Syntax.Node

/-!
# Entries without a value

An entry of an object may leave its value out.  Filling in what is left out changes
nothing else of a tree, and the longhand of a tree fills in the variable of the name.
-/

namespace Nomi.Node

mutual

/-- A tree in which each entry of an object that has no value gets one, which may depend
on its place and its key. -/
def filled (fill : Position → String → Node) : Node → Node
  | .program position body => .program position (filledAll fill body)
  | .declaration position name constant value =>
      .declaration position name constant (filled fill value)
  | .function position name parameters body =>
      .function position name parameters (filledAll fill body)
  | .array position elements => .array position (filledAll fill elements)
  | .read position name type standalone => .read position name type standalone
  | .assignment position target value =>
      .assignment position (filled fill target) (filled fill value)
  | .binary position operator left right =>
      .binary position operator (filled fill left) (filled fill right)
  | .call position callee arguments =>
      .call position (filled fill callee) (filledAll fill arguments)
  | .member position owner key computed =>
      .member position (filled fill owner) (filled fill key) computed
  | .identifier position name => .identifier position name
  | .number position value => .number position value
  | .string position value => .string position value
  | .property position key value =>
      .property position key (match value with
        | .absent => fill position key
        | _ => filled fill value)
  | .object position properties => .object position (filledAll fill properties)
  | .abstract position kind => .abstract position kind
  | .absent => .absent

def filledAll (fill : Position → String → Node) : List Node → List Node
  | [] => []
  | node :: rest => filled fill node :: filledAll fill rest

end

/-- A tree in which every shorthand `{ key }` is written out as `{ key: key }`. -/
def longhand : Node → Node :=
  filled .identifier

variable (fill : Position → String → Node)

theorem filledAll_eq_map (nodes : List Node) : filledAll fill nodes = nodes.map (filled fill) := by
  induction nodes with
  | nil => rfl
  | cons node rest ih => rw [filledAll, ih, List.map_cons]

/-- A property with a value keeps its own value, filled in. -/
theorem filled_property {value : Node} (h : value ≠ .absent) (position : Position)
    (key : String) :
    filled fill (.property position key value) = .property position key (filled fill value) := by
  cases value with
  | absent => exact absurd rfl h
  | _ => rfl

mutual

/-- Nothing is filled in with nothing. -/
theorem filled_nothing : ∀ node : Node, node.filled (fun _ _ => .absent) = node
  | .program _ body => by rw [filled, filledAll_nothing body]
  | .declaration _ _ _ value => by rw [filled, filled_nothing value]
  | .function _ _ _ body => by rw [filled, filledAll_nothing body]
  | .array _ elements => by rw [filled, filledAll_nothing elements]
  | .assignment _ target value => by rw [filled, filled_nothing target, filled_nothing value]
  | .binary _ _ left right => by rw [filled, filled_nothing left, filled_nothing right]
  | .call _ callee arguments => by rw [filled, filled_nothing callee, filledAll_nothing arguments]
  | .member _ owner key _ => by rw [filled, filled_nothing owner, filled_nothing key]
  | .object _ properties => by rw [filled, filledAll_nothing properties]
  | .property _ _ value => by
      by_cases h : value = .absent
      · rw [h, filled]
      · rw [filled_property _ h, filled_nothing value]
  | .read .. | .identifier .. | .number .. | .string .. | .abstract .. | .absent => rfl

theorem filledAll_nothing : ∀ nodes : List Node, filledAll (fun _ _ => .absent) nodes = nodes
  | [] => rfl
  | node :: rest => by rw [filledAll, filled_nothing node, filledAll_nothing rest]

end

end Nomi.Node
