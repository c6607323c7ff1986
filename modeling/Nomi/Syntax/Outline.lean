import Nomi.Number.Layout
import Nomi.Syntax.Node
import Nomi.Text.Outline

/-!
# Printed syntax trees

A node is a record of its place and its parts, under the name of its class.
-/

namespace Nomi.Node

/-- How printed trees show numbers: with the fewest digits that read back, and
with a point. -/
def numberLayout : Layout where
  plainFrom := -4
  plainBelow := 16
  exactWhole := false
  wholeMark := ".0"
  exponentWidth := 2
  signedZero := true
  nan := "nan"
  infinity := "inf"

def quoted (text : String) : Outline :=
  .quote text

def truth (value : Bool) : Outline :=
  .text (if value then "True" else "False")

def record (node : Node) (parts : List (String × Outline)) : Outline :=
  .record node.className
    (("line", .text (toString node.position.line))
      :: ("column", .text (toString node.position.column)) :: parts)

mutual

def outline (node : Node) : Outline :=
  match node with
  | .program _ body => node.record [("body", .list (outlines body))]
  | .declaration _ name constant value =>
      node.record [("identifier", quoted name), ("constant", truth constant),
        ("value", value.outline)]
  | .function _ name parameters body =>
      node.record [("name", quoted name), ("parameters", .list (parameters.map quoted)),
        ("body", .list (outlines body))]
  | .array _ elements => node.record [("elements", .list (outlines elements))]
  | .read _ name type standalone =>
      node.record [("variable", quoted name), ("value_type", quoted type),
        ("standalone", truth standalone)]
  | .assignment _ target value =>
      node.record [("assigne", target.outline), ("value", value.outline)]
  | .binary _ operator left right =>
      node.record [("left", left.outline), ("right", right.outline),
        ("operator", quoted operator.symbol)]
  | .call _ callee arguments =>
      node.record [("caller", callee.outline), ("args", .list (outlines arguments))]
  | .member _ target key computed =>
      node.record [("object", target.outline), ("property", key.outline),
        ("computed", truth computed)]
  | .identifier _ name => node.record [("symbol", quoted name)]
  | .number _ value => node.record [("value", .text (numberLayout.write value))]
  | .string _ value => node.record [("value", quoted value)]
  | .property _ key value => node.record [("key", quoted key), ("value", value.outline)]
  | .object _ properties => node.record [("properties", .list (outlines properties))]
  | .abstract .. => node.record []
  | .absent => .text "None"

def outlines : List Node → List Outline
  | [] => []
  | node :: rest => node.outline :: outlines rest

end

def dump (node : Node) : String :=
  node.outline.page

end Nomi.Node
