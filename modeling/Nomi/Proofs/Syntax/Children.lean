import Mathlib.Data.List.Forall2
import Nomi.Proofs.Syntax.Places

/-!
# Nodes and their children

A node is put together of its head, its place and its children.  The head is of its kind and
says the rest.  What compares trees compares these three, whatever the kind, and goes down
from a node to its children.
-/

namespace Nomi

theorem map_eq_map_iff_rel {α β γ : Type} {f : α → γ} {g : β → γ} {xs : List α} {ys : List β} :
    xs.map f = ys.map g ↔ List.Forall₂ (fun x y => f x = g y) xs ys := by
  rw [← List.forall₂_eq_eq_eq, List.forall₂_map_left_iff, List.forall₂_map_right_iff]

theorem rel_of_mem {α β : Type} {related other : α → β → Prop} {xs : List α} {ys : List β}
    (h : List.Forall₂ related xs ys) (himp : ∀ x ∈ xs, ∀ y ∈ ys, related x y → other x y) :
    List.Forall₂ other xs ys := by
  refine List.forall₂_iff_zip.2 ⟨h.length_eq, fun hmem => ?_⟩
  obtain ⟨hleft, hright⟩ := List.of_mem_zip hmem
  exact himp _ hleft _ hright (List.forall₂_zip h hmem)

theorem rel_headD {α β : Type} {related : α → β → Prop} {xs : List α} {ys : List β} {a : α}
    {b : β} (h : List.Forall₂ related xs ys) (hdefault : related a b) :
    related (xs.headD a) (ys.headD b) := by
  cases h with
  | nil => exact hdefault
  | cons hfirst _ => exact hfirst

theorem rel_tail {α β : Type} {related : α → β → Prop} {xs : List α} {ys : List β}
    (h : List.Forall₂ related xs ys) : List.Forall₂ related xs.tail ys.tail := by
  cases h with
  | nil => exact .nil
  | cons _ hrest => exact hrest

namespace Node

/-- A node without its place and its children. -/
def head : Node → Node
  | .program .. => .program .nowhere []
  | .declaration _ name constant _ => .declaration .nowhere name constant .absent
  | .function _ name parameters _ => .function .nowhere name parameters []
  | .array .. => .array .nowhere []
  | .read _ name type standalone => .read .nowhere name type standalone
  | .assignment .. => .assignment .nowhere .absent .absent
  | .binary _ operator _ _ => .binary .nowhere operator .absent .absent
  | .call .. => .call .nowhere .absent []
  | .member _ _ _ computed => .member .nowhere .absent .absent computed
  | .identifier _ name => .identifier .nowhere name
  | .number _ value => .number .nowhere value
  | .string _ value => .string .nowhere value
  | .property _ key _ => .property .nowhere key .absent
  | .object .. => .object .nowhere []
  | .abstract _ kind => .abstract .nowhere kind
  | .absent => .absent

/-- The nodes in a node, with those that are absent. -/
def children : Node → List Node
  | .program _ nodes | .function _ _ _ nodes | .array _ nodes | .object _ nodes => nodes
  | .declaration _ _ _ value | .property _ _ value => [value]
  | .assignment _ first second | .binary _ _ first second | .member _ first second _ =>
      [first, second]
  | .call _ callee values => callee :: values
  | .identifier .. | .number .. | .string .. | .read .. | .abstract .. | .absent => []

def assemble : Node → Position → List Node → Node
  | .program .., place, nodes => .program place nodes
  | .declaration _ name constant _, place, nodes =>
      .declaration place name constant (nodes.headD .absent)
  | .function _ name parameters _, place, nodes => .function place name parameters nodes
  | .array .., place, nodes => .array place nodes
  | .read _ name type standalone, place, _ => .read place name type standalone
  | .assignment .., place, nodes =>
      .assignment place (nodes.headD .absent) (nodes.tail.headD .absent)
  | .binary _ operator _ _, place, nodes =>
      .binary place operator (nodes.headD .absent) (nodes.tail.headD .absent)
  | .call .., place, nodes => .call place (nodes.headD .absent) nodes.tail
  | .member _ _ _ computed, place, nodes =>
      .member place (nodes.headD .absent) (nodes.tail.headD .absent) computed
  | .identifier _ name, place, _ => .identifier place name
  | .number _ value, place, _ => .number place value
  | .string _ value, place, _ => .string place value
  | .property _ key _, place, nodes => .property place key (nodes.headD .absent)
  | .object .., place, nodes => .object place nodes
  | .abstract _ kind, place, _ => .abstract place kind
  | .absent, _, _ => .absent

theorem assemble_eq (node : Node) : assemble node.head node.position node.children = node := by
  cases node <;> rfl

theorem eq_of_parts {a b : Node} (hhead : a.head = b.head) (hplace : a.position = b.position)
    (hchildren : a.children = b.children) : a = b := by
  rw [← assemble_eq a, ← assemble_eq b, hhead, hplace, hchildren]

theorem sizeOf_lt_of_child {node child : Node} (h : child ∈ node.children) :
    sizeOf child < sizeOf node := by
  cases node with
  | program _ nodes | function _ _ _ nodes | array _ nodes | object _ nodes =>
      have hlt := List.sizeOf_lt_of_mem (show child ∈ nodes from h)
      simp only [program.sizeOf_spec, function.sizeOf_spec, array.sizeOf_spec, object.sizeOf_spec]
      omega
  | declaration _ _ _ value | property _ _ value =>
      rw [List.mem_singleton.1 h]
      simp only [declaration.sizeOf_spec, property.sizeOf_spec]
      omega
  | assignment _ first second | binary _ _ first second | member _ first second _ =>
      simp only [children, List.mem_cons, List.not_mem_nil, or_false] at h
      simp only [assignment.sizeOf_spec, binary.sizeOf_spec, member.sizeOf_spec]
      rcases h with rfl | rfl <;> omega
  | call _ callee values =>
      rw [call.sizeOf_spec]
      rcases List.mem_cons.1 h with rfl | hvalue
      · omega
      · have hlt := List.sizeOf_lt_of_mem hvalue
        omega
  | _ => contradiction

/-- What holds of a node when it holds of its children, holds of all trees. -/
theorem children_induction {motive : Node → Prop}
    (step : ∀ node : Node, (∀ child ∈ node.children, motive child) → motive node)
    (node : Node) : motive node :=
  step node fun child _ => children_induction step child
termination_by sizeOf node
decreasing_by exact sizeOf_lt_of_child ‹_›

theorem unplacedAll_eq_map (nodes : List Node) : unplacedAll nodes = nodes.map unplaced := by
  induction nodes with
  | nil => rfl
  | cons node rest ih => rw [unplacedAll, ih, List.map_cons]

theorem head_unplaced (node : Node) : node.unplaced.head = node.head := by
  cases node <;> rfl

theorem children_unplaced (node : Node) :
    node.unplaced.children = node.children.map unplaced := by
  rw [← unplacedAll_eq_map]
  cases node <;> rfl

theorem unplacedAll_eq_iff {xs ys : List Node} :
    unplacedAll xs = unplacedAll ys ↔
      List.Forall₂ (fun x y => x.unplaced = y.unplaced) xs ys := by
  rw [unplacedAll_eq_map, unplacedAll_eq_map, map_eq_map_iff_rel]

/-- Trees are the same without places when their heads are and their children are without
places. -/
theorem unplaced_eq_iff {a b : Node} :
    a.unplaced = b.unplaced ↔
      a.head = b.head ∧
        List.Forall₂ (fun x y => x.unplaced = y.unplaced) a.children b.children := by
  rw [← map_eq_map_iff_rel, ← children_unplaced, ← children_unplaced]
  constructor
  · intro h
    rw [← head_unplaced a, ← head_unplaced b, h]
    exact ⟨rfl, rfl⟩
  · rintro ⟨hhead, hchildren⟩
    have hheads : a.unplaced.head = b.unplaced.head := by
      rw [head_unplaced, head_unplaced, hhead]
    have hplaces : a.unplaced.position = b.unplaced.position := by
      rw [position_unplaced, position_unplaced]
    exact eq_of_parts hheads hplaces hchildren

theorem unplaced_unplaced (node : Node) : node.unplaced.unplaced = node.unplaced := by
  induction node using children_induction with
  | step node ih =>
      refine unplaced_eq_iff.2 ⟨head_unplaced node, ?_⟩
      rw [children_unplaced, List.forall₂_map_left_iff]
      exact List.forall₂_same.2 ih

theorem unplacedAll_unplacedAll (nodes : List Node) :
    unplacedAll (unplacedAll nodes) = unplacedAll nodes := by
  rw [unplacedAll_eq_iff, unplacedAll_eq_map, List.forall₂_map_left_iff]
  exact List.forall₂_same.2 fun node _ => unplaced_unplaced node

end Node

end Nomi
