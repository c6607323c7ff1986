import Nomi.Proofs.Syntax.Origins

/-!
# The height of trees

The height of a tree counts the nodes on the longest way down.  A test of all nodes of
a tree says where calls stand: nowhere, or outside functions only.
-/

namespace Nomi

namespace Node

mutual

/-- The number of nodes on the longest way down a tree. -/
def height : Node → Nat
  | .program _ nodes | .function _ _ _ nodes | .array _ nodes | .object _ nodes =>
      heightAll nodes + 1
  | .declaration _ _ _ value | .property _ _ value => height value + 1
  | .assignment _ first second | .binary _ _ first second | .member _ first second _ =>
      max (height first) (height second) + 1
  | .call _ callee values => max (height callee) (heightAll values) + 1
  | .identifier .. | .number .. | .string .. | .read .. | .abstract .. => 1
  | .absent => 0

def heightAll : List Node → Nat
  | [] => 0
  | node :: rest => max (height node) (heightAll rest)

end

theorem height_le_heightAll {nodes : List Node} {node : Node} (h : node ∈ nodes) :
    node.height ≤ heightAll nodes := by
  induction nodes with
  | nil => contradiction
  | cons first rest ih =>
      rw [heightAll]
      rcases List.mem_cons.1 h with rfl | hrest
      · exact Nat.le_max_left _ _
      · exact Nat.le_trans (ih hrest) (Nat.le_max_right _ _)

/-- The parts of a tree are lower than the tree. -/
theorem height_lt_of_part {node part : Node} (h : part ∈ node.parts) :
    part.height < node.height := by
  cases node with
  | program _ nodes | function _ _ _ nodes | array _ nodes | object _ nodes =>
      exact Nat.lt_succ_of_le (height_le_heightAll h)
  | declaration _ _ _ value | property _ _ value =>
      simp only [parts] at h
      split at h
      · contradiction
      · rw [List.mem_singleton.1 h, height]
        exact Nat.lt_succ_self _
  | assignment _ first second | binary _ _ first second | member _ first second _ =>
      simp only [parts, List.mem_cons, List.not_mem_nil, or_false] at h
      rw [height]
      rcases h with rfl | rfl <;> omega
  | call _ callee values =>
      rw [height]
      rcases List.mem_cons.1 h with rfl | hvalue
      · omega
      · have hle := height_le_heightAll hvalue
        omega
  | _ => contradiction

mutual

def everywhere (test : Node → Bool) : Node → Bool
  | node@(.program _ nodes) | node@(.function _ _ _ nodes) | node@(.array _ nodes)
  | node@(.object _ nodes) => test node && everywhereAll test nodes
  | node@(.declaration _ _ _ value) | node@(.property _ _ value) =>
      test node && everywhere test value
  | node@(.assignment _ first second) | node@(.binary _ _ first second)
  | node@(.member _ first second _) =>
      test node && everywhere test first && everywhere test second
  | node@(.call _ callee values) =>
      test node && everywhere test callee && everywhereAll test values
  | .absent => true
  | node => test node

def everywhereAll (test : Node → Bool) : List Node → Bool
  | [] => true
  | node :: rest => everywhere test node && everywhereAll test rest

end

theorem everywhereAll_eq_all (test : Node → Bool) (nodes : List Node) :
    everywhereAll test nodes = nodes.all (everywhere test) := by
  induction nodes with
  | nil => rfl
  | cons node rest ih => rw [everywhereAll, List.all_cons, ih]

variable {test other : Node → Bool} {node part : Node}

theorem everywhere_iff :
    node.everywhere test = true ↔
      (node = .absent ∨ test node = true) ∧ ∀ part ∈ node.parts, part.everywhere test = true := by
  cases node with
  | declaration _ _ _ value | property _ _ value =>
      cases value <;> simp [everywhere, parts, isAbsent]
  | _ => simp [everywhere, parts, everywhereAll_eq_all, and_assoc]

theorem everywhere_part (h : node.everywhere test = true) (hpart : part ∈ node.parts) :
    part.everywhere test = true :=
  (everywhere_iff.1 h).2 part hpart

/-- A test that trees pass whose nodes all pass another one is passed by all their
nodes, since the nodes below belong to such trees too. -/
theorem everywhere_of_forall (hother : ∀ node, node.everywhere test = true → other node = true)
    (h : node.everywhere test = true) : node.everywhere other = true := by
  induction hheight : node.height using Nat.strongRecOn generalizing node with
  | ind height ih =>
      subst hheight
      refine everywhere_iff.2 ⟨.inr (hother node h), fun part hpart => ?_⟩
      exact ih part.height (height_lt_of_part hpart) (everywhere_part h hpart) rfl

def isCall : Node → Bool
  | .call .. => true
  | _ => false

def isCallFree (node : Node) : Bool :=
  node.everywhere fun node => !node.isCall

/-- Whether no function of a tree has a call in its body. -/
def callsOutside (node : Node) : Bool :=
  node.everywhere fun
    | .function _ _ _ body => body.all isCallFree
    | _ => true

theorem isCallFree_call {position : Position} {callee : Node} {values : List Node} :
    isCallFree (.call position callee values) = false :=
  rfl

theorem height_pos_of_call (h : node.isCallFree = false) : 0 < node.height := by
  cases node with
  | absent => contradiction
  | _ => exact Nat.succ_pos _

theorem isCallFree_of_callsOutside {position : Position} {name : String}
    {parameters : List String} {body : List Node}
    (h : callsOutside (.function position name parameters body) = true) :
    ∀ node ∈ body, node.isCallFree = true := by
  rcases (everywhere_iff.1 h).1 with hnone | hbody
  · contradiction
  · exact List.all_eq_true.1 hbody

theorem callsOutside_of_isCallFree (h : node.isCallFree = true) : node.callsOutside = true := by
  refine everywhere_of_forall (fun node hnode => ?_) h
  cases node with
  | function position name parameters body =>
      exact List.all_eq_true.2 fun part hpart => everywhere_part hnode hpart
  | _ => rfl

end Node

end Nomi
