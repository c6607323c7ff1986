import Nomi.Proofs.Syntax.Children

/-!
# Trees that differ in their places

Two trees are alike when they say the same and their places correspond, node by
node, by a given relation.
-/

namespace Nomi

/-- Which places of one tree correspond to which of another. -/
abbrev Places :=
  Position → Position → Prop

namespace Node

/-- Whether two trees are the same, apart from places, which correspond. -/
inductive Alike (places : Places) : Node → Node → Prop
  | program {p q : Position} {xs ys : List Node} (hplace : places p q)
      (hbody : List.Forall₂ (Alike places) xs ys) : Alike places (.program p xs) (.program q ys)
  | declaration {p q : Position} {name : String} {constant : Bool} {x y : Node}
      (hplace : places p q) (hvalue : Alike places x y) :
      Alike places (.declaration p name constant x) (.declaration q name constant y)
  | function {p q : Position} {name : String} {parameters : List String} {xs ys : List Node}
      (hplace : places p q) (hbody : List.Forall₂ (Alike places) xs ys) :
      Alike places (.function p name parameters xs) (.function q name parameters ys)
  | array {p q : Position} {xs ys : List Node} (hplace : places p q)
      (helements : List.Forall₂ (Alike places) xs ys) :
      Alike places (.array p xs) (.array q ys)
  | read {p q : Position} {name type : String} {standalone : Bool} (hplace : places p q) :
      Alike places (.read p name type standalone) (.read q name type standalone)
  | assignment {p q : Position} {a b x y : Node} (hplace : places p q)
      (htarget : Alike places a b) (hvalue : Alike places x y) :
      Alike places (.assignment p a x) (.assignment q b y)
  | binary {p q : Position} {operator : Operator} {a b x y : Node} (hplace : places p q)
      (hleft : Alike places a b) (hright : Alike places x y) :
      Alike places (.binary p operator a x) (.binary q operator b y)
  | call {p q : Position} {f g : Node} {xs ys : List Node} (hplace : places p q)
      (hcallee : Alike places f g) (harguments : List.Forall₂ (Alike places) xs ys) :
      Alike places (.call p f xs) (.call q g ys)
  | member {p q : Position} {a b x y : Node} {computed : Bool} (hplace : places p q)
      (howner : Alike places a b) (hkey : Alike places x y) :
      Alike places (.member p a x computed) (.member q b y computed)
  | identifier {p q : Position} {name : String} (hplace : places p q) :
      Alike places (.identifier p name) (.identifier q name)
  | number {p q : Position} {value : Float} (hplace : places p q) :
      Alike places (.number p value) (.number q value)
  | string {p q : Position} {value : String} (hplace : places p q) :
      Alike places (.string p value) (.string q value)
  | property {p q : Position} {key : String} {x y : Node} (hplace : places p q)
      (hvalue : Alike places x y) : Alike places (.property p key x) (.property q key y)
  | object {p q : Position} {xs ys : List Node} (hplace : places p q)
      (hproperties : List.Forall₂ (Alike places) xs ys) :
      Alike places (.object p xs) (.object q ys)
  | abstract {p q : Position} {kind : Abstract} (hplace : places p q) :
      Alike places (.abstract p kind) (.abstract q kind)
  | absent : Alike places .absent .absent

abbrev AlikeAll (places : Places) : List Node → List Node → Prop :=
  List.Forall₂ (Alike places)

variable {places : Places} {a b : Node}

theorem Alike.head_eq (h : Alike places a b) : a.head = b.head := by
  cases h <;> rfl

theorem Alike.place (h : Alike places a b) (hpresent : a ≠ .absent) :
    places a.position b.position := by
  cases h with
  | absent => contradiction
  | _ => assumption

theorem Alike.children (h : Alike places a b) : AlikeAll places a.children b.children := by
  cases h with
  | program _ hnodes | function _ hnodes | array _ hnodes | object _ hnodes => exact hnodes
  | declaration _ hvalue | property _ hvalue => exact .cons hvalue .nil
  | assignment _ hleft hright | binary _ hleft hright | member _ hleft hright =>
      exact .cons hleft (.cons hright .nil)
  | call _ hcallee hvalues => exact .cons hcallee hvalues
  | _ => exact .nil

theorem alike_assemble (head : Node) {p q : Position} {xs ys : List Node}
    (hplace : head ≠ .absent → places p q) (hnodes : AlikeAll places xs ys) :
    Alike places (head.assemble p xs) (head.assemble q ys) := by
  have hfirst : Alike places (xs.headD .absent) (ys.headD .absent) := rel_headD hnodes .absent
  have hrest : AlikeAll places xs.tail ys.tail := rel_tail hnodes
  have hsecond : Alike places (xs.tail.headD .absent) (ys.tail.headD .absent) :=
    rel_headD hrest .absent
  cases head with
  | absent => exact .absent
  | _ =>
      have hplace := hplace (by simp)
      constructor <;> assumption

/-- Nodes with one head are alike when their places correspond and their children are alike. -/
theorem alike_of_parts (hhead : a.head = b.head)
    (hplace : a ≠ .absent → places a.position b.position)
    (hchildren : AlikeAll places a.children b.children) : Alike places a b := by
  rw [← assemble_eq a, ← assemble_eq b, ← hhead]
  refine alike_assemble a.head (fun hpresent => hplace ?_) hchildren
  rintro rfl
  exact hpresent rfl

theorem alike_self (hplaces : ∀ p, places p p) (node : Node) : Alike places node node := by
  induction node using children_induction with
  | step node ih => exact alike_of_parts rfl (fun _ => hplaces _) (List.forall₂_same.2 ih)

theorem alikeAll_self (hplaces : ∀ p, places p p) (nodes : List Node) :
    AlikeAll places nodes nodes :=
  List.forall₂_same.2 fun node _ => alike_self hplaces node

theorem Alike.eq (h : Alike Eq a b) : a = b := by
  induction a using children_induction generalizing b with
  | step a ih =>
      have hplace : a.position = b.position := by
        by_cases hpresent : a = .absent
        · subst hpresent
          cases h
          rfl
        · exact h.place hpresent
      have hchildren : List.Forall₂ Eq a.children b.children :=
        rel_of_mem h.children fun child hmem _ _ => ih child hmem
      rw [List.forall₂_eq_eq_eq] at hchildren
      exact eq_of_parts h.head_eq hplace hchildren

theorem AlikeAll.eq {xs ys : List Node} (h : AlikeAll Eq xs ys) : xs = ys := by
  rw [← List.forall₂_eq_eq_eq]
  exact h.imp fun _ _ => Alike.eq

/-- Trees that are alike are the same without their places. -/
theorem Alike.unplaced_eq (h : Alike places a b) : a.unplaced = b.unplaced := by
  induction a using children_induction generalizing b with
  | step a ih =>
      refine unplaced_eq_iff.2 ⟨h.head_eq, ?_⟩
      exact rel_of_mem h.children fun child hmem _ _ => ih child hmem

theorem AlikeAll.unplaced_eq {xs ys : List Node} (h : AlikeAll places xs ys) :
    unplacedAll xs = unplacedAll ys :=
  unplacedAll_eq_iff.2 (h.imp fun _ _ => Alike.unplaced_eq)

end Node

end Nomi
