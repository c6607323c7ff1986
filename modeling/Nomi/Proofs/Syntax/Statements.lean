import Nomi.Proofs.Syntax.Evaluable
import Nomi.Proofs.Syntax.Sources

/-!
# Statements and expressions

Every node may stand anywhere in a tree, but not in a tree that was parsed: there
declarations are statements of a program or of a function's body, and what they
hold, like every other statement, is an expression all the way down.
-/

namespace Nomi

namespace Node

mutual

/-- Whether a tree is an expression with nothing but expressions in it, so that no
part of it declares a name. -/
def isExpression : Node → Bool
  | .identifier .. | .number .. | .string .. | .read .. => true
  | .array _ elements => areExpressions elements
  | .object _ properties => arePairs properties
  | .assignment _ target value => isExpression target && isExpression value
  | .binary _ _ left right => isExpression left && isExpression right
  | .call _ callee values => isExpression callee && areExpressions values
  | .member _ owner key _ => isExpression owner && isExpression key
  | .program .. | .declaration .. | .function .. | .property .. | .abstract .. | .absent => false

def areExpressions : List Node → Bool
  | [] => true
  | node :: rest => isExpression node && areExpressions rest

def arePairs : List Node → Bool
  | [] => true
  | .property _ _ value :: rest => (value.isAbsent || isExpression value) && arePairs rest
  | _ :: _ => false

end

theorem areExpressions_eq_all (nodes : List Node) :
    areExpressions nodes = nodes.all isExpression := by
  induction nodes with
  | nil => rfl
  | cons node rest ih => rw [areExpressions, List.all_cons, ih]

theorem arePairs_cons (node : Node) (rest : List Node) :
    arePairs (node :: rest) = (arePairs [node] && arePairs rest) := by
  cases node <;> simp [arePairs]

theorem arePairs_of_mem {node : Node} {nodes : List Node} (h : arePairs nodes = true)
    (hmem : node ∈ nodes) : arePairs [node] = true := by
  induction nodes with
  | nil => contradiction
  | cons other rest ih =>
      rw [arePairs_cons, Bool.and_eq_true] at h
      rcases List.mem_cons.1 hmem with rfl | hrest
      · exact h.1
      · exact ih h.2 hrest

mutual

/-- Whether a tree is a statement: an expression, or a declaration whose parts are
expressions and statements where they have to be. -/
def isStatement : Node → Bool
  | .declaration _ _ _ value => value.isAbsent || isExpression value
  | .function _ _ _ body => areStatements body
  | node => isExpression node

def areStatements : List Node → Bool
  | [] => true
  | node :: rest => isStatement node && areStatements rest

end

theorem areStatements_append (first second : List Node) :
    areStatements (first ++ second) = (areStatements first && areStatements second) := by
  induction first with
  | nil => rfl
  | cons node rest ih => rw [List.cons_append, areStatements, ih, areStatements, Bool.and_assoc]

theorem isStatement_of_isExpression {node : Node} (h : node.isExpression = true) :
    node.isStatement = true := by
  cases node with
  | program | declaration | function | property | abstract | absent => contradiction
  | _ => exact h

end Node

namespace Grammar

open Node

def Phrase.isFitting : Phrase → Prop
  | .primary tree | .suffixed tree | .chain _ tree | .target tree _ | .expression tree _ =>
      tree.isExpression = true
  | .suffixes before tree | .run _ before tree =>
      before.isExpression = true → tree.isExpression = true
  | .elements trees | .values trees | .arguments trees => areExpressions trees = true
  | .entry tree => arePairs [tree] = true
  | .entries trees => arePairs trees = true
  | .statement tree _ => tree.isStatement = true
  | .statements trees => areStatements trees = true

theorem Phrase.isFitting_operand {level : Level} {tree : Node} :
    (level.operand tree).isFitting ↔ tree.isExpression = true := by
  cases level <;> rfl

theorem Derives.isFitting {boundary : Boundary} {tokens : List Token} {phrase : Phrase}
    (h : Derives boundary tokens phrase) : phrase.isFitting := by
  induction h with
  | identifier | number | string | read | declarationWithoutValue | declarationOfLine
  | readStatement | shorthand | noElement | noArguments | noEntry | noStatement => rfl
  | group _ _ _ ih | array _ _ _ ih | object _ _ _ ih | comparison _ ih | target _ ih
  | arguments _ _ _ ih | lastEntry _ ih => exact ih
  | expressionStatement _ _ ih | endedStatement _ _ _ ih => exact isStatement_of_isExpression ih
  | suffixed _ _ ihFirst ihMore => exact ihMore ihFirst
  | noSuffix | noOperator => exact id
  | member _ _ _ ih =>
      intro hobject
      exact ih (by simp [isExpression, hobject])
  | index _ _ _ _ ihKey ihMore =>
      intro hobject
      simp only [Phrase.isFitting] at ihKey
      exact ihMore (by simp [isExpression, hobject, ihKey])
  | call _ _ ihInner ihMore =>
      intro hobject
      simp only [Phrase.isFitting] at ihInner
      exact ihMore (by simp [isExpression, hobject, ihInner])
  | chain _ _ ihFirst ihMore => exact ihMore (Phrase.isFitting_operand.1 ihFirst)
  | operator _ _ _ _ ihOperand ihMore =>
      intro hleft
      have hright := Phrase.isFitting_operand.1 ihOperand
      exact ihMore (by simp [isExpression, hleft, hright])
  | assignment _ _ _ ihLeft ihRight =>
      simp only [Phrase.isFitting] at ihLeft ihRight
      simp [Phrase.isFitting, isExpression, ihLeft, ihRight]
  | lastElement _ ih | lastValue _ ih =>
      simp only [Phrase.isFitting] at ih
      simp [Phrase.isFitting, areExpressions, ih]
  | element _ _ _ ihFirst ihMore | value _ _ _ ihFirst ihMore =>
      simp only [Phrase.isFitting] at ihFirst ihMore
      simp [Phrase.isFitting, areExpressions, ihFirst, ihMore]
  | property _ _ _ ih =>
      simp only [Phrase.isFitting] at ih
      simp [Phrase.isFitting, arePairs, ih]
  | entry _ _ _ ihFirst ihMore =>
      simp only [Phrase.isFitting] at ihFirst ihMore
      rw [Phrase.isFitting, arePairs_cons, ihFirst, ihMore]
      rfl
  | declaration _ _ _ _ _ _ ih =>
      simp only [Phrase.isFitting] at ih
      simp [Phrase.isFitting, isStatement, ih]
  | function _ _ _ _ _ _ _ _ ihBody => exact ihBody
  | statement _ _ _ ihFirst ihMore =>
      simp only [Phrase.isFitting] at ihFirst ihMore
      simp [Phrase.isFitting, areStatements, ihFirst, ihMore]

end Grammar

theorem areStatements_of_parse {source : String} {program : Node}
    (h : parse source = .ok program) :
    ∃ body, program = .program .start body ∧ Node.areStatements body = true := by
  obtain ⟨tokens, stop, body, rfl, hparsed⟩ := parsed_of_parse h
  exact ⟨body, rfl, hparsed.derives.isFitting⟩

end Nomi
