import Nomi.Proofs.Lexical.Tokens
import Nomi.Proofs.Syntax.Language

/-!
# Trees with a value

Not every tree has the parts that its evaluation asks for.  Those that derive in
the grammar have, and so have those that are parsed.
-/

namespace Nomi

def Operator.isKnown : Operator → Bool
  | .other _ => false
  | _ => true

namespace Node

def isAbsent : Node → Bool
  | .absent => true
  | _ => false

def isIdentifier : Node → Bool
  | .identifier .. => true
  | _ => false

mutual

/-- Whether a tree has all the parts that its evaluation asks for.  The target
of an assignment is looked at, but not evaluated. -/
def isEvaluable : Node → Bool
  | .program _ body | .function _ _ _ body => isEvaluableAll body
  | .declaration _ _ _ value => value.isAbsent || isEvaluable value
  | .array _ elements => isEvaluableAll elements
  | .assignment _ _ value => isEvaluable value
  | .binary _ operator left right => operator.isKnown && isEvaluable left && isEvaluable right
  | .call _ callee values => isEvaluable callee && isEvaluableAll values
  | .member _ owner key computed =>
      isEvaluable owner && if computed then isEvaluable key else key.isIdentifier
  | .identifier .. | .number .. | .string .. | .read .. => true
  | .object _ properties => areEntries properties
  | .property .. | .abstract .. | .absent => false

def isEvaluableAll : List Node → Bool
  | [] => true
  | node :: rest => isEvaluable node && isEvaluableAll rest

def areEntries : List Node → Bool
  | [] => true
  | .property _ _ value :: rest => (value.isAbsent || isEvaluable value) && areEntries rest
  | _ :: _ => false

end

theorem isEvaluableAll_eq_all (nodes : List Node) :
    isEvaluableAll nodes = nodes.all isEvaluable := by
  induction nodes with
  | nil => rfl
  | cons node rest ih => rw [isEvaluableAll, List.all_cons, ih]

end Node

namespace Grammar

open Node

theorem Level.isKnown_ofSymbol {level : Level} {symbol : String} (h : symbol ∈ level.symbols) :
    (Operator.ofSymbol symbol).isKnown = true := by
  have hall : ∀ symbol ∈ ["*", "/", "%", "+", "-", "<", ">"],
      (Operator.ofSymbol symbol).isKnown = true := by decide
  have hmem : symbol ∈ ["*", "/", "%", "+", "-", "<", ">"] := by
    cases level with
    | product => exact List.mem_append_left ["+", "-", "<", ">"] h
    | sum => exact List.mem_append_right ["*", "/", "%"] (List.mem_append_left ["<", ">"] h)
    | comparison => exact List.mem_append_right ["*", "/", "%", "+", "-"] h
  exact hall symbol hmem

/-- Whether the trees of a phrase can be evaluated.  Suffixes and operators go
on from a tree, which has to be evaluable itself. -/
def Phrase.isEvaluable : Phrase → Prop
  | .primary tree | .suffixed tree | .chain _ tree | .target tree _ | .expression tree _
  | .statement tree _ => tree.isEvaluable = true
  | .suffixes before tree | .run _ before tree =>
      before.isEvaluable = true → tree.isEvaluable = true
  | .elements trees | .values trees | .arguments trees | .statements trees =>
      isEvaluableAll trees = true
  | .entry tree => areEntries [tree] = true
  | .entries trees => areEntries trees = true

theorem Phrase.isEvaluable_operand {level : Level} {tree : Node} :
    (level.operand tree).isEvaluable ↔ tree.isEvaluable = true := by
  cases level <;> rfl

theorem areEntries_cons {node : Node} {rest : List Node} (hnode : areEntries [node] = true)
    (hrest : areEntries rest = true) : areEntries (node :: rest) = true := by
  cases node with
  | property => simp_all [areEntries]
  | _ => contradiction

theorem Derives.isEvaluable {boundary : Boundary} {tokens : List Token} {phrase : Phrase}
    (h : Derives boundary tokens phrase) : phrase.isEvaluable := by
  induction h with
  | identifier | number | string | read | declarationWithoutValue | declarationOfLine
  | readStatement | shorthand | noElement | noArguments | noEntry | noStatement => rfl
  | group _ _ _ ih | array _ _ _ ih | object _ _ _ ih | comparison _ ih | target _ ih
  | arguments _ _ _ ih | expressionStatement _ _ ih | endedStatement _ _ _ ih
  | lastEntry _ ih => exact ih
  | suffixed _ _ ihFirst ihMore => exact ihMore ihFirst
  | noSuffix | noOperator => exact id
  | member _ _ _ ih =>
      intro hobject
      exact ih (by simp [Node.isEvaluable, hobject, isIdentifier])
  | index _ _ _ _ ihKey ihMore =>
      intro hobject
      simp only [Phrase.isEvaluable] at ihKey
      exact ihMore (by simp [Node.isEvaluable, hobject, ihKey])
  | call _ _ ihInner ihMore =>
      intro hobject
      simp only [Phrase.isEvaluable] at ihInner
      exact ihMore (by simp [Node.isEvaluable, hobject, ihInner])
  | chain _ _ ihFirst ihMore => exact ihMore (Phrase.isEvaluable_operand.1 ihFirst)
  | operator _ hsymbol _ _ ihOperand ihMore =>
      intro hleft
      have hright := Phrase.isEvaluable_operand.1 ihOperand
      exact ihMore (by simp [Node.isEvaluable, hleft, hright, Level.isKnown_ofSymbol hsymbol])
  | assignment _ _ _ _ ihRight => exact ihRight
  | lastElement _ ih | lastValue _ ih =>
      simp only [Phrase.isEvaluable] at ih
      simp [Phrase.isEvaluable, isEvaluableAll, ih]
  | element _ _ _ ihFirst ihMore | value _ _ _ ihFirst ihMore | statement _ _ _ ihFirst ihMore =>
      simp only [Phrase.isEvaluable] at ihFirst ihMore
      simp [Phrase.isEvaluable, isEvaluableAll, ihFirst, ihMore]
  | property _ _ _ ih =>
      simp only [Phrase.isEvaluable] at ih
      simp [Phrase.isEvaluable, areEntries, ih]
  | entry _ _ _ ihFirst ihMore => exact areEntries_cons ihFirst ihMore
  | declaration _ _ _ _ _ _ ih =>
      simp only [Phrase.isEvaluable] at ih
      simp [Phrase.isEvaluable, Node.isEvaluable, ih]
  | function _ _ _ _ _ _ _ _ ihBody => exact ihBody

end Grammar

theorem parseTokens_isEvaluable {before : List Token} {stop : Token} {program : Node}
    (hstop : stop.kind = .endOfSource) (hlegible : ∀ token ∈ before, Parser.Legible token)
    (h : parseTokens (before ++ [stop]) = .ok program) : program.isEvaluable = true := by
  rcases parseTokens_spec hstop hlegible with ⟨trees, hfound, hderives⟩ | ⟨_, herror, _⟩
  · rw [h, Except.ok.injEq] at hfound
    rw [hfound]
    exact hderives.isEvaluable
  · rw [h] at herror
    contradiction

/-- A source is an evaluable program, or it is refused for an error of its
characters or of the grammar. -/
theorem parse_spec (source : String) :
    (∃ program, parse source = .ok program ∧ program.isEvaluable = true) ∨
      (∃ error, parse source = .error (.lexical error)) ∨
      ∃ error, parse source = .error (.syntactic error) ∧
        ∀ lexeme, error.cause ≠ .notANumeral lexeme := by
  cases htokens : tokenize source with
  | error error =>
      have hparse : parse source = .error (.lexical error) := by
        simp [parse, htokens, Except.mapError, bind, Except.bind]
      exact .inr (.inl ⟨error, hparse⟩)
  | ok tokens =>
      have hparse : parse source = (parseTokens tokens).mapError .syntactic := by
        simp [parse, htokens, Except.mapError, bind, Except.bind]
      obtain ⟨body, stop, rfl, hstop, hbody⟩ := (Lexical.cut_of_tokenize htokens).exists_body
      have hlegible : ∀ token ∈ body, Parser.Legible token := fun token hmem =>
        Parser.legible_of_isPlain (hbody token hmem).1 (hbody token hmem).2
      rw [hparse]
      rcases parseTokens_spec hstop hlegible with ⟨trees, hprogram, _⟩ | herror
      · refine .inl ⟨_, ?_, parseTokens_isEvaluable hstop hlegible hprogram⟩
        rw [hprogram]
        rfl
      · obtain ⟨error, herror, hcause⟩ := herror
        refine .inr (.inr ⟨error, ?_, hcause⟩)
        rw [herror]
        rfl

end Nomi
