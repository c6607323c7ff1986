import Nomi.Proofs.Syntax.Grammar

/-!
# First tokens

What a phrase begins with, and what would go on with it, shows in the kind of
one token.  A phrase stops where the next token is none of the latter.
-/

namespace Nomi.Grammar

def Phrase.mayBeEmpty : Phrase → Bool
  | .suffixes .. | .run .. | .elements _ | .entries _ | .statements _ => true
  | _ => false

theorem Level.mayBeEmpty_operand (level : Level) (tree : Node) :
    (level.operand tree).mayBeEmpty = false := by
  cases level <;> rfl

theorem Derives.ne_nil {boundary : Boundary} {tokens : List Token} {phrase : Phrase}
    (h : Derives boundary tokens phrase) (hphrase : phrase.mayBeEmpty = false) : tokens ≠ [] := by
  induction h with
  | noSuffix | member | index | call | noOperator | operator | noElement | lastElement | element
  | noEntry | lastEntry | entry | noStatement | statement => contradiction
  | suffixed _ _ ih => simp [ih rfl]
  | chain _ _ ih => simp [ih (Level.mayBeEmpty_operand _ _)]
  | comparison _ ih | target _ ih | lastValue _ ih | expressionStatement _ _ ih => exact ih rfl
  | _ => simp

theorem begins_of_append {kinds : List Token.Kind} {first rest : List Token}
    (h : begins kinds (first ++ rest) = false) : begins kinds first = false := by
  cases first with
  | nil => rfl
  | cons token more => exact h

def operandFirsts : List Token.Kind :=
  [.identifier, .number, .string, .openParen]

def expressionFirsts : List Token.Kind :=
  .openBracket :: .readWord :: .openBrace :: operandFirsts

def statementFirsts : List Token.Kind :=
  .letWord :: .constWord :: .fnWord :: expressionFirsts

def suffixFirsts : List Token.Kind :=
  [.dot, .openBracket, .openParen]

/-- The kinds that a phrase begins with, if it has any tokens. -/
def Phrase.firsts : Phrase → List Token.Kind
  | .primary _ | .suffixed _ | .chain .. => operandFirsts
  | .suffixes .. => suffixFirsts
  | .run .. => [.operator]
  | .target .. => .openBrace :: operandFirsts
  | .expression .. | .elements _ | .values _ => expressionFirsts
  | .arguments _ => [.openParen]
  | .entry _ | .entries _ => [.identifier]
  | .statement .. | .statements _ => statementFirsts

theorem begins_cons {kinds : List Token.Kind} {token : Token} {rest : List Token} :
    begins kinds (token :: rest) = true ↔ token.kind ∈ kinds := by
  simp [begins]

theorem begins_cons_eq_false {kinds : List Token.Kind} {token : Token} {rest : List Token} :
    begins kinds (token :: rest) = false ↔ token.kind ∉ kinds := by
  simp [begins]

/-- Only the first token counts, if there is one. -/
theorem begins_append_eq {kinds : List Token.Kind} {first : List Token} (others : List Token.Kind)
    (rest : List Token) (h : begins kinds first = true) :
    begins others (first ++ rest) = begins others first := by
  cases first with
  | nil => simp [begins] at h
  | cons token more => rfl

theorem begins_append {kinds : List Token.Kind} {first : List Token} (rest : List Token)
    (h : begins kinds first = true) : begins kinds (first ++ rest) = true := by
  rw [begins_append_eq kinds rest h]
  exact h

theorem begins_mono {kinds more : List Token.Kind} {tokens : List Token}
    (hsubset : ∀ kind ∈ kinds, kind ∈ more) (h : begins kinds tokens = true) :
    begins more tokens = true := by
  cases tokens with
  | nil => simp [begins] at h
  | cons token rest => exact begins_cons.2 (hsubset _ (begins_cons.1 h))

theorem length_pos_of_begins {kinds : List Token.Kind} {tokens : List Token}
    (h : begins kinds tokens = true) : 0 < tokens.length := by
  cases tokens with
  | nil => simp [begins] at h
  | cons token rest => exact Nat.succ_pos _

/-- Tokens do not begin with what the kinds they begin with leave out. -/
theorem begins_eq_false {kinds others : List Token.Kind} {tokens : List Token}
    (h : begins kinds tokens = true) (hdisjoint : ∀ kind ∈ kinds, kind ∉ others) :
    begins others tokens = false := by
  cases tokens with
  | nil => rfl
  | cons token rest =>
      exact begins_cons_eq_false.2 (hdisjoint _ (begins_cons.1 h))

theorem targetFirsts_subset : ∀ kind ∈ .openBrace :: operandFirsts, kind ∈ expressionFirsts :=
  fun _ hmem => List.mem_cons_of_mem _ (List.mem_cons_of_mem _ hmem)

theorem expressionFirsts_subset : ∀ kind ∈ expressionFirsts, kind ∈ statementFirsts :=
  fun _ hmem => List.mem_cons_of_mem _ (List.mem_cons_of_mem _ (List.mem_cons_of_mem _ hmem))

theorem Level.firsts_operand (level : Level) (tree : Node) :
    (level.operand tree).firsts = operandFirsts := by
  cases level <;> rfl

theorem Derives.begins {boundary : Boundary} {tokens : List Token} {phrase : Phrase}
    (h : Derives boundary tokens phrase) (htokens : tokens ≠ []) :
    Grammar.begins phrase.firsts tokens = true := by
  induction h with
  | identifier h | string h | number h => simp [Phrase.firsts, operandFirsts, begins_cons, h]
  | group h => simp [Phrase.firsts, operandFirsts, begins_cons, h]
  | noSuffix | noOperator | noElement | noEntry | noStatement => contradiction
  | suffixed hfirst _ ih => exact begins_append _ (ih (hfirst.ne_nil rfl))
  | member h | index h => simp [Phrase.firsts, suffixFirsts, begins_cons, h]
  | call hinner _ ih =>
      have hsubset : ∀ kind ∈ [Token.Kind.openParen], kind ∈ suffixFirsts := by decide
      exact begins_append _ (begins_mono hsubset (ih (hinner.ne_nil rfl)))
  | chain hfirst _ ih =>
      have hoperand := ih (hfirst.ne_nil (Level.mayBeEmpty_operand _ _))
      rw [Level.firsts_operand] at hoperand
      exact begins_append _ hoperand
  | operator h | object h => simp [Phrase.firsts, begins_cons, h]
  | comparison _ ih => exact begins_mono (fun _ => List.mem_cons_of_mem _) (ih htokens)
  | target _ ih => exact begins_mono targetFirsts_subset (ih htokens)
  | array h | read h => simp [Phrase.firsts, expressionFirsts, begins_cons, h]
  | assignment hleft _ _ ih =>
      exact begins_append _ (begins_mono targetFirsts_subset (ih (hleft.ne_nil rfl)))
  | lastElement _ ih | lastValue _ ih | lastEntry _ ih => exact ih htokens
  | element hfirst _ _ ih | value hfirst _ _ ih | entry hfirst _ _ ih =>
      exact begins_append _ (ih (hfirst.ne_nil rfl))
  | noArguments h | arguments h | shorthand h | property h =>
      simp [Phrase.firsts, begins_cons, h]
  | declarationWithoutValue h | function h | readStatement h =>
      simp [Phrase.firsts, statementFirsts, expressionFirsts, begins_cons, h]
  | declarationOfLine h | declaration h =>
      rcases h with h | h <;> simp [Phrase.firsts, statementFirsts, begins_cons, h]
  | expressionStatement _ _ ih => exact begins_mono expressionFirsts_subset (ih htokens)
  | endedStatement _ hexpression _ ih =>
      exact begins_append _ (begins_mono expressionFirsts_subset (ih (hexpression.ne_nil rfl)))
  | statement hfirst _ _ ih => exact begins_append _ (ih (hfirst.ne_nil rfl))

/-- Whether no operand goes on into the tokens, neither with a suffix nor with
one of the given operators. -/
def StopsOperand (symbols : List String) (rest : List Token) : Prop :=
  begins suffixFirsts rest = false ∧
    ∀ token more, rest = token :: more → token.kind = .operator → token.lexeme ∉ symbols

theorem StopsOperand.mono {symbols fewer : List String} {rest : List Token}
    (h : StopsOperand symbols rest) (hsubset : ∀ text ∈ fewer, text ∈ symbols) :
    StopsOperand fewer rest :=
  ⟨h.1, fun token more hrest hkind hmem => h.2 token more hrest hkind (hsubset _ hmem)⟩

def Level.tighter : Level → List String
  | .product => []
  | .sum => Level.product.symbols
  | .comparison => Level.sum.symbols ++ Level.product.symbols

/-- An operator of a level ends its left operand. -/
theorem stopsOperand_operator {level : Level} {symbol : Token} (rest : List Token)
    (hkind : symbol.kind = .operator) (hsymbol : symbol.lexeme ∈ level.symbols) :
    StopsOperand level.tighter (symbol :: rest) := by
  refine ⟨by simp [begins, suffixFirsts, hkind], ?_⟩
  intro token more h _
  cases h
  have hdisjoint : ∀ text ∈ level.symbols, text ∉ level.tighter := by
    cases level <;> decide
  exact hdisjoint _ hsymbol

def StopsExpression (marked : Bool) (rest : List Token) : Prop :=
  begins [.equals] rest = false ∧
    (marked = false → begins (.operator :: suffixFirsts) rest = false)

def StopsStatement (marked : Bool) (rest : List Token) : Prop :=
  begins [.semicolon] rest = false ∧ StopsExpression marked rest

theorem StopsExpression.operand {rest : List Token} (h : StopsExpression false rest)
    (symbols : List String) : StopsOperand symbols rest := by
  have hnone := h.2 rfl
  cases rest with
  | nil => exact ⟨rfl, fun token more heq => by contradiction⟩
  | cons token more =>
      have hkind := begins_cons_eq_false.1 hnone
      refine ⟨begins_cons_eq_false.2 fun hmem => hkind (List.mem_cons_of_mem _ hmem), ?_⟩
      intro first others heq hoperator
      cases heq
      simp [hoperator] at hkind

theorem stopsExpression_of_begins {kinds : List Token.Kind} {rest : List Token} (marked : Bool)
    (h : begins kinds rest = true)
    (hkinds : ∀ kind ∈ kinds, kind ∉ .equals :: .operator :: suffixFirsts) :
    StopsExpression marked rest := by
  constructor
  · apply begins_eq_false h
    intro kind hmem hequals
    exact hkinds kind hmem (List.mem_singleton.1 hequals ▸ List.mem_cons_self)
  · intro _
    apply begins_eq_false h
    intro kind hmem hoperand
    exact hkinds kind hmem (List.mem_cons_of_mem _ hoperand)

theorem stopsExpression_cons {token : Token} {kind : Token.Kind} {rest : List Token}
    (marked : Bool) (h : token.kind = kind) (hkind : kind ∉ .equals :: .operator :: suffixFirsts) :
    StopsExpression marked (token :: rest) := by
  apply stopsExpression_of_begins marked (begins_cons.2 (List.mem_singleton.2 h))
  intro other hmem
  rw [List.mem_singleton.1 hmem]
  exact hkind

end Nomi.Grammar
