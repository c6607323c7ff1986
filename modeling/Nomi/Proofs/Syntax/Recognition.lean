import Nomi.Proofs.Syntax.Completeness

/-!
# The parser and the grammar

Each rule of the grammar passes on what it means for a parser to accept a
phrase, so by induction a parser accepts whatever derives.  With what is read
deriving, the parser of programs accepts a list of tokens exactly when it
derives, and then it returns the derived tree.
-/

namespace Nomi.Parser

open Grammar

/--
The tokens are taken as the phrase by the parser of its kind, whatever comes behind
them.

Bounds on depth and rounds are met by the number of the tokens.  A phrase that
is parsed behind a token needs one level of depth less than it has tokens.
-/
def Accepts (tokens : List Token) : Phrase → Prop
  | .primary tree => ∀ depth rest, tokens.length ≤ depth + 1 →
      Takes (primary (Parser.expression depth)) tokens rest tree
  | .suffixed tree => ∀ depth rest, tokens.length ≤ depth + 1 → StopsOperand [] rest →
      Takes (suffixed (Parser.expression depth)) tokens rest tree
  | .suffixes object tree => ∀ depth rounds rest, tokens.length ≤ depth + 1 →
      tokens.length ≤ rounds → StopsOperand [] rest →
      Takes (extendUpTo (suffix? (Parser.expression depth)) rounds object) tokens rest tree
  | .chain level tree => ∀ depth rest, tokens.length ≤ depth + 1 →
      StopsOperand (level.symbols ++ level.tighter) rest →
      Takes (chain level.symbols (operandOf (Parser.expression depth) level)) tokens rest tree
  | .run level left tree => ∀ depth rounds rest, tokens.length ≤ depth + 1 →
      tokens.length ≤ rounds → StopsOperand (level.symbols ++ level.tighter) rest →
      Takes (extendUpTo
        (operation? level.symbols (operandOf (Parser.expression depth) level)) rounds left)
        tokens rest tree
  | .target tree marked => ∀ depth rest, tokens.length ≤ depth + 1 →
      (marked = false → ∀ symbols, StopsOperand symbols rest) →
      Takes (target (Parser.expression depth)) tokens rest tree
  | .expression tree marked => ∀ depth rest, tokens.length ≤ depth → StopsExpression marked rest →
      Takes (Parser.expression depth) tokens rest tree
  | .elements trees => ∀ depth rounds rest, tokens.length ≤ depth → tokens.length ≤ rounds →
      begins [.closeBracket] rest = true →
      Takes (commaItemsUpTo .closeBracket (Parser.expression depth) rounds) tokens rest trees
  | .values trees => ∃ first more tree others, tokens = first ++ more ∧ trees = tree :: others ∧
      ∀ depth rest, tokens.length ≤ depth → begins [.closeParen] rest = true →
        Takes (Parser.expression depth) first (more ++ rest) tree ∧
        ∀ rounds, more.length ≤ rounds →
          Takes (furtherUpTo (Parser.expression depth) rounds) more rest others
  | .arguments trees => ∀ depth rest, tokens.length ≤ depth + 1 →
      Takes (arguments (Parser.expression depth)) tokens rest trees
  | .entry tree => ∀ depth closing rest, tokens.length ≤ depth → EndsEntry closing rest →
      Takes (entry (Parser.expression depth)) (tokens ++ closing) rest tree
  | .entries trees => ∀ depth rounds rest, tokens.length ≤ depth → tokens.length ≤ rounds →
      begins [.closeBrace] rest = true →
      Takes (itemsUpTo .closeBrace (entry (Parser.expression depth)) rounds) tokens rest trees
  | .statement tree marked => ∀ depth rest, tokens.length ≤ depth → StopsStatement marked rest →
      Takes (Parser.statement depth) tokens rest tree
  | .statements trees => ∀ kind depth rounds rest, tokens.length ≤ depth → tokens.length ≤ rounds →
      (kind = .endOfSource ∧ rest = [] ∨
        kind = .closeBrace ∧ begins [.closeBrace] rest = true) →
      Takes (itemsUpTo kind (Parser.statement depth) rounds) tokens rest trees

/-! ## Operands -/

theorem accepts_identifier {name : Token} (hname : name.kind = .identifier) :
    Accepts [name] (.primary (.identifier name.position name.lexeme)) := by
  intro depth rest _
  apply takes_peek
  rw [hname]
  exact takes_advance (takes_pure _ rest)

theorem accepts_number {token : Token} {value : Float} (htoken : token.kind = .number)
    (hvalue : Numeral.read? token.lexeme.toList = some value) :
    Accepts [token] (.primary (.number token.position value)) := by
  intro depth rest _
  apply takes_peek
  rw [htoken]
  apply takes_advance
  rw [numeral, hvalue]
  exact takes_pure _ rest

theorem accepts_string {token : Token} (htoken : token.kind = .string) :
    Accepts [token] (.primary (.string token.position token.lexeme)) := by
  intro depth rest _
  apply takes_peek
  rw [htoken]
  exact takes_advance (takes_pure _ rest)

theorem accepts_group {left right : Token} {inner : List Token} {tree : Node} {marked : Bool}
    (hleft : left.kind = .openParen) (hinner : Accepts inner (.expression tree marked))
    (hright : right.kind = .closeParen) :
    Accepts (left :: (inner ++ [right])) (.primary tree) := by
  intro depth rest hlength
  have hstops : StopsExpression marked (right :: rest) :=
    stopsExpression_cons marked hright (by decide)
  simp only [List.length_cons, List.length_append, List.length_nil] at hlength
  exact takes_group hleft hright (hinner depth (right :: rest) (by omega) hstops)

theorem accepts_suffixed {first more : List Token} {object tree : Node}
    (hfirst : Accepts first (.primary object)) (hmore : Accepts more (.suffixes object tree)) :
    Accepts (first ++ more) (.suffixed tree) := by
  intro depth rest hlength hstops
  rw [List.length_append] at hlength
  have hrounds : more.length ≤ (more ++ rest).length := by simp
  exact takes_extend (hfirst depth (more ++ rest) (by omega))
    (hmore depth _ rest (by omega) hrounds hstops)

theorem accepts_noSuffix {object : Node} : Accepts [] (.suffixes object object) := by
  intro depth rounds rest _ _ hstops
  exact takes_noStep rounds (takes_suffix?_none object hstops.1)

/-- A step that takes some tokens goes in front of the loop's further steps. -/
theorem takes_stepFirst {step? : Node → Parser (Option Node)} {rounds : Nat}
    {taken more rest : List Token} {start next node : Node}
    (hstep : Takes (step? start) taken (more ++ rest) (some next)) (htaken : taken ≠ [])
    (hrounds : (taken ++ more).length ≤ rounds)
    (hmore : ∀ rounds, more.length ≤ rounds → Takes (extendUpTo step? rounds next) more rest node) :
    Takes (extendUpTo step? rounds start) (taken ++ more) rest node := by
  have hlength : 0 < taken.length := List.length_pos_iff.2 htaken
  rw [List.length_append] at hrounds
  cases rounds with
  | zero => omega
  | succ rounds => exact takes_step hstep (hmore rounds (by omega))

theorem accepts_member {point name : Token} {more : List Token} {object tree : Node}
    (hpoint : point.kind = .dot) (hname : name.kind = .identifier)
    (hmore : Accepts more
      (.suffixes (.member object.position object (.identifier name.position name.lexeme) false)
        tree)) :
    Accepts (point :: name :: more) (.suffixes object tree) := by
  intro depth rounds rest hlength hrounds hstops
  simp only [List.length_cons] at hlength
  apply takes_stepFirst (takes_member object _ hpoint hname) (by simp) hrounds
  intro rounds hrounds
  exact hmore depth rounds rest (by omega) hrounds hstops

theorem accepts_index {left right : Token} {inner more : List Token} {object key tree : Node}
    {marked : Bool} (hleft : left.kind = .openBracket)
    (hinner : Accepts inner (.expression key marked)) (hright : right.kind = .closeBracket)
    (hmore : Accepts more (.suffixes (.member object.position object key true) tree)) :
    Accepts (left :: (inner ++ right :: more)) (.suffixes object tree) := by
  intro depth rounds rest hlength hrounds hstops
  have htokens : left :: (inner ++ right :: more) = left :: (inner ++ [right]) ++ more := by simp
  simp only [List.length_cons, List.length_append] at hlength
  have hbracket : StopsExpression marked (right :: (more ++ rest)) :=
    stopsExpression_cons marked hright (by decide)
  have hinside := hinner depth (right :: (more ++ rest)) (by omega) hbracket
  rw [htokens] at hrounds ⊢
  apply takes_stepFirst (takes_index object hleft hright hinside) (by simp) hrounds
  intro rounds hrounds
  exact hmore depth rounds rest (by omega) hrounds hstops

theorem accepts_call {inner more : List Token} {object tree : Node} {values : List Node}
    (hopen : begins [.openParen] inner = true) (hinner : Accepts inner (.arguments values))
    (hmore : Accepts more (.suffixes (.call object.position object values) tree)) :
    Accepts (inner ++ more) (.suffixes object tree) := by
  intro depth rounds rest hlength hrounds hstops
  rw [List.length_append] at hlength
  have hinside := hinner depth (more ++ rest) (by omega)
  have hsome : inner ≠ [] := by
    intro h
    simp [h, begins] at hopen
  apply takes_stepFirst (takes_call object hopen hinside) hsome hrounds
  intro rounds hrounds
  exact hmore depth rounds rest (by omega) hrounds hstops

/-- What is accepted as an operand of a level is taken by its parser. -/
theorem accepts_operand {level : Level} {tokens : List Token} {tree : Node}
    (h : Accepts tokens (level.operand tree)) :
    ∀ depth rest, tokens.length ≤ depth + 1 → StopsOperand level.tighter rest →
      Takes (operandOf (Parser.expression depth) level) tokens rest tree := by
  cases level with
  | product | sum | comparison => exact h

theorem accepts_noOperator {level : Level} {left : Node} : Accepts [] (.run level left left) := by
  intro depth rounds rest _ _ hstops
  refine takes_noStep rounds (takes_checkOperator_none ?_ (takes_pure none rest))
  intro token more hrest hkind hmem
  exact hstops.2 token more hrest hkind (List.mem_append_left _ hmem)

/-- Behind an operand stands an operator of its level or what ends the chain. -/
theorem stopsOperand_run {level : Level} {left tree : Node} {boundary : Boundary}
    {more rest : List Token} (hmore : Derives boundary more (.run level left tree))
    (hstops : StopsOperand (level.symbols ++ level.tighter) rest) :
    StopsOperand level.tighter (more ++ rest) := by
  cases hmore with
  | noOperator => exact hstops.mono fun _ => List.mem_append_right _
  | operator hkind hsymbol => exact stopsOperand_operator _ hkind hsymbol

theorem accepts_chain {level : Level} {first more : List Token} {left tree : Node}
    {boundary : Boundary} (hderives : Derives boundary more (.run level left tree))
    (hfirst : Accepts first (level.operand left)) (hmore : Accepts more (.run level left tree)) :
    Accepts (first ++ more) (.chain level tree) := by
  intro depth rest hlength hstops
  rw [List.length_append] at hlength
  have hrounds : more.length ≤ (more ++ rest).length := by simp
  exact takes_extend (accepts_operand hfirst depth _ (by omega) (stopsOperand_run hderives hstops))
    (hmore depth _ rest (by omega) hrounds hstops)

theorem accepts_operator {level : Level} {symbol : Token} {operand more : List Token}
    {left right tree : Node} {boundary : Boundary} (hkind : symbol.kind = .operator)
    (hsymbol : symbol.lexeme ∈ level.symbols)
    (hderives : Derives boundary more
      (.run level (.binary symbol.position (.ofSymbol symbol.lexeme) left right) tree))
    (hoperand : Accepts operand (level.operand right))
    (hmore : Accepts more
      (.run level (.binary symbol.position (.ofSymbol symbol.lexeme) left right) tree)) :
    Accepts (symbol :: (operand ++ more)) (.run level left tree) := by
  intro depth rounds rest hlength hrounds hstops
  simp only [List.length_cons, List.length_append] at hlength
  have hinside := accepts_operand hoperand depth _ (by omega) (stopsOperand_run hderives hstops)
  have htokens : symbol :: (operand ++ more) = symbol :: operand ++ more := rfl
  rw [htokens] at hrounds ⊢
  apply takes_stepFirst (takes_operation? left hkind hsymbol hinside) (by simp) hrounds
  intro rounds hrounds
  exact hmore depth rounds rest (by omega) hrounds hstops

/-! ## Targets and full expressions -/

theorem accepts_object {left right : Token} {inner : List Token} {properties : List Node}
    (hleft : left.kind = .openBrace) (hinner : Accepts inner (.entries properties))
    (hright : right.kind = .closeBrace) :
    Accepts (left :: (inner ++ [right])) (.target (.object left.position properties) true) := by
  intro depth rest hlength _
  simp only [List.length_cons, List.length_append, List.length_nil] at hlength
  have hrounds : inner.length ≤ (inner ++ right :: rest).length := by simp
  have hclose : begins [.closeBrace] (right :: rest) = true := by simp [begins, hright]
  exact takes_object hleft hright (hinner depth _ (right :: rest) (by omega) hrounds hclose)

theorem accepts_comparison {tokens : List Token} {tree : Node}
    (hbegins : begins operandFirsts tokens = true)
    (htokens : Accepts tokens (.chain .comparison tree)) :
    Accepts tokens (.target tree false) := by
  intro depth rest hlength hstops
  exact takes_comparison hbegins (htokens depth rest hlength (hstops rfl _))

theorem accepts_array {left right : Token} {inner : List Token} {elements : List Node}
    (hleft : left.kind = .openBracket) (hinner : Accepts inner (.elements elements))
    (hright : right.kind = .closeBracket) :
    Accepts (left :: (inner ++ [right])) (.expression (.array left.position elements) true) := by
  intro depth rest hlength _
  simp only [List.length_cons, List.length_append, List.length_nil] at hlength
  obtain ⟨depth, rfl⟩ := Nat.exists_eq_add_one_of_ne_zero (show depth ≠ 0 by omega)
  have hrounds : inner.length ≤ (inner ++ right :: rest).length := by simp
  have hclose : begins [.closeBracket] (right :: rest) = true := by simp [begins, hright]
  exact takes_array depth hleft hright
    (hinner depth _ (right :: rest) (by omega) hrounds hclose)

theorem accepts_read {keyword name semicolon : Token} (hkeyword : keyword.kind = .readWord)
    (hname : name.kind = .identifier) (hsemicolon : semicolon.kind = .semicolon) :
    Accepts [keyword, name, semicolon]
      (.expression (.read keyword.position name.lexeme "string" true) true) := by
  intro depth rest hlength _
  simp only [List.length_cons, List.length_nil] at hlength
  obtain ⟨depth, rfl⟩ := Nat.exists_eq_add_one_of_ne_zero (show depth ≠ 0 by omega)
  apply takes_peek
  rw [hkeyword]
  exact takes_readInto rest hname hsemicolon

theorem accepts_target {tokens : List Token} {tree : Node} {marked : Bool}
    (hbegins : begins (.openBrace :: operandFirsts) tokens = true)
    (htokens : Accepts tokens (.target tree marked)) :
    Accepts tokens (.expression tree marked) := by
  intro depth rest hlength hstops
  have hpositive : 0 < tokens.length := length_pos_of_begins hbegins
  obtain ⟨depth, rfl⟩ := Nat.exists_eq_add_one_of_ne_zero (show depth ≠ 0 by omega)
  have hoperand : marked = false → ∀ symbols, StopsOperand symbols rest := by
    intro hmarked symbols
    subst hmarked
    exact hstops.operand symbols
  exact takes_expression depth hbegins
    (takes_targetAlone hstops.1 (htokens depth rest hlength hoperand))

theorem accepts_assignment {left right : List Token} {equals : Token} {target value : Node}
    {leftMarked marked : Bool} (hbegins : begins (.openBrace :: operandFirsts) left = true)
    (hleft : Accepts left (.target target leftMarked)) (hequals : equals.kind = .equals)
    (hright : Accepts right (.expression value marked)) :
    Accepts (left ++ equals :: right)
      (.expression (.assignment target.position target value) marked) := by
  intro depth rest hlength hstops
  rw [List.length_append, List.length_cons] at hlength
  obtain ⟨depth, rfl⟩ := Nat.exists_eq_add_one_of_ne_zero (show depth ≠ 0 by omega)
  have hpositive : 0 < left.length := length_pos_of_begins hbegins
  have hoperand : leftMarked = false →
      ∀ symbols, StopsOperand symbols (equals :: right ++ rest) := by
    intro _ symbols
    refine ⟨by simp [begins, suffixFirsts, hequals], ?_⟩
    intro token more h hkind
    cases h
    simp [hequals] at hkind
  exact takes_expression depth (begins_append _ hbegins)
    (takes_assignment hequals (hleft depth _ (by omega) hoperand)
      (hright depth rest (by omega) hstops))

/-! ## Lists of expressions -/

theorem accepts_noElement : Accepts [] (.elements []) := by
  intro depth rounds rest _ _ hclose
  exact takes_commaItemsUpTo_stopped rounds (.inr hclose)

theorem accepts_lastElement {tokens : List Token} {tree : Node} {marked : Bool}
    (hbegins : begins expressionFirsts tokens = true)
    (htokens : Accepts tokens (.expression tree marked)) : Accepts tokens (.elements [tree]) := by
  intro depth rounds rest hlength hrounds hclose
  have hpositive : 0 < tokens.length := length_pos_of_begins hbegins
  obtain ⟨rounds, rfl⟩ := Nat.exists_eq_add_one_of_ne_zero (show rounds ≠ 0 by omega)
  have hcomma : begins [.comma] rest = false := begins_eq_false hclose (by decide)
  have hstops := stopsExpression_of_begins marked hclose (by decide)
  exact takes_commaItemsUpTo_last rounds hbegins (by decide) (by decide) hcomma
    (htokens depth rest hlength hstops)

theorem accepts_element {first more : List Token} {comma : Token} {tree : Node}
    {trees : List Node} {marked : Bool} (hbegins : begins expressionFirsts first = true)
    (hfirst : Accepts first (.expression tree marked)) (hcomma : comma.kind = .comma)
    (hmore : Accepts more (.elements trees)) :
    Accepts (first ++ comma :: more) (.elements (tree :: trees)) := by
  intro depth rounds rest hlength hrounds hclose
  have hpositive : 0 < first.length := length_pos_of_begins hbegins
  rw [List.length_append, List.length_cons] at hlength hrounds
  obtain ⟨rounds, rfl⟩ := Nat.exists_eq_add_one_of_ne_zero (show rounds ≠ 0 by omega)
  have hstops : StopsExpression marked (comma :: more ++ rest) :=
    stopsExpression_cons marked hcomma (by decide)
  exact takes_commaItemsUpTo hbegins (by decide) (by decide) hcomma
    (hfirst depth _ (by omega) hstops) (hmore depth rounds rest (by omega) (by omega) hclose)

theorem accepts_lastValue {tokens : List Token} {tree : Node} {marked : Bool}
    (htokens : Accepts tokens (.expression tree marked)) : Accepts tokens (.values [tree]) := by
  refine ⟨tokens, [], tree, [], by simp, rfl, fun depth rest hlength hclose => ?_⟩
  refine ⟨htokens depth rest hlength (stopsExpression_of_begins marked hclose (by decide)), ?_⟩
  intro rounds _
  exact takes_noFurther rounds (begins_eq_false hclose (by decide))

theorem accepts_value {first more : List Token} {comma : Token} {tree : Node}
    {trees : List Node} {marked : Bool} (hfirst : Accepts first (.expression tree marked))
    (hcomma : comma.kind = .comma) (hmore : Accepts more (.values trees)) :
    Accepts (first ++ comma :: more) (.values (tree :: trees)) := by
  obtain ⟨second, others, next, nodes, rfl, rfl, hnodes⟩ := hmore
  refine ⟨first, comma :: (second ++ others), tree, next :: nodes, rfl, rfl,
    fun depth rest hlength hclose => ?_⟩
  rw [List.length_append, List.length_cons] at hlength
  have hstops : StopsExpression marked (comma :: (second ++ others) ++ rest) :=
    stopsExpression_cons marked hcomma (by decide)
  obtain ⟨hnext, hothers⟩ := hnodes depth rest (by omega) hclose
  refine ⟨hfirst depth _ (by omega) hstops, fun rounds hrounds => ?_⟩
  simp only [List.length_cons, List.length_append] at hrounds
  obtain ⟨rounds, rfl⟩ := Nat.exists_eq_add_one_of_ne_zero (show rounds ≠ 0 by omega)
  exact takes_further hcomma hnext (hothers rounds (by omega))

theorem accepts_noArguments {left right : Token} (hleft : left.kind = .openParen)
    (hright : right.kind = .closeParen) : Accepts [left, right] (.arguments []) :=
  fun _ rest _ => takes_noArguments rest hleft hright

theorem accepts_arguments {left right : Token} {inner : List Token} {trees : List Node}
    (hleft : left.kind = .openParen) (hbegins : begins expressionFirsts inner = true)
    (hinner : Accepts inner (.values trees)) (hright : right.kind = .closeParen) :
    Accepts (left :: (inner ++ [right])) (.arguments trees) := by
  obtain ⟨first, more, tree, others, rfl, rfl, hnodes⟩ := hinner
  intro depth rest hlength
  simp only [List.length_cons, List.length_append, List.length_nil] at hlength
  have hclose : begins [.closeParen] (right :: rest) = true := by simp [begins, hright]
  have hlength : (first ++ more).length ≤ depth := by
    rw [List.length_append]
    omega
  obtain ⟨hnode, hmore⟩ := hnodes depth (right :: rest) hlength hclose
  have hrounds : more.length ≤ (more ++ right :: rest).length := by simp
  exact takes_arguments hleft hright hbegins (takes_separated hnode (hmore _ hrounds))

theorem accepts_shorthand {key : Token} (hkey : key.kind = .identifier) :
    Accepts [key] (.entry (.property key.position key.lexeme .absent)) :=
  fun _ _ _ _ hend => takes_shorthand hkey hend

theorem accepts_property {key colon : Token} {tokens : List Token} {value : Node} {marked : Bool}
    (hkey : key.kind = .identifier) (hcolon : colon.kind = .colon)
    (htokens : Accepts tokens (.expression value marked)) :
    Accepts (key :: colon :: tokens) (.entry (.property key.position key.lexeme value)) := by
  intro depth closing rest hlength hend
  simp only [List.length_cons] at hlength
  have hstops : StopsExpression marked (closing ++ rest) :=
    stopsExpression_of_begins marked hend.begins (by decide)
  exact takes_property hkey hcolon hend (htokens depth (closing ++ rest) (by omega) hstops)

theorem accepts_noEntry : Accepts [] (.entries []) := by
  intro depth rounds rest _ _ hclose
  exact takes_itemsUpTo_stopped rounds (.inr hclose)

theorem accepts_lastEntry {tokens : List Token} {tree : Node}
    (hbegins : begins [.identifier] tokens = true) (htokens : Accepts tokens (.entry tree)) :
    Accepts tokens (.entries [tree]) := by
  intro depth rounds rest hlength hrounds hclose
  have hpositive : 0 < tokens.length := length_pos_of_begins hbegins
  obtain ⟨rounds, rfl⟩ := Nat.exists_eq_add_one_of_ne_zero (show rounds ≠ 0 by omega)
  have hfirst := htokens depth [] rest hlength (.inl ⟨rfl, hclose⟩)
  rw [List.append_nil] at hfirst
  have hnone : Takes (itemsUpTo .closeBrace (entry (Parser.expression depth)) rounds) [] rest [] :=
    takes_itemsUpTo_stopped rounds (.inr hclose)
  have hall := takes_itemsUpTo hbegins (by decide) (by decide) hfirst hnone
  rw [List.append_nil] at hall
  exact hall

theorem accepts_entry {first more : List Token} {comma : Token} {tree : Node}
    {trees : List Node} (hbegins : begins [.identifier] first = true)
    (hfirst : Accepts first (.entry tree)) (hcomma : comma.kind = .comma)
    (hmore : Accepts more (.entries trees)) :
    Accepts (first ++ comma :: more) (.entries (tree :: trees)) := by
  intro depth rounds rest hlength hrounds hclose
  have hpositive : 0 < first.length := length_pos_of_begins hbegins
  rw [List.length_append, List.length_cons] at hlength hrounds
  obtain ⟨rounds, rfl⟩ := Nat.exists_eq_add_one_of_ne_zero (show rounds ≠ 0 by omega)
  have hone := hfirst depth [comma] (more ++ rest) (by omega) (.inr ⟨comma, rfl, hcomma⟩)
  have htwo := hmore depth rounds rest (by omega) (by omega) hclose
  have htokens : first ++ comma :: more = first ++ [comma] ++ more := by simp
  rw [htokens]
  exact takes_itemsUpTo (begins_append [comma] hbegins) (by decide) (by decide) hone htwo

/-! ## Statements -/

theorem accepts_declarationWithoutValue {keyword name semicolon : Token}
    (hkeyword : keyword.kind = .letWord) (hname : name.kind = .identifier)
    (hsemicolon : semicolon.kind = .semicolon) :
    Accepts [keyword, name, semicolon]
      (.statement (.declaration keyword.position name.lexeme false .absent) true) := by
  intro depth rest hlength _
  simp only [List.length_cons, List.length_nil] at hlength
  obtain ⟨depth, rfl⟩ := Nat.exists_eq_add_one_of_ne_zero (show depth ≠ 0 by omega)
  exact takes_keyword depth (.inl hkeyword)
    (takes_declarationWithoutValue rest hkeyword hname hsemicolon)

theorem accepts_declarationOfLine {keyword name equals read semicolon : Token}
    (hkeyword : keyword.kind = .letWord ∨ keyword.kind = .constWord)
    (hname : name.kind = .identifier) (hequals : equals.kind = .equals)
    (hread : read.kind = .readWord) (hsemicolon : semicolon.kind = .semicolon) :
    Accepts [keyword, name, equals, read, semicolon]
      (.statement (.declaration keyword.position name.lexeme (decide (keyword.kind = .constWord))
        (.read read.position name.lexeme "string" false)) true) := by
  intro depth rest hlength _
  simp only [List.length_cons, List.length_nil] at hlength
  obtain ⟨depth, rfl⟩ := Nat.exists_eq_add_one_of_ne_zero (show depth ≠ 0 by omega)
  exact takes_keyword depth hkeyword (takes_declarationOfLine rest hname hequals hread hsemicolon)

theorem accepts_declaration {keyword name equals semicolon : Token} {tokens : List Token}
    {value : Node} {marked : Bool} (hkeyword : keyword.kind = .letWord ∨ keyword.kind = .constWord)
    (hname : name.kind = .identifier) (hequals : equals.kind = .equals)
    (hread : begins [.readWord] tokens = false) (hbegins : begins expressionFirsts tokens = true)
    (htokens : Accepts tokens (.expression value marked))
    (hsemicolon : semicolon.kind = .semicolon) :
    Accepts (keyword :: name :: equals :: (tokens ++ [semicolon]))
      (.statement (.declaration keyword.position name.lexeme (decide (keyword.kind = .constWord))
        value) true) := by
  intro depth rest hlength _
  simp only [List.length_cons, List.length_append, List.length_nil] at hlength
  obtain ⟨depth, rfl⟩ := Nat.exists_eq_add_one_of_ne_zero (show depth ≠ 0 by omega)
  have hstops : StopsExpression marked (semicolon :: rest) :=
    stopsExpression_cons marked hsemicolon (by decide)
  have hnotRead : begins [.readWord] (tokens ++ [semicolon] ++ rest) = false := by
    rw [List.append_assoc, begins_append_eq _ _ hbegins]
    exact hread
  exact takes_keyword depth hkeyword (takes_declaration hname hequals hnotRead hsemicolon
    (htokens depth (semicolon :: rest) (by omega) hstops))

theorem accepts_function {keyword name left right : Token} {inner body : List Token}
    {written : List Node} {parameters : List String} {statements : List Node}
    (hkeyword : keyword.kind = .fnWord) (hname : name.kind = .identifier)
    (hinner : Accepts inner (.arguments written))
    (hwritten : Node.unplacedAll written = parameters.map (.identifier .nowhere))
    (hleft : left.kind = .openBrace) (hbody : Accepts body (.statements statements))
    (hright : right.kind = .closeBrace) :
    Accepts (keyword :: name :: (inner ++ left :: (body ++ [right])))
      (.statement (.function keyword.position name.lexeme parameters statements) true) := by
  intro depth rest hlength _
  simp only [List.length_cons, List.length_append, List.length_nil] at hlength
  obtain ⟨depth, rfl⟩ := Nat.exists_eq_add_one_of_ne_zero (show depth ≠ 0 by omega)
  have hrounds : body.length ≤ (body ++ right :: rest).length := by simp
  have hclose : begins [.closeBrace] (right :: rest) = true := by simp [begins, hright]
  have harguments := hinner depth (left :: (body ++ [right]) ++ rest) (by omega)
  have hinside :=
    hbody .closeBrace depth _ (right :: rest) (by omega) hrounds (.inr ⟨rfl, hclose⟩)
  apply takes_peek
  rw [hkeyword]
  exact takes_advance (takes_function hname hleft hright
    (parameterNames_eq_ok hwritten) harguments hinside)

theorem accepts_readStatement {keyword name semicolon : Token}
    (hkeyword : keyword.kind = .readWord) (hname : name.kind = .identifier)
    (hsemicolon : semicolon.kind = .semicolon) :
    Accepts [keyword, name, semicolon]
      (.statement (.read keyword.position name.lexeme "string" true) true) := by
  intro depth rest hlength _
  simp only [List.length_cons, List.length_nil] at hlength
  obtain ⟨depth, rfl⟩ := Nat.exists_eq_add_one_of_ne_zero (show depth ≠ 0 by omega)
  apply takes_peek
  rw [hkeyword]
  exact takes_readInto rest hname hsemicolon

theorem accepts_expressionStatement {tokens : List Token} {tree : Node} {marked : Bool}
    (hread : begins [.readWord] tokens = false) (hbegins : begins expressionFirsts tokens = true)
    (htokens : Accepts tokens (.expression tree marked)) :
    Accepts tokens (.statement tree marked) := by
  intro depth rest hlength hstops
  have hpositive : 0 < tokens.length := length_pos_of_begins hbegins
  obtain ⟨depth, rfl⟩ := Nat.exists_eq_add_one_of_ne_zero (show depth ≠ 0 by omega)
  have hexpression := htokens (depth + 1) rest hlength hstops.2
  have hvalue : Takes (expressionStatement (Parser.expression (depth + 1))) (tokens ++ []) rest
      tree := takes_expressionStatement hexpression (.inl ⟨rfl, hstops.1⟩)
  rw [List.append_nil] at hvalue
  exact takes_statement depth hbegins hread hvalue

theorem accepts_endedStatement {tokens : List Token} {semicolon : Token} {tree : Node}
    {marked : Bool} (hread : begins [.readWord] tokens = false)
    (hbegins : begins expressionFirsts tokens = true)
    (htokens : Accepts tokens (.expression tree marked))
    (hsemicolon : semicolon.kind = .semicolon) :
    Accepts (tokens ++ [semicolon]) (.statement tree true) := by
  intro depth rest hlength _
  rw [List.length_append, List.length_singleton] at hlength
  obtain ⟨depth, rfl⟩ := Nat.exists_eq_add_one_of_ne_zero (show depth ≠ 0 by omega)
  have hstops : StopsExpression marked ([semicolon] ++ rest) :=
    stopsExpression_cons marked hsemicolon (by decide)
  have hexpression := htokens (depth + 1) ([semicolon] ++ rest) (by omega) hstops
  have hnotRead : begins [.readWord] (tokens ++ [semicolon]) = false := by
    rw [begins_append_eq _ _ hbegins]
    exact hread
  exact takes_statement depth (begins_append _ hbegins) hnotRead
    (takes_expressionStatement hexpression (.inr ⟨semicolon, rfl, hsemicolon⟩))

theorem accepts_noStatement : Accepts [] (.statements []) := by
  intro kind depth rounds rest _ _ hend
  apply takes_itemsUpTo_stopped rounds
  rcases hend with ⟨_, hrest⟩ | ⟨hkind, hrest⟩
  · exact .inl hrest
  · exact .inr (hkind ▸ hrest)

/-- A statement stops before another one, before a closing brace and at the end,
if it leaves no bracket to its last operand. -/
theorem stopsStatement_of_greedy {marked : Bool} {next : List Token}
    (hnext : next = [] ∨ begins (.closeBrace :: statementFirsts) next = true)
    (hgreedy : Boundary.greedy marked next) : StopsStatement marked next := by
  rcases hnext with rfl | hbegins
  · exact ⟨rfl, rfl, fun _ => rfl⟩
  · refine ⟨begins_eq_false hbegins (by decide), begins_eq_false hbegins (by decide), ?_⟩
    intro hmarked
    have hbracket := hgreedy hmarked
    cases next with
    | nil => rfl
    | cons token rest =>
        have hfirst := begins_cons.1 hbegins
        have hnot := begins_cons_eq_false.1 hbracket
        apply begins_cons_eq_false.2
        intro hmem
        have hsplit : ∀ kind ∈ Token.Kind.operator :: suffixFirsts,
            kind ∉ Token.Kind.closeBrace :: statementFirsts ∨ kind ∈ openings := by decide
        rcases hsplit _ hmem with hother | hopening
        · exact hother hfirst
        · exact hnot hopening

theorem accepts_statement {first more : List Token} {tree : Node} {trees : List Node}
    {marked : Bool} (hbegins : begins statementFirsts first = true)
    (hnext : more = [] ∨ begins statementFirsts more = true)
    (hfirst : Accepts first (.statement tree marked)) (hmore : Accepts more (.statements trees))
    (hgreedy : Boundary.greedy marked more) :
    Accepts (first ++ more) (.statements (tree :: trees)) := by
  intro kind depth rounds rest hlength hrounds hend
  have hpositive : 0 < first.length := length_pos_of_begins hbegins
  rw [List.length_append] at hlength hrounds
  obtain ⟨rounds, rfl⟩ := Nat.exists_eq_add_one_of_ne_zero (show rounds ≠ 0 by omega)
  have hstops : StopsStatement marked (more ++ rest) := by
    rcases hnext with rfl | hstatement
    · rcases hend with ⟨_, rfl⟩ | ⟨_, hclose⟩
      · exact stopsStatement_of_greedy (.inl rfl) fun _ => rfl
      · exact stopsStatement_of_greedy (.inr (begins_mono (by simp) hclose))
          fun _ => begins_eq_false hclose (by decide)
    · refine stopsStatement_of_greedy
        (.inr (begins_mono (fun _ => List.mem_cons_of_mem _) (begins_append rest hstatement))) ?_
      intro hmarked
      rw [begins_append_eq _ _ hstatement]
      exact hgreedy hmarked
  have hkind : kind ∉ statementFirsts := by
    rcases hend with ⟨rfl, _⟩ | ⟨rfl, _⟩ <;> decide
  exact takes_itemsUpTo hbegins (by decide) hkind (hfirst depth (more ++ rest) (by omega) hstops)
    (hmore kind depth rounds rest (by omega) (by omega) hend)

/-! ## Derivations -/

/-- What derives, with brackets left to the expression before them, is
accepted. -/
theorem accepts_of_derives {tokens : List Token} {phrase : Phrase}
    (h : Derives .greedy tokens phrase) : Accepts tokens phrase := by
  induction h with
  | identifier hname => exact accepts_identifier hname
  | number htoken hvalue => exact accepts_number htoken hvalue
  | string htoken => exact accepts_string htoken
  | group hleft _ hright ih => exact accepts_group hleft ih hright
  | suffixed _ _ ihFirst ihMore => exact accepts_suffixed ihFirst ihMore
  | noSuffix => exact accepts_noSuffix
  | member hpoint hname _ ih => exact accepts_member hpoint hname ih
  | index hleft _ hright _ ihKey ihMore => exact accepts_index hleft ihKey hright ihMore
  | call hinner _ ihInner ihMore =>
      exact accepts_call (hinner.begins (hinner.ne_nil rfl)) ihInner ihMore
  | chain _ hmore ihFirst ihMore => exact accepts_chain hmore ihFirst ihMore
  | noOperator => exact accepts_noOperator
  | operator hkind hsymbol _ hmore ihOperand ihMore =>
      exact accepts_operator hkind hsymbol hmore ihOperand ihMore
  | object hleft _ hright ih => exact accepts_object hleft ih hright
  | comparison htokens ih => exact accepts_comparison (htokens.begins (htokens.ne_nil rfl)) ih
  | array hleft _ hright ih => exact accepts_array hleft ih hright
  | read hkeyword hname hsemicolon => exact accepts_read hkeyword hname hsemicolon
  | target htokens ih => exact accepts_target (htokens.begins (htokens.ne_nil rfl)) ih
  | assignment hleft hequals _ ihLeft ihRight =>
      exact accepts_assignment (hleft.begins (hleft.ne_nil rfl)) ihLeft hequals ihRight
  | noElement => exact accepts_noElement
  | lastElement htokens ih => exact accepts_lastElement (htokens.begins (htokens.ne_nil rfl)) ih
  | element hfirst hcomma _ ihFirst ihMore =>
      exact accepts_element (hfirst.begins (hfirst.ne_nil rfl)) ihFirst hcomma ihMore
  | lastValue _ ih => exact accepts_lastValue ih
  | value _ hcomma _ ihFirst ihMore => exact accepts_value ihFirst hcomma ihMore
  | noArguments hleft hright => exact accepts_noArguments hleft hright
  | arguments hleft hinner hright ih =>
      exact accepts_arguments hleft (hinner.begins (hinner.ne_nil rfl)) ih hright
  | shorthand hkey => exact accepts_shorthand hkey
  | property hkey hcolon _ ih => exact accepts_property hkey hcolon ih
  | noEntry => exact accepts_noEntry
  | lastEntry htokens ih => exact accepts_lastEntry (htokens.begins (htokens.ne_nil rfl)) ih
  | entry hfirst hcomma _ ihFirst ihMore =>
      exact accepts_entry (hfirst.begins (hfirst.ne_nil rfl)) ihFirst hcomma ihMore
  | declarationWithoutValue hkeyword hname hsemicolon =>
      exact accepts_declarationWithoutValue hkeyword hname hsemicolon
  | declarationOfLine hkeyword hname hequals hread hsemicolon =>
      exact accepts_declarationOfLine hkeyword hname hequals hread hsemicolon
  | declaration hkeyword hname hequals hread htokens hsemicolon ih =>
      exact accepts_declaration hkeyword hname hequals hread
        (htokens.begins (htokens.ne_nil rfl)) ih hsemicolon
  | function hkeyword hname _ hwritten hleft _ hright ihInner ihBody =>
      exact accepts_function hkeyword hname ihInner hwritten hleft ihBody hright
  | readStatement hkeyword hname hsemicolon =>
      exact accepts_readStatement hkeyword hname hsemicolon
  | expressionStatement hread htokens ih =>
      exact accepts_expressionStatement hread (htokens.begins (htokens.ne_nil rfl)) ih
  | endedStatement hread htokens hsemicolon ih =>
      exact accepts_endedStatement hread (htokens.begins (htokens.ne_nil rfl)) ih hsemicolon
  | noStatement => exact accepts_noStatement
  | @statement first more tree trees marked hfirst hmore hboundary ihFirst ihMore =>
      have hnext : more = [] ∨ begins statementFirsts more = true := by
        by_cases h : more = []
        · exact .inl h
        · exact .inr (hmore.begins h)
      exact accepts_statement (hfirst.begins (hfirst.ne_nil rfl)) hnext ihFirst ihMore hboundary

end Nomi.Parser
