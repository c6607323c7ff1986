import Nomi.Proofs.Syntax.Soundness
import Nomi.Proofs.Syntax.Taking

/-!
# What derives is read

A derivation tells a parser what to take off the tokens ahead.  The parser takes
exactly that much when the rest does not go on with the phrase.
-/

namespace Nomi.Parser

open Grammar

variable {expression : Parser Node}

theorem takes_group {left right : Token} {inner rest : List Token} {node : Node}
    (hleft : left.kind = .openParen) (hright : right.kind = .closeParen)
    (hinner : Takes expression inner (right :: rest) node) :
    Takes (primary expression) (left :: (inner ++ [right])) rest node := by
  apply takes_peek
  rw [hleft]
  apply takes_advance
  apply hinner.bind
  exact takes_expect hright (takes_pure node rest)

theorem takes_suffix?_none {rest : List Token} (object : Node)
    (h : begins suffixFirsts rest = false) : Takes (suffix? expression object) [] rest none := by
  apply takes_peek_nil
  · intro stop hstop _
    rw [hstop]
    exact takes_pure none rest
  · intro token more hrest
    subst hrest
    have hkind := begins_cons_eq_false.1 h
    split
    · next hdot => simp [suffixFirsts, hdot] at hkind
    · next hbracket => simp [suffixFirsts, hbracket] at hkind
    · next hparen => simp [suffixFirsts, hparen] at hkind
    · exact takes_pure none _

theorem takes_member {point name : Token} (object : Node) (rest : List Token)
    (hpoint : point.kind = .dot) (hname : name.kind = .identifier) :
    Takes (suffix? expression object) [point, name] rest
      (some (.member object.position object (.identifier name.position name.lexeme) false)) := by
  apply takes_peek
  rw [hpoint]
  apply takes_advance
  have hmember : Takes memberName [name] rest (.identifier name.position name.lexeme) := by
    apply takes_peek
    rw [if_pos hname]
    exact takes_advance (takes_pure _ rest)
  exact hmember.bind_cons (takes_pure _ rest)

theorem takes_index {left right : Token} {inner rest : List Token} {key : Node} (object : Node)
    (hleft : left.kind = .openBracket) (hright : right.kind = .closeBracket)
    (hinner : Takes expression inner (right :: rest) key) :
    Takes (suffix? expression object) (left :: (inner ++ [right])) rest
      (some (.member object.position object key true)) := by
  apply takes_peek
  rw [hleft]
  apply takes_advance
  apply hinner.bind
  exact takes_expect hright (takes_pure _ rest)

theorem takes_call {inner rest : List Token} {values : List Node} (object : Node)
    (hopen : begins [.openParen] inner = true)
    (hinner : Takes (arguments expression) inner rest values) :
    Takes (suffix? expression object) inner rest
      (some (.call object.position object values)) := by
  obtain ⟨left, more, rfl, hleft⟩ := begins_singleton hopen
  apply takes_peek
  rw [hleft]
  exact hinner.bind_last (takes_pure _ rest)

def operandOf (expression : Parser Node) : Level → Parser Node
  | .product => suffixed expression
  | .sum => chain Level.product.symbols (suffixed expression)
  | .comparison => chain Level.sum.symbols (chain Level.product.symbols (suffixed expression))

theorem takes_operation? {symbols : List String} {operand : Parser Node} {symbol : Token}
    {tokens rest : List Token} {right : Node} (left : Node) (hkind : symbol.kind = .operator)
    (hsymbol : symbol.lexeme ∈ symbols) (hright : Takes operand tokens rest right) :
    Takes (operation? symbols operand left) (symbol :: tokens) rest
      (some (.binary symbol.position (.ofSymbol symbol.lexeme) left right)) := by
  apply takes_checkOperator hkind hsymbol
  apply takes_advance
  exact hright.bind_last (takes_pure _ rest)

/-! ## Arguments, elements and entries -/

theorem takes_noArguments {left right : Token} (rest : List Token)
    (hleft : left.kind = .openParen) (hright : right.kind = .closeParen) :
    Takes (arguments expression) [left, right] rest [] := by
  apply takes_expect hleft
  apply takes_check (by decide)
  have hbegins : begins [.closeParen] ([right] ++ rest) = true := by simp [begins, hright]
  rw [hbegins, if_pos rfl]
  exact (takes_pure [] _).bind_nil (takes_expect hright (takes_pure [] rest))

theorem takes_arguments {left right : Token} {inner rest : List Token} {values : List Node}
    (hleft : left.kind = .openParen) (hright : right.kind = .closeParen)
    (hbegins : begins expressionFirsts inner = true)
    (hinner : Takes (separated expression) inner (right :: rest) values) :
    Takes (arguments expression) (left :: (inner ++ [right])) rest values := by
  apply takes_expect hleft
  apply takes_check (by decide)
  have hnot : begins [.closeParen] (inner ++ [right] ++ rest) = false := by
    rw [List.append_assoc]
    exact begins_eq_false (begins_append _ hbegins) (by decide)
  rw [hnot]
  exact hinner.bind (takes_expect hright (takes_pure values rest))

/-- The end of an entry: a comma, or nothing before the closing brace. -/
def EndsEntry (closing rest : List Token) : Prop :=
  (closing = [] ∧ begins [.closeBrace] rest = true) ∨
    ∃ comma, closing = [comma] ∧ comma.kind = .comma

theorem EndsEntry.begins {closing rest : List Token} (h : EndsEntry closing rest) :
    Grammar.begins [.comma, .closeBrace] (closing ++ rest) = true := by
  rcases h with ⟨rfl, hclose⟩ | ⟨comma, rfl, hcomma⟩
  · exact begins_mono (by decide) hclose
  · simp [begins_cons, hcomma]

theorem takes_entryEnd {closing rest : List Token} (h : EndsEntry closing rest) :
    Takes entryEnd closing rest () := by
  apply takes_check (by decide)
  rcases h with ⟨rfl, hclose⟩ | ⟨comma, rfl, hcomma⟩
  · rw [List.nil_append, hclose, if_pos rfl]
    exact takes_pure () rest
  · have hnot : begins [.closeBrace] ([comma] ++ rest) = false := by simp [begins, hcomma]
    rw [hnot]
    exact takes_expect hcomma (takes_pure () rest)

theorem takes_shorthand {key : Token} {closing rest : List Token} (hkey : key.kind = .identifier)
    (h : EndsEntry closing rest) :
    Takes (entry expression) (key :: closing) rest
      (.property key.position key.lexeme .absent) := by
  apply takes_expect hkey
  rcases h with ⟨rfl, hclose⟩ | ⟨comma, rfl, hcomma⟩
  · have hnot : begins [.comma] rest = false := begins_eq_false hclose (by decide)
    apply takes_accept_none (by decide) hnot
    apply takes_check (by decide)
    rw [List.nil_append, hclose, if_pos rfl]
    exact takes_pure _ rest
  · exact takes_accept (by decide) hcomma (takes_pure _ rest)

theorem takes_property {key colon : Token} {tokens closing rest : List Token} {value : Node}
    (hkey : key.kind = .identifier) (hcolon : colon.kind = .colon) (h : EndsEntry closing rest)
    (hvalue : Takes expression tokens (closing ++ rest) value) :
    Takes (entry expression) (key :: colon :: (tokens ++ closing)) rest
      (.property key.position key.lexeme value) := by
  apply takes_expect hkey
  have hcomma : begins [.comma] (colon :: (tokens ++ closing) ++ rest) = false := by
    simp [begins, hcolon]
  have hbrace : begins [.closeBrace] (colon :: (tokens ++ closing) ++ rest) = false := by
    simp [begins, hcolon]
  apply takes_accept_none (by decide) hcomma
  apply takes_check (by decide)
  rw [hbrace]
  have hentry : Takes (entryValue expression) (colon :: (tokens ++ closing)) rest value := by
    apply takes_expect hcolon
    apply hvalue.bind
    exact (takes_entryEnd h).bind_last (takes_pure value rest)
  exact hentry.bind_last (takes_pure _ rest)

/-! ## Targets and full expressions -/

def target (expression : Parser Node) : Parser Node := do
  if (← get).check .openBrace then object expression else comparison expression

theorem takes_object {left right : Token} {inner rest : List Token} {properties : List Node}
    (hleft : left.kind = .openBrace) (hright : right.kind = .closeBrace)
    (hinner : Takes (itemsUpTo .closeBrace (entry expression) (inner ++ right :: rest).length)
      inner (right :: rest) properties) :
    Takes (target expression) (left :: (inner ++ [right])) rest
      (.object left.position properties) := by
  apply takes_check (by decide)
  have hbegins : begins [.openBrace] (left :: (inner ++ [right]) ++ rest) = true := by
    simp [begins, hleft]
  rw [hbegins, if_pos rfl]
  apply takes_advance
  apply Takes.bind (takes_remaining hinner)
  exact takes_expect hright (takes_pure _ rest)

theorem takes_comparison {tokens rest : List Token} {node : Node}
    (hbegins : begins operandFirsts tokens = true)
    (htokens : Takes (comparison expression) tokens rest node) :
    Takes (target expression) tokens rest node := by
  apply takes_check (by decide)
  have hnot : begins [.openBrace] (tokens ++ rest) = false :=
    begins_eq_false (begins_append rest hbegins) (by decide)
  rw [hnot]
  exact htokens

theorem takes_array {left right : Token} {inner rest : List Token} {elements : List Node}
    (depth : Nat) (hleft : left.kind = .openBracket) (hright : right.kind = .closeBracket)
    (hinner : Takes (commaItemsUpTo .closeBracket (Parser.expression depth)
      (inner ++ right :: rest).length) inner (right :: rest) elements) :
    Takes (Parser.expression (depth + 1)) (left :: (inner ++ [right])) rest
      (.array left.position elements) := by
  apply takes_peek
  rw [hleft]
  apply takes_advance
  apply Takes.bind (takes_remaining hinner)
  exact takes_expect hright (takes_pure _ rest)

theorem takes_readInto {keyword name semicolon : Token} (rest : List Token)
    (hname : name.kind = .identifier) (hsemicolon : semicolon.kind = .semicolon) :
    Takes readInto [keyword, name, semicolon] rest
      (.read keyword.position name.lexeme "string" true) := by
  apply takes_advance
  apply takes_expect hname
  exact takes_expect hsemicolon (takes_pure _ rest)

/-- An assignment parses a target first. -/
theorem assignment_eq (expression : Parser Node) :
    assignment expression = target expression >>= fun target => do
      match ← accept .equals with
      | none => return target
      | some _ =>
          let value ← expression
          return .assignment target.position target value := by
  funext cursor
  by_cases h : cursor.check .openBrace = true
  · have htarget : target expression cursor = object expression cursor := by
      show (if cursor.check .openBrace then _ else _ : Parser Node) cursor = _
      exact congrFun (if_pos h) cursor
    rw [bind_apply, htarget, ← bind_apply]
    show (if cursor.check .openBrace then _ else _ : Parser Node) cursor = _
    exact congrFun (if_pos h) cursor
  · have htarget : target expression cursor = comparison expression cursor := by
      show (if cursor.check .openBrace then _ else _ : Parser Node) cursor = _
      exact congrFun (if_neg h) cursor
    rw [bind_apply, htarget, ← bind_apply]
    show (if cursor.check .openBrace then _ else _ : Parser Node) cursor = _
    exact congrFun (if_neg h) cursor

theorem takes_targetAlone {tokens rest : List Token} {node : Node}
    (hrest : begins [.equals] rest = false) (htokens : Takes (target expression) tokens rest node) :
    Takes (assignment expression) tokens rest node := by
  rw [assignment_eq]
  apply htokens.bind_last
  exact takes_accept_none (by decide) hrest (takes_pure node rest)

theorem takes_assignment {left right rest : List Token} {equals : Token} {target value : Node}
    (hequals : equals.kind = .equals)
    (hleft : Takes (Parser.target expression) left (equals :: right ++ rest) target)
    (hright : Takes expression right rest value) :
    Takes (assignment expression) (left ++ equals :: right) rest
      (.assignment target.position target value) := by
  rw [assignment_eq]
  apply hleft.bind
  apply takes_accept (by decide) hequals
  exact hright.bind_last (takes_pure _ rest)

/-- Everything but arrays and reads is parsed as an assignment. -/
theorem takes_expression {tokens rest : List Token} {node : Node} (depth : Nat)
    (hbegins : begins (.openBrace :: operandFirsts) tokens = true)
    (htokens : Takes (assignment (Parser.expression depth)) tokens rest node) :
    Takes (Parser.expression (depth + 1)) tokens rest node := by
  cases tokens with
  | nil => simp [begins] at hbegins
  | cons token more =>
      have hkind := begins_cons.1 hbegins
      apply takes_peek
      split
      · next hbracket => simp [operandFirsts, hbracket] at hkind
      · next hread => simp [operandFirsts, hread] at hkind
      · exact htokens

/-! ## Statements -/

theorem takes_declarationWithoutValue {keyword name semicolon : Token} (rest : List Token)
    (hkeyword : keyword.kind = .letWord) (hname : name.kind = .identifier)
    (hsemicolon : semicolon.kind = .semicolon) :
    Takes (declaration expression keyword) [name, semicolon] rest
      (.declaration keyword.position name.lexeme false .absent) := by
  apply takes_expect hname
  have hequals : begins [.equals] ([semicolon] ++ rest) = false := by simp [begins, hsemicolon]
  apply takes_accept_none (by decide) hequals
  apply takes_expect hsemicolon
  have hconstant : decide (keyword.kind = .constWord) = false := by simp [hkeyword]
  rw [hconstant]
  exact takes_pure _ rest

theorem takes_declarationOfLine {keyword name equals read semicolon : Token} (rest : List Token)
    (hname : name.kind = .identifier) (hequals : equals.kind = .equals)
    (hread : read.kind = .readWord) (hsemicolon : semicolon.kind = .semicolon) :
    Takes (declaration expression keyword) [name, equals, read, semicolon] rest
      (.declaration keyword.position name.lexeme (decide (keyword.kind = .constWord))
        (.read read.position name.lexeme "string" false)) := by
  apply takes_expect hname
  apply takes_accept (by decide) hequals
  apply takes_accept (by decide) hread
  have hvalue : Takes (readValue name.lexeme read) [semicolon] rest
      (.read read.position name.lexeme "string" false) :=
    takes_expect hsemicolon (takes_pure _ rest)
  exact hvalue.bind_cons (takes_pure _ rest)

theorem takes_declaration {keyword name equals semicolon : Token} {tokens rest : List Token}
    {value : Node} (hname : name.kind = .identifier) (hequals : equals.kind = .equals)
    (hread : begins [.readWord] (tokens ++ [semicolon] ++ rest) = false)
    (hsemicolon : semicolon.kind = .semicolon)
    (hvalue : Takes expression tokens (semicolon :: rest) value) :
    Takes (declaration expression keyword) (name :: equals :: (tokens ++ [semicolon])) rest
      (.declaration keyword.position name.lexeme (decide (keyword.kind = .constWord)) value) := by
  apply takes_expect hname
  apply takes_accept (by decide) hequals
  apply takes_accept_none (by decide) hread
  apply hvalue.bind
  exact takes_expect hsemicolon (takes_pure _ rest)

theorem parameterNames_eq_ok {written : List Node} {names : List String}
    (h : Node.unplacedAll written = names.map (.identifier .nowhere)) :
    parameterNames written = .ok names := by
  induction written generalizing names with
  | nil =>
      have hnames : names = [] := by simpa using h.symm
      rw [hnames]
      rfl
  | cons node rest ih =>
      cases names with
      | nil => simp at h
      | cons name more =>
          simp only [Node.unplacedAll, List.map_cons, List.cons.injEq] at h
          cases node with
          | identifier position written =>
              simp only [Node.unplaced, Node.identifier.injEq] at h
              rw [parameterNames, ih h.2, h.1.2]
              rfl
          | _ => simp at h

theorem takes_function {statement : Parser Node} {keyword name left right : Token}
    {inner body rest : List Token} {written statements : List Node} {parameters : List String}
    (hname : name.kind = .identifier) (hleft : left.kind = .openBrace)
    (hright : right.kind = .closeBrace) (hparameters : parameterNames written = .ok parameters)
    (hinner : Takes (arguments expression) inner (left :: (body ++ [right]) ++ rest) written)
    (hbody : Takes (itemsUpTo .closeBrace statement (body ++ right :: rest).length) body
      (right :: rest) statements) :
    Takes (function expression statement keyword)
      (name :: (inner ++ left :: (body ++ [right]))) rest
      (.function keyword.position name.lexeme parameters statements) := by
  apply takes_expect hname
  apply hinner.bind
  rw [hparameters]
  apply takes_expect hleft
  apply Takes.bind (takes_remaining hbody)
  exact takes_expect hright (takes_pure _ rest)

theorem takes_expressionStatement {tokens closing rest : List Token} {value : Node}
    (hvalue : Takes expression tokens (closing ++ rest) value)
    (hclosing : (closing = [] ∧ begins [.semicolon] rest = false) ∨
      ∃ semicolon, closing = [semicolon] ∧ semicolon.kind = .semicolon) :
    Takes (expressionStatement expression) (tokens ++ closing) rest value := by
  apply hvalue.bind
  rcases hclosing with ⟨rfl, hnone⟩ | ⟨semicolon, rfl, hsemicolon⟩
  · exact takes_accept_none (by decide) hnone (takes_pure value rest)
  · exact takes_accept (by decide) hsemicolon (takes_pure value rest)

/-- Whatever begins with no keyword is parsed as an expression. -/
theorem takes_statement {tokens rest : List Token} {node : Node} (depth : Nat)
    (hbegins : begins expressionFirsts tokens = true) (hread : begins [.readWord] tokens = false)
    (htokens : Takes (expressionStatement (Parser.expression (depth + 1))) tokens rest node) :
    Takes (Parser.statement (depth + 1)) tokens rest node := by
  cases tokens with
  | nil => simp [begins] at hbegins
  | cons token more =>
      have hkind := begins_cons.1 hbegins
      have hnotRead := begins_cons_eq_false.1 hread
      apply takes_peek
      split
      · next hlet => simp [expressionFirsts, operandFirsts, hlet] at hkind
      · next hconst => simp [expressionFirsts, operandFirsts, hconst] at hkind
      · next hfn => simp [expressionFirsts, operandFirsts, hfn] at hkind
      · next hword => simp [hword] at hnotRead
      · exact htokens

/-- A statement that begins with a keyword. -/
theorem takes_keyword {keyword : Token} {more rest : List Token} {node : Node} (depth : Nat)
    (hkeyword : keyword.kind = .letWord ∨ keyword.kind = .constWord)
    (hmore : Takes (declaration (Parser.expression depth) keyword) more rest node) :
    Takes (Parser.statement (depth + 1)) (keyword :: more) rest node := by
  apply takes_peek
  rcases hkeyword with h | h
  · rw [h]
    exact takes_advance hmore
  · rw [h]
    exact takes_advance hmore

end Nomi.Parser
