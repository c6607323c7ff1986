import Nomi.Number.Numeral
import Nomi.Proofs.Syntax.Places
import Nomi.Token.Cursor

/-!
# The grammar

What lists of tokens derive as, stated apart from the parser.  A rule takes the
place of its tree from a token of its own or, where the tree begins with another
one, from that tree.

The rules alone leave one choice open.  Nothing has to stand between two
statements, so a bracket behind an expression may go on with the expression or
begin the next statement.  A rule for such boundaries is a parameter of the
grammar: `Boundary.anywhere` leaves the choice open, and `Boundary.greedy` gives
the bracket to the expression.
-/

namespace Nomi.Grammar

/-- The levels of binary operators, from the tightest outwards. -/
inductive Level where
  | product
  | sum
  | comparison
  deriving DecidableEq, Repr

def Level.symbols : Level → List String
  | .product => ["*", "/", "%"]
  | .sum => ["+", "-"]
  | .comparison => ["<", ">"]

/-- What tokens may derive as.  The flag of a phrase tells whether its end is
marked, which the end of an operand is not: a bracket may go on with it. -/
inductive Phrase where
  | primary (tree : Node)
  /-- A primary expression and its suffixes. -/
  | suffixed (tree : Node)
  /-- Suffixes that make the second tree of the first. -/
  | suffixes (object tree : Node)
  /-- Operands of a level and the operators between them. -/
  | chain (level : Level) (tree : Node)
  /-- Operators of a level, each with its right operand, that make the second
  tree of the first. -/
  | run (level : Level) (left tree : Node)
  | target (tree : Node) (marked : Bool)
  | expression (tree : Node) (marked : Bool)
  /-- Expressions with commas between them and perhaps after the last. -/
  | elements (trees : List Node)
  /-- One or more expressions with commas between them. -/
  | values (trees : List Node)
  | arguments (trees : List Node)
  | entry (tree : Node)
  /-- Entries with commas between them and perhaps after the last. -/
  | entries (trees : List Node)
  | statement (tree : Node) (marked : Bool)
  | statements (trees : List Node)

def Level.operand : Level → Node → Phrase
  | .product => .suffixed
  | .sum => .chain .product
  | .comparison => .chain .sum

/-- Whether a statement may end before the given tokens; the flag tells whether
its end is marked. -/
abbrev Boundary :=
  Bool → List Token → Prop

def begins (kinds : List Token.Kind) : List Token → Bool
  | [] => false
  | token :: _ => kinds.contains token.kind

/-- The kinds that go on with an operand and can begin a statement too. -/
def openings : List Token.Kind :=
  [.openParen, .openBracket]

def Boundary.anywhere : Boundary :=
  fun _ _ => True

/-- A statement whose end is not marked does not end before a bracket. -/
def Boundary.greedy : Boundary :=
  fun marked next => marked = false → begins openings next = false

inductive Derives (boundary : Boundary) : List Token → Phrase → Prop
  | identifier {name : Token} (hname : name.kind = .identifier) :
      Derives boundary [name] (.primary (.identifier name.position name.lexeme))
  | number {token : Token} {value : Float} (htoken : token.kind = .number)
      (hvalue : Numeral.read? token.lexeme.toList = some value) :
      Derives boundary [token] (.primary (.number token.position value))
  | string {token : Token} (htoken : token.kind = .string) :
      Derives boundary [token] (.primary (.string token.position token.lexeme))
  | group {left right : Token} {inner : List Token} {tree : Node} {marked : Bool}
      (hleft : left.kind = .openParen) (hinner : Derives boundary inner (.expression tree marked))
      (hright : right.kind = .closeParen) :
      Derives boundary (left :: (inner ++ [right])) (.primary tree)
  | suffixed {first more : List Token} {object tree : Node}
      (hfirst : Derives boundary first (.primary object))
      (hmore : Derives boundary more (.suffixes object tree)) :
      Derives boundary (first ++ more) (.suffixed tree)
  | noSuffix {object : Node} : Derives boundary [] (.suffixes object object)
  | member {point name : Token} {more : List Token} {object tree : Node}
      (hpoint : point.kind = .dot) (hname : name.kind = .identifier)
      (hmore : Derives boundary more
        (.suffixes (.member object.position object (.identifier name.position name.lexeme) false)
          tree)) :
      Derives boundary (point :: name :: more) (.suffixes object tree)
  | index {left right : Token} {inner more : List Token} {object key tree : Node} {marked : Bool}
      (hleft : left.kind = .openBracket) (hinner : Derives boundary inner (.expression key marked))
      (hright : right.kind = .closeBracket)
      (hmore : Derives boundary more (.suffixes (.member object.position object key true) tree)) :
      Derives boundary (left :: (inner ++ right :: more)) (.suffixes object tree)
  | call {inner more : List Token} {object tree : Node} {values : List Node}
      (hinner : Derives boundary inner (.arguments values))
      (hmore : Derives boundary more (.suffixes (.call object.position object values) tree)) :
      Derives boundary (inner ++ more) (.suffixes object tree)
  | chain {level : Level} {first more : List Token} {left tree : Node}
      (hfirst : Derives boundary first (level.operand left))
      (hmore : Derives boundary more (.run level left tree)) :
      Derives boundary (first ++ more) (.chain level tree)
  | noOperator {level : Level} {left : Node} : Derives boundary [] (.run level left left)
  | operator {level : Level} {symbol : Token} {operand more : List Token} {left right tree : Node}
      (hkind : symbol.kind = .operator) (hsymbol : symbol.lexeme ∈ level.symbols)
      (hoperand : Derives boundary operand (level.operand right))
      (hmore : Derives boundary more
        (.run level (.binary symbol.position (.ofSymbol symbol.lexeme) left right) tree)) :
      Derives boundary (symbol :: (operand ++ more)) (.run level left tree)
  | object {left right : Token} {inner : List Token} {properties : List Node}
      (hleft : left.kind = .openBrace) (hinner : Derives boundary inner (.entries properties))
      (hright : right.kind = .closeBrace) :
      Derives boundary (left :: (inner ++ [right]))
        (.target (.object left.position properties) true)
  | comparison {tokens : List Token} {tree : Node}
      (htokens : Derives boundary tokens (.chain .comparison tree)) :
      Derives boundary tokens (.target tree false)
  | array {left right : Token} {inner : List Token} {elements : List Node}
      (hleft : left.kind = .openBracket) (hinner : Derives boundary inner (.elements elements))
      (hright : right.kind = .closeBracket) :
      Derives boundary (left :: (inner ++ [right]))
        (.expression (.array left.position elements) true)
  | read {keyword name semicolon : Token} (hkeyword : keyword.kind = .readWord)
      (hname : name.kind = .identifier) (hsemicolon : semicolon.kind = .semicolon) :
      Derives boundary [keyword, name, semicolon]
        (.expression (.read keyword.position name.lexeme "string" true) true)
  | target {tokens : List Token} {tree : Node} {marked : Bool}
      (htokens : Derives boundary tokens (.target tree marked)) :
      Derives boundary tokens (.expression tree marked)
  | assignment {left right : List Token} {equals : Token} {target value : Node}
      {leftMarked marked : Bool} (hleft : Derives boundary left (.target target leftMarked))
      (hequals : equals.kind = .equals)
      (hright : Derives boundary right (.expression value marked)) :
      Derives boundary (left ++ equals :: right)
        (.expression (.assignment target.position target value) marked)
  | noElement : Derives boundary [] (.elements [])
  | lastElement {tokens : List Token} {tree : Node} {marked : Bool}
      (htokens : Derives boundary tokens (.expression tree marked)) :
      Derives boundary tokens (.elements [tree])
  | element {first more : List Token} {comma : Token} {tree : Node} {trees : List Node}
      {marked : Bool} (hfirst : Derives boundary first (.expression tree marked))
      (hcomma : comma.kind = .comma) (hmore : Derives boundary more (.elements trees)) :
      Derives boundary (first ++ comma :: more) (.elements (tree :: trees))
  | lastValue {tokens : List Token} {tree : Node} {marked : Bool}
      (htokens : Derives boundary tokens (.expression tree marked)) :
      Derives boundary tokens (.values [tree])
  | value {first more : List Token} {comma : Token} {tree : Node} {trees : List Node}
      {marked : Bool} (hfirst : Derives boundary first (.expression tree marked))
      (hcomma : comma.kind = .comma) (hmore : Derives boundary more (.values trees)) :
      Derives boundary (first ++ comma :: more) (.values (tree :: trees))
  | noArguments {left right : Token} (hleft : left.kind = .openParen)
      (hright : right.kind = .closeParen) : Derives boundary [left, right] (.arguments [])
  | arguments {left right : Token} {inner : List Token} {trees : List Node}
      (hleft : left.kind = .openParen) (hinner : Derives boundary inner (.values trees))
      (hright : right.kind = .closeParen) :
      Derives boundary (left :: (inner ++ [right])) (.arguments trees)
  | shorthand {key : Token} (hkey : key.kind = .identifier) :
      Derives boundary [key] (.entry (.property key.position key.lexeme .absent))
  | property {key colon : Token} {tokens : List Token} {value : Node} {marked : Bool}
      (hkey : key.kind = .identifier) (hcolon : colon.kind = .colon)
      (htokens : Derives boundary tokens (.expression value marked)) :
      Derives boundary (key :: colon :: tokens) (.entry (.property key.position key.lexeme value))
  | noEntry : Derives boundary [] (.entries [])
  | lastEntry {tokens : List Token} {tree : Node}
      (htokens : Derives boundary tokens (.entry tree)) :
      Derives boundary tokens (.entries [tree])
  | entry {first more : List Token} {comma : Token} {tree : Node} {trees : List Node}
      (hfirst : Derives boundary first (.entry tree)) (hcomma : comma.kind = .comma)
      (hmore : Derives boundary more (.entries trees)) :
      Derives boundary (first ++ comma :: more) (.entries (tree :: trees))
  /-- Only a `let` may lack a value. -/
  | declarationWithoutValue {keyword name semicolon : Token} (hkeyword : keyword.kind = .letWord)
      (hname : name.kind = .identifier) (hsemicolon : semicolon.kind = .semicolon) :
      Derives boundary [keyword, name, semicolon]
        (.statement (.declaration keyword.position name.lexeme false .absent) true)
  /-- A `read` right behind the equals sign takes a line for the declared
  name. -/
  | declarationOfLine {keyword name equals read semicolon : Token}
      (hkeyword : keyword.kind = .letWord ∨ keyword.kind = .constWord)
      (hname : name.kind = .identifier) (hequals : equals.kind = .equals)
      (hread : read.kind = .readWord) (hsemicolon : semicolon.kind = .semicolon) :
      Derives boundary [keyword, name, equals, read, semicolon]
        (.statement (.declaration keyword.position name.lexeme
          (decide (keyword.kind = .constWord)) (.read read.position name.lexeme "string" false))
          true)
  | declaration {keyword name equals semicolon : Token} {tokens : List Token} {value : Node}
      {marked : Bool} (hkeyword : keyword.kind = .letWord ∨ keyword.kind = .constWord)
      (hname : name.kind = .identifier) (hequals : equals.kind = .equals)
      (hread : begins [.readWord] tokens = false)
      (htokens : Derives boundary tokens (.expression value marked))
      (hsemicolon : semicolon.kind = .semicolon) :
      Derives boundary (keyword :: name :: equals :: (tokens ++ [semicolon]))
        (.statement (.declaration keyword.position name.lexeme
          (decide (keyword.kind = .constWord)) value) true)
  | function {keyword name left right : Token} {inner body : List Token}
      {written : List Node} {parameters : List String} {statements : List Node}
      (hkeyword : keyword.kind = .fnWord) (hname : name.kind = .identifier)
      (hinner : Derives boundary inner (.arguments written))
      (hwritten : Node.unplacedAll written = parameters.map (.identifier .nowhere))
      (hleft : left.kind = .openBrace) (hbody : Derives boundary body (.statements statements))
      (hright : right.kind = .closeBrace) :
      Derives boundary (keyword :: name :: (inner ++ left :: (body ++ [right])))
        (.statement (.function keyword.position name.lexeme parameters statements) true)
  | readStatement {keyword name semicolon : Token} (hkeyword : keyword.kind = .readWord)
      (hname : name.kind = .identifier) (hsemicolon : semicolon.kind = .semicolon) :
      Derives boundary [keyword, name, semicolon]
        (.statement (.read keyword.position name.lexeme "string" true) true)
  | expressionStatement {tokens : List Token} {tree : Node} {marked : Bool}
      (hread : begins [.readWord] tokens = false)
      (htokens : Derives boundary tokens (.expression tree marked)) :
      Derives boundary tokens (.statement tree marked)
  | endedStatement {tokens : List Token} {semicolon : Token} {tree : Node} {marked : Bool}
      (hread : begins [.readWord] tokens = false)
      (htokens : Derives boundary tokens (.expression tree marked))
      (hsemicolon : semicolon.kind = .semicolon) :
      Derives boundary (tokens ++ [semicolon]) (.statement tree true)
  | noStatement : Derives boundary [] (.statements [])
  | statement {first more : List Token} {tree : Node} {trees : List Node} {marked : Bool}
      (hfirst : Derives boundary first (.statement tree marked))
      (hmore : Derives boundary more (.statements trees)) (hboundary : boundary marked more) :
      Derives boundary (first ++ more) (.statements (tree :: trees))

end Nomi.Grammar
