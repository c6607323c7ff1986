import Nomi.Proofs.Lexical.Places
import Nomi.Proofs.Syntax.Evaluable
import Nomi.Proofs.Syntax.RoundTrip

/-!
# Where the places of a tree come from

Every node of a parsed tree stands at the place of a token, and not of any token: the
token is one of a section of the source that derives as the node itself, with all its
places.  The derivation of a program tells the sections, rule by rule.
-/

namespace Nomi

open Grammar

namespace Node

/-- The trees that a tree is made of. -/
def parts : Node → List Node
  | .program _ nodes | .function _ _ _ nodes | .array _ nodes | .object _ nodes => nodes
  | .declaration _ _ _ value | .property _ _ value => if value.isAbsent then [] else [value]
  | .assignment _ first second | .binary _ _ first second | .member _ first second _ =>
      [first, second]
  | .call _ callee values => callee :: values
  | .identifier .. | .number .. | .string .. | .read .. | .abstract .. | .absent => []

theorem eq_absent_of_isAbsent {node : Node} (h : node.isAbsent = true) : node = .absent := by
  cases node <;> first | rfl | contradiction

end Node

/-- The node that a phrase is about, if it is one. -/
def Grammar.Phrase.node? : Phrase → Option Node
  | .primary tree | .suffixed tree | .chain _ tree | .target tree _ | .expression tree _
  | .entry tree | .statement tree _ => some tree
  | _ => none

/-- Whether tokens are what a node is read from.  The line of input of a declaration
is no phrase of its own: it is read from its keyword and the semicolon. -/
inductive Yields : List Token → Node → Prop
  | derived {tokens : List Token} {phrase : Phrase} {node : Node}
      (h : Derives .greedy tokens phrase) (hnode : phrase.node? = some node) : Yields tokens node
  | line {keyword semicolon : Token} {name : String} (hkeyword : keyword.kind = .readWord)
      (hsemicolon : semicolon.kind = .semicolon) :
      Yields [keyword, semicolon] (.read keyword.position name "string" false)

/-- Whether a place is that of one of the tokens. -/
def Among (tokens : List Token) (position : Position) : Prop :=
  ∃ token ∈ tokens, token.position = position

/-- Whether a tree is read from a section of the tokens: the section is what the tree
is read from, the tree stands at the place of one token of it, and the parts of the
tree are read from sections of this section in turn. -/
inductive Placed : List Token → Node → Prop
  | within {own tokens : List Token} {node : Node} (hown : own <:+: tokens)
      (hyields : Yields own node) (hplace : Among own node.position)
      (hparts : ∀ part ∈ node.parts, Placed own part) : Placed tokens node

/-- Whether every tree of a list is read from a section of the tokens. -/
def Covered (tokens : List Token) (trees : List Node) : Prop :=
  ∀ tree ∈ trees, Placed tokens tree

variable {tokens more : List Token} {token : Token} {position : Position} {node : Node}

theorem Among.mono (h : Among tokens position) (hmore : tokens ⊆ more) : Among more position := by
  obtain ⟨token, hmem, hplace⟩ := h
  exact ⟨token, hmore hmem, hplace⟩

theorem among_head (token : Token) (rest : List Token) : Among (token :: rest) token.position :=
  ⟨token, List.mem_cons_self, rfl⟩

theorem Placed.mono (h : Placed tokens node) (hmore : tokens <:+: more) : Placed more node := by
  obtain ⟨hown, hyields, hplace, hparts⟩ := h
  exact .within (hown.trans hmore) hyields hplace hparts

theorem Placed.place (h : Placed tokens node) : Among tokens node.position := by
  obtain ⟨hown, _, hplace, _⟩ := h
  exact hplace.mono hown.subset

theorem Placed.part (h : Placed tokens node) {part : Node} (hpart : part ∈ node.parts) :
    Placed tokens part := by
  obtain ⟨hown, _, _, hparts⟩ := h
  exact (hparts part hpart).mono hown

theorem infix_front (first last : List Token) : first <:+: first ++ last :=
  (List.prefix_append first last).isInfix

theorem infix_behind (first last : List Token) : last <:+: first ++ last :=
  (List.suffix_append first last).isInfix

theorem infix_between (left right : Token) (inner : List Token) :
    inner <:+: left :: (inner ++ [right]) :=
  ⟨[left], [right], by simp⟩

theorem covered_nil : Covered tokens [] :=
  fun _ hmem => by contradiction

theorem Covered.add {trees : List Node} (h : Covered tokens trees) (hnode : Placed tokens node) :
    Covered tokens (node :: trees) := by
  intro tree hmem
  rcases List.mem_cons.1 hmem with rfl | hmem
  · exact hnode
  · exact h tree hmem

/-- A value that is absent is no part. -/
theorem covered_value (h : Placed tokens node) :
    Covered tokens (if node.isAbsent then [] else [node]) := by
  split
  · exact covered_nil
  · exact covered_nil.add h

theorem Covered.mono {trees : List Node} (h : Covered tokens trees) (hmore : tokens <:+: more) :
    Covered more trees :=
  fun tree hmem => (h tree hmem).mono hmore

theorem Covered.behind {trees : List Node} (h : Covered tokens trees) (token : Token) :
    Covered (token :: tokens) trees :=
  h.mono (infix_behind [token] tokens)

theorem covered_cons {trees : List Node} (hfirst : Placed tokens node)
    (hmore : Covered more trees) : Covered (tokens ++ more) (node :: trees) := by
  have htrees := hmore.mono (infix_behind tokens more)
  exact htrees.add (hfirst.mono (infix_front tokens more))

/-! ## Derived trees -/

namespace Grammar

/-- Whether the trees of a phrase are read from sections of its tokens.  Suffixes and
operators go on from a tree, which is read from the tokens before them. -/
def Phrase.IsPlaced (tokens : List Token) : Phrase → Prop
  | .primary tree | .suffixed tree | .chain _ tree | .target tree _ | .expression tree _
  | .entry tree | .statement tree _ => Placed tokens tree
  | .suffixes object tree => ∀ before, Derives .greedy before (.suffixed object) →
      Placed before object → Placed (before ++ tokens) tree
  | .run level left tree => ∀ before, Derives .greedy before (.chain level left) →
      Placed before left → Placed (before ++ tokens) tree
  | .elements trees | .values trees | .arguments trees | .entries trees | .statements trees =>
      Covered tokens trees

theorem Phrase.isPlaced_operand {level : Level} {tree : Node} :
    (level.operand tree).IsPlaced tokens ↔ Placed tokens tree := by
  cases level <;> rfl

/-- A node with a derivation of its own is read from all its tokens. -/
theorem placed_of_derives {phrase : Phrase} (h : Derives .greedy tokens phrase)
    (hnode : phrase.node? = some node) (hplace : Among tokens node.position)
    (hparts : Covered tokens node.parts) : Placed tokens node :=
  .within (List.infix_refl tokens) (.derived h hnode) hplace hparts

/-- A suffix stands where its object does, and what comes behind it goes on from it. -/
theorem isPlaced_suffix {object next tree : Node} {others : List Node}
    (hsuffix : Derives .greedy tokens (.suffixes object next)) (hothers : Covered tokens others)
    (hplace : next.position = object.position) (hparts : next.parts = object :: others)
    (hmore : (Phrase.suffixes next tree).IsPlaced more) :
    (Phrase.suffixes object tree).IsPlaced (tokens ++ more) := by
  intro before hobject hplaced
  have hderives := hobject.suffixed_append hsuffix
  have hnext : Placed (before ++ tokens) next := by
    refine placed_of_derives hderives rfl ?_ ?_
    · rw [hplace]
      exact hplaced.place.mono (List.subset_append_left before tokens)
    · rw [hparts]
      exact covered_cons hplaced hothers
  rw [← List.append_assoc]
  exact hmore _ hderives hnext

/-- An operation stands at its operator, and what comes behind it goes on from it. -/
theorem isPlaced_operator {level : Level} {symbol : Token} {operand : List Token}
    {left right tree : Node} (hkind : symbol.kind = .operator)
    (hsymbol : symbol.lexeme ∈ level.symbols)
    (hoperand : Derives .greedy operand (level.operand right)) (hright : Placed operand right)
    (hmore : (Phrase.run level (.binary symbol.position (.ofSymbol symbol.lexeme) left right)
      tree).IsPlaced more) :
    (Phrase.run level left tree).IsPlaced (symbol :: (operand ++ more)) := by
  intro before hleft hplaced
  have hderives := hleft.chain_append hkind hsymbol hoperand
  have hplace : Among (before ++ symbol :: operand) symbol.position :=
    ⟨symbol, List.mem_append_right before List.mem_cons_self, rfl⟩
  have hothers := covered_nil.add (hright.mono (infix_behind [symbol] operand))
  have htree := hmore _ hderives
    (placed_of_derives hderives rfl hplace (covered_cons hplaced hothers))
  rwa [List.append_assoc, List.cons_append] at htree

/-- By induction on the derivation.  A rule puts its node at a token of its own or where
a part of the node stands, and the parts are read from the sections of its premises. -/
theorem Derives.isPlaced {phrase : Phrase} (h : Derives .greedy tokens phrase) :
    phrase.IsPlaced tokens := by
  induction h with
  | identifier hname => exact placed_of_derives (.identifier hname) rfl (among_head _ _) covered_nil
  | number htoken hvalue =>
      exact placed_of_derives (.number htoken hvalue) rfl (among_head _ _) covered_nil
  | string htoken => exact placed_of_derives (.string htoken) rfl (among_head _ _) covered_nil
  | @group left right inner tree marked _ _ _ ih => exact ih.mono (infix_between left right inner)
  | suffixed hfirst _ ihFirst ihMore =>
      have hobject := Derives.suffixed hfirst .noSuffix
      rw [List.append_nil] at hobject
      exact ihMore _ hobject ihFirst
  | noSuffix | noOperator =>
      intro before _ hplaced
      rw [List.append_nil]
      exact hplaced
  | @member point name more object tree hpoint hname _ ih =>
      have hkey : Placed [name] (.identifier name.position name.lexeme) :=
        placed_of_derives (.identifier hname) rfl (among_head name []) covered_nil
      have hsuffix : Derives .greedy [point, name] (.suffixes object _) :=
        .member hpoint hname .noSuffix
      exact isPlaced_suffix hsuffix ((covered_nil.add hkey).behind point) rfl rfl ih
  | @index left right inner more object key tree marked hleft hinner hright _ ihKey ihMore =>
      have hsuffix : Derives .greedy (left :: (inner ++ [right])) (.suffixes object _) :=
        .index hleft hinner hright .noSuffix
      have hothers := covered_nil.add (ihKey.mono (infix_between left right inner))
      have htree := isPlaced_suffix hsuffix hothers rfl rfl ihMore
      rwa [List.cons_append, List.append_assoc] at htree
  | @call inner more object tree values hinner _ ihInner ihMore =>
      have hsuffix : Derives .greedy (inner ++ []) (.suffixes object _) :=
        .call hinner .noSuffix
      rw [List.append_nil] at hsuffix
      exact isPlaced_suffix hsuffix ihInner rfl rfl ihMore
  | chain hfirst _ ihFirst ihMore =>
      exact ihMore _ (derives_chain_of_operand hfirst) (Phrase.isPlaced_operand.1 ihFirst)
  | operator hkind hsymbol hoperand _ ihOperand ihMore =>
      exact isPlaced_operator hkind hsymbol hoperand (Phrase.isPlaced_operand.1 ihOperand) ihMore
  | @object left right inner properties hleft hinner hright ih =>
      exact placed_of_derives (.object hleft hinner hright) rfl (among_head left _)
        (Covered.mono ih (infix_between left right inner))
  | @array left right inner elements hleft hinner hright ih =>
      exact placed_of_derives (.array hleft hinner hright) rfl (among_head left _)
        (Covered.mono ih (infix_between left right inner))
  | comparison _ ih | target _ ih | expressionStatement _ _ ih => exact ih
  | read hkeyword hname hsemicolon =>
      exact placed_of_derives (.read hkeyword hname hsemicolon) rfl (among_head _ _) covered_nil
  | readStatement hkeyword hname hsemicolon =>
      exact placed_of_derives (.readStatement hkeyword hname hsemicolon) rfl (among_head _ _)
        covered_nil
  | @assignment left right equals target value _ _ hleft hequals hright ihLeft ihRight =>
      have hplace := Placed.place ihLeft
      have hvalue := covered_nil.add (ihRight.mono (infix_behind [equals] right))
      exact placed_of_derives (.assignment hleft hequals hright) rfl
        (hplace.mono (List.subset_append_left left _)) (covered_cons ihLeft hvalue)
  | noElement | noEntry | noStatement | noArguments => exact covered_nil
  | lastElement _ ih | lastValue _ ih | lastEntry _ ih => exact covered_nil.add ih
  | element _ _ _ ihFirst ihMore | value _ _ _ ihFirst ihMore | entry _ _ _ ihFirst ihMore =>
      exact covered_cons ihFirst (Covered.behind ihMore _)
  | @arguments left right inner _ _ _ _ ih => exact Covered.mono ih (infix_between left right inner)
  | shorthand hkey => exact placed_of_derives (.shorthand hkey) rfl (among_head _ _) covered_nil
  | @property key colon tokens value _ hkey hcolon htokens ih =>
      exact placed_of_derives (.property hkey hcolon htokens) rfl (among_head key _)
        (covered_value (ih.mono (infix_behind [key, colon] tokens)))
  | declarationWithoutValue hkeyword hname hsemicolon =>
      exact placed_of_derives (.declarationWithoutValue hkeyword hname hsemicolon) rfl
        (among_head _ _) covered_nil
  | @declarationOfLine keyword name equals read semicolon hkeyword hname hequals hread
      hsemicolon =>
      have hline : Placed [read, semicolon] (.read read.position name.lexeme "string" false) :=
        .within (List.infix_refl _) (.line hread hsemicolon) (among_head read _) covered_nil
      have hvalue := hline.mono (infix_behind [keyword, name, equals] [read, semicolon])
      exact placed_of_derives (.declarationOfLine hkeyword hname hequals hread hsemicolon) rfl
        (among_head keyword _) (covered_nil.add hvalue)
  | @declaration keyword name equals semicolon tokens value _ hkeyword hname hequals hread
      htokens hsemicolon ih =>
      have hvalue : Placed (keyword :: name :: equals :: (tokens ++ [semicolon])) value :=
        ih.mono ⟨[keyword, name, equals], [semicolon], by simp⟩
      exact placed_of_derives (.declaration hkeyword hname hequals hread htokens hsemicolon) rfl
        (among_head keyword _) (covered_value hvalue)
  | @function keyword name left right inner body written parameters statements hkeyword hname
      hinner hwritten hleft hbody hright _ ihBody =>
      refine placed_of_derives (.function hkeyword hname hinner hwritten hleft hbody hright) rfl
        (among_head keyword _) (Covered.mono ihBody ?_)
      exact ⟨keyword :: name :: (inner ++ [left]), [right], by simp⟩
  | @endedStatement tokens semicolon _ _ _ _ _ ih => exact ih.mono (infix_front tokens [semicolon])
  | statement _ _ _ ihFirst ihMore => exact covered_cons ihFirst ihMore

end Grammar

/-! ## Sources -/

/-- The statements of a source are read from sections of its tokens. -/
theorem Parsed.covered {source : String} {stop : Token} {body : List Node}
    (h : Parsed source tokens stop body) : Covered tokens body :=
  h.derives.isPlaced

/-- A source is refused by the scanner, or its tokens are refused. -/
theorem refused_of_parse {source : String} {error : SourceError} (h : parse source = .error error) :
    (∃ refusal, error = .lexical refusal ∧ tokenize source = .error refusal) ∨
      ∃ refusal tokens, error = .syntactic refusal ∧ tokenize source = .ok tokens ∧
        parseTokens tokens = .error refusal := by
  unfold parse at h
  cases hcut : tokenize source with
  | error refusal =>
      rw [hcut] at h
      cases h
      exact .inl ⟨refusal, rfl, rfl⟩
  | ok tokens =>
      rw [hcut] at h
      cases hprogram : parseTokens tokens with
      | ok program => simp [hprogram, Except.mapError, bind, Except.bind] at h
      | error refusal =>
          have herror : SourceError.syntactic refusal = error := by
            simpa [hprogram, Except.mapError, bind, Except.bind] using h
          exact .inr ⟨refusal, tokens, herror.symm, rfl, hprogram⟩

/-- Tokens are refused at one of them. -/
theorem among_of_parseTokens {source : String} {refusal : SyntaxError}
    (hcut : tokenize source = .ok tokens) (h : parseTokens tokens = .error refusal) :
    Among tokens refusal.position := by
  let own : Places := fun p q => p = q ∧ Among tokens p
  have htokens : List.Forall₂ (Token.Alike own) tokens tokens :=
    List.forall₂_same.2 fun token hmem => ⟨rfl, rfl, rfl, token, hmem, rfl⟩
  obtain ⟨body, stop, rfl, hstop, _⟩ := (Lexical.cut_of_tokenize hcut).exists_body
  have hended : ∃ token ∈ body ++ [stop], Cursor.isEnd token = true :=
    ⟨stop, by simp, by simp [Cursor.isEnd, hstop]⟩
  rcases parseTokens_alike htokens hended with ⟨_, _, hok, _⟩ | ⟨error, _, herror, _, hplace⟩
  · rw [h] at hok
    contradiction
  · rw [h, Except.error.injEq] at herror
    rw [herror]
    exact hplace.position.2

variable {places : Places}

theorem Node.isAbsent_or_part {child : Node} (h : child ∈ node.children) :
    child.isAbsent = true ∨ child ∈ node.parts := by
  cases node with
  | declaration _ _ _ value | property _ _ value =>
      rw [List.mem_singleton.1 h]
      cases habsent : value.isAbsent <;> simp [parts, habsent]
  | _ => exact .inr h

/-- A tree that is read from tokens is like itself by whatever relates the places of
the tokens to themselves. -/
theorem Placed.alike_self (h : Placed tokens node) (hplaces : ∀ p, Among tokens p → places p p) :
    node.Alike places node := by
  induction node using Node.children_induction with
  | step node ih =>
      refine Node.alike_of_parts rfl (fun _ => hplaces _ h.place) ?_
      refine List.forall₂_same.2 fun child hmem => ?_
      rcases Node.isAbsent_or_part hmem with habsent | hpart
      · rw [Node.eq_absent_of_isAbsent habsent]
        exact .absent
      · exact ih child hmem (h.part hpart)

theorem Covered.alike_self {nodes : List Node} (h : Covered tokens nodes)
    (hplaces : ∀ p, Among tokens p → places p p) : Node.AlikeAll places nodes nodes :=
  List.forall₂_same.2 fun node hmem => (h node hmem).alike_self hplaces

end Nomi
