import Nomi.Proofs.Syntax.Placement
import Nomi.Proofs.Syntax.Printing
import Nomi.Proofs.Syntax.Sources

/-!
# Printed programs

What is printed of a tree derives as the tree again.
-/

namespace Nomi

namespace Grammar

variable {boundary : Boundary} {tokens more operand : List Token}

theorem Derives.suffixes_append {first second third : Node}
    (h : Derives boundary tokens (.suffixes first second))
    (hmore : Derives boundary more (.suffixes second third)) :
    Derives boundary (tokens ++ more) (.suffixes first third) := by
  generalize hphrase : Phrase.suffixes first second = phrase at h
  induction h generalizing first with
  | noSuffix =>
      cases hphrase
      exact hmore
  | member hpoint hname _ ih =>
      cases hphrase
      exact .member hpoint hname (ih rfl)
  | index hleft hinner hright _ _ ih =>
      cases hphrase
      rw [List.cons_append, List.append_assoc]
      exact .index hleft hinner hright (ih rfl)
  | call hinner _ _ ih =>
      cases hphrase
      rw [List.append_assoc]
      exact .call hinner (ih rfl)
  | _ => contradiction

theorem Derives.suffixed_append {object tree : Node}
    (h : Derives boundary tokens (.suffixed object))
    (hmore : Derives boundary more (.suffixes object tree)) :
    Derives boundary (tokens ++ more) (.suffixed tree) := by
  cases h with
  | suffixed hfirst hrest =>
      rw [List.append_assoc]
      exact .suffixed hfirst (hrest.suffixes_append hmore)

theorem Derives.run_append {level : Level} {first second third : Node}
    (h : Derives boundary tokens (.run level first second))
    (hmore : Derives boundary more (.run level second third)) :
    Derives boundary (tokens ++ more) (.run level first third) := by
  generalize hphrase : Phrase.run level first second = phrase at h
  induction h generalizing first level with
  | noOperator =>
      cases hphrase
      exact hmore
  | operator hkind hsymbol hoperand _ _ ih =>
      cases hphrase
      rw [List.cons_append, List.append_assoc]
      exact .operator hkind hsymbol hoperand (ih hmore rfl)
  | _ => contradiction

/-- An operator goes on with a chain of its level. -/
theorem Derives.chain_append {level : Level} {symbol : Token} {left right : Node}
    (h : Derives boundary tokens (.chain level left)) (hkind : symbol.kind = .operator)
    (hsymbol : symbol.lexeme ∈ level.symbols)
    (hoperand : Derives boundary operand (level.operand right)) :
    Derives boundary (tokens ++ symbol :: operand)
      (.chain level (.binary symbol.position (.ofSymbol symbol.lexeme) left right)) := by
  cases h with
  | chain hfirst hrest =>
      have hlast : Derives boundary (symbol :: (operand ++ [])) (.run level left
          (.binary symbol.position (.ofSymbol symbol.lexeme) left right)) :=
        .operator hkind hsymbol hoperand .noOperator
      rw [List.append_nil] at hlast
      rw [List.append_assoc]
      exact .chain hfirst (hrest.run_append hlast)

/-! ## Slots -/

/-- Whether tokens stand for a tree in a slot of so high a rank. -/
def HoldsAt (rank : Nat) (tokens : List Token) (tree : Node) : Prop :=
  match rank with
  | 0 => Derives .greedy tokens (.suffixed tree)
  | 1 => Derives .greedy tokens (.chain .product tree)
  | 2 => Derives .greedy tokens (.chain .sum tree)
  | 3 => Derives .greedy tokens (.chain .comparison tree)
  | _ => ∃ marked, Derives .greedy tokens (.expression tree marked)

def Slot.Holds (slot : Slot) : List Token → Node → Prop :=
  HoldsAt slot.rank

variable {slot looser : Slot} {tree : Node}

theorem HoldsAt.succ {rank : Nat} (h : HoldsAt rank tokens tree) :
    HoldsAt (rank + 1) tokens tree := by
  match rank, h with
  | 0, h | 1, h | 2, h => exact derives_chain_of_operand h
  | 3, h => exact ⟨false, .target (.comparison h)⟩
  | _ + 4, h => exact h

/-- What stands in a slot may stand in any looser one. -/
theorem Slot.Holds.mono (h : slot.Holds tokens tree) (hrank : slot.rank ≤ looser.rank) :
    looser.Holds tokens tree := by
  -- Each rank leads to the next, by induction from that of the slot.
  have hall : ∀ {rank}, slot.rank ≤ rank → HoldsAt rank tokens tree := by
    intro rank hle
    induction hle with
    | refl => exact h
    | step _ ih => exact ih.succ
  exact hall hrank

theorem Slot.Holds.full (h : slot.Holds tokens tree) :
    ∃ marked, Derives .greedy tokens (.expression tree marked) := by
  have hrank : slot.rank ≤ Slot.full.rank := by
    match slot with
    | .operand | .chain .product | .chain .sum | .chain .comparison | .full => decide
  exact h.mono hrank

theorem holds_chain {level : Level} :
    (Slot.chain level).Holds tokens tree ↔ Derives .greedy tokens (.chain level tree) := by
  cases level <;> rfl

theorem holds_behind {level : Level} :
    level.behind.Holds tokens tree ↔ Derives .greedy tokens (level.operand tree) := by
  cases level <;> rfl

theorem holds_primary (h : Derives .greedy tokens (.primary tree)) :
    Slot.operand.Holds tokens tree := by
  have hsuffixed := Derives.suffixed h .noSuffix
  rw [List.append_nil] at hsuffixed
  exact hsuffixed

variable {parts : List (List Token)} {trees : List Node}

theorem derives_elements (h : List.Forall₂ Slot.full.Holds parts trees) :
    Derives .greedy (Print.commas parts) (.elements trees) := by
  induction h with
  | nil => exact .noElement
  | @cons part tree parts trees hpart hparts ih =>
      obtain ⟨marked, hpart⟩ := hpart
      cases hparts with
      | nil =>
          rw [Print.commas_singleton]
          exact .lastElement hpart
      | cons _ _ =>
          rw [Print.commas_cons_cons]
          exact .element hpart rfl ih

theorem derives_values (h : List.Forall₂ Slot.full.Holds parts trees) (hsome : trees ≠ []) :
    Derives .greedy (Print.commas parts) (.values trees) := by
  induction h with
  | nil => contradiction
  | @cons part tree parts trees hpart hparts ih =>
      obtain ⟨marked, hpart⟩ := hpart
      cases hparts with
      | nil =>
          rw [Print.commas_singleton]
          exact .lastValue hpart
      | cons _ _ =>
          rw [Print.commas_cons_cons]
          exact .value hpart rfl (ih (List.cons_ne_nil _ _))

theorem derives_arguments (h : List.Forall₂ Slot.full.Holds parts trees) :
    Derives .greedy (Print.enclosed (Print.commas parts)) (.arguments trees) := by
  by_cases hsome : trees = []
  · subst hsome
    cases h
    exact .noArguments rfl rfl
  · exact .arguments rfl (derives_values h hsome) rfl

theorem derives_entries
    (h : List.Forall₂ (fun part tree => Derives .greedy part (.entry tree)) parts trees) :
    Derives .greedy (Print.commas parts) (.entries trees) := by
  induction h with
  | nil => exact .noEntry
  | @cons part tree parts trees hpart hparts ih =>
      cases hparts with
      | nil =>
          rw [Print.commas_singleton]
          exact .lastEntry hpart
      | cons _ _ =>
          rw [Print.commas_cons_cons]
          exact .entry hpart rfl ih

end Grammar

open Grammar

/-! ## Expressions -/

/-- Whether numbers are written as numerals that denote them. -/
def Spells (write : Float → String) : Prop :=
  ∀ value text, Numeral.isPlain text = true → Numeral.read? text = some value →
    Numeral.isPlain (write value).toList = true ∧
      Numeral.read? (write value).toList = some value

namespace Print

variable {write : Float → String} {names : String → Prop} {tokens : List Token}

theorem holds_enclosed {slot : Slot} {tree : Node} (h : slot.Holds tokens tree) :
    Slot.operand.Holds (enclosed tokens) tree := by
  obtain ⟨marked, hfull⟩ := h.full
  exact holds_primary (.group rfl hfull rfl)

theorem holds_fill (slot : Slot) {node tree : Node} (h : node.slot.Holds tokens tree) :
    slot.Holds (fill slot node tokens) tree := by
  unfold fill
  split
  · next hrank => exact h.mono hrank
  · exact (holds_enclosed h).mono (Nat.zero_le _)

theorem holds_assignment {target value : Node} {left right : List Token}
    (hleft : target.slot.Holds left target.unplaced)
    (hright : value.slot.Holds right value.unplaced) :
    Slot.full.Holds (fill (.chain .comparison) target left ++ sign .equals "=" :: right)
      (.assignment .nowhere target.unplaced value.unplaced) := by
  obtain ⟨marked, hvalue⟩ := hright.full
  have htarget := holds_chain.1 (holds_fill (.chain .comparison) hleft)
  have hassignment : Derives .greedy
      (fill (.chain .comparison) target left ++ sign .equals "=" :: right)
      (.expression (.assignment target.unplaced.position target.unplaced value.unplaced) marked) :=
    .assignment (.comparison htarget) rfl hvalue
  rw [Node.position_unplaced] at hassignment
  exact ⟨marked, hassignment⟩

theorem level?_spec {operator : Operator} {level : Level} (h : operator.level? = some level) :
    operator.symbol ∈ level.symbols ∧ Operator.ofSymbol operator.symbol = operator := by
  cases operator <;> cases h <;> exact ⟨by decide, rfl⟩

theorem holds_binary {operator : Operator} {level : Level} {left right : Node}
    {first second : List Token} (h : operator.level? = some level)
    (hleft : left.slot.Holds first left.unplaced)
    (hright : right.slot.Holds second right.unplaced) :
    (Slot.chain level).Holds
      (fill (.chain level) left first ++
        sign .operator operator.symbol :: fill level.behind right second)
      (.binary .nowhere operator left.unplaced right.unplaced) := by
  obtain ⟨hsymbol, hoperator⟩ := level?_spec h
  have hfirst := holds_chain.1 (holds_fill (.chain level) hleft)
  have hsecond := holds_behind.1 (holds_fill level.behind hright)
  have hchain : Derives .greedy
      (fill (.chain level) left first ++
        sign .operator operator.symbol :: fill level.behind right second)
      (.chain level (.binary .nowhere (.ofSymbol operator.symbol) left.unplaced right.unplaced)) :=
    hfirst.chain_append rfl hsymbol hsecond
  rw [hoperator] at hchain
  exact holds_chain.2 hchain

theorem holds_call {callee : Node} {values : List Node} {first : List Token}
    {parts : List (List Token)} (hcallee : callee.slot.Holds first callee.unplaced)
    (hvalues : List.Forall₂ Slot.full.Holds parts values) :
    Slot.operand.Holds (fill .operand callee first ++ enclosed (commas parts))
      (.call .nowhere callee.unplaced values) := by
  have hcall : Derives .greedy (enclosed (commas parts) ++ [])
      (.suffixes callee.unplaced (.call callee.unplaced.position callee.unplaced values)) :=
    .call (derives_arguments hvalues) .noSuffix
  rw [List.append_nil, Node.position_unplaced] at hcall
  exact Derives.suffixed_append (holds_fill .operand hcallee) hcall

theorem holds_index {owner key : Node} {first second : List Token}
    (howner : owner.slot.Holds first owner.unplaced) (hkey : key.slot.Holds second key.unplaced) :
    Slot.operand.Holds
      (fill .operand owner first ++ sign .openBracket "[" :: (second ++ [sign .closeBracket "]"]))
      (.member .nowhere owner.unplaced key.unplaced true) := by
  obtain ⟨marked, hindex⟩ := hkey.full
  have hsuffix : Derives .greedy
      (sign .openBracket "[" :: (second ++ [sign .closeBracket "]"]))
      (.suffixes owner.unplaced
        (.member owner.unplaced.position owner.unplaced key.unplaced true)) :=
    .index rfl hindex rfl .noSuffix
  rw [Node.position_unplaced] at hsuffix
  exact Derives.suffixed_append (holds_fill .operand howner) hsuffix

theorem holds_member {owner : Node} {name : String} {first : List Token}
    (howner : owner.slot.Holds first owner.unplaced) :
    Slot.operand.Holds
      (fill .operand owner first ++ [sign .dot ".", sign .identifier name])
      (.member .nowhere owner.unplaced (.identifier .nowhere name) false) := by
  have hsuffix : Derives .greedy [sign .dot ".", sign .identifier name]
      (.suffixes owner.unplaced
        (.member owner.unplaced.position owner.unplaced (.identifier .nowhere name) false)) :=
    .member rfl rfl .noSuffix
  rw [Node.position_unplaced] at hsuffix
  exact Derives.suffixed_append (holds_fill .operand howner) hsuffix

theorem derives_property {key : String} {value : Node}
    (h : value = .absent ∨ value.slot.Holds tokens value.unplaced) :
    Derives .greedy (property key value tokens)
      (.entry (.property .nowhere key value.unplaced)) := by
  rcases h with rfl | h
  · exact .shorthand rfl
  · cases value with
    | absent => exact .shorthand rfl
    | _ =>
        obtain ⟨marked, hvalue⟩ := h.full
        exact .property rfl rfl hvalue

mutual

/-- The printed tokens of an expression stand for it in its slot. -/
theorem holds_expression (hwrite : Spells write) : ∀ node : Node, node.ProperExpression names →
    node.slot.Holds (expression write node) node.unplaced
  | .identifier _ _, _ => holds_primary (.identifier rfl)
  | .number _ value, h => by
      obtain ⟨text, hplain, hread⟩ := h
      exact holds_primary (.number rfl (hwrite value text hplain hread).2)
  | .string _ _, _ => holds_primary (.string rfl)
  | .array _ elements, h =>
      ⟨true, .array rfl (derives_elements (holds_expressions hwrite elements h)) rfl⟩
  | .object _ properties, h =>
      ⟨true, .target (.object rfl (derives_entries (holds_entries hwrite properties h)) rfl)⟩
  | .read _ _ _ _, h => by
      obtain ⟨_, rfl, rfl⟩ := h
      exact ⟨true, .read rfl rfl rfl⟩
  | .assignment _ target value, h =>
      holds_assignment (holds_expression hwrite target h.1) (holds_expression hwrite value h.2)
  | .binary _ operator left right, h => by
      obtain ⟨level, hlevel⟩ := Option.ne_none_iff_exists'.1 h.1
      have hleft := holds_expression hwrite left h.2.1
      have hright := holds_expression hwrite right h.2.2
      simp only [expression, Node.slot, Node.unplaced, hlevel]
      exact holds_binary hlevel hleft hright
  | .call _ callee values, h =>
      holds_call (holds_expression hwrite callee h.1) (holds_expressions hwrite values h.2)
  | .member _ owner key true, h =>
      holds_index (holds_expression hwrite owner h.1) (holds_expression hwrite key h.2.1)
  | .member _ owner key false, h => by
      obtain ⟨position, name, rfl⟩ := h.2.2 rfl
      exact holds_member (holds_expression hwrite owner h.1)
  | .program .., h | .declaration .., h | .function .., h | .property .., h | .abstract .., h
  | .absent, h => h.elim

theorem holds_expressions (hwrite : Spells write) : ∀ nodes : List Node,
    Node.ProperExpressions names nodes →
    List.Forall₂ Slot.full.Holds (expressions write nodes) (Node.unplacedAll nodes)
  | [], _ => .nil
  | node :: rest, h =>
      .cons (holds_expression hwrite node h.1).full (holds_expressions hwrite rest h.2)

theorem holds_entries (hwrite : Spells write) : ∀ nodes : List Node,
    Node.ProperEntries names nodes →
    List.Forall₂ (fun part tree => Derives .greedy part (.entry tree)) (entries write nodes)
      (Node.unplacedAll nodes)
  | [], _ => .nil
  | .property _ _ value :: rest, h =>
      .cons (derives_property (h.2.1.imp_right (holds_expression hwrite value)))
        (holds_entries hwrite rest h.2.2)

end

/-! ## Statements -/

/-- Whether an expression is a read, which has its own semicolon. -/
def IsRead (node : Node) : Prop :=
  ∃ position name type standalone, node = .read position name type standalone

theorem not_begins_read_of_chain {tree : Node}
    (h : (Slot.chain .comparison).Holds tokens tree) (more : List Token) :
    begins [.readWord] (tokens ++ more) = false := by
  have hderives : Derives .greedy tokens (.chain .comparison tree) := h
  have hbegins : begins operandFirsts tokens = true := hderives.begins (hderives.ne_nil rfl)
  exact begins_eq_false (begins_append more hbegins) (by decide)

/-- Only a read begins with its keyword. -/
theorem not_begins_read (hwrite : Spells write) {node : Node} (h : node.ProperExpression names)
    (hread : ¬ IsRead node) : begins [.readWord] (expression write node) = false := by
  have hholds := holds_expression hwrite node h
  -- What stands in a chain begins as an operand does.
  have hchain : node.slot.rank ≤ 3 → begins [.readWord] (expression write node) = false := by
    intro hrank
    have hbegins := not_begins_read_of_chain (hholds.mono hrank) []
    rwa [List.append_nil] at hbegins
  cases node with
  | identifier | number | string | array | object => rfl
  | read position name type standalone => exact absurd ⟨_, _, _, _, rfl⟩ hread
  | assignment position target value =>
      exact not_begins_read_of_chain (holds_fill _ (holds_expression hwrite target h.1)) _
  | binary position operator left right =>
      obtain ⟨level, hlevel⟩ := Option.ne_none_iff_exists'.1 h.1
      refine hchain ?_
      simp only [Node.slot, hlevel]
      cases level <;> decide
  | call | member => exact hchain (Nat.zero_le _)
  | program | declaration | function | property | abstract | absent => exact h.elim

theorem derives_expressionStatement (hwrite : Spells write) {node : Node}
    (h : node.ProperExpression names) (hread : ¬ IsRead node) :
    Derives .greedy (expression write node ++ [sign .semicolon ";"])
      (.statement node.unplaced true) := by
  obtain ⟨marked, hfull⟩ := (holds_expression hwrite node h).full
  exact .endedStatement (not_begins_read hwrite h hread) hfull rfl

theorem keyword_kind (constant : Bool) :
    ((keyword constant).kind = .letWord ∨ (keyword constant).kind = .constWord) ∧
      decide ((keyword constant).kind = .constWord) = constant := by
  cases constant <;> exact ⟨by decide, rfl⟩

theorem keyword_position (constant : Bool) : (keyword constant).position = .nowhere := by
  cases constant <;> rfl

/-- A declaration with a value that does not begin with the keyword of reads. -/
theorem derives_valued (name : String) (constant : Bool) {tree : Node}
    (hread : begins [.readWord] tokens = false) (h : Slot.full.Holds tokens tree) :
    Derives .greedy
      (keyword constant :: sign .identifier name ::
        (sign .equals "=" :: tokens ++ [sign .semicolon ";"]))
      (.statement (.declaration .nowhere name constant tree) true) := by
  obtain ⟨marked, htokens⟩ := h
  have hkeyword := keyword_kind constant
  have hderives : Derives .greedy
      (keyword constant :: sign .identifier name ::
        (sign .equals "=" :: tokens ++ [sign .semicolon ";"]))
      (.statement (.declaration (keyword constant).position name
        (decide ((keyword constant).kind = .constWord)) tree) true) :=
    .declaration hkeyword.1 rfl rfl hread htokens rfl
  rw [hkeyword.2, keyword_position] at hderives
  exact hderives

theorem derives_declaration (hwrite : Spells write) {name : String} {constant : Bool}
    {value : Node} (h : value.ProperValue names name constant) :
    Derives .greedy
      (keyword constant :: sign .identifier name ::
        (initialValue write value ++ [sign .semicolon ";"]))
      (.statement (.declaration .nowhere name constant value.unplaced) true) := by
  have hexpression : value.ProperExpression names → ¬ IsRead value →
      Derives .greedy
        (keyword constant :: sign .identifier name ::
          (sign .equals "=" :: expression write value ++ [sign .semicolon ";"]))
        (.statement (.declaration .nowhere name constant value.unplaced) true) :=
    fun hproper hread => derives_valued name constant (not_begins_read hwrite hproper hread)
      (holds_expression hwrite value hproper).full
  cases value with
  | absent =>
      cases h
      exact .declarationWithoutValue rfl rfl rfl
  | read position read type standalone =>
      cases standalone with
      | false =>
          obtain ⟨rfl, rfl⟩ := h
          have hkeyword := keyword_kind constant
          have hderives : Derives .greedy
              [keyword constant, sign .identifier read, sign .equals "=", sign .readWord "read",
                sign .semicolon ";"]
              (.statement (.declaration (keyword constant).position read
                (decide ((keyword constant).kind = .constWord))
                (.read .nowhere read "string" false)) true) :=
            .declarationOfLine hkeyword.1 rfl rfl rfl rfl
          rw [hkeyword.2, keyword_position] at hderives
          exact hderives
      | true =>
          have hholds := holds_enclosed (holds_expression hwrite _ h)
          exact derives_valued name constant rfl hholds.full
  | program | declaration | function | property | abstract => exact h.elim
  | _ => exact hexpression h (by rintro ⟨_, _, _, _, ⟨⟩⟩)

theorem derives_parameterNames (parameters : List String) :
    Derives .greedy (parameterNames parameters)
      (.arguments (parameters.map (.identifier .nowhere))) := by
  refine derives_arguments ?_
  rw [List.forall₂_map_left_iff, List.forall₂_map_right_iff]
  exact List.forall₂_same.2 fun name _ => (holds_primary (.identifier rfl)).full

theorem unplaced_parameters (parameters : List String) :
    Node.unplacedAll (parameters.map (.identifier .nowhere)) =
      parameters.map (.identifier .nowhere) := by
  rw [Node.unplacedAll_eq_map, List.map_map]
  rfl

mutual

/-- The printed tokens of a statement derive as it, with its end marked. -/
theorem derives_statement (hwrite : Spells write) : ∀ node : Node, node.ProperStatement names →
    Derives .greedy (statement write node) (.statement node.unplaced true)
  | .declaration .., h => derives_declaration hwrite h.2
  | .function _ _ parameters body, h =>
      .function rfl rfl (derives_parameterNames parameters) (unplaced_parameters parameters) rfl
        (derives_statements hwrite body h.2.2) rfl
  | .read _ _ _ _, h => by
      obtain ⟨_, rfl, rfl⟩ := h
      exact .readStatement rfl rfl rfl
  | .identifier .., h | .number .., h | .string .., h | .array .., h | .object .., h
  | .assignment .., h | .binary .., h | .call .., h | .member .., h =>
      @derives_expressionStatement write names hwrite _ h (by rintro ⟨_, _, _, _, ⟨⟩⟩)
  | .program .., h | .property .., h | .abstract .., h | .absent, h => h.elim

theorem derives_statements (hwrite : Spells write) : ∀ nodes : List Node,
    Node.ProperStatements names nodes →
    Derives .greedy (statements write nodes) (.statements (Node.unplacedAll nodes))
  | [], _ => .noStatement
  | node :: rest, h =>
      .statement (derives_statement hwrite node h.1) (derives_statements hwrite rest h.2)
        fun hopen => absurd hopen (by decide)

end

end Print

end Nomi
