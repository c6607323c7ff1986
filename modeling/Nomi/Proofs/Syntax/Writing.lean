import Nomi.Proofs.Lexical.Spelling
import Nomi.Proofs.Syntax.RoundTrip

/-!
# Writing programs

Tokens are written one after the other with a blank behind each.  What is written
of a program that a source can hold is a source of this program.
-/

namespace Nomi

namespace Escape

/-- The body of a literal in double quotes: a backslash stands before every quote and
every backslash. -/
def encode : List Char → List Char
  | [] => []
  | c :: rest =>
      if c = '\\' ∨ c = '"' then '\\' :: c :: encode rest else c :: encode rest

theorem encode_eq_guarded (text : List Char) : encode text = guarded '"' text := by
  induction text with
  | nil => rfl
  | cons c rest ih => rw [encode, guarded, ih]

end Escape

namespace Lexical

def spelling (token : Token) : List Char :=
  if token.kind = .string then '"' :: (Escape.encode token.lexeme.toList ++ ['"'])
  else token.lexeme.toList

/-- Whether what is written for a token, with a blank behind, is a lexeme of this
token. -/
def Writable (token : Token) : Prop :=
  ∀ rest, Lexeme (spelling token) (' ' :: rest) token.kind token.lexeme.toList

def writing (tokens : List Token) : List Char :=
  tokens.flatMap fun token => spelling token ++ [' ']

/-- What is written for tokens is cut into these tokens. -/
theorem exists_cut_writing {tokens : List Token} (h : ∀ token ∈ tokens, Writable token)
    (before : List Char) :
    ∃ placed stop, Cut before (writing tokens) (placed ++ [stop]) ∧ stop.kind = .endOfSource ∧
      List.Forall₂ (Token.Alike fun _ _ => True) tokens placed := by
  induction tokens generalizing before with
  | nil => exact ⟨[], _, .done .nothing, rfl, .nil⟩
  | cons token rest ih =>
      obtain ⟨placed, stop, hcut, hstop, halike⟩ :=
        ih (fun other hmem => h other (List.mem_cons_of_mem _ hmem))
          (before ++ spelling token ++ [' '])
      have hblank : Gap [' '] (writing rest) := .blank (by decide) .nothing
      have htoken := Cut.lexeme_gap (h token List.mem_cons_self (writing rest)) hblank hcut
      refine ⟨⟨token.kind, token.lexeme, placeBehind before⟩ :: placed, stop, ?_, hstop,
        .cons ⟨rfl, rfl, trivial⟩ halike⟩
      simpa [writing] using htoken

/-- What is written for a token, if it is one of the token's spellings, is its lexeme. -/
theorem writable_of_spelled {token : Token}
    (h : Spelled token.kind token.lexeme (spelling token)) : Writable token := by
  intro rest
  apply h.lexeme
  rintro c ⟨⟩
  decide

theorem writable_string (lexeme : String) : Writable (Print.sign .string lexeme) := by
  apply writable_of_spelled
  have hspelling : spelling (Print.sign .string lexeme) =
      '"' :: (Escape.guarded '"' lexeme.toList ++ ['"']) := by
    simp [spelling, Print.sign, Escape.encode_eq_guarded]
  rw [hspelling]
  exact .string List.mem_cons_self

/-- Every other token is written as its text. -/
theorem writable_of_ne_string {kind : Token.Kind} {lexeme : String} (hkind : kind ≠ .string)
    (h : Spelled kind lexeme lexeme.toList) : Writable (Print.sign kind lexeme) := by
  apply writable_of_spelled
  have hspelling : spelling (Print.sign kind lexeme) = lexeme.toList := if_neg hkind
  rw [hspelling]
  exact h

theorem writable_number {lexeme : String} (h : Numeral.isPlain lexeme.toList = true) :
    Writable (Print.sign .number lexeme) :=
  writable_of_ne_string (by decide) (.number h)

theorem writable_word {lexeme : String} (h : IsWord lexeme) :
    Writable (Print.sign (.ofWord lexeme) lexeme) := by
  refine writable_of_ne_string ?_ (.word h)
  unfold Token.Kind.ofWord
  split <;> simp

theorem writable_symbol {lexeme : String} {c : Char} {kind : Token.Kind}
    (hlexeme : lexeme.toList = [c]) (hsymbol : Token.Kind.ofSymbol? c = some kind) :
    Writable (Print.sign kind lexeme) := by
  refine writable_of_ne_string ?_ (.symbol hlexeme hsymbol)
  rintro rfl
  unfold Token.Kind.ofSymbol? at hsymbol
  split at hsymbol <;> contradiction

end Lexical

open Lexical Print

/-! ## Tokens that are printed -/

/-- The tokens that programs with such names are printed as. -/
inductive Printed (names : String → Prop) : Token → Prop
  | symbol {kind : Token.Kind} {lexeme : String} {c : Char} (hlexeme : lexeme.toList = [c])
      (hsymbol : Token.Kind.ofSymbol? c = some kind) : Printed names (sign kind lexeme)
  | keyword {lexeme : String} (hword : IsWord lexeme) :
      Printed names (sign (.ofWord lexeme) lexeme)
  | name {lexeme : String} (hname : names lexeme) : Printed names (sign .identifier lexeme)
  | number {lexeme : String} (hplain : Numeral.isPlain lexeme.toList = true) :
      Printed names (sign .number lexeme)
  | string {lexeme : String} : Printed names (sign .string lexeme)

variable {names : String → Prop} {write : Float → String} {token : Token}

theorem Printed.ne_endOfSource (h : Printed names token) : token.kind ≠ .endOfSource := by
  cases h with
  | symbol _ hsymbol => exact (ofSymbol?_ne hsymbol).1
  | keyword => exact (ofWord_ne _).1
  | name | number | string => simp [sign]

theorem Printed.mono {more : String → Prop} (h : Printed names token)
    (hmore : ∀ name, names name → more name) : Printed more token := by
  cases h with
  | symbol hlexeme hsymbol => exact .symbol hlexeme hsymbol
  | keyword hword => exact .keyword hword
  | name hname => exact .name (hmore _ hname)
  | number hplain => exact .number hplain
  | string => exact .string

theorem Printed.writable (h : Printed IsName token) : Writable token := by
  cases h with
  | symbol hlexeme hsymbol => exact writable_symbol hlexeme hsymbol
  | keyword hword => exact writable_word hword
  | name hname =>
      have hword := writable_word hname.1
      rwa [hname.2] at hword
  | number hplain => exact writable_number hplain
  | string => exact writable_string _

namespace Print

def AllPrinted (names : String → Prop) (tokens : List Token) : Prop :=
  ∀ token ∈ tokens, Printed names token

variable {tokens more : List Token} {parts : List (List Token)}

theorem allPrinted_nil : AllPrinted names [] :=
  fun _ hmem => absurd hmem List.not_mem_nil

theorem allPrinted_cons (h : Printed names token) (hmore : AllPrinted names more) :
    AllPrinted names (token :: more) :=
  List.forall_mem_cons.2 ⟨h, hmore⟩

theorem allPrinted_append (h : AllPrinted names tokens) (hmore : AllPrinted names more) :
    AllPrinted names (tokens ++ more) :=
  List.forall_mem_append.2 ⟨h, hmore⟩

theorem printed_read : Printed names (sign .readWord "read") :=
  .keyword ⟨'r', ['e', 'a', 'd'], rfl, rfl, rfl⟩

theorem printed_fn : Printed names (sign .fnWord "fn") :=
  .keyword ⟨'f', ['n'], rfl, rfl, rfl⟩

theorem printed_keyword (constant : Bool) : Printed names (keyword constant) := by
  cases constant with
  | true => exact .keyword ⟨'c', ['o', 'n', 's', 't'], rfl, rfl, rfl⟩
  | false => exact .keyword ⟨'l', ['e', 't'], rfl, rfl, rfl⟩

theorem printed_operator {operator : Operator} {level : Grammar.Level}
    (h : operator.level? = some level) : Printed names (sign .operator operator.symbol) := by
  cases operator with
  | other symbol => contradiction
  | _ => exact .symbol rfl rfl

theorem allPrinted_between {left right : Token} (hleft : Printed names left)
    (h : AllPrinted names tokens) (hright : Printed names right) :
    AllPrinted names (left :: (tokens ++ [right])) :=
  allPrinted_cons hleft (allPrinted_append h (allPrinted_cons hright allPrinted_nil))

theorem allPrinted_enclosed (h : AllPrinted names tokens) : AllPrinted names (enclosed tokens) :=
  allPrinted_between (.symbol rfl rfl) h (.symbol rfl rfl)

theorem allPrinted_fill (slot : Grammar.Slot) (node : Node) (h : AllPrinted names tokens) :
    AllPrinted names (fill slot node tokens) := by
  unfold fill
  split
  · exact h
  · exact allPrinted_enclosed h

theorem allPrinted_commas (h : ∀ part ∈ parts, AllPrinted names part) :
    AllPrinted names (commas parts) := by
  induction parts with
  | nil => exact allPrinted_nil
  | cons part rest ih =>
      obtain ⟨hpart, hrest⟩ := List.forall_mem_cons.1 h
      cases rest with
      | nil =>
          rw [commas_singleton]
          exact hpart
      | cons second others =>
          rw [commas_cons_cons]
          exact allPrinted_append hpart (allPrinted_cons (.symbol rfl rfl) (ih hrest))

theorem allPrinted_property {key : String} {value : Node} (hkey : names key)
    (h : AllPrinted names tokens) : AllPrinted names (property key value tokens) := by
  unfold property
  split
  · exact allPrinted_cons (.name hkey) allPrinted_nil
  · exact allPrinted_cons (.name hkey) (allPrinted_cons (.symbol rfl rfl) h)

mutual

theorem allPrinted_expression (hwrite : Spells write) : ∀ node : Node,
    node.ProperExpression names → AllPrinted names (expression write node)
  | .identifier _ _, h => allPrinted_cons (.name h) allPrinted_nil
  | .number _ value, h => by
      obtain ⟨text, hplain, hread⟩ := h
      exact allPrinted_cons (.number (hwrite value text hplain hread).1) allPrinted_nil
  | .string _ _, _ => allPrinted_cons .string allPrinted_nil
  | .array _ elements, h =>
      allPrinted_between (.symbol rfl rfl)
        (allPrinted_commas (allPrinted_expressions hwrite elements h)) (.symbol rfl rfl)
  | .object _ properties, h =>
      allPrinted_between (.symbol rfl rfl)
        (allPrinted_commas (allPrinted_entries hwrite properties h)) (.symbol rfl rfl)
  | .read _ _ _ _, h =>
      allPrinted_cons printed_read (allPrinted_cons (.name h.1)
        (allPrinted_cons (.symbol rfl rfl) allPrinted_nil))
  | .assignment _ target value, h =>
      allPrinted_append (allPrinted_fill _ target (allPrinted_expression hwrite target h.1))
        (allPrinted_cons (.symbol rfl rfl) (allPrinted_expression hwrite value h.2))
  | .binary _ operator left right, h => by
      obtain ⟨level, hlevel⟩ := Option.ne_none_iff_exists'.1 h.1
      have hleft := allPrinted_expression hwrite left h.2.1
      have hright := allPrinted_expression hwrite right h.2.2
      simp only [expression, hlevel]
      exact allPrinted_append (allPrinted_fill _ left hleft)
        (allPrinted_cons (printed_operator hlevel) (allPrinted_fill _ right hright))
  | .call _ callee values, h =>
      allPrinted_append (allPrinted_fill _ callee (allPrinted_expression hwrite callee h.1))
        (allPrinted_enclosed (allPrinted_commas (allPrinted_expressions hwrite values h.2)))
  | .member _ owner key true, h =>
      allPrinted_append (allPrinted_fill _ owner (allPrinted_expression hwrite owner h.1))
        (allPrinted_between (.symbol rfl rfl) (allPrinted_expression hwrite key h.2.1)
          (.symbol rfl rfl))
  | .member _ owner key false, h =>
      allPrinted_append (allPrinted_fill _ owner (allPrinted_expression hwrite owner h.1))
        (allPrinted_cons (.symbol rfl rfl) (allPrinted_expression hwrite key h.2.1))
  | .program .., h | .declaration .., h | .function .., h | .property .., h | .abstract .., h
  | .absent, h => h.elim

theorem allPrinted_expressions (hwrite : Spells write) : ∀ nodes : List Node,
    Node.ProperExpressions names nodes →
    ∀ part ∈ expressions write nodes, AllPrinted names part
  | [], _ => fun _ hmem => absurd hmem List.not_mem_nil
  | node :: rest, h =>
      List.forall_mem_cons.2
        ⟨allPrinted_expression hwrite node h.1, allPrinted_expressions hwrite rest h.2⟩

theorem allPrinted_entries (hwrite : Spells write) : ∀ nodes : List Node,
    Node.ProperEntries names nodes → ∀ part ∈ entries write nodes, AllPrinted names part
  | [], _ => fun _ hmem => absurd hmem List.not_mem_nil
  | .property _ key value :: rest, h => by
      have hvalue : AllPrinted names (expression write value) := by
        rcases h.2.1 with rfl | hproper
        · exact allPrinted_nil
        · exact allPrinted_expression hwrite value hproper
      exact List.forall_mem_cons.2
        ⟨allPrinted_property h.1 hvalue, allPrinted_entries hwrite rest h.2.2⟩

end

theorem allPrinted_initialValue (hwrite : Spells write) {declared : String} {constant : Bool}
    {value : Node} (h : value.ProperValue names declared constant) :
    AllPrinted names (initialValue write value) := by
  have hexpression : value.ProperExpression names →
      AllPrinted names (sign .equals "=" :: expression write value) := fun hproper =>
    allPrinted_cons (.symbol rfl rfl) (allPrinted_expression hwrite value hproper)
  cases value with
  | absent => exact allPrinted_nil
  | read position name type standalone =>
      cases standalone with
      | false =>
          exact allPrinted_cons (.symbol rfl rfl) (allPrinted_cons printed_read allPrinted_nil)
      | true =>
          exact allPrinted_cons (.symbol rfl rfl)
            (allPrinted_enclosed (allPrinted_expression hwrite _ h))
  | program | declaration | function | property | abstract => exact h.elim
  | _ => exact hexpression h

theorem allPrinted_parameterNames {parameters : List String}
    (h : ∀ parameter ∈ parameters, names parameter) :
    AllPrinted names (parameterNames parameters) := by
  refine allPrinted_enclosed (allPrinted_commas ?_)
  intro part hmem
  obtain ⟨parameter, hparameter, rfl⟩ := List.mem_map.1 hmem
  exact allPrinted_cons (.name (h parameter hparameter)) allPrinted_nil

mutual

theorem allPrinted_statement (hwrite : Spells write) : ∀ node : Node,
    node.ProperStatement names → AllPrinted names (statement write node)
  | .declaration _ _ constant _, h =>
      allPrinted_cons (printed_keyword constant) (allPrinted_cons (.name h.1)
        (allPrinted_append (allPrinted_initialValue hwrite h.2)
          (allPrinted_cons (.symbol rfl rfl) allPrinted_nil)))
  | .function _ _ _ body, h =>
      allPrinted_cons printed_fn (allPrinted_cons (.name h.1)
        (allPrinted_append (allPrinted_parameterNames h.2.1)
          (allPrinted_between (.symbol rfl rfl) (allPrinted_statements hwrite body h.2.2)
            (.symbol rfl rfl))))
  | .read position name type standalone, h =>
      allPrinted_expression hwrite (.read position name type standalone) h
  | .identifier .., h | .number .., h | .string .., h | .array .., h | .object .., h
  | .assignment .., h | .binary .., h | .call .., h | .member .., h =>
      allPrinted_append (allPrinted_expression hwrite _ h)
        (allPrinted_cons (.symbol rfl rfl) allPrinted_nil)
  | .program .., h | .property .., h | .abstract .., h | .absent, h => h.elim

theorem allPrinted_statements (hwrite : Spells write) : ∀ nodes : List Node,
    Node.ProperStatements names nodes → AllPrinted names (statements write nodes)
  | [], _ => allPrinted_nil
  | node :: rest, h =>
      allPrinted_append (allPrinted_statement hwrite node h.1)
        (allPrinted_statements hwrite rest h.2)

end

end Print

/-! ## What printed programs are read as -/

theorem exists_spells : ∃ write, Spells write := by
  have hspells : ∀ value : Float, ∃ text : String, ∀ other,
      Numeral.isPlain other = true → Numeral.read? other = some value →
        Numeral.isPlain text.toList = true ∧ Numeral.read? text.toList = some value := by
    intro value
    by_cases hsome : ∃ other, Numeral.isPlain other = true ∧ Numeral.read? other = some value
    · obtain ⟨other, hother⟩ := hsome
      exact ⟨String.ofList other, fun _ _ _ => by rwa [String.toList_ofList]⟩
    · exact ⟨"", fun other hplain hread => absurd ⟨other, hplain, hread⟩ hsome⟩
  choose write hwrite using hspells
  exact ⟨write, hwrite⟩

def Print.source (write : Float → String) (body : List Node) : String :=
  String.ofList (writing (statements write body))

/-- Wherever the printed tokens stand, they are a program with the statements. -/
theorem parseTokens_printed (hwrite : Spells write) {body : List Node}
    (h : Node.ProperStatements names body) {tokens : List Token} {stop : Token}
    (htokens : List.Forall₂ (Token.Alike fun _ _ => True) (statements write body) tokens)
    (hstop : stop.kind = .endOfSource) :
    ∃ found, parseTokens (tokens ++ [stop]) = .ok (.program .start found) ∧
      Node.unplacedAll found = Node.unplacedAll body := by
  have hprinted := allPrinted_statements hwrite body h
  have hprogram := parseTokens_of_derives hstop
    (fun token hmem => (hprinted token hmem).ne_endOfSource) (derives_statements hwrite body h)
  have hall : List.Forall₂ (Token.Alike fun _ _ => True) (statements write body ++ [stop])
      (tokens ++ [stop]) := List.rel_append htokens (.cons ⟨rfl, rfl, trivial⟩ .nil)
  have hended : ∃ token ∈ statements write body ++ [stop], Cursor.isEnd token = true :=
    ⟨stop, List.mem_append_right _ List.mem_cons_self, by simp [Cursor.isEnd, hstop]⟩
  rcases parseTokens_alike hall hended with ⟨xs, ys, hone, htwo, halike⟩ | ⟨_, _, hone, _⟩
  · rw [hprogram] at hone
    cases hone
    refine ⟨ys, htwo, ?_⟩
    rw [← Node.AlikeAll.unplaced_eq halike]
    exact Node.unplacedAll_unplacedAll body
  · rw [hprogram] at hone
    contradiction

/--
A printed program is read as the same program, up to places: its tokens are, wherever
they stand, and so is the source that they are written as, if its names are words and
no keywords.
-/
theorem parse_printed (hwrite : Spells write) (position : Position) {body : List Node}
    (h : Node.ProperStatements names body) :
    (∀ tokens stop, List.Forall₂ (Token.Alike fun _ _ => True) (statements write body) tokens →
      stop.kind = .endOfSource →
      ∃ program, parseTokens (tokens ++ [stop]) = .ok program ∧
        program.unplaced = (Node.program position body).unplaced) ∧
      ((∀ name, names name → IsName name) →
        ∃ program, parse (source write body) = .ok program ∧
          program.unplaced = (Node.program position body).unplaced) := by
  have htokens : ∀ tokens stop,
      List.Forall₂ (Token.Alike fun _ _ => True) (statements write body) tokens →
      stop.kind = .endOfSource →
      ∃ program, parseTokens (tokens ++ [stop]) = .ok program ∧
        program.unplaced = (Node.program position body).unplaced := by
    intro tokens stop halike hstop
    obtain ⟨found, hfound, hbody⟩ := parseTokens_printed hwrite h halike hstop
    exact ⟨_, hfound, by simp [hbody]⟩
  refine ⟨htokens, fun hnames => ?_⟩
  have hwritable : ∀ token ∈ statements write body, Writable token := fun token hmem =>
    ((allPrinted_statements hwrite body h token hmem).mono hnames).writable
  obtain ⟨placed, stop, hcut, hstop, halike⟩ := exists_cut_writing hwritable []
  obtain ⟨program, hprogram, hbody⟩ := htokens placed stop halike hstop
  have htokenize : tokenize (source write body) = .ok (placed ++ [stop]) := by
    refine tokenize_of_cut ?_
    rwa [source, String.toList_ofList]
  exact ⟨program, parse_of_tokenize htokenize hprogram, hbody⟩

/-- A read that a declaration takes its value from and a difference on the right of a
difference need their parentheses. -/
theorem parse_printed_groups :
    ∃ write, Spells write ∧ ∃ program,
      parse (source write
        [.declaration .nowhere "x" false (.read .nowhere "y" "string" true),
          .binary .nowhere .subtract (.identifier .nowhere "x")
            (.binary .nowhere .subtract (.identifier .nowhere "y")
              (.identifier .nowhere "z"))]) = .ok program ∧
        program.unplaced = .program .nowhere
          [.declaration .nowhere "x" false (.read .nowhere "y" "string" true),
            .binary .nowhere .subtract (.identifier .nowhere "x")
              (.binary .nowhere .subtract (.identifier .nowhere "y")
                (.identifier .nowhere "z"))] := by
  obtain ⟨write, hwrite⟩ := exists_spells
  have hx : IsName "x" := ⟨⟨'x', [], rfl, rfl, rfl⟩, rfl⟩
  have hy : IsName "y" := ⟨⟨'y', [], rfl, rfl, rfl⟩, rfl⟩
  have hz : IsName "z" := ⟨⟨'z', [], rfl, rfl, rfl⟩, rfl⟩
  have hproper : Node.ProperStatements IsName
      [.declaration .nowhere "x" false (.read .nowhere "y" "string" true),
        .binary .nowhere .subtract (.identifier .nowhere "x")
          (.binary .nowhere .subtract (.identifier .nowhere "y") (.identifier .nowhere "z"))] :=
    ⟨⟨hx, hy, rfl, rfl⟩, ⟨by decide, hx, by decide, hy, hz⟩, trivial⟩
  exact ⟨write, hwrite, (parse_printed hwrite .nowhere hproper).2 fun _ => id⟩

example :
    source (fun _ => "0")
      [.declaration .nowhere "x" false (.read .nowhere "y" "string" true),
        .binary .nowhere .subtract (.identifier .nowhere "x")
          (.binary .nowhere .subtract (.identifier .nowhere "y") (.identifier .nowhere "z"))] =
      "let x = ( read y ; ) ; x - ( y - z ) ; " := by rfl

end Nomi
