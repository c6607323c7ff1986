import Nomi.Proofs.Syntax.Alike
import Nomi.Proofs.Syntax.Completeness

/-!
# Where places come from

A parser does not look at places, it only passes them on.  From tokens that are the
same up to places it makes trees and errors that are the same up to places, and the
places correspond as those of the tokens do.
-/

namespace Nomi

/-- Whether two tokens are the same, apart from their places, which correspond. -/
structure Token.Alike (places : Places) (first second : Token) : Prop where
  kind : first.kind = second.kind
  lexeme : first.lexeme = second.lexeme
  position : places first.position second.position

structure Cursor.Alike (places : Places) (first second : Cursor) : Prop where
  ahead : List.Forall₂ (Token.Alike places) first.ahead second.ahead
  stop : first.stop.Alike places second.stop
  index : first.index = second.index

structure SyntaxError.Alike (places : Places) (first second : SyntaxError) : Prop where
  cause : first.cause = second.cause
  position : places first.position second.position

def Node.Rooted (places : Places) (first second : Node) : Prop :=
  first.Alike places second ∧ places first.position second.position

namespace Cursor

variable {places : Places} {first second : Cursor}

theorem Alike.peek (h : first.Alike places second) : first.peek.Alike places second.peek := by
  have hahead := h.ahead
  unfold Cursor.peek
  generalize first.ahead = tokens at hahead ⊢
  generalize second.ahead = others at hahead ⊢
  cases hahead with
  | nil => exact h.stop
  | cons htoken _ => exact htoken

theorem Alike.next (h : first.Alike places second) : first.next.Alike places second.next := by
  refine ⟨?_, by simpa using h.stop, ?_⟩
  · have hahead := h.ahead
    rw [ahead_next, ahead_next]
    generalize first.ahead = tokens at hahead ⊢
    generalize second.ahead = others at hahead ⊢
    cases hahead with
    | nil => exact .nil
    | cons _ hrest => exact hrest
  · have hempty : first.ahead = [] ↔ second.ahead = [] := by
      rw [← List.length_eq_zero_iff, ← List.length_eq_zero_iff, h.ahead.length_eq]
    simp only [index_next, h.index, hempty]

theorem Alike.check (h : first.Alike places second) (kind : Token.Kind) :
    first.check kind = second.check kind := by
  unfold Cursor.check
  rw [h.peek.kind]

theorem Alike.checkOperator (h : first.Alike places second) (symbols : List String) :
    first.checkOperator symbols = second.checkOperator symbols := by
  unfold Cursor.checkOperator
  rw [h.check, h.peek.lexeme]

theorem Alike.atEnd (h : first.Alike places second) : first.atEnd = second.atEnd := by
  unfold Cursor.atEnd Cursor.isEnd
  rw [h.peek.kind]

theorem alike_ofList {tokens others : List Token}
    (h : List.Forall₂ (Token.Alike places) tokens others)
    (hended : ∃ token ∈ tokens, isEnd token = true) :
    (ofList tokens).Alike places (ofList others) := by
  have hend : ∀ {token other : Token}, token.Alike places other → isEnd token = isEnd other := by
    intro token other htoken
    unfold isEnd
    rw [htoken.kind]
  refine ⟨?_, ?_, rfl⟩
  · unfold ofList
    induction h with
    | nil => exact .nil
    | @cons token other _ _ htoken _ ih =>
        simp only [List.takeWhile_cons, ← hend htoken]
        cases hkind : isEnd token with
        | true => exact .nil
        | false => exact .cons htoken (ih (by simpa [hkind] using hended))
  · unfold ofList
    induction h with
    | nil => simp at hended
    | @cons token other _ _ htoken _ ih =>
        simp only [List.find?_cons, ← hend htoken]
        cases hkind : isEnd token with
        | true => exact htoken
        | false => exact ih (by simpa [hkind] using hended)

end Cursor

namespace Parser

variable {α β γ δ : Type} {places : Places} {related : α → β → Prop}

inductive Ends (places : Places) (related : α → β → Prop) :
    EStateM.Result SyntaxError Cursor α → EStateM.Result SyntaxError Cursor β → Prop
  | ok {a : α} {b : β} {first second : Cursor} (hcursor : first.Alike places second)
      (h : related a b) : Ends places related (.ok a first) (.ok b second)
  | error {e f : SyntaxError} {first second : Cursor} (hcursor : first.Alike places second)
      (h : e.Alike places f) : Ends places related (.error e first) (.error f second)

def Agree (places : Places) (first : Parser α) (second : Parser β) (related : α → β → Prop) :
    Prop :=
  ∀ one two : Cursor, one.Alike places two → Ends places related (first one) (second two)

theorem agree_pure {a : α} {b : β} (h : related a b) :
    Agree places (pure a) (pure b) related :=
  fun _ _ hcursor => .ok hcursor h

theorem agree_throw {e f : SyntaxError} (h : e.Alike places f) :
    Agree places (throw e) (throw f) related :=
  fun _ _ hcursor => .error hcursor h

theorem agree_fail (cause : SyntaxCause) {p q : Position} (h : places p q) :
    Agree places (fail cause p) (fail cause q) related :=
  agree_throw ⟨rfl, h⟩

theorem agree_bind {first : Parser α} {second : Parser β} {rest : α → Parser γ}
    {other : β → Parser δ} {final : γ → δ → Prop} (hfirst : Agree places first second related)
    (hrest : ∀ a b, related a b → Agree places (rest a) (other b) final) :
    Agree places (first >>= rest) (second >>= other) final := by
  intro one two hcursor
  have hone := hfirst one two hcursor
  rw [bind_apply, bind_apply]
  generalize first one = left at hone ⊢
  generalize second two = right at hone ⊢
  cases hone with
  | error hcursor h => exact .error hcursor h
  | ok hcursor h => exact hrest _ _ h _ _ hcursor

/-! ## Single tokens -/

theorem agree_peek {rest : Token → Parser α} {other : Token → Parser β}
    (h : ∀ token twin, Token.Alike places token twin →
      Agree places (rest token) (other twin) related) :
    Agree places (peek >>= rest) (peek >>= other) related :=
  fun one two hcursor => h one.peek two.peek hcursor.peek one two hcursor

theorem agree_advance : Agree places advance advance (Token.Alike places) :=
  fun _ _ hcursor => .ok hcursor.next hcursor.peek

theorem agree_check (kind : Token.Kind) {yes no : Parser α} {other another : Parser β}
    (hyes : Agree places yes other related) (hno : Agree places no another related) :
    Agree places (get >>= fun cursor => if cursor.check kind then yes else no)
      (get >>= fun cursor => if cursor.check kind then other else another) related := by
  intro one two hcursor
  show Ends places related ((if one.check kind then yes else no) one)
    ((if two.check kind then other else another) two)
  rw [hcursor.check kind]
  cases two.check kind with
  | true => exact hyes one two hcursor
  | false => exact hno one two hcursor

theorem agree_checkOperator (symbols : List String) {yes no : Parser α}
    {other another : Parser β} (hyes : Agree places yes other related)
    (hno : Agree places no another related) :
    Agree places (get >>= fun cursor => if cursor.checkOperator symbols then yes else no)
      (get >>= fun cursor => if cursor.checkOperator symbols then other else another)
      related := by
  intro one two hcursor
  show Ends places related ((if one.checkOperator symbols then yes else no) one)
    ((if two.checkOperator symbols then other else another) two)
  rw [hcursor.checkOperator symbols]
  cases two.checkOperator symbols with
  | true => exact hyes one two hcursor
  | false => exact hno one two hcursor

theorem agree_accept (kind : Token.Kind) :
    Agree places (accept kind) (accept kind) (Option.Rel (Token.Alike places)) := by
  refine agree_check kind ?_ (agree_pure .none)
  exact fun _ _ hcursor => .ok hcursor.next (.some hcursor.peek)

theorem agree_expect (kind : Token.Kind) (expectation : Expectation) :
    Agree places (expect kind expectation) (expect kind expectation) (Token.Alike places) := by
  refine agree_peek fun token twin htoken => ?_
  rw [htoken.kind]
  split
  · exact agree_advance
  · exact agree_fail _ htoken.position

theorem agree_unexpected :
    Agree places (unexpected : Parser α) (unexpected : Parser β) related := by
  refine agree_peek fun token twin htoken => ?_
  rw [htoken.kind, htoken.lexeme]
  exact agree_fail _ htoken.position

/-- Tokens that correspond are as many. -/
theorem agree_remaining {rest : Nat → Parser α} {other : Nat → Parser β}
    (h : ∀ rounds, Agree places (rest rounds) (other rounds) related) :
    Agree places (remaining >>= rest) (remaining >>= other) related := by
  intro one two hcursor
  show Ends places related (rest one.ahead.length one) (other two.ahead.length two)
  rw [hcursor.ahead.length_eq]
  exact h _ one two hcursor

theorem agree_standsAt (kind : Token.Kind) {yes no : Parser α} {other another : Parser β}
    (hyes : Agree places yes other related) (hno : Agree places no another related) :
    Agree places (standsAt kind >>= fun stands => if stands then yes else no)
      (standsAt kind >>= fun stands => if stands then other else another) related := by
  intro one two hcursor
  show Ends places related ((if one.atEnd || one.check kind then yes else no) one)
    ((if two.atEnd || two.check kind then other else another) two)
  rw [hcursor.check kind, hcursor.atEnd]
  cases two.atEnd || two.check kind with
  | true => exact hyes one two hcursor
  | false => exact hno one two hcursor

variable {item : Parser α} {twin : Parser β}

theorem agree_itemsUntil (kind : Token.Kind) (h : Agree places item twin related) :
    Agree places (itemsUntil kind item) (itemsUntil kind twin) (List.Forall₂ related) := by
  have hitems : ∀ rounds, Agree places (itemsUpTo kind item rounds) (itemsUpTo kind twin rounds)
      (List.Forall₂ related) := by
    intro rounds
    induction rounds with
    | zero => exact agree_pure .nil
    | succ rounds ih =>
        refine agree_standsAt kind (agree_pure .nil) (agree_bind h fun a b hfirst => ?_)
        exact agree_bind ih fun xs ys hrest => agree_pure (.cons hfirst hrest)
  exact agree_remaining hitems

theorem agree_commaItemsUntil (kind : Token.Kind) (h : Agree places item twin related) :
    Agree places (commaItemsUntil kind item) (commaItemsUntil kind twin)
      (List.Forall₂ related) := by
  have hitems : ∀ rounds, Agree places (commaItemsUpTo kind item rounds)
      (commaItemsUpTo kind twin rounds) (List.Forall₂ related) := by
    intro rounds
    induction rounds with
    | zero => exact agree_pure .nil
    | succ rounds ih =>
        refine agree_standsAt kind (agree_pure .nil) (agree_bind h fun a b hfirst => ?_)
        refine agree_bind (agree_accept .comma) fun comma other hcomma => ?_
        cases hcomma with
        | none => exact agree_pure (.cons hfirst .nil)
        | some _ => exact agree_bind ih fun xs ys hrest => agree_pure (.cons hfirst hrest)
  exact agree_remaining hitems

theorem agree_separated (h : Agree places item twin related) :
    Agree places (separated item) (separated twin) (List.Forall₂ related) := by
  have hfurther : ∀ rounds, Agree places (furtherUpTo item rounds) (furtherUpTo twin rounds)
      (List.Forall₂ related) := by
    intro rounds
    induction rounds with
    | zero => exact agree_pure .nil
    | succ rounds ih =>
        refine agree_bind (agree_accept .comma) fun comma other hcomma => ?_
        cases hcomma with
        | none => exact agree_pure .nil
        | some _ =>
            refine agree_bind h fun a b hfirst => ?_
            exact agree_bind ih fun xs ys hrest => agree_pure (.cons hfirst hrest)
  refine agree_bind h fun a b hfirst => ?_
  refine agree_remaining fun rounds => ?_
  exact agree_bind (hfurther rounds) fun xs ys hrest => agree_pure (.cons hfirst hrest)

theorem agree_extend {step? : α → Parser (Option α)} {other? : β → Parser (Option β)}
    (h : Agree places item twin related)
    (hstep : ∀ a b, related a b → Agree places (step? a) (other? b) (Option.Rel related)) :
    Agree places (extend item step?) (extend twin other?) related := by
  have hsteps : ∀ rounds a b, related a b →
      Agree places (extendUpTo step? rounds a) (extendUpTo other? rounds b) related := by
    intro rounds
    induction rounds with
    | zero => exact fun a b hvalue => agree_pure hvalue
    | succ rounds ih =>
        intro a b hvalue
        refine agree_bind (hstep a b hvalue) fun next later hnext => ?_
        cases hnext with
        | none => exact agree_pure hvalue
        | some hnext => exact ih _ _ hnext
  refine agree_bind h fun a b hvalue => ?_
  exact agree_remaining fun rounds => hsteps rounds a b hvalue

/-! ## Expressions -/

variable {expression other : Parser Node}

theorem agree_numeral {token twin : Token} (h : token.Alike places twin) :
    Agree places (numeral token) (numeral twin) (Node.Rooted places) := by
  unfold numeral
  rw [h.lexeme]
  cases Numeral.read? twin.lexeme.toList with
  | some value => exact agree_pure ⟨.number h.position, h.position⟩
  | none => exact agree_fail _ h.position

theorem agree_primary (h : Agree places expression other (Node.Rooted places)) :
    Agree places (primary expression) (primary other) (Node.Rooted places) := by
  refine agree_peek fun token twin htoken => ?_
  rw [htoken.kind]
  cases twin.kind with
  | identifier =>
      refine agree_bind agree_advance fun _ _ _ => ?_
      rw [htoken.lexeme]
      exact agree_pure ⟨.identifier htoken.position, htoken.position⟩
  | number => exact agree_bind agree_advance fun _ _ _ => agree_numeral htoken
  | string =>
      refine agree_bind agree_advance fun _ _ _ => ?_
      rw [htoken.lexeme]
      exact agree_pure ⟨.string htoken.position, htoken.position⟩
  | openParen =>
      refine agree_bind agree_advance fun _ _ _ => agree_bind h fun a b hinner => ?_
      exact agree_bind (agree_expect _ _) fun _ _ _ => agree_pure hinner
  | _ => exact agree_unexpected

theorem agree_arguments (h : Agree places expression other (Node.Rooted places)) :
    Agree places (arguments expression) (arguments other)
      (List.Forall₂ (Node.Rooted places)) := by
  refine agree_bind (agree_expect _ _) fun _ _ _ => ?_
  refine agree_check _ ?_ ?_
  · change Agree places (expect .closeParen .argumentsEnd >>= fun _ => pure [])
      (expect .closeParen .argumentsEnd >>= fun _ => pure []) _
    exact agree_bind (agree_expect _ _) fun _ _ _ => agree_pure .nil
  · refine agree_bind (agree_separated h) fun _ _ hvalues => ?_
    exact agree_bind (agree_expect _ _) fun _ _ _ => agree_pure hvalues

theorem agree_memberName :
    Agree places memberName memberName (Node.Rooted places) := by
  refine agree_peek fun token twin htoken => ?_
  rw [htoken.kind]
  split
  · refine agree_bind agree_advance fun _ _ _ => ?_
    rw [htoken.lexeme]
    exact agree_pure ⟨.identifier htoken.position, htoken.position⟩
  · exact agree_fail _ htoken.position

theorem agree_suffix? (h : Agree places expression other (Node.Rooted places)) {a b : Node}
    (hobject : Node.Rooted places a b) :
    Agree places (suffix? expression a) (suffix? other b)
      (Option.Rel (Node.Rooted places)) := by
  refine agree_peek fun token twin htoken => ?_
  rw [htoken.kind]
  cases twin.kind with
  | dot =>
      refine agree_bind agree_advance fun _ _ _ => agree_bind agree_memberName fun _ _ hname => ?_
      exact agree_pure (.some ⟨.member hobject.2 hobject.1 hname.1, hobject.2⟩)
  | openBracket =>
      refine agree_bind agree_advance fun _ _ _ => agree_bind h fun _ _ hkey => ?_
      refine agree_bind (agree_expect _ _) fun _ _ _ => ?_
      exact agree_pure (.some ⟨.member hobject.2 hobject.1 hkey.1, hobject.2⟩)
  | openParen =>
      refine agree_bind (agree_arguments h) fun _ _ hvalues => ?_
      refine agree_pure (.some ⟨.call hobject.2 hobject.1 ?_, hobject.2⟩)
      exact hvalues.imp fun _ _ => And.left
  | _ => exact agree_pure .none

theorem agree_suffixed (h : Agree places expression other (Node.Rooted places)) :
    Agree places (suffixed expression) (suffixed other) (Node.Rooted places) :=
  agree_extend (agree_primary h) fun _ _ => agree_suffix? h

theorem agree_chain (symbols : List String)
    (h : Agree places expression other (Node.Rooted places)) :
    Agree places (chain symbols expression) (chain symbols other) (Node.Rooted places) := by
  refine agree_extend h fun a b hleft => ?_
  refine agree_checkOperator symbols ?_ (agree_pure .none)
  refine agree_bind agree_advance fun token twin htoken => agree_bind h fun x y hright => ?_
  rw [htoken.lexeme]
  exact agree_pure (.some ⟨.binary htoken.position hleft.1 hright.1, htoken.position⟩)

theorem agree_comparison (h : Agree places expression other (Node.Rooted places)) :
    Agree places (comparison expression) (comparison other) (Node.Rooted places) :=
  agree_chain _ (agree_chain _ (agree_chain _ (agree_suffixed h)))

theorem agree_entryEnd : Agree places entryEnd entryEnd fun _ _ => True := by
  refine agree_check _ (agree_pure trivial) ?_
  exact agree_bind (agree_expect _ _) fun _ _ _ => agree_pure trivial

theorem agree_entryValue (h : Agree places expression other (Node.Rooted places)) :
    Agree places (entryValue expression) (entryValue other) (Node.Rooted places) := by
  refine agree_bind (agree_expect _ _) fun _ _ _ => agree_bind h fun _ _ hvalue => ?_
  exact agree_bind agree_entryEnd fun _ _ _ => agree_pure hvalue

theorem agree_entry (h : Agree places expression other (Node.Rooted places)) :
    Agree places (entry expression) (entry other) (Node.Rooted places) := by
  refine agree_bind (agree_expect _ _) fun key twin hkey => ?_
  rw [hkey.lexeme]
  have hshorthand : Node.Rooted places (.property key.position twin.lexeme .absent)
      (.property twin.position twin.lexeme .absent) :=
    ⟨.property hkey.position .absent, hkey.position⟩
  refine agree_bind (agree_accept _) fun comma other hcomma => ?_
  cases hcomma with
  | some _ => exact agree_pure hshorthand
  | none =>
      refine agree_check _ (agree_pure hshorthand) ?_
      refine agree_bind (agree_entryValue h) fun _ _ hvalue => ?_
      exact agree_pure ⟨.property hkey.position hvalue.1, hkey.position⟩

theorem agree_object (h : Agree places expression other (Node.Rooted places)) :
    Agree places (object expression) (object other) (Node.Rooted places) := by
  refine agree_bind agree_advance fun token twin htoken => ?_
  refine agree_bind (agree_itemsUntil _ (agree_entry h)) fun _ _ hproperties => ?_
  refine agree_bind (agree_expect _ _) fun _ _ _ => ?_
  refine agree_pure ⟨.object htoken.position ?_, htoken.position⟩
  exact hproperties.imp fun _ _ => And.left

theorem agree_array (h : Agree places expression other (Node.Rooted places)) :
    Agree places (array expression) (array other) (Node.Rooted places) := by
  refine agree_bind agree_advance fun token twin htoken => ?_
  refine agree_bind (agree_commaItemsUntil _ h) fun _ _ helements => ?_
  refine agree_bind (agree_expect _ _) fun _ _ _ => ?_
  refine agree_pure ⟨.array htoken.position ?_, htoken.position⟩
  exact helements.imp fun _ _ => And.left

theorem agree_readInto : Agree places readInto readInto (Node.Rooted places) := by
  refine agree_bind agree_advance fun token twin htoken => ?_
  refine agree_bind (agree_expect _ _) fun name other hname => ?_
  refine agree_bind (agree_expect _ _) fun _ _ _ => ?_
  rw [hname.lexeme]
  exact agree_pure ⟨.read htoken.position, htoken.position⟩

theorem agree_assignment (h : Agree places expression other (Node.Rooted places)) :
    Agree places (assignment expression) (assignment other) (Node.Rooted places) := by
  rw [assignment_eq, assignment_eq]
  have htarget : Agree places (target expression) (target other) (Node.Rooted places) :=
    agree_check _ (agree_object h) (agree_comparison h)
  refine agree_bind htarget fun a b hleft => ?_
  refine agree_bind (agree_accept _) fun equals twin hequals => ?_
  cases hequals with
  | none => exact agree_pure hleft
  | some _ =>
      refine agree_bind h fun _ _ hvalue => ?_
      exact agree_pure ⟨.assignment hleft.2 hleft.1 hvalue.1, hleft.2⟩

theorem agree_expression (depth : Nat) :
    Agree places (Parser.expression depth) (Parser.expression depth) (Node.Rooted places) := by
  induction depth with
  | zero => exact agree_unexpected
  | succ depth ih =>
      refine agree_peek fun token twin htoken => ?_
      rw [htoken.kind]
      cases twin.kind with
      | openBracket => exact agree_array ih
      | readWord => exact agree_readInto
      | _ => exact agree_assignment ih

/-! ## Statements -/

theorem agree_readValue (name : String) {token twin : Token} (h : token.Alike places twin) :
    Agree places (readValue name token) (readValue name twin) (Node.Rooted places) :=
  agree_bind (agree_expect _ _) fun _ _ _ => agree_pure ⟨.read h.position, h.position⟩

theorem agree_declaration (h : Agree places expression other (Node.Rooted places))
    {keyword twin : Token} (hkeyword : keyword.Alike places twin) :
    Agree places (declaration expression keyword) (declaration other twin)
      (Node.Rooted places) := by
  unfold declaration
  rw [hkeyword.kind]
  refine agree_bind (agree_expect _ _) fun name second hname => ?_
  rw [hname.lexeme]
  refine agree_bind (agree_accept _) fun equals third hequals => ?_
  cases hequals with
  | some _ =>
      refine agree_bind (agree_accept _) fun read fourth hread => ?_
      cases hread with
      | some hread =>
          refine agree_bind (agree_readValue second.lexeme hread) fun _ _ hvalue => ?_
          exact agree_pure ⟨.declaration hkeyword.position hvalue.1, hkeyword.position⟩
      | none =>
          refine agree_bind h fun _ _ hvalue => agree_bind (agree_expect _ _) fun _ _ _ => ?_
          exact agree_pure ⟨.declaration hkeyword.position hvalue.1, hkeyword.position⟩
  | none =>
      refine agree_bind (agree_expect _ _) fun _ _ _ => ?_
      split
      · exact agree_fail _ hkeyword.position
      · exact agree_pure ⟨.declaration hkeyword.position .absent, hkeyword.position⟩

theorem agree_parameterNames {written others : List Node}
    (h : List.Forall₂ (Node.Rooted places) written others) :
    (∃ names, parameterNames written = .ok names ∧ parameterNames others = .ok names) ∨
      ∃ e f, parameterNames written = .error e ∧ parameterNames others = .error f ∧
        e.Alike places f := by
  induction h with
  | nil => exact .inl ⟨[], rfl, rfl⟩
  | @cons a b rest more hfirst _ ih =>
      obtain ⟨halike, hplace⟩ := hfirst
      cases halike with
      | @identifier p q name _ =>
          simp only [parameterNames]
          rcases ih with ⟨names, hone, htwo⟩ | ⟨e, f, hone, htwo, herror⟩
          · exact .inl ⟨name :: names, by rw [hone]; rfl, by rw [htwo]; rfl⟩
          · exact .inr ⟨e, f, by rw [hone]; rfl, by rw [htwo]; rfl, herror⟩
      | _ => exact .inr ⟨_, _, rfl, rfl, rfl, hplace⟩

variable {statement another : Parser Node}

theorem agree_function (h : Agree places expression other (Node.Rooted places))
    (hstatement : Agree places statement another (Node.Rooted places)) {keyword twin : Token}
    (hkeyword : keyword.Alike places twin) :
    Agree places (function expression statement keyword) (function other another twin)
      (Node.Rooted places) := by
  refine agree_bind (agree_expect _ _) fun name second hname => ?_
  rw [hname.lexeme]
  refine agree_bind (agree_arguments h) fun written others hwritten => ?_
  rcases agree_parameterNames hwritten with ⟨names, hone, htwo⟩ | ⟨e, f, hone, htwo, herror⟩
  · rw [hone, htwo]
    refine agree_bind (agree_expect _ _) fun _ _ _ => ?_
    refine agree_bind (agree_itemsUntil _ hstatement) fun _ _ hbody => ?_
    refine agree_bind (agree_expect _ _) fun _ _ _ => ?_
    refine agree_pure ⟨.function hkeyword.position ?_, hkeyword.position⟩
    exact hbody.imp fun _ _ => And.left
  · rw [hone, htwo]
    exact agree_throw herror

theorem agree_expressionStatement (h : Agree places expression other (Node.Rooted places)) :
    Agree places (expressionStatement expression) (expressionStatement other)
      (Node.Rooted places) := by
  refine agree_bind h fun _ _ hvalue => ?_
  exact agree_bind (agree_accept _) fun _ _ _ => agree_pure hvalue

theorem agree_statement (depth : Nat) :
    Agree places (Parser.statement depth) (Parser.statement depth) (Node.Rooted places) := by
  induction depth with
  | zero => exact agree_unexpected
  | succ depth ih =>
      refine agree_peek fun token twin htoken => ?_
      rw [htoken.kind]
      have hexpression : Agree places (Parser.expression depth) (Parser.expression depth)
          (Node.Rooted places) := agree_expression depth
      cases twin.kind with
      | letWord | constWord =>
          exact agree_bind agree_advance fun _ _ hkeyword => agree_declaration hexpression hkeyword
      | fnWord =>
          exact agree_bind agree_advance fun _ _ hkeyword => agree_function hexpression ih hkeyword
      | readWord => exact agree_readInto
      | _ => exact agree_expressionStatement (agree_expression (depth + 1))

def Programs (places : Places) (first second : Node) : Prop :=
  ∃ xs ys, first = .program .start xs ∧ second = .program .start ys ∧ Node.AlikeAll places xs ys

theorem agree_program : Agree places program program (Programs places) := by
  refine agree_remaining fun depth => ?_
  refine agree_bind (agree_itemsUntil _ (agree_statement depth)) fun xs ys hbody => ?_
  exact agree_pure ⟨xs, ys, rfl, rfl, hbody.imp fun _ _ => And.left⟩

end Parser

/-- Tokens that are the same up to places are the same program up to places, or are
refused alike. -/
theorem parseTokens_alike {places : Places} {tokens others : List Token}
    (h : List.Forall₂ (Token.Alike places) tokens others)
    (hended : ∃ token ∈ tokens, Cursor.isEnd token = true) :
    (∃ xs ys, parseTokens tokens = .ok (.program .start xs) ∧
      parseTokens others = .ok (.program .start ys) ∧ Node.AlikeAll places xs ys) ∨
      ∃ e f, parseTokens tokens = .error e ∧ parseTokens others = .error f ∧ e.Alike places f := by
  have hends := Parser.agree_program _ _ (Cursor.alike_ofList h hended)
  unfold parseTokens
  generalize Parser.program (Cursor.ofList tokens) = left at hends ⊢
  generalize Parser.program (Cursor.ofList others) = right at hends ⊢
  cases hends with
  | ok _ h =>
      obtain ⟨xs, ys, rfl, rfl, hbody⟩ := h
      exact .inl ⟨xs, ys, rfl, rfl, hbody⟩
  | error _ h => exact .inr ⟨_, _, rfl, rfl, h⟩

end Nomi
