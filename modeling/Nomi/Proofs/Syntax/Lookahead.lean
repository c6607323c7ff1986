import Nomi.Proofs.Syntax.Completeness
import Nomi.Proofs.Syntax.Window

/-!
# One token of lookahead

A parser decides by the token that it stands at and takes each token before it looks at
the next one.  What it does up to a place thus depends on the tokens up to this place
only.
-/

namespace Nomi

namespace Window

open Nomi.Parser

variable {α β : Type} {w : Window} {start : Nat}

section

variable {expression other : Parser Node}

theorem foresees_numeral (token : Token) :
    w.Foresees (numeral token) (numeral token) start fun _ => start := by
  unfold numeral
  cases Numeral.read? token.lexeme.toList with
  | some value => exact foresees_pure (Nat.le_refl _)
  | none => exact foresees_throw _

theorem steps_primary (h : w.Follows expression other (start + 1)) :
    w.Steps (primary expression) (primary other) start := by
  refine foresees_peek fun token htoken => ?_
  cases hkind : token.kind with
  | identifier | string =>
      apply (steps_advance htoken hkind (by decide)).bind
      exact fun _ place hplace => foresees_pure hplace
  | number =>
      apply (steps_advance htoken hkind (by decide)).bind
      exact fun _ place hplace => (foresees_numeral token).weaken fun _ => hplace
  | openParen =>
      apply (steps_advance htoken hkind (by decide)).bind
      intro _ place hplace
      apply (h place hplace).bind
      intro inner behind hbehind
      exact foresees_closing (by decide) _ (by omega)
  | _ => exact foresees_unexpected

theorem steps_arguments (h : w.Follows expression other (start + 1)) :
    w.Steps (arguments expression) (arguments other) start := by
  apply (steps_expect (by decide) _).bind
  intro _ place hplace
  have hend : ∀ (values : List Node) later, place ≤ later →
      w.Foresees (expect .closeParen .argumentsEnd >>= fun _ => pure values)
        (expect .closeParen .argumentsEnd >>= fun _ => pure values) later fun _ => start + 1 := by
    intro values later hlater
    exact foresees_closing (by decide) _ (by omega)
  refine foresees_check _ (fun _ _ _ => hend [] place (Nat.le_refl _)) ?_
  apply (steps_separated (h.mono hplace)).bind
  exact fun values later hlater => hend values later (Nat.le_of_lt hlater)

theorem steps_memberName : w.Steps memberName memberName start := by
  refine foresees_peek fun token htoken => ?_
  split
  · next hkind =>
      apply (steps_advance htoken hkind (by decide)).bind
      exact fun _ place hplace => foresees_pure hplace
  · exact foresees_throw _

theorem foresees_suffix? (h : w.Follows expression other (start + 1)) (object : Node) :
    w.StepsOn (suffix? expression object) (suffix? other object) start := by
  refine foresees_peek fun token htoken => ?_
  cases hkind : token.kind with
  | dot =>
      apply (steps_advance htoken hkind (by decide)).bind
      intro _ place hplace
      apply steps_memberName.bind
      exact fun name last hlast => foresees_pure (Nat.le_trans hplace (Nat.le_of_lt hlast))
  | openBracket =>
      apply (steps_advance htoken hkind (by decide)).bind
      intro _ place hplace
      apply (h place hplace).bind
      intro key behind hbehind
      have hstart : start + 1 ≤ behind + 1 := by omega
      exact foresees_closing (by decide) _ hstart
  | openParen =>
      apply (steps_arguments h).bind
      exact fun values last hlast => foresees_pure hlast
  | _ => exact foresees_pure (Nat.le_refl _)

theorem ends_suffix? (expression : Parser Node) : Ends (suffix? expression) := by
  intro cursor hend object
  rw [suffix?, peek_bind, kind_of_isEnd hend]

theorem steps_suffixed (h : w.Follows expression other (start + 1)) :
    w.Steps (suffixed expression) (suffixed other) start :=
  steps_extend (steps_primary h)
    (fun _ object hlater => foresees_suffix? (h.mono (Nat.le_succ_of_le hlater)) object)
    (ends_suffix? expression) (ends_suffix? other)

theorem follows_suffixed (h : w.Follows expression other (start + 1)) :
    w.Follows (suffixed expression) (suffixed other) start :=
  fun _ hplace => steps_suffixed (h.mono (Nat.succ_le_succ hplace))

theorem ends_operation? (symbols : List String) (operand : Parser Node) :
    Ends (operation? symbols operand) := by
  intro cursor hend left
  show (if cursor.checkOperator symbols then _ else pure none : Parser (Option Node)) cursor = _
  rw [Cursor.checkOperator, Cursor.check, kind_of_isEnd hend]
  rfl

theorem foresees_operation? (symbols : List String) (h : w.Follows expression other (start + 1))
    (left : Node) :
    w.StepsOn (operation? symbols expression left) (operation? symbols other left) start := by
  refine foresees_checkOperator symbols (fun token htoken hkind => ?_)
    (foresees_pure (Nat.le_refl _))
  apply (steps_advance htoken hkind (by decide)).bind
  intro _ behind hbehind
  apply (h behind hbehind).bind
  exact fun right last hlast => foresees_pure (Nat.le_trans hbehind (Nat.le_of_lt hlast))

theorem follows_chain (symbols : List String) (h : w.Follows expression other start) :
    w.Follows (chain symbols expression) (chain symbols other) start := by
  intro place hplace
  refine steps_extend (h place hplace) (fun later left hlater => ?_)
    (ends_operation? symbols expression) (ends_operation? symbols other)
  exact foresees_operation? symbols (h.mono (by omega)) left

theorem steps_comparison (h : w.Follows expression other (start + 1)) :
    w.Steps (comparison expression) (comparison other) start := by
  have hcomparison := follows_chain comparisonSymbols
    (follows_chain additiveSymbols (follows_chain multiplicativeSymbols (follows_suffixed h)))
  exact hcomparison start (Nat.le_refl _)

theorem foresees_entryEnd : w.Foresees entryEnd entryEnd start fun _ => start := by
  refine foresees_check _ (fun _ _ _ => foresees_pure (Nat.le_refl _)) ?_
  exact foresees_closing (by decide) _ (Nat.le_succ start)

theorem steps_entryValue (h : w.Follows expression other (start + 1)) :
    w.Steps (entryValue expression) (entryValue other) start := by
  apply (steps_expect (by decide) _).bind
  intro _ place hplace
  apply (h place hplace).bind
  intro value behind hbehind
  apply foresees_bind foresees_entryEnd
  exact fun _ last hlast _ => foresees_pure (by omega)

theorem steps_entry (h : w.Follows expression other (start + 1)) :
    w.Steps (entry expression) (entry other) start := by
  apply (steps_expect (by decide) _).bind
  intro key place hplace
  refine foresees_accept (by decide) (fun _ behind hbehind => foresees_pure (by omega)) ?_
  refine foresees_check _ (fun _ _ _ => foresees_pure hplace) ?_
  apply (steps_entryValue (h.mono (Nat.le_succ_of_le hplace))).bind
  exact fun value last hlast => foresees_pure (by omega)

theorem steps_object {token : Token} (htoken : w.Shows start token)
    (hkind : token.kind = .openBrace) (h : w.Follows expression other (start + 1)) :
    w.Steps (object expression) (object other) start := by
  apply (steps_advance htoken hkind (by decide)).bind
  intro _ place hplace
  have hentries : w.Follows (entry expression) (entry other) place :=
    fun later hlater => steps_entry (h.mono (by omega))
  apply foresees_bind (foresees_itemsUntil _ hentries)
  intro properties behind hbehind _
  exact foresees_closing (by decide) _ (by omega)

theorem steps_array {low : Nat} (hadvance : w.Foresees advance advance start fun _ => low)
    (h : w.Follows expression other low) : w.Steps (array expression) (array other) start := by
  apply foresees_bind hadvance
  intro _ place hstart hplace
  apply foresees_bind (foresees_commaItemsUntil _ (h.mono hplace))
  intro elements behind hbehind _
  exact foresees_closing (by decide) _ (by omega)

theorem steps_readInto : w.Steps readInto readInto start := by
  apply foresees_bind foresees_advance
  intro _ place hplace _
  apply (steps_expect (by decide) _).bind
  intro name behind hbehind
  exact foresees_closing (by decide) _ (by omega)

theorem steps_target (h : w.Follows expression other (start + 1)) :
    w.Steps (target expression) (target other) start :=
  foresees_check _ (fun _ htoken hkind => steps_object htoken hkind h) (steps_comparison h)

theorem steps_assignment (h : w.Follows expression other (start + 1)) :
    w.Steps (assignment expression) (assignment other) start := by
  rw [assignment_eq, assignment_eq]
  apply (steps_target h).bind
  intro target place hplace
  refine foresees_accept (by decide) (fun _ behind hbehind => ?_) (foresees_pure hplace)
  apply (h behind (by omega)).bind
  exact fun value last hlast => foresees_pure (by omega)

theorem steps_expressionLevel (h : w.Follows expression other (start + 1)) :
    w.Steps (expressionLevel expression) (expressionLevel other) start := by
  refine foresees_peek fun token htoken => ?_
  cases hkind : token.kind with
  | openBracket => exact steps_array (steps_advance htoken hkind (by decide)) h
  | readWord => exact steps_readInto
  | _ => exact steps_assignment h

end

theorem bind_unexpected {first : Parser α} {rest : α → Parser β} {cursor : Cursor}
    (h : first cursor = (unexpected : Parser α) cursor) :
    (first >>= rest) cursor = (unexpected : Parser β) cursor := by
  rw [bind_apply, h]
  rfl

theorem expression_atEnd (cursor : Cursor) (hend : cursor.atEnd = true) (depth : Nat) :
    Parser.expression depth cursor = (unexpected : Parser Node) cursor := by
  cases depth with
  | zero => rfl
  | succ depth =>
      have hkind := kind_of_isEnd hend
      have hprimary : primary (Parser.expression depth) cursor =
          (unexpected : Parser Node) cursor := by
        rw [primary, peek_bind, hkind]
      have htarget : target (Parser.expression depth) cursor =
          (unexpected : Parser Node) cursor := by
        show (if cursor.check .openBrace then _ else comparison _ : Parser Node) cursor = _
        rw [Cursor.check, hkind]
        exact bind_unexpected (bind_unexpected (bind_unexpected (bind_unexpected hprimary)))
      rw [Parser.expression, peek_bind, hkind]
      simp only
      rw [assignment_eq]
      exact bind_unexpected htarget

theorem statement_atEnd (cursor : Cursor) (hend : cursor.atEnd = true) (depth : Nat) :
    Parser.statement depth cursor = (unexpected : Parser Node) cursor := by
  cases depth with
  | zero => rfl
  | succ depth =>
      rw [Parser.statement, peek_bind, kind_of_isEnd hend]
      exact bind_unexpected (expression_atEnd cursor hend (depth + 1))

/-! ## Full expressions and statements -/

theorem follows_expression {depth deep : Nat} (h : w.Enough depth deep start) :
    w.Follows (Parser.expression depth) (Parser.expression deep) start := by
  intro place hplace
  refine foresees_rounds (fun start _ => start + 1) expression_atEnd expression_atEnd
    (fun _ => foresees_unexpected) ?_ depth deep place (Nat.zero_le _) (h.mono hplace)
  exact fun depth deep start _ _ ih => steps_expressionLevel ih

theorem steps_readValue (name : String) (token : Token) :
    w.Steps (readValue name token) (readValue name token) start :=
  foresees_closing (by decide) _ (Nat.le_refl _)

section

variable {expression other statement another : Parser Node}

theorem steps_declaration (h : w.Follows expression other start) (keyword : Token) :
    w.Steps (declaration expression keyword) (declaration other keyword) start := by
  apply (steps_expect (by decide) _).bind
  intro name place hplace
  refine foresees_accept (by decide) (fun _ behind hbehind => ?_) ?_
  · refine foresees_accept (by decide) (fun read later hlater => ?_) ?_
    · apply (steps_readValue name.lexeme read).bind
      exact fun value last hlast => foresees_pure (by omega)
    · apply (h behind (by omega)).bind
      intro value later hlater
      exact foresees_closing (by decide) _ (by omega)
  · apply (steps_expect (by decide) _).bind
    intro _ last hlast
    split
    · exact foresees_throw _
    · exact foresees_pure (by omega)

theorem steps_function (h : w.Follows expression other start)
    (hstatement : w.Follows statement another start) (keyword : Token) :
    w.Steps (function expression statement keyword) (function other another keyword) start := by
  apply (steps_expect (by decide) _).bind
  intro name place hplace
  apply (steps_arguments (h.mono (by omega))).bind
  intro written behind hbehind
  cases parameterNames written with
  | error error => exact foresees_throw error
  | ok parameters =>
      apply (steps_expect (by decide) _).bind
      intro _ later hlater
      apply foresees_bind (foresees_itemsUntil _ (hstatement.mono (by omega)))
      intro body next hnext _
      exact foresees_closing (by decide) _ (by omega)

theorem steps_expressionStatement (h : w.Steps expression other start) :
    w.Steps (expressionStatement expression) (expressionStatement other) start := by
  apply h.bind
  intro value place hplace
  exact foresees_accept (by decide) (fun _ last hlast => foresees_pure (by omega))
    (foresees_pure hplace)

/-- What follows a keyword, the keyword itself taken first. -/
theorem steps_keyword {low : Nat} {rest twin : Token → Parser α}
    (hadvance : w.Foresees advance advance start fun _ => low)
    (h : ∀ keyword place, low ≤ place → w.Steps (rest keyword) (twin keyword) place) :
    w.Steps (advance >>= rest) (advance >>= twin) start :=
  foresees_bind hadvance fun keyword place hstart hplace =>
    (h keyword place hplace).weaken fun _ => Nat.succ_le_succ hstart

theorem steps_statementLevel {outer twin : Parser Node}
    (h : w.Follows expression other (start + 1)) (houter : w.Steps outer twin start)
    (hstatement : w.Follows statement another (start + 1)) :
    w.Steps (statementLevel expression outer statement) (statementLevel other twin another)
      start := by
  refine foresees_peek fun token htoken => ?_
  cases hkind : token.kind with
  | letWord | constWord =>
      exact steps_keyword (steps_advance htoken hkind (by decide))
        fun keyword place hplace => steps_declaration (h.mono hplace) keyword
  | fnWord =>
      exact steps_keyword (steps_advance htoken hkind (by decide))
        fun keyword place hplace => steps_function (h.mono hplace) (hstatement.mono hplace) keyword
  | readWord => exact steps_readInto
  | _ => exact steps_expressionStatement houter

end

theorem follows_statement {depth deep : Nat} (h : w.Enough depth deep start) :
    w.Follows (Parser.statement depth) (Parser.statement deep) start := by
  intro place hplace
  refine foresees_rounds (fun start _ => start + 1) statement_atEnd statement_atEnd
    (fun _ => foresees_unexpected) ?_ depth deep place (Nat.zero_le _) (h.mono hplace)
  intro depth deep start _ henough ih
  have hfull : w.Enough (depth + 1) (deep + 1) start := by
    obtain ⟨hone, htwo⟩ := henough
    exact ⟨by omega, by omega⟩
  have houter := follows_expression hfull start (Nat.le_refl _)
  exact steps_statementLevel (follows_expression henough) houter ih

theorem foresees_program (w : Window) : w.Foresees program program 0 fun _ => 0 := by
  apply foresees_remaining
  have hstatements := follows_statement (w.enough_remaining 0)
  apply foresees_bind (foresees_itemsUntil _ hstatements)
  exact fun body last _ _ => foresees_pure (Nat.zero_le _)

/-! ## Results -/

end Window

namespace Parser

variable {α : Type}

def stopped : EStateM.Result SyntaxError Cursor α → Nat
  | .ok _ cursor | .error _ cursor => cursor.index

def given : EStateM.Result SyntaxError Cursor α → Except SyntaxError α
  | .ok value _ => .ok value
  | .error error _ => .error error

/-- Whether a second run gives what a first one gives and stops where it stops, if that is
no later than at the last place. -/
def Settles (last : Nat) (first second : EStateM.Result SyntaxError Cursor α) : Prop :=
  stopped first ≤ last → given second = given first ∧ stopped second = stopped first

end Parser

namespace Window

open Nomi.Parser

variable {α : Type} {w : Window} {first second : Parser α} {least : α → Nat}

/-- A run stops between where it begins and the end mark. -/
theorem Foresees.stopped_bounds (h : w.Foresees first second 0 least) :
    w.one.index ≤ stopped (first w.one) ∧
      stopped (first w.one) ≤ w.one.index + w.one.ahead.length := by
  have hone := h (Nat.zero_le _)
  rw [Cursor.after_zero] at hone
  generalize first w.one = result at hone ⊢
  cases hone with
  | ok _ _ hstop _ | error _ hstop _ =>
      exact ⟨Nat.le_add_right _ _, Nat.add_le_add_left hstop _⟩

theorem Foresees.settles (h : w.Foresees first second 0 least)
    (hindex : w.two.index = w.one.index) :
    Settles (w.one.index + w.last) (first w.one) (second w.two) := by
  have hone := h (Nat.zero_le _)
  rw [Cursor.after_zero, Cursor.after_zero] at hone
  generalize first w.one = left at hone ⊢
  generalize second w.two = right at hone ⊢
  intro hstopped
  cases hone with
  | ok _ _ _ hother | error _ _ hother =>
      rw [hother (Nat.le_of_add_le_add_left hstopped)]
      exact ⟨rfl, congrArg (· + _) hindex⟩

def self (cursor : Cursor) (h : cursor.Ended) : Window :=
  ⟨cursor, cursor, 0, h, h, fun _ _ => rfl⟩

end Window

open Nomi.Parser Cursor

variable {tokens others : List Token} {last : Nat}

theorem settles_statement (h : ∀ place ≤ last, (closed tokens)[place]? = (closed others)[place]?)
    (place : Nat) {depth deep : Nat} (hdepth : (ofPlace tokens place).ahead.length ≤ depth)
    (hdeep : (ofPlace others place).ahead.length ≤ deep) :
    Settles last (statement depth (ofPlace tokens place))
      (statement deep (ofPlace others place)) := by
  by_cases hplace : place ≤ last
  · let w : Window := ⟨ofPlace tokens place, ofPlace others place, last - place,
      ended_ofPlace tokens place, ended_ofPlace others place, shown_ofPlace_congr h hplace⟩
    have henough : w.Enough depth deep 0 := Window.enough_of_le hdepth hdeep
    have hsettles := (Window.follows_statement henough 0 (Nat.le_refl _)).settles rfl
    have hlast : w.one.index + w.last = last := Nat.add_sub_cancel' hplace
    rwa [hlast] at hsettles
  · -- A run that begins past the last place also stops past it.
    let w : Window := .self (ofPlace tokens place) (ended_ofPlace tokens place)
    have henough : w.Enough depth depth 0 := Window.enough_of_le hdepth hdepth
    have hbounds := (Window.follows_statement henough 0 (Nat.le_refl _)).stopped_bounds
    intro hstopped
    exact absurd (Nat.le_trans hbounds.1 hstopped) hplace

theorem settles_program (h : ∀ place ≤ last, (closed tokens)[place]? = (closed others)[place]?) :
    Settles last (program (ofList tokens)) (program (ofList others)) := by
  have hshown := shown_ofList_congr h
  rw [ofList_closed, ofList_closed] at hshown
  let w : Window := ⟨ofList tokens, ofList others, last, ended_ofList tokens, ended_ofList others,
    hshown⟩
  have hsettles := (Window.foresees_program w).settles rfl
  rwa [show w.one.index + w.last = last from Nat.zero_add last] at hsettles

theorem parseTokens_eq (tokens : List Token) :
    parseTokens tokens = given (program (ofList tokens)) := by
  unfold parseTokens
  cases program (ofList tokens) <;> rfl

/--
One token of lookahead.

If two lists of tokens agree up to a last place, then a statement that is parsed from some
place of them, or fails to be, is the same for both as long as the cursor stops no later
than there, and the cursor stops at the same place.  So it is with whole programs: what a
syntax error is about is not changed by what follows the token at which the parser stopped,
and what follows the first end mark is never looked at.
-/
theorem one_token_of_lookahead
    (h : ∀ place ≤ last, (closed tokens)[place]? = (closed others)[place]?) :
    (∀ place depth deep, (ofPlace tokens place).ahead.length ≤ depth →
      (ofPlace others place).ahead.length ≤ deep →
        Settles last (statement depth (ofPlace tokens place))
          (statement deep (ofPlace others place))) ∧
      Settles last (program (ofList tokens)) (program (ofList others)) ∧
      ∀ place ≤ last, (∃ token, (closed tokens)[place]? = some token ∧ isEnd token = true) →
        parseTokens tokens = parseTokens others := by
  refine ⟨fun place depth deep => settles_statement h place, settles_program h, ?_⟩
  rintro place hplace ⟨token, htoken, hend⟩
  let w : Window := .self (ofList tokens) (ended_ofList tokens)
  have hstopped := (Window.foresees_program w).stopped_bounds.2
  have hahead := length_ahead_ofList_le htoken hend
  rw [ofList_closed] at hahead
  have hlast : stopped (program (ofList tokens)) ≤ last := by
    refine Nat.le_trans hstopped (Nat.le_trans ?_ hplace)
    rwa [show w.one.index + w.one.ahead.length = (ofList tokens).ahead.length from Nat.zero_add _]
  rw [parseTokens_eq, parseTokens_eq, (settles_program h hlast).1]

/-- A name before an end mark in the middle, with one token or another behind it: a
statement at the name, a syntax error at the end mark, and the program. -/
theorem one_token_of_lookahead_endMark :
    let name : Token := ⟨.identifier, "x", .start⟩
    let tokens := [name, .endMark .start, name]
    let others := [name, .endMark .start, ⟨.closeParen, ")", .start⟩]
    let one (place : Nat) := statement 1 (ofPlace tokens place)
    let two (place : Nat) := statement 2 (ofPlace others place)
    (∀ place ≤ 1, (closed tokens)[place]? = (closed others)[place]?) ∧
      (stopped (one 0) = 1 ∧ given (two 0) = given (one 0) ∧ stopped (two 0) = 1) ∧
      (stopped (one 1) = 1 ∧ given (two 1) = given (one 1) ∧ stopped (two 1) = 1) ∧
      parseTokens tokens = parseTokens others := by
  intro name tokens others one two
  have hagree : ∀ place ≤ 1, (closed tokens)[place]? = (closed others)[place]? := by decide
  have hends := one_token_of_lookahead hagree
  have hstatement := hends.1 0 1 2 (by decide) (by decide) (by decide)
  have herror := hends.1 1 1 2 (by decide) (by decide) (by decide)
  exact ⟨hagree, ⟨by decide, hstatement⟩, ⟨by decide, herror⟩,
    hends.2.2 1 (Nat.le_refl _) ⟨.endMark .start, by decide, by decide⟩⟩

end Nomi
