import Nomi.Proofs.Syntax.Cursor
import Nomi.Syntax.Parser

/-!
# Operations on a cursor

Whatever is asked of a cursor, it either stays where it stands or takes the token that it
shows.  It thus goes through a list token by token and stops at the first end mark.
-/

namespace Nomi.Cursor

open Nomi.Parser

/-- The place of the first end mark in a list, or in the one that is put after it. -/
def firstEnd (tokens : List Token) : Nat :=
  (closed tokens).findIdx isEnd

variable {tokens : List Token} {cursor : Cursor} {place : Nat}

theorem exists_mem_closed (tokens : List Token) : ∃ token ∈ closed tokens, isEnd token = true := by
  unfold closed
  split
  · next h =>
      obtain ⟨token, hlast, hend⟩ := (Option.any_eq_true _ _).1 h
      exact ⟨token, List.mem_of_getLast? hlast, hend⟩
  · exact ⟨Token.endMark .nowhere, List.mem_append_right _ (List.mem_singleton_self _), rfl⟩

theorem firstEnd_lt_length (tokens : List Token) : firstEnd tokens < (closed tokens).length :=
  List.findIdx_lt_length_of_exists (exists_mem_closed tokens)

/-- The first end mark is where a cursor on the list stops. -/
theorem length_ahead_ofList (tokens : List Token) :
    (ofList tokens).ahead.length = firstEnd tokens := by
  rw [← ofList_closed]
  have htake : (ofList (closed tokens)).ahead = (closed tokens).take (firstEnd tokens) := by
    simp only [ofList, List.takeWhile_eq_take_findIdx_not, Bool.not_not, firstEnd]
  rw [htake, List.length_take, Nat.min_eq_left (Nat.le_of_lt (firstEnd_lt_length tokens))]

/-- Up to the first end mark a cursor shows the tokens of the list. -/
theorem closed_eq_peek (h : place ≤ firstEnd tokens) :
    (closed tokens)[place]? = some ((ofList tokens).after place).peek := by
  rw [← shown_eq_peek (by rwa [length_ahead_ofList])]
  have hlength := length_ahead_ofList tokens
  rw [← ofList_closed] at hlength ⊢
  have hlt := firstEnd_lt_length tokens
  rcases Nat.lt_or_eq_of_le h with hbefore | rfl
  · have hahead : (ofList (closed tokens)).ahead <+: closed tokens := List.takeWhile_prefix _
    have hplace : place < (ofList (closed tokens)).ahead.length := by rwa [hlength]
    rw [shown, List.getElem?_append_left hplace, List.getElem?_eq_getElem hplace,
      hahead.getElem hplace, List.getElem?_eq_getElem]
  · have hstop : (closed tokens).find? isEnd = (closed tokens)[firstEnd tokens]? := by
      rw [firstEnd, List.find?_eq_getElem?_findIdx]
    rw [List.getElem?_eq_getElem hlt] at hstop ⊢
    rw [shown, List.getElem?_append_right (Nat.le_of_eq hlength), hlength, Nat.sub_self]
    simp only [ofList, hstop, Option.getD_some, List.getElem?_cons_zero]

inductive Operation where
  | peek
  | atEnd
  | advance
  | check (kind : Token.Kind)
  | accept (kind : Token.Kind)
  | checkOperator (symbols : List String)
  | expect (kind : Token.Kind) (expectation : Expectation)

inductive Answer where
  | token (found : Option Token)
  | truth (holds : Bool)

/-- The cursor that a parser leaves behind, whether or not it fails. -/
def behind {α : Type} : EStateM.Result SyntaxError Cursor α → Cursor
  | .ok _ cursor | .error _ cursor => cursor

/-- Whether a token was asked for that the cursor does not show. -/
def refuses : EStateM.Result SyntaxError Cursor Answer → Bool
  | .ok (.token none) _ | .error _ _ => true
  | .ok _ _ => false

namespace Operation

def perform : Operation → Parser Answer
  | .peek => return .token (some (← Parser.peek))
  | .atEnd => return .truth (← get).atEnd
  | .advance => return .token (some (← Parser.advance))
  | .check kind => return .truth ((← get).check kind)
  | .accept kind => return .token (← Parser.accept kind)
  | .checkOperator symbols => return .truth ((← get).checkOperator symbols)
  | .expect kind expectation => return .token (some (← Parser.expect kind expectation))

def run : List Operation → Cursor → Cursor
  | [], cursor => cursor
  | operation :: rest, cursor => run rest (behind (operation.perform cursor))

theorem accept_apply (kind : Token.Kind) (cursor : Cursor) :
    Parser.accept kind cursor =
      if cursor.check kind then .ok (some cursor.peek) cursor.next else .ok none cursor := by
  show (if cursor.check kind then some <$> Parser.advance else pure none :
    Parser (Option Token)) cursor = _
  split <;> rfl

theorem expect_apply (kind : Token.Kind) (expectation : Expectation) (cursor : Cursor) :
    Parser.expect kind expectation cursor =
      if cursor.peek.kind = kind then .ok cursor.peek cursor.next
      else .error ⟨.expected expectation kind cursor.peek.kind, cursor.peek.position⟩ cursor := by
  show (if cursor.peek.kind = kind then Parser.advance else _ : Parser Token) cursor = _
  split <;> rfl

/-- An operation leaves the cursor where it is or takes the token that it shows. -/
theorem perform_cases (operation : Operation) (cursor : Cursor) :
    behind (operation.perform cursor) = cursor ∨
      operation.perform cursor = .ok (.token (some cursor.peek)) cursor.next := by
  cases operation with
  | peek | atEnd | check | checkOperator => exact .inl rfl
  | advance => exact .inr rfl
  | accept kind =>
      rw [perform, bind_apply, accept_apply]
      by_cases hfound : cursor.check kind
      · rw [if_pos hfound]
        exact .inr rfl
      · rw [if_neg hfound]
        exact .inl rfl
  | expect kind expectation =>
      rw [perform, bind_apply, expect_apply]
      by_cases hfound : cursor.peek.kind = kind
      · rw [if_pos hfound]
        exact .inr rfl
      · rw [if_neg hfound]
        exact .inl rfl

/-- What is refused is not taken. -/
theorem behind_of_refuses {operation : Operation} (h : refuses (operation.perform cursor) = true) :
    behind (operation.perform cursor) = cursor := by
  rcases operation.perform_cases cursor with hstays | htakes
  · exact hstays
  · rw [htakes] at h
    contradiction

/-- An operation goes on by one place at most, and never past the end mark. -/
theorem perform_after (operation : Operation) (hplace : place ≤ cursor.ahead.length) :
    ∃ later, place ≤ later ∧ later ≤ place + 1 ∧ later ≤ cursor.ahead.length ∧
      behind (operation.perform (cursor.after place)) = cursor.after later := by
  rcases operation.perform_cases (cursor.after place) with hstays | htakes
  · exact ⟨place, Nat.le_refl place, Nat.le_succ place, hplace, hstays⟩
  · rw [htakes]
    rcases Nat.lt_or_eq_of_le hplace with hlt | rfl
    · exact ⟨place + 1, Nat.le_succ place, Nat.le_refl _, hlt, next_after hlt⟩
    · exact ⟨_, Nat.le_refl _, Nat.le_succ _, Nat.le_refl _, next_after_length cursor⟩

/-- Operations never take a cursor off the places up to the end mark. -/
theorem run_after (operations : List Operation) (hplace : place ≤ cursor.ahead.length) :
    ∃ later, place ≤ later ∧ later ≤ cursor.ahead.length ∧
      run operations (cursor.after place) = cursor.after later := by
  induction operations generalizing place with
  | nil => exact ⟨place, Nat.le_refl place, hplace, rfl⟩
  | cons operation rest ih =>
      obtain ⟨next, hnext, -, hwithin, hbehind⟩ := operation.perform_after hplace
      obtain ⟨later, hlater, hend, hrun⟩ := ih hwithin
      refine ⟨later, Nat.le_trans hnext hlater, hend, ?_⟩
      rw [run, hbehind, hrun]

/-- What holds of an operation on a cursor that stands at a place of a list. -/
structure Safe (tokens : List Token) (operation : Operation) (cursor : Cursor) : Prop where
  /-- The cursor stands no later than at the first end mark. -/
  within : cursor.index ≤ firstEnd tokens
  place : cursor = (ofList tokens).after cursor.index
  shown : (closed tokens)[cursor.index]? = some cursor.peek
  onward : cursor.index ≤ (behind (operation.perform cursor)).index
  single : (behind (operation.perform cursor)).index ≤ cursor.index + 1
  refused : refuses (operation.perform cursor) = true → behind (operation.perform cursor) = cursor

theorem safe_after (operation : Operation) (hplace : place ≤ firstEnd tokens) :
    operation.Safe tokens ((ofList tokens).after place) := by
  have hindex : ∀ place, ((ofList tokens).after place).index = place := Nat.zero_add
  have hahead : place ≤ (ofList tokens).ahead.length := by rwa [length_ahead_ofList]
  obtain ⟨later, hlater, hsingle, -, hbehind⟩ := operation.perform_after hahead
  constructor
  case within => rwa [hindex]
  case place => rw [hindex]
  case shown => rw [hindex, closed_eq_peek hplace]
  case onward => rwa [hbehind, hindex, hindex]
  case single => rwa [hbehind, hindex, hindex]
  case refused => exact behind_of_refuses

/-- Every operation is safe after any others. -/
theorem safe_run (tokens : List Token) (operations : List Operation) (operation : Operation) :
    operation.Safe tokens (run operations (ofList tokens)) := by
  obtain ⟨place, -, hplace, hrun⟩ := run_after operations (Nat.zero_le (ofList tokens).ahead.length)
  rw [after_zero] at hrun
  rw [hrun]
  exact safe_after operation (by rwa [← length_ahead_ofList])

end Operation

end Nomi.Cursor
