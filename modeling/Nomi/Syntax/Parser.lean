import Nomi.Syntax.Error
import Nomi.Token.Cursor

/-!
# Parsers over a cursor

A parser moves a cursor and returns a result or a syntax error.  The cursor is
kept on failure, so it tells which token a parser stopped at.

The loops carry a bound on their rounds.  Each round takes a token, so the
number of tokens ahead is enough, and that is the bound they are started with.
-/

namespace Nomi

/-- A computation that moves a cursor. -/
abbrev Parser :=
  EStateM SyntaxError Cursor

namespace Parser

theorem bind_apply {α β : Type} (first : Parser α) (rest : α → Parser β) (cursor : Cursor) :
    (first >>= rest) cursor =
      match first cursor with
      | .ok value next => rest value next
      | .error error next => .error error next := by
  show EStateM.bind first rest cursor = _
  unfold EStateM.bind
  split <;> simp_all

def peek : Parser Token :=
  return (← get).peek

/-- Takes the token at the cursor; the end mark is not passed. -/
def advance : Parser Token :=
  fun cursor => .ok cursor.peek cursor.next

def accept (kind : Token.Kind) : Parser (Option Token) := do
  if (← get).check kind then some <$> advance else return none

def fail {α : Type} (cause : SyntaxCause) (position : Position) : Parser α :=
  throw ⟨cause, position⟩

def expect (kind : Token.Kind) (expectation : Expectation) : Parser Token := do
  let token ← peek
  if token.kind = kind then advance
  else fail (.expected expectation kind token.kind) token.position

/-- Fails at the token at the cursor, which begins no expression. -/
def unexpected {α : Type} : Parser α := do
  let token ← peek
  fail (.unexpected token.kind token.lexeme) token.position

def remaining : Parser Nat :=
  return (← get).ahead.length

def standsAt (kind : Token.Kind) : Parser Bool := do
  let cursor ← get
  return cursor.atEnd || cursor.check kind

/-- Parses items until the end mark or a token of the given kind, for at most
the given number of rounds. -/
def itemsUpTo {α : Type} (kind : Token.Kind) (item : Parser α) : Nat → Parser (List α)
  | 0 => return []
  | rounds + 1 => do
      if ← standsAt kind then return []
      let first ← item
      let rest ← itemsUpTo kind item rounds
      return first :: rest

def itemsUntil {α : Type} (kind : Token.Kind) (item : Parser α) : Parser (List α) := do
  itemsUpTo kind item (← remaining)

/-- Like `itemsUpTo`, but an item is followed by another one only after a
comma.  The last comma may be a trailing one. -/
def commaItemsUpTo {α : Type} (kind : Token.Kind) (item : Parser α) : Nat → Parser (List α)
  | 0 => return []
  | rounds + 1 => do
      if ← standsAt kind then return []
      let first ← item
      match ← accept .comma with
      | none => return [first]
      | some _ =>
          let rest ← commaItemsUpTo kind item rounds
          return first :: rest

/-- Parses items with commas between them and perhaps after the last, until the
end mark or a token of the given kind. -/
def commaItemsUntil {α : Type} (kind : Token.Kind) (item : Parser α) : Parser (List α) := do
  commaItemsUpTo kind item (← remaining)

def furtherUpTo {α : Type} (item : Parser α) : Nat → Parser (List α)
  | 0 => return []
  | rounds + 1 => do
      match ← accept .comma with
      | none => return []
      | some _ =>
          let first ← item
          let rest ← furtherUpTo item rounds
          return first :: rest

def separated {α : Type} (item : Parser α) : Parser (List α) := do
  let first ← item
  let rest ← furtherUpTo item (← remaining)
  return first :: rest

/-- Applies steps to a value for as long as the next token calls for one. -/
def extendUpTo {α : Type} (step? : α → Parser (Option α)) : Nat → α → Parser α
  | 0, value => return value
  | rounds + 1, value => do
      match ← step? value with
      | none => return value
      | some next => extendUpTo step? rounds next

def extend {α : Type} (first : Parser α) (step? : α → Parser (Option α)) : Parser α := do
  let value ← first
  extendUpTo step? (← remaining) value

end Parser

end Nomi
