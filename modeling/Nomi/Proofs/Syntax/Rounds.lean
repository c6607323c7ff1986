import Nomi.Syntax.Program

/-!
# Rounds of loops

The loops and the nested parsers carry a bound.  Here is what they do in one round, with
the rest of the recursion given.  Without a bound each of them is a recursion that repeats
its round, and the bounded one is the same round with one less for the rest.
-/

namespace Nomi.Parser

variable {α : Type}

def itemsRound (kind : Token.Kind) (item : Parser α) (loop : Parser (List α)) :
    Parser (List α) := do
  if ← standsAt kind then return []
  let first ← item
  let rest ← loop
  return first :: rest

def commaItemsRound (kind : Token.Kind) (item : Parser α) (loop : Parser (List α)) :
    Parser (List α) := do
  if ← standsAt kind then return []
  let first ← item
  match ← accept .comma with
  | none => return [first]
  | some _ =>
      let rest ← loop
      return first :: rest

def furtherRound (item : Parser α) (loop : Parser (List α)) : Parser (List α) := do
  match ← accept .comma with
  | none => return []
  | some _ =>
      let first ← item
      let rest ← loop
      return first :: rest

def extendRound (step? : α → Parser (Option α)) (loop : α → Parser α) (value : α) :
    Parser α := do
  match ← step? value with
  | none => return value
  | some next => loop next

variable (kind : Token.Kind) (item : Parser α) (step? : α → Parser (Option α)) (rounds : Nat)

theorem itemsUpTo_succ :
    itemsUpTo kind item (rounds + 1) = itemsRound kind item (itemsUpTo kind item rounds) :=
  rfl

theorem commaItemsUpTo_succ :
    commaItemsUpTo kind item (rounds + 1) =
      commaItemsRound kind item (commaItemsUpTo kind item rounds) :=
  rfl

theorem furtherUpTo_succ :
    furtherUpTo item (rounds + 1) = furtherRound item (furtherUpTo item rounds) :=
  rfl

theorem extendUpTo_succ :
    extendUpTo step? (rounds + 1) = extendRound step? (extendUpTo step? rounds) :=
  rfl

/-- An expression, with the parser of those in it. -/
def expressionLevel (inner : Parser Node) : Parser Node := do
  match (← peek).kind with
  | .openBracket => array inner
  | .readWord => readInto
  | _ => assignment inner

/-- A statement, with the parsers of the expressions in it, of one that it consists of,
and of the statements in it. -/
def statementLevel (inner outer statement : Parser Node) : Parser Node := do
  match (← peek).kind with
  | .letWord | .constWord => declaration inner (← advance)
  | .fnWord => function inner statement (← advance)
  | .readWord => readInto
  | _ => expressionStatement outer

variable (depth : Nat)

theorem expression_succ : expression (depth + 1) = expressionLevel (expression depth) :=
  rfl

theorem statement_succ :
    statement (depth + 1) =
      statementLevel (expression depth) (expression (depth + 1)) (statement depth) :=
  rfl

end Nomi.Parser
