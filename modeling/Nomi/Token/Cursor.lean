import Nomi.Token.Basic

/-!
# A cursor over tokens

The cursor shows the tokens of a list one after the other up to the first end
mark, which it never passes.  A list without an end mark has one put after it.
-/

namespace Nomi

/-- A place in a list of tokens. -/
structure Cursor where
  /-- The tokens before the end mark that are still ahead. -/
  ahead : List Token
  stop : Token
  /-- How many tokens have been taken. -/
  index : Nat
  deriving DecidableEq, Repr

namespace Cursor

def isEnd (token : Token) : Bool :=
  token.kind = .endOfSource

/-- The cursor at the first token of a list. -/
def ofList (tokens : List Token) : Cursor where
  ahead := tokens.takeWhile (!isEnd ·)
  stop := (tokens.find? isEnd).getD (Token.endMark .nowhere)
  index := 0

def peek (cursor : Cursor) : Token :=
  cursor.ahead.headD cursor.stop

def atEnd (cursor : Cursor) : Bool :=
  isEnd cursor.peek

def check (cursor : Cursor) (kind : Token.Kind) : Bool :=
  cursor.peek.kind = kind

def checkOperator (cursor : Cursor) (symbols : List String) : Bool :=
  cursor.check .operator && symbols.contains cursor.peek.lexeme

/-- The cursor after the token it stands at; the end mark is not passed. -/
def next (cursor : Cursor) : Cursor :=
  match cursor.ahead with
  | [] => cursor
  | _ :: rest => { cursor with ahead := rest, index := cursor.index + 1 }

@[simp] theorem ahead_next (cursor : Cursor) : cursor.next.ahead = cursor.ahead.tail := by
  unfold next
  split <;> simp_all

@[simp] theorem stop_next (cursor : Cursor) : cursor.next.stop = cursor.stop := by
  unfold next
  split <;> rfl

/-- The cursor moves by one token, or stays at the end mark. -/
theorem index_next (cursor : Cursor) :
    cursor.next.index = if cursor.ahead = [] then cursor.index else cursor.index + 1 := by
  unfold next
  split <;> simp_all

/-- No token ahead of a cursor on a list is an end mark. -/
theorem isEnd_of_mem_ahead_ofList {tokens : List Token} {token : Token}
    (h : token ∈ (ofList tokens).ahead) : isEnd token = false := by
  have hend := List.all_takeWhile (p := (!isEnd ·)) (l := tokens)
  simpa using List.all_eq_true.1 hend token h

theorem isEnd_stop_ofList (tokens : List Token) : isEnd (ofList tokens).stop = true := by
  unfold ofList
  cases h : tokens.find? isEnd with
  | none => rfl
  | some token => exact List.find?_some h

end Cursor

end Nomi
