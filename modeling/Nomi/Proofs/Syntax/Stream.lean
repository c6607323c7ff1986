import Nomi.Proofs.Syntax.Operations

/-!
# Streams of tokens

A stream keeps the whole list of its tokens and the number of those that have been taken.
A cursor keeps only what is ahead of it up to the first end mark.  Nothing that can be
asked of them tells the two apart, whatever stands behind the first end mark.
-/

namespace Nomi

open Cursor

/-- A list of tokens with an end mark put after it, and how many have been taken. -/
structure Stream where
  tokens : List Token
  index : Nat
  nonempty : tokens ≠ []

namespace Stream

theorem closed_ne_nil (tokens : List Token) : closed tokens ≠ [] :=
  List.ne_nil_of_length_pos (Nat.zero_lt_of_lt (firstEnd_lt_length tokens))

def ofList (tokens : List Token) : Stream :=
  ⟨closed tokens, 0, closed_ne_nil tokens⟩

theorem clamp_lt (stream : Stream) :
    min stream.index (stream.tokens.length - 1) < stream.tokens.length := by
  have hlength := List.length_pos_iff.2 stream.nonempty
  omega

def peek (stream : Stream) : Token :=
  stream.tokens.get ⟨min stream.index (stream.tokens.length - 1), stream.clamp_lt⟩

def next (stream : Stream) : Stream :=
  if isEnd stream.peek then stream else { stream with index := stream.index + 1 }

def advance : EStateM SyntaxError Stream Token :=
  fun stream => .ok stream.peek stream.next

def accept (kind : Token.Kind) : EStateM SyntaxError Stream (Option Token) := do
  if (← get).peek.kind = kind then some <$> advance else return none

def expect (kind : Token.Kind) (expectation : Expectation) : EStateM SyntaxError Stream Token := do
  let token := (← get).peek
  if token.kind = kind then advance
  else throw ⟨.expected expectation kind token.kind, token.position⟩

def perform : Operation → EStateM SyntaxError Stream Answer
  | .peek => return .token (some (← get).peek)
  | .atEnd => return .truth (isEnd (← get).peek)
  | .advance => return .token (some (← advance))
  | .check kind => return .truth ((← get).peek.kind = kind)
  | .accept kind => return .token (← accept kind)
  | .checkOperator symbols => do
      let token := (← get).peek
      return .truth (token.kind = .operator && symbols.contains token.lexeme)
  | .expect kind expectation => return .token (some (← expect kind expectation))

/-- Whether a cursor and a stream stand at the same place of a list, no later than at its
first end mark. -/
structure Reads (tokens : List Token) (cursor : Cursor) (stream : Stream) : Prop where
  whole : stream.tokens = closed tokens
  place : cursor = (Cursor.ofList tokens).after stream.index
  within : stream.index ≤ firstEnd tokens

variable {tokens : List Token} {cursor : Cursor} {stream : Stream}

theorem reads_ofList (tokens : List Token) : Reads tokens (.ofList tokens) (.ofList tokens) :=
  ⟨rfl, rfl, Nat.zero_le _⟩

namespace Reads

theorem index_eq (h : Reads tokens cursor stream) : cursor.index = stream.index := by
  rw [h.place]
  exact Nat.zero_add _

/-- The index is that of a token, so it is never clamped. -/
theorem index_lt (h : Reads tokens cursor stream) : stream.index < stream.tokens.length := by
  rw [h.whole]
  exact Nat.lt_of_le_of_lt h.within (firstEnd_lt_length tokens)

theorem peek_eq (h : Reads tokens cursor stream) : stream.peek = cursor.peek := by
  have hclamp : min stream.index (stream.tokens.length - 1) = stream.index :=
    Nat.min_eq_left (Nat.le_sub_one_of_lt h.index_lt)
  have hshown := closed_eq_peek h.within
  rw [← h.whole, ← h.place, List.getElem?_eq_getElem h.index_lt] at hshown
  simpa [peek, hclamp] using hshown

/-- The end mark that is seen is the first one. -/
theorem isEnd_iff (h : Reads tokens cursor stream) :
    isEnd stream.peek = true ↔ stream.index = firstEnd tokens := by
  have hplace : stream.index ≤ (Cursor.ofList tokens).ahead.length := by
    rw [length_ahead_ofList]
    exact h.within
  rw [h.peek_eq, h.place, ← length_ahead_ofList]
  exact (ended_ofList tokens).atEnd_after hplace

theorem next (h : Reads tokens cursor stream) : Reads tokens cursor.next stream.next := by
  have hlength := length_ahead_ofList tokens
  unfold Stream.next
  split
  · next hend =>
      have hindex := h.isEnd_iff.1 hend
      have hstays : cursor.next = cursor := by
        rw [h.place, hindex, ← hlength]
        exact next_after_length _
      rwa [hstays]
  · next hmore =>
      have hindex : stream.index ≠ firstEnd tokens := fun hindex => hmore (h.isEnd_iff.2 hindex)
      have hlt : stream.index < firstEnd tokens := Nat.lt_of_le_of_ne h.within hindex
      refine ⟨h.whole, ?_, hlt⟩
      rw [h.place]
      exact next_after (by rwa [hlength])

end Reads

/-- Whether the answers are the same, and the cursor and the stream left behind stand at
the same place. -/
inductive Answers (tokens : List Token) {α : Type} :
    EStateM.Result SyntaxError Cursor α → EStateM.Result SyntaxError Stream α → Prop
  | ok {cursor : Cursor} {stream : Stream} (answer : α) (h : Reads tokens cursor stream) :
      Answers tokens (.ok answer cursor) (.ok answer stream)
  | error {cursor : Cursor} {stream : Stream} (error : SyntaxError)
      (h : Reads tokens cursor stream) : Answers tokens (.error error cursor) (.error error stream)

/-- What is only asked is answered by the token that both show. -/
theorem Reads.asked (h : Reads tokens cursor stream) (answer : Token → Answer) :
    Answers tokens (.ok (answer cursor.peek) cursor) (.ok (answer stream.peek) stream) := by
  rw [h.peek_eq]
  exact .ok _ h

theorem Answers.bind {α β : Type} {first : Parser α} {second : EStateM SyntaxError Stream α}
    (h : Answers tokens (first cursor) (second stream)) (answer : α → β) :
    Answers tokens ((return answer (← first) : Parser β) cursor)
      ((return answer (← second) : EStateM SyntaxError Stream β) stream) := by
  show Answers tokens (EStateM.bind first _ cursor) (EStateM.bind second _ stream)
  unfold EStateM.bind
  cases hone : first cursor <;> cases htwo : second stream <;> rw [hone, htwo] at h <;> cases h
  · next h => exact .ok _ h
  · next h => exact .error _ h

theorem accept_apply (kind : Token.Kind) (stream : Stream) :
    accept kind stream =
      if stream.peek.kind = kind then .ok (some stream.peek) stream.next else .ok none stream := by
  show (if stream.peek.kind = kind then some <$> advance else pure none :
    EStateM SyntaxError Stream (Option Token)) stream = _
  split <;> rfl

theorem expect_apply (kind : Token.Kind) (expectation : Expectation) (stream : Stream) :
    expect kind expectation stream =
      if stream.peek.kind = kind then .ok stream.peek stream.next
      else .error ⟨.expected expectation kind stream.peek.kind, stream.peek.position⟩ stream := by
  show (if stream.peek.kind = kind then advance else _ :
    EStateM SyntaxError Stream Token) stream = _
  split <;> rfl

/-- One operation has the same answer from both. -/
theorem answers_perform (h : Reads tokens cursor stream) (operation : Operation) :
    Answers tokens (operation.perform cursor) (perform operation stream) := by
  cases operation with
  | peek => exact h.asked fun token => .token (some token)
  | atEnd => exact h.asked fun token => .truth (isEnd token)
  | check kind => exact h.asked fun token => .truth (token.kind = kind)
  | checkOperator symbols =>
      exact h.asked fun token => .truth (token.kind = .operator && symbols.contains token.lexeme)
  | advance =>
      have hadvance : Answers tokens (Parser.advance cursor) (advance stream) := by
        rw [advance, h.peek_eq]
        exact .ok _ h.next
      exact hadvance.bind _
  | accept kind =>
      have haccept : Answers tokens (Parser.accept kind cursor) (accept kind stream) := by
        rw [Operation.accept_apply, accept_apply, h.peek_eq, Cursor.check]
        by_cases hkind : cursor.peek.kind = kind
        · simpa [hkind] using .ok _ h.next
        · simpa [hkind] using .ok _ h
      exact haccept.bind _
  | expect kind expectation =>
      have hexpect : Answers tokens (Parser.expect kind expectation cursor)
          (expect kind expectation stream) := by
        rw [Operation.expect_apply, expect_apply, h.peek_eq]
        split
        · exact .ok _ h.next
        · exact .error _ h
      exact hexpect.bind _

/-- What is answered to operations, one after the other, and what they leave behind.  An
operation that fails leaves the state for the next one. -/
def askAll {σ : Type} (perform : Operation → EStateM SyntaxError σ Answer) :
    List Operation → σ → List (Except SyntaxError Answer) × σ
  | [], state => ([], state)
  | operation :: rest, state =>
      match perform operation state with
      | .ok answer next => (askAll perform rest next).map (.ok answer :: ·) id
      | .error error next => (askAll perform rest next).map (.error error :: ·) id

theorem askAll_reads (h : Reads tokens cursor stream) (operations : List Operation) :
    let one := askAll Operation.perform operations cursor
    let two := askAll perform operations stream
    one.1 = two.1 ∧ Reads tokens one.2 two.2 := by
  induction operations generalizing cursor stream with
  | nil => exact ⟨rfl, h⟩
  | cons operation rest ih =>
      have hanswers := answers_perform h operation
      simp only [askAll]
      cases hone : operation.perform cursor <;> cases htwo : perform operation stream <;>
        rw [hone, htwo] at hanswers <;> cases hanswers
      · next hnext =>
          obtain ⟨hsame, hreads⟩ := ih hnext
          exact ⟨congrArg _ hsame, hreads⟩
      · next hnext =>
          obtain ⟨hsame, hreads⟩ := ih hnext
          exact ⟨congrArg _ hsame, hreads⟩

/-- Operations on a list have the same answers from a cursor and from a stream, and leave
both at the same index, which is that of a token and not behind the first end mark. -/
theorem askAll_ofList (tokens : List Token) (operations : List Operation) :
    let one := askAll Operation.perform operations (.ofList tokens)
    let two := askAll perform operations (.ofList tokens)
    one.1 = two.1 ∧ one.2.index = two.2.index ∧ two.2.index ≤ firstEnd tokens ∧
      (closed tokens)[two.2.index]? = some two.2.peek := by
  intro one two
  obtain ⟨hsame, hreads⟩ := askAll_reads (reads_ofList tokens) operations
  refine ⟨hsame, hreads.index_eq, hreads.within, ?_⟩
  exact (closed_eq_peek hreads.within).trans (by rw [← hreads.place, ← hreads.peek_eq])

end Stream

end Nomi
