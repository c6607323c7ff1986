import Nomi.Proofs.Eval.Joining
import Nomi.Proofs.Syntax.Equality

/-!
# Places do not matter

Where the tokens of a program stand has no influence on what the program means.
Places travel into trees, into the bodies of functions and into errors, but nothing
asks for them on the way.
-/

namespace Nomi

/-- Trees that are alike have runs that are alike. -/
theorem evaluateGlobally_alike {places : Places} {program other : Node}
    (h : program.Alike places other) (host : Host) (input : List String) :
    let first := evaluateGlobally host program (.initial input)
    let second := evaluateGlobally host other (.initial input)
    first.1.Alike places (fun _ => True) second.1 ∧ first.2.Alike places second.2 := by
  have hruns := agree_evaluate _ host depthLimit (wholeView_sees 0 Store.globalId) h
  have hends := (hruns _ _ (worlds_initial input) (Nat.zero_le _)).outcome
  exact ⟨hends.1.mono fun _ _ => trivial, hends.2.alike⟩

/--
Source places never influence meaning.

Tokens of the same kinds and lexemes are the same program up to places, or are refused
with the same message; the refusal is one of the grammar unless a numeral denotes no
number.  Programs that are the same up to places write the same, leave the same input
and end alike: with values and stores that are the same up to the places in function
bodies, or with failures that are the same up to their places.
-/
theorem places_immaterial :
    (∀ tokens others : List Token,
      (tokens.map fun token => (token.kind, token.lexeme)) =
        (others.map fun token => (token.kind, token.lexeme)) →
      (∃ program other, parseTokens tokens = .ok program ∧ parseTokens others = .ok other ∧
        program.unplaced = other.unplaced) ∨
      ∃ error failure, parseTokens tokens = .error error ∧ parseTokens others = .error failure ∧
        error.cause = failure.cause ∧ error.cause.message = failure.cause.message ∧
        ∀ lexeme, error.cause = .notANumeral lexeme →
          ∃ token ∈ tokens, token.kind = .number ∧ Numeral.read? token.lexeme.toList = none) ∧
    ∀ program other : Node,
      (program.unplaced = other.unplaced ∨
        ∃ first second, parse first = .ok program ∧ parse second = .ok other ∧
          program.same other = true) →
      ∀ (host : Host) (input : List String),
        let one := evaluateGlobally host program (.initial input)
        let two := evaluateGlobally host other (.initial input)
        one.1.Alike Places.any (fun _ => True) two.1 ∧ one.2.Alike Places.any two.2 := by
  constructor
  · intro tokens others h
    rcases parseTokens_eq_of_same h with hparsed | ⟨error, failure, hone, htwo, hcause⟩
    · exact .inl hparsed
    · refine .inr ⟨error, failure, hone, htwo, hcause, by rw [hcause], ?_⟩
      intro lexeme hnumeral
      exact exists_notANumeral hone hnumeral
  · intro program other h host input
    have hunplaced : program.unplaced = other.unplaced := by
      rcases h with hsame | ⟨first, second, hfirst, hsecond, hsame⟩
      · exact hsame
      · exact unplaced_eq_of_parse hfirst hsecond hsame
    exact evaluateGlobally_alike (Node.alike_of_unplaced_eq hunplaced) host input

/-- A function that fails in its body, and the same one a line further down. -/
theorem places_immaterial_moved :
    let body := fun line => [Node.function ⟨line, 1⟩ "f" []
      [.member ⟨line, 8⟩ (.identifier ⟨line, 8⟩ "f") (.identifier ⟨line, 10⟩ "x") false],
      .call ⟨line, 12⟩ (.identifier ⟨line, 12⟩ "f") []]
    let one := Node.program .start (body 1)
    let two := Node.program .start (body 2)
    (parse "fn f(){f.x}f()" = .ok one ∧ parse "\nfn f(){f.x}f()" = .ok two ∧
      one.same two = true) ∧
    let first := evaluateGlobally ⟨0, .cancels⟩ one (.initial [])
    let second := evaluateGlobally ⟨0, .cancels⟩ two (.initial [])
    first.1.Alike Places.any (fun _ => True) second.1 ∧ first.2.Alike Places.any second.2 := by
  intro body one two
  let tokens := fun line : Int => [⟨.fnWord, "fn", ⟨line, 1⟩⟩, ⟨.identifier, "f", ⟨line, 4⟩⟩,
    ⟨.openParen, "(", ⟨line, 5⟩⟩, ⟨.closeParen, ")", ⟨line, 6⟩⟩, ⟨.openBrace, "\x7b", ⟨line, 7⟩⟩,
    ⟨.identifier, "f", ⟨line, 8⟩⟩, ⟨.dot, ".", ⟨line, 9⟩⟩, ⟨.identifier, "x", ⟨line, 10⟩⟩,
    ⟨.closeBrace, "\x7d", ⟨line, 11⟩⟩, ⟨.identifier, "f", ⟨line, 12⟩⟩,
    ⟨.openParen, "(", ⟨line, 13⟩⟩, ⟨.closeParen, ")", ⟨line, 14⟩⟩, Token.endMark ⟨line, 15⟩]
  have hfirst : tokenize "fn f(){f.x}f()" = .ok (tokens 1) := by decide
  have hsecond : tokenize "\nfn f(){f.x}f()" = .ok (tokens 2) := by decide
  have hone : parse "fn f(){f.x}f()" = .ok one := parse_of_tokenize hfirst rfl
  have htwo : parse "\nfn f(){f.x}f()" = .ok two := parse_of_tokenize hsecond rfl
  have hsame : one.same two = true := by decide
  exact ⟨⟨hone, htwo, hsame⟩,
    places_immaterial.2 one two (.inr ⟨_, _, hone, htwo, hsame⟩) ⟨0, .cancels⟩ []⟩

end Nomi
