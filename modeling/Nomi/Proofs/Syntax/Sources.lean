import Nomi.Proofs.Lexical.Tokens
import Nomi.Proofs.Syntax.Language

/-!
# Sources of programs

What is known of a source that is a program: it is cut into tokens that can be
read, these derive as the statements of the program, and the program stands at the
start.
-/

namespace Nomi

open Grammar

namespace Parser

variable {α β : Type}

theorem bind_ok {first : Parser α} {rest : α → Parser β} {cursor next : Cursor} {result : β}
    (h : (first >>= rest) cursor = .ok result next) :
    ∃ value middle, first cursor = .ok value middle ∧ rest value middle = .ok result next := by
  rw [bind_apply] at h
  cases hfirst : first cursor with
  | error error middle =>
      rw [hfirst] at h
      contradiction
  | ok value middle =>
      rw [hfirst] at h
      exact ⟨value, middle, rfl, h⟩

theorem program_ok {cursor next : Cursor} {tree : Node}
    (h : program cursor = .ok tree next) : ∃ body, tree = .program .start body := by
  obtain ⟨depth, _, _, h⟩ := bind_ok h
  obtain ⟨body, _, _, h⟩ := bind_ok h
  cases h
  exact ⟨body, rfl⟩

end Parser

theorem parseTokens_ok {tokens : List Token} {tree : Node} (h : parseTokens tokens = .ok tree) :
    ∃ body, tree = .program .start body := by
  unfold parseTokens at h
  split at h
  · next next hprogram =>
      cases h
      exact Parser.program_ok hprogram
  · contradiction

/-- Tokens that are a program derive as its statements. -/
theorem derives_of_parseTokens {tokens : List Token} {stop : Token} {body : List Node}
    (hstop : stop.kind = .endOfSource) (hlegible : ∀ token ∈ tokens, Parser.Legible token)
    (h : parseTokens (tokens ++ [stop]) = .ok (.program .start body)) :
    Derives .greedy tokens (.statements body) := by
  rcases parseTokens_spec hstop hlegible with ⟨trees, hprogram, hderives⟩ | ⟨error, herror, _⟩
  · rw [h] at hprogram
    cases hprogram
    exact hderives
  · rw [h] at herror
    contradiction

/-- A source that is a program, with its tokens before the end mark. -/
structure Parsed (source : String) (tokens : List Token) (stop : Token) (body : List Node) :
    Prop where
  cut : tokenize source = .ok (tokens ++ [stop])
  ended : stop.kind = .endOfSource
  legible : ∀ token ∈ tokens, Parser.Legible token
  program : parseTokens (tokens ++ [stop]) = .ok (.program .start body)
  derives : Derives .greedy tokens (.statements body)

theorem parsed_of_parse {source : String} {tree : Node} (h : parse source = .ok tree) :
    ∃ tokens stop body, tree = .program .start body ∧ Parsed source tokens stop body := by
  cases hcut : tokenize source with
  | error error => simp [parse, hcut, Except.mapError, bind, Except.bind] at h
  | ok all =>
      obtain ⟨tokens, stop, rfl, hstop, htokens⟩ := (Lexical.cut_of_tokenize hcut).exists_body
      have hlegible : ∀ token ∈ tokens, Parser.Legible token := fun token hmem =>
        Parser.legible_of_isPlain (htokens token hmem).1 (htokens token hmem).2
      have hparse : (parseTokens (tokens ++ [stop])).mapError SourceError.syntactic = .ok tree := by
        simpa [parse, hcut, Except.mapError, bind, Except.bind] using h
      have htokens : parseTokens (tokens ++ [stop]) = .ok tree := by
        cases hprogram : parseTokens (tokens ++ [stop]) with
        | ok program =>
            rw [hprogram] at hparse
            cases hparse
            rfl
        | error error =>
            rw [hprogram] at hparse
            contradiction
      obtain ⟨body, rfl⟩ := parseTokens_ok htokens
      have hderives := derives_of_parseTokens hstop hlegible htokens
      exact ⟨tokens, stop, body, rfl, hcut, hstop, hlegible, htokens, hderives⟩

/-- A source whose tokens are a program is this program. -/
theorem parse_of_tokenize {source : String} {tokens : List Token} {tree : Node}
    (hcut : tokenize source = .ok tokens) (htree : parseTokens tokens = .ok tree) :
    parse source = .ok tree := by
  simp [parse, hcut, htree, Except.mapError, bind, Except.bind]

/-- A source that cannot be cut into tokens is refused for that. -/
theorem parse_of_refused {source : String} {refusal : LexicalError}
    (h : tokenize source = .error refusal) : parse source = .error (.lexical refusal) := by
  simp [parse, h, Except.mapError, bind, Except.bind]

theorem Parsed.parse_eq {source : String} {tokens : List Token} {stop : Token} {body : List Node}
    (h : Parsed source tokens stop body) : parse source = .ok (.program .start body) :=
  parse_of_tokenize h.cut h.program

end Nomi
