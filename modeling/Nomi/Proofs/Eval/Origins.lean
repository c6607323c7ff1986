import Nomi.Diagnostic
import Nomi.Proofs.Eval.Declarations
import Nomi.Proofs.Eval.Joining
import Nomi.Proofs.Syntax.Origins

/-!
# Where reported places come from

A failure of a run tells a place of the source that was run: a source is refused at
one of its characters or tokens, and an operation fails at a token of the program.

Places get into the bodies of functions, which are called from anywhere later, and
none but those of the source ever gets there.  This needs no invariant of its own: a
run is compared with itself, by what relates the places of the source to themselves.
-/

namespace Nomi

/-- Whether a failure tells a place of the source, if it tells one. -/
def Failure.Real (source : String) : Failure → Prop
  | .source (.lexical error) => ∃ before c after, source.toList = before ++ c :: after ∧
      error.position = Lexical.placeBehind before
  | .source (.syntactic error) => ∃ tokens, tokenize source = .ok tokens ∧
      ∃ token ∈ tokens, token.position = error.position
  | .operation _ position => ∃ tokens, tokenize source = .ok tokens ∧
      ∃ token ∈ tokens, token.kind ≠ .endOfSource ∧ token.position = position
  | .scope error => (Diagnostic.ofScope error).line = none ∧
      (Diagnostic.ofScope error).column = none
  | .cancelled | .interrupted | .tooDeep | .fault _ => True

/-- A source is refused at one of its characters or tokens. -/
theorem real_of_parse {source : String} {error : SourceError} (h : parse source = .error error) :
    (Failure.source error).Real source := by
  rcases refused_of_parse h with ⟨refusal, rfl, hcut⟩ | ⟨refusal, tokens, rfl, hcut, hprogram⟩
  · exact (Lexical.stuck_of_tokenize hcut).exists_place
  · exact ⟨tokens, hcut, among_of_parseTokens hcut hprogram⟩

theorem atRunTime_of_run {host : Host} {source : String} {program : Node} {input : List String}
    {failure : Failure} (hparse : parse source = .ok program)
    (h : (run host source input).1 = .error failure) : failure.AtRunTime := by
  simp only [run, step, hparse, evaluateGlobally, Eval.outcome] at h
  split at h
  · contradiction
  · next hresult =>
      cases h
      exact atRunTime_evaluate hresult

/-- A program fails at a token of its own, in a function or not. -/
theorem real_of_evaluate {source : String} {tokens : List Token} {stop : Token}
    {body : List Node} (h : Parsed source tokens stop body) (host : Host) (input : List String)
    {failure : Failure} (hfailure : (run host source input).1 = .error failure) :
    failure.Real source := by
  let own : Places := fun p q => p = q ∧ Among tokens p
  have hbody : Node.AlikeAll own body body := h.covered.alike_self fun p hp => ⟨rfl, hp⟩
  have hself := (outcome_alike host hbody (worlds_initial input)).1
  rw [← step_of_parse host h.parse_eq] at hself
  have hruntime : failure.AtRunTime := atRunTime_of_run h.parse_eq hfailure
  rw [run] at hfailure
  rw [hfailure] at hself
  cases hself with
  | error hsame =>
      cases hsame with
      | source => contradiction
      | operation cause hplace =>
          obtain ⟨token, hmem, hposition⟩ := hplace.2
          exact ⟨tokens ++ [stop], h.cut, token, List.mem_append_left _ hmem,
            Parser.legible_kind_ne (h.legible token hmem), hposition⟩
      | scope => exact ⟨rfl, rfl⟩
      | _ => trivial

/--
Every reported place is a real one.

A run that refuses its source does so at one of the characters or at one of the
tokens, the end mark included; an operation fails at a token that is not the end mark;
the errors of scopes tell no place.  The tokens of a parsed program derive as its
statements, places included, and every node stands at the place of one of the tokens
that it derives from.
-/
theorem reported_places_real (host : Host) (source : String) (input : List String) :
    (∀ failure, (run host source input).1 = .error failure → failure.Real source) ∧
      ∀ tree, parse source = .ok tree → ∃ tokens stop body,
        tokenize source = .ok (tokens ++ [stop]) ∧ stop.kind = .endOfSource ∧
          tree = .program .start body ∧ Grammar.Derives .greedy tokens (.statements body) ∧
          ∀ statement ∈ body, Placed tokens statement := by
  constructor
  · intro failure hfailure
    cases hparse : parse source with
    | error error =>
        have hrun : (run host source input).1 = .error (.source error) := by
          simp only [run, step, hparse]
        rw [hrun, Except.error.injEq] at hfailure
        rw [← hfailure]
        exact real_of_parse hparse
    | ok tree =>
        obtain ⟨tokens, stop, body, rfl, hparsed⟩ := parsed_of_parse hparse
        exact real_of_evaluate hparsed host input hfailure
  · intro tree hparse
    obtain ⟨tokens, stop, body, rfl, hparsed⟩ := parsed_of_parse hparse
    exact ⟨tokens, stop, body, hparsed.cut, hparsed.ended, rfl, hparsed.derives,
      hparsed.covered⟩

/-- A function that fails in its body fails there, and not where it is called. -/
theorem reported_places_real_call :
    let source := "fn f()\x7bf.x\x7df()"
    let failure := Failure.operation (.noProperties "x" "function") ⟨1, 8⟩
    (run ⟨0, .cancels⟩ source []).1 = .error failure ∧ failure.Real source := by
  intro source failure
  have hcut : tokenize source = .ok [⟨.fnWord, "fn", ⟨1, 1⟩⟩, ⟨.identifier, "f", ⟨1, 4⟩⟩,
      ⟨.openParen, "(", ⟨1, 5⟩⟩, ⟨.closeParen, ")", ⟨1, 6⟩⟩, ⟨.openBrace, "\x7b", ⟨1, 7⟩⟩,
      ⟨.identifier, "f", ⟨1, 8⟩⟩, ⟨.dot, ".", ⟨1, 9⟩⟩, ⟨.identifier, "x", ⟨1, 10⟩⟩,
      ⟨.closeBrace, "\x7d", ⟨1, 11⟩⟩, ⟨.identifier, "f", ⟨1, 12⟩⟩,
      ⟨.openParen, "(", ⟨1, 13⟩⟩, ⟨.closeParen, ")", ⟨1, 14⟩⟩, .endMark ⟨1, 15⟩] := by decide
  have hparse : parse source = .ok (.program .start [.function ⟨1, 1⟩ "f" []
      [.member ⟨1, 8⟩ (.identifier ⟨1, 8⟩ "f") (.identifier ⟨1, 10⟩ "x") false],
      .call ⟨1, 12⟩ (.identifier ⟨1, 12⟩ "f") []]) := parse_of_tokenize hcut rfl
  have hrun : (run ⟨0, .cancels⟩ source []).1 = .error failure := by
    rw [run, step, hparse]
    with_unfolding_all rfl
  exact ⟨hrun, (reported_places_real ⟨0, .cancels⟩ source []).1 failure hrun⟩

end Nomi
