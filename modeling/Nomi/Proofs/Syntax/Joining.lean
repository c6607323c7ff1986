import Nomi.Proofs.Lexical.Joining
import Nomi.Proofs.Syntax.Placement
import Nomi.Proofs.Syntax.Sources

/-!
# Programs joined by a line feed

The end of a phrase is marked if it is a semicolon, so what follows a semicolon
goes on with nothing before it.  A program that ends in one and another program,
with a line feed between them, are one program with the statements of both.
-/

namespace Nomi

namespace Grammar

def Phrase.neverEnded : Phrase → Bool
  | .primary _ | .suffixed _ | .suffixes .. | .chain .. | .run .. | .arguments _ => true
  | .target _ marked | .expression _ marked | .statement _ marked => !marked
  | .elements _ | .values _ | .entry _ | .entries _ | .statements _ => false

theorem Level.neverEnded_operand (level : Level) (tree : Node) :
    (level.operand tree).neverEnded = true := by
  cases level <;> rfl

/-- Whether the last token, if there is one, is a semicolon. -/
def Ended (tokens : List Token) : Prop :=
  ∀ token ∈ tokens.getLast?, token.kind = .semicolon

def Unended (tokens : List Token) : Prop :=
  ∀ token ∈ tokens.getLast?, token.kind ≠ .semicolon

variable {first more : List Token}

theorem Ended.not_unended (h : Ended first) (hsome : first ≠ []) : ¬ Unended first := by
  intro hnot
  have hlast := List.getLast?_eq_some_getLast hsome
  exact hnot _ hlast (h _ hlast)

theorem Ended.of_append (h : Ended (first ++ more)) : Ended more := by
  intro token hmem
  apply h token
  rw [List.getLast?_append, hmem]
  rfl

theorem unended_append (hfirst : Unended first) (hmore : Unended more) :
    Unended (first ++ more) := by
  intro token hmem
  rw [List.getLast?_append] at hmem
  cases hlast : more.getLast? with
  | none =>
      rw [hlast] at hmem
      exact hfirst token hmem
  | some last =>
      rw [hlast] at hmem
      exact hmore token (hlast.trans hmem)

theorem unended_behind (first : List Token) (hsome : more ≠ []) (h : Unended more) :
    Unended (first ++ more) := by
  intro token hmem
  rw [List.getLast?_append_of_ne_nil _ hsome] at hmem
  exact h token hmem

theorem unended_last {token : Token} {kind : Token.Kind} (h : token.kind = kind)
    (hkind : kind ≠ .semicolon) (first : List Token) : Unended (first ++ [token]) := by
  intro last hmem
  rw [List.getLast?_concat] at hmem
  cases hmem
  rw [h]
  exact hkind

theorem unended_cons {token : Token} {kind : Token.Kind} (h : token.kind = kind)
    (hkind : kind ≠ .semicolon) (hmore : Unended more) : Unended (token :: more) :=
  unended_append (unended_last h hkind []) hmore

theorem Derives.unended {boundary : Boundary} {tokens : List Token} {phrase : Phrase}
    (h : Derives boundary tokens phrase) (hphrase : phrase.neverEnded = true) :
    Unended tokens := by
  induction h with
  | identifier h | number h | string h => exact unended_last h (by decide) []
  | group _ _ hright => exact unended_last hright (by decide) (_ :: _)
  | noSuffix | noOperator => exact fun _ hmem => by contradiction
  | suffixed _ _ ihFirst ihMore => exact unended_append (ihFirst rfl) (ihMore rfl)
  | member hpoint hname _ ih =>
      exact unended_cons hpoint (by decide) (unended_cons hname (by decide) (ih rfl))
  | index _ _ hright _ _ ihMore =>
      have hbehind := unended_cons hright (by decide) (ihMore rfl)
      exact unended_behind (_ :: _) (List.cons_ne_nil _ _) hbehind
  | call _ _ ihInner ihMore => exact unended_append (ihInner rfl) (ihMore rfl)
  | chain _ _ ihFirst ihMore =>
      exact unended_append (ihFirst (Level.neverEnded_operand _ _)) (ihMore rfl)
  | operator hkind _ _ _ ihOperand ihMore =>
      have hoperand := ihOperand (Level.neverEnded_operand _ _)
      exact unended_cons hkind (by decide) (unended_append hoperand (ihMore rfl))
  | comparison _ ih => exact ih rfl
  | target _ ih | expressionStatement _ _ ih => exact ih hphrase
  | assignment _ hequals _ _ ihRight =>
      have hbehind := unended_cons hequals (by decide) (ihRight hphrase)
      exact unended_behind _ (List.cons_ne_nil _ _) hbehind
  | noArguments _ hright => exact unended_last hright (by decide) [_]
  | arguments _ _ hright => exact unended_last hright (by decide) (_ :: _)
  | _ => contradiction

/-- Behind statements that end in a semicolon any further statements may stand. -/
theorem Derives.statements_append {tokens others : List Token} {xs ys : List Node}
    (h : Derives .greedy tokens (.statements xs)) (hended : Ended tokens)
    (hmore : Derives .greedy others (.statements ys)) :
    Derives .greedy (tokens ++ others) (.statements (xs ++ ys)) := by
  generalize hphrase : Phrase.statements xs = phrase at h
  induction h generalizing xs with
  | noStatement =>
      cases hphrase
      exact hmore
  | @statement first later tree trees marked hfirst hlater hboundary _ ih =>
      cases hphrase
      have hboth := ih hended.of_append rfl
      have hbetween : Boundary.greedy marked (later ++ others) := by
        intro hopen
        -- Only the last statement meets what follows, and the semicolon marks its end.
        by_cases hsome : later = []
        · subst hsome
          rw [List.append_nil] at hended
          have hunended := hfirst.unended (by simp [Phrase.neverEnded, hopen])
          exact absurd hunended (hended.not_unended (hfirst.ne_nil rfl))
        · rw [begins_append_eq _ _ (hlater.begins hsome)]
          exact hboundary hopen
      rw [List.append_assoc, List.cons_append]
      exact .statement hfirst hboth hbetween
  | _ => contradiction

end Grammar

open Grammar

/-- Behind tokens that are a program and end in a semicolon those of another program
go on with its statements. -/
theorem parseTokens_append {tokens others : List Token} {stop last : Token} {xs ys : List Node}
    (hstop : stop.kind = .endOfSource) (hlast : last.kind = .endOfSource)
    (htokens : ∀ token ∈ tokens, Parser.Legible token)
    (hothers : ∀ token ∈ others, Parser.Legible token)
    (hfirst : parseTokens (tokens ++ [stop]) = .ok (.program .start xs))
    (hsecond : parseTokens (others ++ [last]) = .ok (.program .start ys))
    (hended : Ended tokens) :
    parseTokens (tokens ++ others ++ [last]) = .ok (.program .start (xs ++ ys)) := by
  have hone := derives_of_parseTokens hstop htokens hfirst
  have htwo := derives_of_parseTokens hlast hothers hsecond
  have hbefore : ∀ token ∈ tokens ++ others, token.kind ≠ .endOfSource := by
    intro token hmem
    rcases List.mem_append.1 hmem with hmem | hmem
    · exact Parser.legible_kind_ne (htokens token hmem)
    · exact Parser.legible_kind_ne (hothers token hmem)
  exact parseTokens_of_derives hlast hbefore (hone.statements_append hended htwo)

/-! ## Places of both programs -/

def Token.moved (move : Position → Position) (token : Token) : Token :=
  { token with position := move token.position }

/-- Which places of two programs correspond to which of the joined one, when the first
takes up so many lines: its places stay, and those of the second are further down. -/
def Joined (lines : Nat) : Places :=
  fun p q => q.line ≤ lines ∧ q = p ∨ lines < q.line ∧ q = p.down lines

/-- The same when the places of the second program have been moved before. -/
def JoinedFrom (lines : Nat) (move : Position → Position) : Places :=
  fun p q => p.line ≤ lines ∧ q = p ∨
    ∃ origin : Position, 1 ≤ origin.line ∧ p = move origin ∧ q = origin.down lines

/-- If the places of the second program have been moved apart, and out of the lines of the
first, a place tells where it is in the joined program. -/
theorem JoinedFrom.unique {lines : Nat} {move : Position → Position}
    (hapart : ∀ p q : Position, 1 ≤ p.line → 1 ≤ q.line → move p = move q → p = q)
    (hout : ∀ p : Position, 1 ≤ p.line → lines < (move p).line) {p q r : Position}
    (hq : JoinedFrom lines move p q) (hr : JoinedFrom lines move p r) : q = r := by
  rcases hq with ⟨hline, rfl⟩ | ⟨one, hone, rfl, rfl⟩
  · rcases hr with ⟨_, rfl⟩ | ⟨two, htwo, rfl, _⟩
    · rfl
    · exact absurd hline (Int.not_le.2 (hout two htwo))
  · rcases hr with ⟨hline, _⟩ | ⟨two, htwo, hsame, rfl⟩
    · exact absurd hline (Int.not_le.2 (hout one hone))
    · rw [hapart one two hone htwo hsame]

variable {source : String} {tokens others : List Token} {stop last : Token} {xs ys : List Node}

namespace Parsed

theorem isEnd_stop (h : Parsed source tokens stop xs) :
    ∃ token ∈ tokens ++ [stop], Cursor.isEnd token = true :=
  ⟨stop, List.mem_append_right _ List.mem_cons_self, by simp [Cursor.isEnd, h.ended]⟩

theorem line_bounds (h : Parsed source tokens stop xs) :
    ∀ token ∈ tokens ++ [stop], 1 ≤ token.position.line ∧
      token.position.line ≤ Lexical.height source.toList :=
  (Lexical.cut_of_tokenize h.cut).line_bounds

/-- The statements are like themselves by whatever relates the places of the source
to themselves. -/
theorem alike_self (h : Parsed source tokens stop xs) {places : Places}
    (hplaces : ∀ p : Position, p.line ≤ Lexical.height source.toList → places p p) :
    Node.AlikeAll places xs xs := by
  have htokens : List.Forall₂ (Token.Alike places) (tokens ++ [stop]) (tokens ++ [stop]) :=
    List.forall₂_same.2 fun token hmem => ⟨rfl, rfl, hplaces _ (h.line_bounds token hmem).2⟩
  rcases parseTokens_alike htokens h.isEnd_stop with ⟨_, _, hone, htwo, hbody⟩ | ⟨_, _, hone, _⟩
  · rw [h.program] at hone htwo
    cases hone
    cases htwo
    exact hbody
  · rw [h.program] at hone
    contradiction

/-- Wherever the places of the source are moved, it is a program. -/
theorem exists_moved (h : Parsed source tokens stop xs) (move : Position → Position) :
    ∃ moved, parseTokens ((tokens ++ [stop]).map (Token.moved move)) =
      .ok (.program .start moved) := by
  have htokens : List.Forall₂ (Token.Alike fun _ _ => True) (tokens ++ [stop])
      ((tokens ++ [stop]).map (Token.moved move)) := by
    rw [List.forall₂_map_right_iff]
    exact List.forall₂_same.2 fun token _ => ⟨rfl, rfl, trivial⟩
  rcases parseTokens_alike htokens h.isEnd_stop with ⟨_, moved, _, hmoved, _⟩ | ⟨_, _, hone, _⟩
  · exact ⟨moved, hmoved⟩
  · rw [h.program] at hone
    contradiction

/-- Moved in two ways its statements are alike by whatever relates the two places of each
token. -/
theorem moved_alike (h : Parsed source tokens stop xs) {one two : Position → Position}
    {left right : List Node}
    (hone : parseTokens ((tokens ++ [stop]).map (Token.moved one)) = .ok (.program .start left))
    (htwo : parseTokens ((tokens ++ [stop]).map (Token.moved two)) = .ok (.program .start right))
    {places : Places} (hplaces : ∀ p : Position, 1 ≤ p.line → places (one p) (two p)) :
    Node.AlikeAll places left right := by
  have htokens : List.Forall₂ (Token.Alike places) ((tokens ++ [stop]).map (Token.moved one))
      ((tokens ++ [stop]).map (Token.moved two)) := by
    rw [List.forall₂_map_left_iff, List.forall₂_map_right_iff]
    exact List.forall₂_same.2 fun token hmem =>
      ⟨rfl, rfl, hplaces _ (h.line_bounds token hmem).1⟩
  have hended : ∃ token ∈ (tokens ++ [stop]).map (Token.moved one), Cursor.isEnd token = true := by
    obtain ⟨token, hmem, hend⟩ := h.isEnd_stop
    exact ⟨token.moved one, List.mem_map_of_mem hmem, hend⟩
  rcases parseTokens_alike htokens hended with ⟨_, _, hleft, hright, hbody⟩ | ⟨_, _, hleft, _⟩
  · rw [hone] at hleft
    rw [htwo] at hright
    cases hleft
    cases hright
    exact hbody
  · rw [hone] at hleft
    contradiction

theorem program_moved_id (h : Parsed source tokens stop xs) :
    parseTokens ((tokens ++ [stop]).map (Token.moved id)) = .ok (.program .start xs) := by
  have hmoved : Token.moved id = id := rfl
  rw [hmoved, List.map_id]
  exact h.program

/-- Behind a program that ends in a semicolon the statements of another program follow,
further down. -/
theorem join {first second : String} (hfirst : Parsed first tokens stop xs)
    (hsecond : Parsed second others last ys) (hended : Ended tokens) :
    ∃ moved, parseTokens ((others ++ [last]).map
          (Token.moved (Position.down (Lexical.height first.toList)))) =
        .ok (.program .start moved) ∧
      parse (first ++ "\n" ++ second) = .ok (.program .start (xs ++ moved)) := by
  let lines := Lexical.height first.toList
  obtain ⟨moved, hmoved⟩ := hsecond.exists_moved (Position.down lines)
  refine ⟨moved, hmoved, ?_⟩
  have hlegible : ∀ token ∈ others.map (Token.down lines), Parser.Legible token := by
    intro token hmem
    obtain ⟨original, horiginal, rfl⟩ := List.mem_map.1 hmem
    exact hsecond.legible original horiginal
  have hdown : Token.moved (Position.down lines) = Token.down lines := rfl
  have hcut := Lexical.tokenize_join hfirst.cut hsecond.cut
  rw [hdown] at hmoved
  rw [List.map_append, List.map_singleton] at hmoved hcut
  rw [← List.append_assoc] at hcut
  exact parse_of_tokenize hcut (parseTokens_append hfirst.ended hsecond.ended
    hfirst.legible hlegible hfirst.program hmoved hended)

end Parsed

end Nomi
