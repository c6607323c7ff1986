import Mathlib.Data.List.Induction
import Nomi.Proofs.Lexical.Tokens

/-!
# Line ends of two characters

A line may end in a carriage return and a line feed.  The carriage return is then a blank
or the end of a comment, and it ends whatever the line feed ends, so the lexer makes no
difference.  Only inside a literal a line end is part of what is written.
-/

namespace Nomi.Lexical

/-- A text with a carriage return before every line feed. -/
def withReturns : List Char → List Char
  | [] => []
  | c :: rest => if c = '\n' then '\r' :: '\n' :: withReturns rest else c :: withReturns rest

variable {before gap raw rest text : List Char} {c : Char} {kind : Token.Kind}

@[simp] theorem withReturns_nil : withReturns [] = [] := rfl

@[simp] theorem withReturns_lineFeed (rest : List Char) :
    withReturns ('\n' :: rest) = '\r' :: '\n' :: withReturns rest := rfl

theorem withReturns_cons (h : c ≠ '\n') (rest : List Char) :
    withReturns (c :: rest) = c :: withReturns rest :=
  if_neg h

theorem withReturns_append (first second : List Char) :
    withReturns (first ++ second) = withReturns first ++ withReturns second := by
  induction first with
  | nil => rfl
  | cons c rest ih =>
      by_cases h : c = '\n'
      · subst h
        simp [ih]
      · simp [withReturns_cons h, ih]

theorem withReturns_eq_self (h : '\n' ∉ text) : withReturns text = text := by
  induction text with
  | nil => rfl
  | cons c rest ih =>
      have hne : c ≠ '\n' := fun heq => h (heq ▸ List.mem_cons_self)
      rw [withReturns_cons hne, ih fun hmem => h (List.mem_cons_of_mem _ hmem)]

/-- A carriage return stands on the line that its line feed ends, so no place moves. -/
theorem placeBehind_withReturns (before : List Char) :
    placeBehind (withReturns before) = placeBehind before := by
  induction before using List.reverseRecOn with
  | nil => rfl
  | append_singleton before c ih =>
      rw [withReturns_append]
      by_cases h : c = '\n'
      · subst h
        have hpair : withReturns before ++ withReturns ['\n'] =
            withReturns before ++ ['\r'] ++ ['\n'] := by simp
        rw [hpair, placeBehind_append_singleton, placeBehind_append_singleton,
          placeBehind_append_singleton, ih]
        rfl
      · rw [withReturns_cons h, withReturns_nil, placeBehind_append_singleton, ih,
          placeBehind_append_singleton]

/-! ## Pieces -/

/-- What ends a run still ends it. -/
theorem Ends.withReturns {part : Char → Bool} (h : Ends part rest) (hpart : part '\r' = false) :
    Ends part (withReturns rest) := by
  cases rest with
  | nil => exact h
  | cons c more =>
      by_cases hc : c = '\n'
      · subst hc
        rintro d ⟨⟩
        exact hpart
      · rw [withReturns_cons hc]
        exact h

def StaysOnLine (text : List Char) : Prop :=
  text.head? ≠ some '\n'

/-- A comment takes the carriage return in, and outside of comments it is a blank. -/
theorem Gap.withReturns (h : Gap gap rest) (hrest : StaysOnLine rest) :
    Gap (withReturns gap) (withReturns rest) := by
  induction h with
  | nothing => exact .nothing
  | @blank c more rest hblank _ ih =>
      by_cases hc : c = '\n'
      · subst hc
        exact .blank (by decide) (.blank (by decide) (ih hrest))
      · rw [withReturns_cons hc]
        exact .blank hblank (ih hrest)
  | @comment body more rest hbody hend _ ih =>
      have hplain : '\n' ∉ body := fun hmem => by simpa using hbody '\n' hmem
      have htext : Lexical.withReturns ('/' :: '/' :: (body ++ more)) =
          '/' :: '/' :: (body ++ Lexical.withReturns more) := by
        rw [withReturns_cons (by decide), withReturns_cons (by decide), withReturns_append,
          withReturns_eq_self hplain]
      rw [htext]
      cases more with
      | nil =>
          have hnone : rest = [] := by
            cases rest with
            | nil => rfl
            | cons c others =>
                have hline : c = '\n' := by simpa using hend c rfl
                exact absurd (congrArg some hline) hrest
          subst hnone
          exact .comment hbody (by simp [Ends]) .nothing
      | cons c others =>
          have hline : c = '\n' := by simpa using hend c rfl
          subst hline
          -- The comment now goes up to the line feed, behind the carriage return.
          have hbehind : Gap ('\n' :: Lexical.withReturns others) (Lexical.withReturns rest) := by
            cases ih hrest with
            | blank _ hmore => exact hmore
          have hlonger : ∀ d ∈ body ++ ['\r'], (d != '\n') = true := by
            intro d hmem
            rcases List.mem_append.1 hmem with hmem | hmem
            · exact hbody d hmem
            · rw [List.mem_singleton.1 hmem]
              decide
          have hcomment := Gap.comment hlonger (by simp [Ends]) hbehind
          simpa using hcomment

theorem Lexeme.withReturns {token : List Char} (h : Lexeme raw rest kind token) :
    Lexeme raw (withReturns rest) kind token := by
  cases h with
  | string hquote hbody => exact .string hquote hbody
  | number hrun hpoints hlast =>
      have hlongest := hrun.longest.withReturns (by decide)
      exact .number ⟨hrun.head, hrun.parts, hlongest⟩ hpoints hlast
  | word hstart hparts hlongest =>
      exact .word hstart hparts (hlongest.withReturns (by decide))
  | symbol hsymbol hslash =>
      exact .symbol hsymbol fun hc => (hslash hc).withReturns (by decide)

theorem not_mem_of_parts {part : Char → Bool} (hpart : part '\n' = false)
    (h : ∀ d ∈ text, part d = true) : '\n' ∉ text := by
  intro hmem
  have hline := h '\n' hmem
  rw [hpart] at hline
  contradiction

theorem mem_decode_lineFeed {body : List Char} (h : '\n' ∈ body) : '\n' ∈ Escape.decode body := by
  induction body using Escape.decode.induct with
  | case1 c rest ih =>
      rw [Escape.decode]
      rcases List.mem_cons.1 h with hslash | h
      · contradiction
      · rcases List.mem_cons.1 h with rfl | hrest
        · exact List.mem_cons_self
        · exact List.mem_cons_of_mem _ (ih hrest)
  | case2 c rest hlast ih =>
      rw [Escape.decode.eq_2 _ _ hlast]
      rcases List.mem_cons.1 h with rfl | hrest
      · exact List.mem_cons_self
      · exact List.mem_cons_of_mem _ (ih hrest)
  | case3 => contradiction

/-- Only literals reach over a line end, and they mean texts that do. -/
theorem Lexeme.literal_of_lineFeed {token : List Char} (h : Lexeme raw rest kind token)
    (hline : '\n' ∈ raw) : kind = .string ∧ '\n' ∈ token := by
  cases h with
  | @string quote body _ hquote hbody =>
      have hne : '\n' ≠ quote := fun heq => absurd (heq ▸ hquote) (by decide)
      have hinside : '\n' ∈ body := by simpa [hne] using hline
      exact ⟨rfl, mem_decode_lineFeed hinside⟩
  | number hrun => exact absurd hline (not_mem_of_parts (by decide) hrun.parts)
  | @word d more _ hstart hparts =>
      have hfirst : '\n' ≠ d := fun heq => absurd (heq ▸ hstart) (by decide)
      have hinside : '\n' ∈ more := by simpa [hfirst] using hline
      exact absurd hinside (not_mem_of_parts (by decide) hparts)
  | @symbol d _ _ hsymbol =>
      rw [← List.mem_singleton.1 hline] at hsymbol
      contradiction

/-! ## Literals that nothing closes -/

/-- Whether a quote is not closed in the text behind it. -/
def Unclosed (quote : Char) (rest : List Char) : Prop :=
  ∀ body more, rest = body ++ quote :: more → ¬ Quoted quote body

theorem Unclosed.of_plain {quote : Char} (hbackslash : c ≠ '\\') (h : Unclosed quote (c :: rest)) :
    c ≠ quote ∧ Unclosed quote rest := by
  have hquote : c ≠ quote := by
    rintro rfl
    exact h [] rest rfl .nothing
  refine ⟨hquote, fun body more heq hbody => ?_⟩
  subst heq
  exact h (c :: body) more rfl (.plain hbackslash hquote hbody)

theorem Unclosed.of_escaped {quote : Char} (h : Unclosed quote ('\\' :: c :: rest)) :
    Unclosed quote rest := by
  intro body more heq hbody
  subst heq
  exact h ('\\' :: c :: body) more rfl (.escaped hbody)

theorem Unclosed.plain {quote : Char} (hbackslash : c ≠ '\\') (hquote : c ≠ quote)
    (h : Unclosed quote rest) : Unclosed quote (c :: rest) := by
  intro body more heq hbody
  cases hbody with
  | nothing => exact hquote (List.cons.inj heq).1
  | plain _ _ hmore => exact h _ more (List.cons.inj heq).2 hmore
  | escaped _ => exact hbackslash (List.cons.inj heq).1

theorem Unclosed.escaped {quote : Char} (hquote : quote ≠ '\\') (h : Unclosed quote rest) :
    Unclosed quote ('\\' :: c :: rest) := by
  intro body more heq hbody
  cases hbody with
  | nothing => exact hquote (List.cons.inj heq).1.symm
  | plain hplain _ _ => exact hplain (List.cons.inj heq).1.symm
  | escaped hmore => exact h _ more (List.cons.inj (List.cons.inj heq).2).2 hmore

/-- A backslash may now stand before the carriage return; the line feed behind it closes
nothing either. -/
theorem Unclosed.withReturns {quote : Char} (hquote : quote ∈ quotes) (h : Unclosed quote rest) :
    Unclosed quote (withReturns rest) := by
  have hplain : quote ≠ '\\' := Scanner.ne_backslash_of_mem_quotes hquote
  have hline : '\n' ≠ quote := fun heq => absurd (heq ▸ hquote) (by decide)
  have hreturn : '\r' ≠ quote := fun heq => absurd (heq ▸ hquote) (by decide)
  induction rest using Escape.decode.induct with
  | case1 c rest ih =>
      have hrest := ih h.of_escaped
      rw [withReturns_cons (by decide)]
      by_cases hc : c = '\n'
      · subst hc
        exact (hrest.plain (by decide) hline).escaped hplain
      · rw [withReturns_cons hc]
        exact hrest.escaped hplain
  | case2 c rest hlast ih =>
      by_cases hbackslash : c = '\\'
      · subst hbackslash
        cases rest with
        | nil => exact h
        | cons d more => exact absurd rfl (hlast d more rfl)
      · obtain ⟨hopen, hmore⟩ := h.of_plain hbackslash
        have hrest := ih hmore
        by_cases hc : c = '\n'
        · subst hc
          exact (hrest.plain (by decide) hline).plain (by decide) hreturn
        · rw [withReturns_cons hc]
          exact hrest.plain hbackslash hopen
  | case3 => exact h

theorem Refused.withReturns {cause : LexicalCause} (h : Refused rest cause) :
    Refused (withReturns rest) cause := by
  cases h with
  | @malformedNumber run more hrun hpoints =>
      have hparts : '\n' ∉ run := not_mem_of_parts (by decide) hrun.parts
      have hlongest := hrun.longest.withReturns (by decide)
      rw [withReturns_append, withReturns_eq_self hparts]
      exact .malformedNumber ⟨hrun.head, hrun.parts, hlongest⟩ hpoints
  | @unterminatedString quote more hquote hopen =>
      have hline : quote ≠ '\n' := fun heq => absurd (heq ▸ hquote) (by decide)
      rw [withReturns_cons hline]
      exact .unterminatedString hquote (Unclosed.withReturns hquote hopen)
  | @unrecognized c more hblank hquote hdigit hword hsymbol =>
      have hline : c ≠ '\n' := fun heq => absurd (heq ▸ hblank) (by decide)
      rw [withReturns_cons hline]
      exact .unrecognized hblank hquote hdigit hword hsymbol

theorem Refused.staysOnLine {cause : LexicalCause} (h : Refused rest cause) :
    StaysOnLine rest := by
  cases h with
  | @malformedNumber run more hrun hpoints =>
      cases run with
      | nil => exact absurd hrun.head (by simp)
      | cons c others =>
          have hdigit : Digit.isDigit c = true := by simpa using hrun.head
          have hline : c ≠ '\n' := fun heq => absurd (heq ▸ hdigit) (by decide)
          simpa [StaysOnLine] using hline
  | @unterminatedString quote more hquote hopen =>
      have hline : quote ≠ '\n' := fun heq => absurd (heq ▸ hquote) (by decide)
      simpa [StaysOnLine] using hline
  | @unrecognized c more hblank hquote hdigit hword hsymbol =>
      have hline : c ≠ '\n' := fun heq => absurd (heq ▸ hblank) (by decide)
      simpa [StaysOnLine] using hline

/-! ## Lexemes of a source -/

/-- Whether a lexeme of a kind stands in a text, behind gaps and other lexemes. -/
inductive Holds (raw : List Char) (kind : Token.Kind) : List Char → Prop
  | here {gap rest token : List Char} (hgap : Gap gap (raw ++ rest))
      (hlexeme : Lexeme raw rest kind token) : Holds raw kind (gap ++ (raw ++ rest))
  | later {gap other rest token : List Char} {others : Token.Kind} (hgap : Gap gap (other ++ rest))
      (hlexeme : Lexeme other rest others token) (hmore : Holds raw kind rest) :
      Holds raw kind (gap ++ (other ++ rest))

/-- Whether every literal of a text stands on one line. -/
def LiteralsOnLine (text : List Char) : Prop :=
  ∀ raw, Holds raw .string text → '\n' ∉ raw

theorem LiteralsOnLine.split {other token : List Char} (h : LiteralsOnLine (gap ++ (other ++ rest)))
    (hgap : Gap gap (other ++ rest)) (hlexeme : Lexeme other rest kind token) :
    '\n' ∉ other ∧ LiteralsOnLine rest := by
  refine ⟨fun hline => ?_, fun raw hraw => h raw (.later hgap hlexeme hraw)⟩
  obtain ⟨rfl, _⟩ := hlexeme.literal_of_lineFeed hline
  exact h other (.here hgap hlexeme) hline

/-- What a lexeme of a text becomes is among the tokens of the text. -/
theorem Holds.exists_token (h : Holds raw kind text) {before : List Char}
    {sofar tokens : List Token}
    (hscan : (Scanner.behind before .between sofar).scan text = .ok tokens) :
    ∃ token ∈ tokens, ∃ rest meaning, Lexeme raw rest kind meaning ∧ token.kind = kind ∧
      token.lexeme = String.ofList meaning := by
  induction h generalizing before sofar with
  | @here gap rest meaning hgap hlexeme =>
      rw [Scanner.scan_gap hgap, Scanner.scan_lexeme hlexeme] at hscan
      rcases exists_cut_or_stuck (before ++ gap ++ raw) rest with ⟨others, hcut⟩ | ⟨error, hstuck⟩
      · rw [scan_of_cut hcut] at hscan
        cases hscan
        have hmem : (⟨kind, String.ofList meaning, placeBehind (before ++ gap)⟩ : Token) ∈
            (⟨kind, String.ofList meaning, placeBehind (before ++ gap)⟩ :: sofar).reverse ++
              others := by simp
        exact ⟨_, hmem, rest, meaning, hlexeme, rfl, rfl⟩
      · rw [scan_of_stuck hstuck] at hscan
        contradiction
  | later hgap hlexeme _ ih =>
      rw [Scanner.scan_gap hgap, Scanner.scan_lexeme hlexeme] at hscan
      exact ih hscan

/-- A literal over a line end is a string with a line feed. -/
theorem literalsOnLine_of_tokenize {source : String} {tokens : List Token}
    (h : tokenize source = .ok tokens)
    (htokens : ∀ token ∈ tokens, token.kind = .string → '\n' ∉ token.lexeme.toList) :
    LiteralsOnLine source.toList := by
  intro raw hraw hline
  obtain ⟨token, htoken, rest, meaning, hlexeme, hkind, htext⟩ :=
    hraw.exists_token (scan_of_cut (cut_of_tokenize h) [])
  refine htokens token htoken hkind ?_
  rw [htext, String.toList_ofList]
  exact (hlexeme.literal_of_lineFeed hline).2

theorem Lexeme.staysOnLine {token : List Char} (h : Lexeme raw rest kind token)
    (hraw : '\n' ∉ raw) : StaysOnLine (raw ++ rest) := by
  obtain ⟨c, more, rfl⟩ := List.exists_cons_of_ne_nil h.ne_nil
  have hline : c ≠ '\n' := fun heq => hraw (heq ▸ List.mem_cons_self)
  simpa [StaysOnLine] using hline

theorem Cut.withReturns {tokens : List Token} (h : Cut before text tokens)
    (hliterals : LiteralsOnLine text) : Cut (withReturns before) (withReturns text) tokens := by
  induction h with
  | @done before gap hgap =>
      have hend : Gap (Lexical.withReturns gap) [] := hgap.withReturns (by simp [StaysOnLine])
      have hdone : Cut (Lexical.withReturns before) (Lexical.withReturns gap) _ := .done hend
      rwa [← withReturns_append, placeBehind_withReturns] at hdone
  | @token before gap raw rest text kind tokens hgap hlexeme _ ih =>
      obtain ⟨hraw, hrest⟩ := hliterals.split hgap hlexeme
      have hmore := ih hrest
      have hbefore := hgap.withReturns (hlexeme.staysOnLine hraw)
      rw [withReturns_append, withReturns_append, withReturns_eq_self hraw] at hmore
      rw [withReturns_append, withReturns_eq_self hraw] at hbefore
      rw [withReturns_append, withReturns_append, withReturns_eq_self hraw]
      have htoken := Cut.token hbefore hlexeme.withReturns hmore
      rwa [← withReturns_append, placeBehind_withReturns] at htoken

theorem Stuck.withReturns {error : LexicalError} (h : Stuck before text error)
    (hliterals : LiteralsOnLine text) : Stuck (withReturns before) (withReturns text) error := by
  induction h with
  | @here before gap rest cause hgap hrefused =>
      have hbefore := hgap.withReturns hrefused.staysOnLine
      have hhere : Stuck (Lexical.withReturns before) _ _ := .here hbefore hrefused.withReturns
      rwa [← withReturns_append, ← withReturns_append, placeBehind_withReturns] at hhere
  | @later before gap raw rest text kind error hgap hlexeme _ ih =>
      obtain ⟨hraw, hrest⟩ := hliterals.split hgap hlexeme
      have hmore := ih hrest
      have hbefore := hgap.withReturns (hlexeme.staysOnLine hraw)
      rw [withReturns_append, withReturns_append, withReturns_eq_self hraw] at hmore
      rw [withReturns_append, withReturns_eq_self hraw] at hbefore
      rw [withReturns_append, withReturns_append, withReturns_eq_self hraw]
      exact .later hbefore hlexeme.withReturns hmore

/--
Line ends of two characters are those of one.

A source that has a carriage return before every line feed gives the tokens, end mark and
places included, or the error, that it gives without them, when no literal of the source
reaches over a line end.
-/
theorem tokenize_withReturns (source : String) (h : LiteralsOnLine source.toList) :
    tokenize (String.ofList (withReturns source.toList)) = tokenize source := by
  rcases exists_cut_or_stuck [] source.toList with ⟨tokens, hcut⟩ | ⟨error, hstuck⟩
  · have hreturned := hcut.withReturns h
    rw [tokenize_of_cut hcut]
    exact tokenize_of_cut (by rwa [String.toList_ofList])
  · have hreturned := hstuck.withReturns h
    rw [tokenize_of_stuck hstuck]
    exact tokenize_of_stuck (by rwa [String.toList_ofList])

/-- A comment, a literal and an operator at the ends of lines. -/
theorem tokenize_withReturns_lines :
    let source := "// a\nx = 'b' /\n3"
    LiteralsOnLine source.toList ∧
      String.ofList (withReturns source.toList) = "// a\r\nx = 'b' /\r\n3" ∧
      tokenize "// a\r\nx = 'b' /\r\n3" =
        .ok [⟨.identifier, "x", ⟨2, 1⟩⟩, ⟨.equals, "=", ⟨2, 3⟩⟩, ⟨.string, "b", ⟨2, 5⟩⟩,
          ⟨.operator, "/", ⟨2, 9⟩⟩, ⟨.number, "3", ⟨3, 1⟩⟩, .endMark ⟨3, 2⟩] := by
  intro source
  have hcut : tokenize source =
      .ok [⟨.identifier, "x", ⟨2, 1⟩⟩, ⟨.equals, "=", ⟨2, 3⟩⟩, ⟨.string, "b", ⟨2, 5⟩⟩,
        ⟨.operator, "/", ⟨2, 9⟩⟩, ⟨.number, "3", ⟨3, 1⟩⟩, .endMark ⟨3, 2⟩] := by decide
  have hliterals := literalsOnLine_of_tokenize hcut (by decide)
  have htext : String.ofList (withReturns source.toList) = "// a\r\nx = 'b' /\r\n3" := by decide
  refine ⟨hliterals, htext, ?_⟩
  rw [← htext, tokenize_withReturns source hliterals, hcut]

end Nomi.Lexical
