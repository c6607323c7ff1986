import Nomi.Proofs.Lexical.Cut
import Nomi.Proofs.Lexical.Numerals

/-!
# Scanning piece by piece

The scanner passes every gap and every lexeme in its own way, but ends up alike:
between lexemes, with its place behind what it has read.  What it does with the
rest then depends on the rest alone, so whole sources follow by induction over
their pieces.
-/

namespace Nomi.Scanner

open Lexical

def scan (s : Scanner) (text : List Char) : Except LexicalError (List Token) := do
  let last ← text.foldlM feed s
  last.finish

theorem scan_nil (s : Scanner) : s.scan [] = s.finish := rfl

theorem scan_cons (s : Scanner) (c : Char) (rest : List Char) :
    s.scan (c :: rest) = s.feed c >>= fun next => next.scan rest := by
  simp [scan, List.foldlM_cons]

def behind (before : List Char) (mode : Mode) (tokens : List Token) : Scanner :=
  ⟨placeBehind before, mode, tokens⟩

theorem advance_behind (before : List Char) (mode : Mode) (tokens : List Token) (c : Char) :
    (behind before mode tokens).advance c = behind (before ++ [c]) mode tokens := by
  simp [behind, advance, placeBehind_append_singleton]

theorem scan_of_extend {before : List Char} {mode next : Mode} {tokens more : List Token}
    {c : Char} (rest : List Char)
    (h : (behind before mode tokens).extend? c = some (behind before next more)) :
    (behind before mode tokens).scan (c :: rest) =
      (behind (before ++ [c]) next more).scan rest := by
  have hfeed : (behind before mode tokens).feed c = .ok (behind (before ++ [c]) next more) := by
    simp only [feed, h, advance_behind]
  rw [scan_cons, hfeed]
  rfl

theorem close_between (before : List Char) (tokens : List Token) :
    (behind before .between tokens).close = .ok (behind before .between tokens) := rfl

theorem mode_of_close {s closed : Scanner} (h : s.close = .ok closed) :
    closed.mode = .between := by
  unfold close at h
  dsimp only at h
  split at h
  · cases h
    rfl
  · cases h
    rfl
  · cases h
    rfl
  · cases h
    rfl
  · split at h
    · cases h
      rfl
    · contradiction
  · contradiction

/-- A lexeme that does not go on is closed, and the text is looked at afresh. -/
theorem scan_close {s : Scanner} {text : List Char} (h : ∀ c ∈ text.head?, s.extend? c = none) :
    s.scan text = s.close >>= fun closed => closed.scan text := by
  have hagain : ∀ closed : Scanner, s.close = .ok closed → closed.close = .ok closed := by
    intro closed hclosed
    have hmode := mode_of_close hclosed
    cases closed with
    | mk position mode tokens =>
        simp only at hmode
        subst hmode
        rfl
  cases hclose : s.close with
  | error error =>
      cases text with
      | nil => simp [scan_nil, finish, hclose, bind, Except.bind]
      | cons c rest =>
          have hnone := h c rfl
          simp [scan_cons, feed, hnone, hclose, bind, Except.bind]
  | ok closed =>
      have hclosed := hagain closed hclose
      cases text with
      | nil => simp [scan_nil, finish, hclose, hclosed, bind, Except.bind]
      | cons c rest =>
          have hnone := h c rfl
          have hbetween : closed.extend? c = none := by
            simp [extend?, mode_of_close hclose]
          simp [scan_cons, feed, hnone, hbetween, hclose, hclosed, bind, Except.bind]

theorem scan_begin {before : List Char} {mode : Mode} {tokens more : List Token} {c : Char}
    (rest : List Char)
    (h : (behind before .between tokens).begin c = .ok (behind before mode more)) :
    (behind before .between tokens).scan (c :: rest) =
      (behind (before ++ [c]) mode more).scan rest := by
  have hnone : (behind before .between tokens).extend? c = none := rfl
  have hfeed : (behind before .between tokens).feed c =
      .ok (behind (before ++ [c]) mode more) := by
    simp only [feed, hnone, close_between, h, bind, Except.bind, advance_behind]
    rfl
  rw [scan_cons, hfeed]
  rfl

theorem scan_refuse {before : List Char} {tokens : List Token} {c : Char} {error : LexicalError}
    (rest : List Char) (h : (behind before .between tokens).begin c = .error error) :
    (behind before .between tokens).scan (c :: rest) = .error error := by
  have hnone : (behind before .between tokens).extend? c = none := rfl
  have hfeed : (behind before .between tokens).feed c = .error error := by
    simp only [feed, hnone, close_between, h, bind, Except.bind]
  rw [scan_cons, hfeed]
  rfl

/-- A run of characters that all go on in the same way. -/
theorem scan_run (mode : List Char → Mode) {part : Char → Bool} {body : List Char}
    (before text rest : List Char) (tokens : List Token)
    (hmode : ∀ before text c, part c = true →
      (behind before (mode text) tokens).extend? c = some (behind before (mode (c :: text)) tokens))
    (hbody : ∀ c ∈ body, part c = true) :
    (behind before (mode text) tokens).scan (body ++ rest) =
      (behind (before ++ body) (mode (body.reverse ++ text)) tokens).scan rest := by
  induction body generalizing before text with
  | nil => simp
  | cons c more ih =>
      have hc : part c = true := hbody c List.mem_cons_self
      have hmore : ∀ d ∈ more, part d = true := fun d hd => hbody d (List.mem_cons_of_mem c hd)
      rw [List.cons_append, scan_of_extend _ (hmode before text c hc),
        ih (before ++ [c]) (c :: text) hmore]
      simp

/-! ## Between lexemes -/

section

variable {before : List Char} {tokens : List Token} {c : Char}

theorem begin_blank (h : isBlank c = true) :
    (behind before .between tokens).begin c = .ok (behind before .between tokens) := by
  simp [begin, h]

theorem begin_slash :
    (behind before .between tokens).begin '/' =
      .ok (behind before (.slash (placeBehind before)) tokens) := by
  have hblank : isBlank '/' = false := by decide
  simp [begin, hblank, behind]

theorem begin_quote (h : c ∈ quotes) :
    (behind before .between tokens).begin c =
      .ok (behind before (.quoted (placeBehind before) c [] false) tokens) := by
  simp only [quotes, List.mem_cons, List.not_mem_nil, or_false] at h
  rcases h with rfl | rfl
  · rfl
  · rfl

/-- The characters that begin a gap, a comment or a literal. -/
def marks : List Char :=
  [' ', '\t', '\r', '\n', '/', '"', '\'']

/-- A class of characters that leaves the marks out holds none of them. -/
theorem not_mark_of_part {part : Char → Bool} (hmarks : marks.any part = false)
    (h : part c = true) : isBlank c = false ∧ c ≠ '/' ∧ ¬ (c = '"' ∨ c = '\'') := by
  have hmem : c ∉ marks := by
    intro hmem
    exact absurd h (List.any_eq_false.1 hmarks c hmem)
  simpa [marks, isBlank, and_assoc] using hmem

theorem begin_digit (h : Digit.isDigit c = true) :
    (behind before .between tokens).begin c =
      .ok (behind before (.numeral (placeBehind before) [c]) tokens) := by
  obtain ⟨hblank, hslash, hquotes⟩ := not_mark_of_part (by decide) h
  simp [begin, hblank, hslash, hquotes, h, behind]

/-- Letters and the low line are no digits of any script. -/
theorem isDigit_of_isWordStart (h : isWordStart c = true) : Digit.isDigit c = false := by
  cases hdigit : Digit.isDigit c with
  | false => rfl
  | true =>
      have hcode := Numeral.toNat_of_isDigit hdigit
      have hletter : c.toNat < 0x30 ∨ 0x39 < c.toNat ∧ c.toNat < 0x660 := by
        rcases Bool.or_eq_true_iff.1 h with halpha | hline
        · rcases Bool.or_eq_true_iff.1 halpha with hupper | hlower
          · have hrange : 65 ≤ c.toNat ∧ c.toNat ≤ 90 := of_decide_eq_true hupper
            omega
          · have hrange := Bool.and_eq_true_iff.1 hlower
            have hlow : 97 ≤ c.toNat := of_decide_eq_true hrange.1
            have hhigh : c.toNat ≤ 122 := of_decide_eq_true hrange.2
            omega
        · rw [of_decide_eq_true hline]
          decide
      omega

theorem begin_word (h : isWordStart c = true) :
    (behind before .between tokens).begin c =
      .ok (behind before (.word (placeBehind before) [c]) tokens) := by
  obtain ⟨hblank, hslash, hquotes⟩ := not_mark_of_part (by decide) h
  simp [begin, hblank, hslash, hquotes, isDigit_of_isWordStart h, h, behind]

theorem begin_symbol {kind : Token.Kind} (hsymbol : Token.Kind.ofSymbol? c = some kind)
    (hslash : c ≠ '/') :
    (behind before .between tokens).begin c =
      .ok (behind before .between
        (⟨kind, String.ofList [c], placeBehind before⟩ :: tokens)) := by
  unfold Token.Kind.ofSymbol? at hsymbol
  split at hsymbol
  all_goals first
    | contradiction
    | (cases hsymbol
       rfl)

theorem begin_unrecognized (hblank : isBlank c = false) (hquote : c ∉ quotes)
    (hdigit : Digit.isDigit c = false) (hword : isWordStart c = false)
    (hsymbol : Token.Kind.ofSymbol? c = none) :
    (behind before .between tokens).begin c =
      .error ⟨.unrecognized c, placeBehind before⟩ := by
  have hslash : c ≠ '/' := fun heq => absurd (heq ▸ hsymbol) (by decide)
  have hquotes : ¬ (c = '"' ∨ c = '\'') := by simpa [quotes] using hquote
  simp [begin, hblank, hslash, hquotes, hdigit, hword, hsymbol, behind]

end

theorem scan_gap {gap rest : List Char} (h : Gap gap rest) (before : List Char)
    (tokens : List Token) :
    (behind before .between tokens).scan (gap ++ rest) =
      (behind (before ++ gap) .between tokens).scan rest := by
  induction h generalizing before with
  | nothing => simp
  | blank hblank _ ih =>
      rw [List.cons_append, scan_begin _ (begin_blank hblank), ih]
      simp
  | @comment body more rest hbody hend _ ih =>
      have hopen : (behind (before ++ ['/']) (.slash (placeBehind before)) tokens).extend? '/' =
          some (behind (before ++ ['/']) .comment tokens) := rfl
      have hruns : ∀ (before text : List Char) (c : Char), (c != '\n') = true →
          (behind before .comment tokens).extend? c = some (behind before .comment tokens) := by
        intro before text c hc
        have hne : c ≠ '\n' := by simpa using hc
        simp [behind, extend?, hne]
      have hstops : ∀ (before : List Char), ∀ c ∈ (more ++ rest).head?,
          (behind before .comment tokens).extend? c = none := by
        intro before c hc
        have hline : c = '\n' := by simpa using hend c hc
        simp [behind, extend?, hline]
      have hclose : ∀ before : List Char, (behind before .comment tokens).close =
          .ok (behind before .between tokens) := fun _ => rfl
      rw [List.cons_append, List.cons_append, List.append_assoc, scan_begin _ begin_slash,
        scan_of_extend _ hopen, scan_run (fun _ => .comment) _ [] _ _ hruns hbody,
        scan_close (hstops _), hclose]
      show (behind _ .between tokens).scan (more ++ rest) = _
      rw [ih]
      simp

/-! ## Lexemes -/

theorem scan_quoted {quote : Char} {body : List Char} (h : Quoted quote body)
    (before text rest : List Char) (position : Position) (tokens : List Token) :
    (behind before (.quoted position quote text false) tokens).scan (body ++ rest) =
      (behind (before ++ body) (.quoted position quote (body.reverse ++ text) false) tokens).scan
        rest := by
  induction h generalizing before text with
  | nothing => simp
  | @plain c more hbackslash hquote _ ih =>
      have hgoes : (behind before (.quoted position quote text false) tokens).extend? c =
          some (behind before (.quoted position quote (c :: text) false) tokens) := by
        simp [behind, extend?, hbackslash, hquote]
      rw [List.cons_append, scan_of_extend _ hgoes, ih]
      simp
  | @escaped c more _ ih =>
      have hbackslash : (behind before (.quoted position quote text false) tokens).extend? '\\' =
          some (behind before (.quoted position quote ('\\' :: text) true) tokens) := rfl
      have hgoes : (behind (before ++ ['\\']) (.quoted position quote ('\\' :: text) true)
            tokens).extend? c =
          some (behind (before ++ ['\\']) (.quoted position quote (c :: '\\' :: text) false)
            tokens) := rfl
      rw [List.cons_append, List.cons_append, scan_of_extend _ hbackslash,
        scan_of_extend _ hgoes, ih]
      simp

theorem ne_backslash_of_mem_quotes {quote : Char} (h : quote ∈ quotes) : quote ≠ '\\' := by
  intro heq
  subst heq
  exact absurd h (by decide)

/-- A run is read up to its end, and what becomes of it shows when it is
closed. -/
theorem scan_numeral {run rest : List Char} (h : Run run rest) (before : List Char)
    (tokens : List Token) :
    (behind before .between tokens).scan (run ++ rest) =
      (behind (before ++ run) (.numeral (placeBehind before) run.reverse) tokens).close >>=
        fun closed => closed.scan rest := by
  cases run with
  | nil => exact absurd h.head (by simp)
  | cons c more =>
      have hdigit : Digit.isDigit c = true := by simpa using h.head
      have hmore : ∀ d ∈ more, isNumeralPart d = true := fun d hd =>
        h.parts d (List.mem_cons_of_mem c hd)
      have hruns : ∀ (before' text : List Char) (d : Char), isNumeralPart d = true →
          (behind before' (.numeral (placeBehind before) text) tokens).extend? d =
            some (behind before' (.numeral (placeBehind before) (d :: text)) tokens) := by
        intro before' text d hd
        simp [behind, extend?, hd]
      have hstops : ∀ (before' text : List Char), ∀ d ∈ rest.head?,
          (behind before' (.numeral (placeBehind before) text) tokens).extend? d = none := by
        intro before' text d hd
        simp [behind, extend?, h.longest d hd]
      rw [List.cons_append, scan_begin _ (begin_digit hdigit),
        scan_run (.numeral (placeBehind before)) _ [c] _ _ hruns hmore, scan_close (hstops _ _)]
      simp

theorem isNumeral_eq_true {run : List Char} :
    isNumeral run = true ↔ run.count '.' ≤ 1 ∧ run.getLast? ≠ some '.' := by
  simp [isNumeral]

theorem scan_lexeme {raw rest text : List Char} {kind : Token.Kind}
    (h : Lexeme raw rest kind text) (before : List Char) (tokens : List Token) :
    (behind before .between tokens).scan (raw ++ rest) =
      (behind (before ++ raw) .between
        (⟨kind, String.ofList text, placeBehind before⟩ :: tokens)).scan rest := by
  cases h with
  | @string quote body _ hquote hbody =>
      have hplain : quote ≠ '\\' := ne_backslash_of_mem_quotes hquote
      have hclose : (behind (before ++ [quote] ++ body)
            (.quoted (placeBehind before) quote body.reverse false) tokens).extend? quote =
          some (behind (before ++ [quote] ++ body) .between
            (⟨.string, String.ofList (Escape.decode body), placeBehind before⟩ :: tokens)) := by
        simp [behind, extend?, emit, hplain]
      rw [List.cons_append, List.append_assoc, scan_begin _ (begin_quote hquote),
        scan_quoted hbody, List.append_nil, List.singleton_append, scan_of_extend _ hclose]
      simp
  | number hrun hpoints hlast =>
      have hnumeral : isNumeral raw = true := isNumeral_eq_true.2 ⟨hpoints, hlast⟩
      rw [scan_numeral hrun]
      simp [behind, close, emit, hnumeral, bind, Except.bind]
  | @word c more _ hstart hparts hlongest =>
      have hruns : ∀ (before' text : List Char) (d : Char), isWordPart d = true →
          (behind before' (.word (placeBehind before) text) tokens).extend? d =
            some (behind before' (.word (placeBehind before) (d :: text)) tokens) := by
        intro before' text d hd
        simp [behind, extend?, hd]
      have hstops : ∀ (before' text : List Char), ∀ d ∈ rest.head?,
          (behind before' (.word (placeBehind before) text) tokens).extend? d = none := by
        intro before' text d hd
        simp [behind, extend?, hlongest d hd]
      rw [List.cons_append, scan_begin _ (begin_word hstart),
        scan_run (.word (placeBehind before)) _ [c] _ _ hruns hparts, scan_close (hstops _ _)]
      simp [behind, close, emit, bind, Except.bind]
  | @symbol c _ _ hsymbol hslash =>
      by_cases hc : c = '/'
      · subst hc
        have hstops : ∀ d ∈ rest.head?, (behind (before ++ ['/']) (.slash (placeBehind before))
            tokens).extend? d = none := by
          intro d hd
          have hne : d ≠ '/' := by simpa using hslash rfl d hd
          simp [behind, extend?, hne]
        have hkind : kind = .operator := by
          cases hsymbol
          rfl
        subst hkind
        rw [List.singleton_append, scan_begin _ begin_slash, scan_close hstops]
        rfl
      · rw [List.singleton_append, scan_begin _ (begin_symbol hsymbol hc)]

/-! ## Refusals -/

/-- A literal that nothing closes goes on to the end of the source. -/
theorem scan_open {quote : Char} (rest before text : List Char) (position : Position)
    (tokens : List Token) (hplain : quote ≠ '\\')
    (hopen : ∀ body more, rest = body ++ quote :: more → ¬ Quoted quote body) :
    (behind before (.quoted position quote text false) tokens).scan rest =
      .error ⟨.unterminatedString, position⟩ := by
  induction rest using Escape.decode.induct generalizing before text with
  | case1 c rest ih =>
      have hbackslash : (behind before (.quoted position quote text false) tokens).extend? '\\' =
          some (behind before (.quoted position quote ('\\' :: text) true) tokens) := rfl
      have hgoes : (behind (before ++ ['\\']) (.quoted position quote ('\\' :: text) true)
            tokens).extend? c =
          some (behind (before ++ ['\\']) (.quoted position quote (c :: '\\' :: text) false)
            tokens) := rfl
      have hrest : ∀ body more, rest = body ++ quote :: more → ¬ Quoted quote body := by
        intro body more heq hbody
        subst heq
        exact hopen ('\\' :: c :: body) more rfl (.escaped hbody)
      rw [scan_of_extend _ hbackslash, scan_of_extend _ hgoes]
      exact ih _ _ hrest
  | case2 c rest hlast ih =>
      have hquote : c ≠ quote := by
        intro heq
        subst heq
        exact hopen [] rest rfl .nothing
      by_cases hc : c = '\\'
      · subst hc
        cases rest with
        | nil => rfl
        | cons d more => exact absurd rfl (hlast d more rfl)
      · have hgoes : (behind before (.quoted position quote text false) tokens).extend? c =
            some (behind before (.quoted position quote (c :: text) false) tokens) := by
          simp [behind, extend?, hc, hquote]
        have hrest : ∀ body more, rest = body ++ quote :: more → ¬ Quoted quote body := by
          intro body more heq hbody
          subst heq
          exact hopen (c :: body) more rfl (.plain hc hquote hbody)
        rw [scan_of_extend _ hgoes]
        exact ih _ _ hrest
  | case3 => rfl

theorem scan_refused {rest : List Char} {cause : LexicalCause} (h : Refused rest cause)
    (before : List Char) (tokens : List Token) :
    (behind before .between tokens).scan rest = .error ⟨cause, placeBehind before⟩ := by
  cases h with
  | @malformedNumber run rest hrun hpoints =>
      have hnumeral : isNumeral run = false := by
        cases h : isNumeral run with
        | false => rfl
        | true =>
            have hgood := isNumeral_eq_true.1 h
            rcases hpoints with hcount | hlast
            · omega
            · exact absurd hlast hgood.2
      rw [scan_numeral hrun]
      simp [behind, close, hnumeral, bind, Except.bind]
  | unterminatedString hquote hopen =>
      rw [scan_begin _ (begin_quote hquote)]
      exact scan_open _ _ _ _ _ (ne_backslash_of_mem_quotes hquote) hopen
  | unrecognized hblank hquote hdigit hword hsymbol =>
      exact scan_refuse _ (begin_unrecognized hblank hquote hdigit hword hsymbol)

end Nomi.Scanner
