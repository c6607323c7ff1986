import Nomi.Proofs.Lexical.Scanning

/-!
# The tokens of a source

Every source is either cut to its end or stuck at one place, and the scanner
tells which, with the tokens or with the error of that place.
-/

namespace Nomi.Lexical

open Scanner (behind isBlank isNumeralPart isWordPart isWordStart scan)

theorem scan_of_cut {before text : List Char} {tokens : List Token} (h : Cut before text tokens)
    (sofar : List Token) :
    (behind before .between sofar).scan text = .ok (sofar.reverse ++ tokens) := by
  induction h generalizing sofar with
  | @done before gap hgap =>
      have hscan := Scanner.scan_gap hgap before sofar
      rw [List.append_nil] at hscan
      rw [hscan]
      simp [Scanner.scan_nil, Scanner.finish, behind, Scanner.close, bind, Except.bind, pure,
        Except.pure]
  | token hgap hlexeme _ ih =>
      rw [Scanner.scan_gap hgap, Scanner.scan_lexeme hlexeme, ih]
      simp

theorem scan_of_stuck {before text : List Char} {error : LexicalError}
    (h : Stuck before text error) (sofar : List Token) :
    (behind before .between sofar).scan text = .error error := by
  induction h generalizing sofar with
  | here hgap hrefused => rw [Scanner.scan_gap hgap, Scanner.scan_refused hrefused]
  | later hgap hlexeme _ ih =>
      rw [Scanner.scan_gap hgap, Scanner.scan_lexeme hlexeme]
      exact ih _

/-- Whether no gap begins a text. -/
def Settled (text : List Char) : Prop :=
  ∀ c rest, text = c :: rest → isBlank c = false ∧ (c = '/' → Ends (· == '/') rest)

theorem ends_dropWhile (part : Char → Bool) (text : List Char) :
    Ends part (text.dropWhile part) := by
  intro c hc
  have hnot := List.head?_dropWhile_not part text
  rw [hc] at hnot
  simpa using hnot

theorem exists_gap (text : List Char) :
    ∃ gap rest, text = gap ++ rest ∧ Gap gap rest ∧ Settled rest := by
  induction h : text.length using Nat.strongRecOn generalizing text with
  | ind n ih =>
      cases text with
      | nil =>
          refine ⟨[], [], rfl, .nothing, ?_⟩
          intro c rest heq
          contradiction
      | cons c more =>
          rw [List.length_cons] at h
          by_cases hblank : isBlank c = true
          · obtain ⟨gap, rest, rfl, hgap, hrest⟩ := ih more.length (by omega) more rfl
            exact ⟨c :: gap, rest, rfl, .blank hblank hgap, hrest⟩
          · by_cases hslashes : c = '/' ∧ more.head? = some '/'
            · obtain ⟨rfl, hhead⟩ := hslashes
              obtain ⟨after, rfl⟩ := List.head?_eq_some_iff.1 hhead
              have hsplit := List.takeWhile_append_dropWhile (p := (· != '\n')) (l := after)
              have hlength : (after.dropWhile (· != '\n')).length ≤ after.length :=
                (List.dropWhile_sublist _).length_le
              rw [List.length_cons] at h
              obtain ⟨gap, rest, hafter, hgap, hrest⟩ :=
                ih (after.dropWhile (· != '\n')).length (by omega) _ rfl
              have hends : Ends (· != '\n') (gap ++ rest) := hafter ▸ ends_dropWhile _ after
              have hbody : ∀ d ∈ after.takeWhile (· != '\n'), (d != '\n') = true :=
                List.all_eq_true.1 List.all_takeWhile
              refine ⟨'/' :: '/' :: (after.takeWhile (· != '\n') ++ gap), rest, ?_,
                .comment hbody hends hgap, hrest⟩
              rw [List.cons_append, List.cons_append, List.append_assoc, ← hafter, hsplit]
            · refine ⟨[], c :: more, rfl, .nothing, ?_⟩
              intro d rest heq
              cases heq
              refine ⟨by simpa using hblank, ?_⟩
              intro hc d hd
              have hne : d ≠ '/' := fun heq => hslashes ⟨hc, heq ▸ hd⟩
              simpa using hne

theorem Lexeme.ne_nil {raw rest text : List Char} {kind : Token.Kind}
    (h : Lexeme raw rest kind text) : raw ≠ [] := by
  cases h with
  | number hrun =>
      intro hnil
      subst hnil
      exact absurd hrun.head (by simp)
  | string | word | symbol => simp

/-- What a settled text begins with decides which lexeme it begins with, or why
it begins with none. -/
theorem exists_lexeme_or_refused {c : Char} {more : List Char} (h : Settled (c :: more)) :
    (∃ raw rest kind text, c :: more = raw ++ rest ∧ Lexeme raw rest kind text) ∨
      ∃ cause, Refused (c :: more) cause := by
  obtain ⟨hblank, hslash⟩ := h c more rfl
  by_cases hquote : c ∈ quotes
  · by_cases hclosed : ∃ body rest, more = body ++ c :: rest ∧ Quoted c body
    · obtain ⟨body, rest, rfl, hbody⟩ := hclosed
      exact .inl ⟨c :: (body ++ [c]), rest, _, _, by simp, .string hquote hbody⟩
    · refine .inr ⟨_, .unterminatedString hquote ?_⟩
      intro body rest heq hbody
      exact hclosed ⟨body, rest, heq, hbody⟩
  · by_cases hdigit : Digit.isDigit c = true
    · have hsplit := List.takeWhile_append_dropWhile (p := isNumeralPart) (l := c :: more)
      have hpart : isNumeralPart c = true := Numeral.isNumeralPart_eq_true.2 (.inl hdigit)
      have hrun : Run ((c :: more).takeWhile isNumeralPart) ((c :: more).dropWhile isNumeralPart) :=
        ⟨by simp [hpart, hdigit], List.all_eq_true.1 List.all_takeWhile, ends_dropWhile _ _⟩
      by_cases hpoints : ((c :: more).takeWhile isNumeralPart).count '.' ≤ 1
      · by_cases hlast : ((c :: more).takeWhile isNumeralPart).getLast? = some '.'
        · have hrefused := Refused.malformedNumber hrun (.inr hlast)
          rw [hsplit] at hrefused
          exact .inr ⟨_, hrefused⟩
        · exact .inl ⟨_, _, _, _, hsplit.symm, .number hrun hpoints hlast⟩
      · have hrefused := Refused.malformedNumber hrun (.inl (by omega))
        rw [hsplit] at hrefused
        exact .inr ⟨_, hrefused⟩
    · by_cases hword : isWordStart c = true
      · have hsplit := List.takeWhile_append_dropWhile (p := isWordPart) (l := more)
        refine .inl ⟨c :: more.takeWhile isWordPart, more.dropWhile isWordPart, _, _, ?_,
          .word hword (List.all_eq_true.1 List.all_takeWhile) (ends_dropWhile _ _)⟩
        rw [List.cons_append, hsplit]
      · cases hsymbol : Token.Kind.ofSymbol? c with
        | some kind => exact .inl ⟨[c], more, kind, [c], rfl, .symbol hsymbol hslash⟩
        | none =>
            exact .inr ⟨_, .unrecognized hblank hquote (by simpa using hdigit)
              (by simpa using hword) hsymbol⟩

theorem exists_cut_or_stuck (before text : List Char) :
    (∃ tokens, Cut before text tokens) ∨ ∃ error, Stuck before text error := by
  induction h : text.length using Nat.strongRecOn generalizing before text with
  | ind n ih =>
      obtain ⟨gap, rest, rfl, hgap, hsettled⟩ := exists_gap text
      cases rest with
      | nil =>
          rw [List.append_nil]
          exact .inl ⟨_, .done hgap⟩
      | cons c more =>
          rcases exists_lexeme_or_refused hsettled with hlexeme | hrefused
          · obtain ⟨raw, rest, kind, token, heq, hlexeme⟩ := hlexeme
            rw [heq] at h hgap ⊢
            have hraw : 0 < raw.length := List.length_pos_iff.2 hlexeme.ne_nil
            simp only [List.length_append] at h
            rcases ih rest.length (by omega) (before ++ gap ++ raw) rest rfl with hcut | hstuck
            · obtain ⟨tokens, hcut⟩ := hcut
              exact .inl ⟨_, .token hgap hlexeme hcut⟩
            · obtain ⟨error, hstuck⟩ := hstuck
              exact .inr ⟨error, .later hgap hlexeme hstuck⟩
          · obtain ⟨cause, hrefused⟩ := hrefused
            exact .inr ⟨_, .here hgap hrefused⟩

theorem tokenize_of_cut {source : String} {tokens : List Token}
    (h : Cut [] source.toList tokens) : tokenize source = .ok tokens :=
  scan_of_cut h []

theorem tokenize_of_stuck {source : String} {error : LexicalError}
    (h : Stuck [] source.toList error) : tokenize source = .error error :=
  scan_of_stuck h []

theorem cut_of_tokenize {source : String} {tokens : List Token}
    (h : tokenize source = .ok tokens) : Cut [] source.toList tokens := by
  rcases exists_cut_or_stuck [] source.toList with ⟨found, hcut⟩ | ⟨error, hstuck⟩
  · have heq := h.symm.trans (tokenize_of_cut hcut)
    cases heq
    exact hcut
  · have heq := h.symm.trans (tokenize_of_stuck hstuck)
    contradiction

theorem stuck_of_tokenize {source : String} {error : LexicalError}
    (h : tokenize source = .error error) : Stuck [] source.toList error := by
  rcases exists_cut_or_stuck [] source.toList with ⟨tokens, hcut⟩ | ⟨found, hstuck⟩
  · have heq := h.symm.trans (tokenize_of_cut hcut)
    contradiction
  · have heq := h.symm.trans (tokenize_of_stuck hstuck)
    cases heq
    exact hstuck

theorem ofWord_ne (word : String) :
    Token.Kind.ofWord word ≠ .endOfSource ∧ Token.Kind.ofWord word ≠ .number := by
  unfold Token.Kind.ofWord
  split <;> simp

theorem ofSymbol?_ne {c : Char} {kind : Token.Kind} (h : Token.Kind.ofSymbol? c = some kind) :
    kind ≠ .endOfSource ∧ kind ≠ .number := by
  unfold Token.Kind.ofSymbol? at h
  split at h
  all_goals first
    | contradiction
    | (cases h
       simp)

theorem Lexeme.ne_endOfSource {raw rest text : List Char} {kind : Token.Kind}
    (h : Lexeme raw rest kind text) : kind ≠ .endOfSource := by
  cases h with
  | string | number => simp
  | word => exact (ofWord_ne _).1
  | symbol hsymbol => exact (ofSymbol?_ne hsymbol).1

theorem Lexeme.isPlain {raw rest text : List Char} (h : Lexeme raw rest .number text) :
    Numeral.isPlain text = true := by
  generalize hkind : Token.Kind.number = kind at h
  cases h with
  | string => contradiction
  | number hrun hpoints hlast =>
      have hparts : raw.all isNumeralPart = true := List.all_eq_true.2 hrun.parts
      have hnumeral := Scanner.isNumeral_eq_true.2 ⟨hpoints, hlast⟩
      simp [Numeral.isPlain, hrun.head, hparts, hnumeral]
  | word => exact absurd hkind.symm (ofWord_ne _).2
  | symbol hsymbol => exact absurd hkind.symm (ofSymbol?_ne hsymbol).2

/-- The end mark comes last and only there, and every number is written as a
plain numeral. -/
theorem Cut.exists_body {before text : List Char} {tokens : List Token}
    (h : Cut before text tokens) :
    ∃ body stop, tokens = body ++ [stop] ∧ stop.kind = .endOfSource ∧ ∀ token ∈ body,
      token.kind ≠ .endOfSource ∧
        (token.kind = .number → Numeral.isPlain token.lexeme.toList = true) := by
  induction h with
  | done => exact ⟨[], _, rfl, rfl, by simp⟩
  | token _ hlexeme _ ih =>
      obtain ⟨body, stop, rfl, hstop, hbody⟩ := ih
      refine ⟨_ :: body, stop, rfl, hstop, ?_⟩
      intro token hmem
      rcases List.mem_cons.1 hmem with rfl | hmem
      · refine ⟨hlexeme.ne_endOfSource, ?_⟩
        intro hkind
        simp only at hkind
        subst hkind
        simpa using hlexeme.isPlain
      · exact hbody token hmem

end Nomi.Lexical
