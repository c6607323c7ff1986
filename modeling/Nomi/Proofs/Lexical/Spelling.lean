import Nomi.Proofs.Lexical.Joining

/-!
# Written tokens

A token is written as a source may hold it: a string between quotes of either kind,
with a backslash before what would end it, and every other token as its text.  Tokens
that are written one after the other, with a separator between any two, are cut into
the same tokens again.
-/

namespace Nomi

namespace Escape

/-- The body of a literal between the given quotes: a backslash stands before every
such quote and every backslash. -/
def guarded (quote : Char) : List Char → List Char
  | [] => []
  | c :: rest =>
      if c = '\\' ∨ c = quote then '\\' :: c :: guarded quote rest else c :: guarded quote rest

theorem decode_plain {c : Char} (h : c ≠ '\\') (rest : List Char) :
    decode (c :: rest) = c :: decode rest := by
  rw [decode]
  rintro _ _ rfl
  contradiction

theorem decode_guarded {quote : Char} (hquote : meaning quote = quote) (text : List Char) :
    decode (guarded quote text) = text := by
  induction text with
  | nil => rfl
  | cons c rest ih =>
      unfold guarded
      split
      · next hspecial =>
          have hmeaning : meaning c = c := by
            rcases hspecial with rfl | rfl
            · rfl
            · exact hquote
          rw [decode, hmeaning, ih]
      · next hplain => rw [decode_plain (fun heq => hplain (.inl heq)), ih]

end Escape

namespace Lexical

open Scanner (isBlank isNumeralPart isWordPart isWordStart)

/-- What is guarded against a quote has no place in it where the literal would end,
and no backslash that the closing quote would follow. -/
theorem quoted_guarded (quote : Char) (text : List Char) :
    Quoted quote (Escape.guarded quote text) := by
  induction text with
  | nil => exact .nothing
  | cons c rest ih =>
      unfold Escape.guarded
      split
      · exact .escaped ih
      · next hplain =>
          exact .plain (fun heq => hplain (.inl heq)) (fun heq => hplain (.inr heq)) ih

def IsWord (text : String) : Prop :=
  ∃ c more, text = String.ofList (c :: more) ∧ isWordStart c = true ∧
    more.all isWordPart = true

/-- Whether a text is a word but no keyword. -/
def IsName (text : String) : Prop :=
  IsWord text ∧ Token.Kind.ofWord text = .identifier

/-- The ways in which a token of a kind and a text may be written. -/
inductive Spelled : Token.Kind → String → List Char → Prop
  | string {quote : Char} {text : String} (hquote : quote ∈ quotes) :
      Spelled .string text (quote :: (Escape.guarded quote text.toList ++ [quote]))
  | number {text : String} (hplain : Numeral.isPlain text.toList = true) :
      Spelled .number text text.toList
  | word {text : String} (hword : IsWord text) :
      Spelled (Token.Kind.ofWord text) text text.toList
  | symbol {text : String} {c : Char} {kind : Token.Kind} (htext : text.toList = [c])
      (hsymbol : Token.Kind.ofSymbol? c = some kind) : Spelled kind text text.toList

def Parted (rest : List Char) : Prop :=
  ∀ c ∈ rest.head?, isBlank c = true

theorem Parted.ends {part : Char → Bool} {rest : List Char} (h : Parted rest)
    (hpart : ∀ c, isBlank c = true → part c = false) : Ends part rest :=
  fun c hmem => hpart c (h c hmem)

theorem isBlank_cases {c : Char} (h : isBlank c = true) :
    c = ' ' ∨ c = '\t' ∨ c = '\r' ∨ c = '\n' := by
  simpa [isBlank, or_assoc] using h

/-- Before a blank or the end of the source, what is written for a token is a lexeme
of this token. -/
theorem Spelled.lexeme {kind : Token.Kind} {text : String} {raw rest : List Char}
    (h : Spelled kind text raw) (hrest : Parted rest) : Lexeme raw rest kind text.toList := by
  cases h with
  | @string quote _ hquote =>
      have hmeaning : Escape.meaning quote = quote := by
        simp only [quotes, List.mem_cons, List.not_mem_nil, or_false] at hquote
        rcases hquote with rfl | rfl <;> rfl
      have hlexeme : Lexeme (quote :: (Escape.guarded quote text.toList ++ [quote])) rest .string
          (Escape.decode (Escape.guarded quote text.toList)) :=
        .string hquote (quoted_guarded quote text.toList)
      rwa [Escape.decode_guarded hmeaning] at hlexeme
  | number hplain =>
      simp only [Numeral.isPlain, Bool.and_eq_true] at hplain
      obtain ⟨⟨hhead, hparts⟩, hnumeral⟩ := hplain
      obtain ⟨hpoints, hlast⟩ := Scanner.isNumeral_eq_true.1 hnumeral
      have hends : Ends isNumeralPart rest := hrest.ends fun c hblank => by
        rcases isBlank_cases hblank with rfl | rfl | rfl | rfl <;> decide
      exact .number ⟨hhead, List.all_eq_true.1 hparts, hends⟩ hpoints hlast
  | word hword =>
      obtain ⟨c, more, rfl, hstart, hparts⟩ := hword
      have hends : Ends isWordPart rest := hrest.ends fun c hblank => by
        rcases isBlank_cases hblank with rfl | rfl | rfl | rfl <;> decide
      rw [String.toList_ofList]
      exact .word hstart (List.all_eq_true.1 hparts) hends
  | @symbol _ c _ htext hsymbol =>
      have hends : Ends (· == '/') rest := hrest.ends fun c hblank => by
        rcases isBlank_cases hblank with rfl | rfl | rfl | rfl <;> decide
      rw [htext]
      exact .symbol hsymbol fun _ => hends

/-- Blanks, and comments that are ended by a line feed. -/
inductive Filler : List Char → Prop
  | nothing : Filler []
  | blank {c : Char} {more : List Char} (hblank : isBlank c = true) (hmore : Filler more) :
      Filler (c :: more)
  | comment {body more : List Char} (hbody : ∀ c ∈ body, (c != '\n') = true)
      (hmore : Filler more) : Filler ('/' :: '/' :: (body ++ '\n' :: more))

/-- What may stand between two tokens, whatever they are: it begins with a blank. -/
structure Separator (text : List Char) : Prop where
  filler : Filler text
  head : text.head?.any isBlank = true

theorem Filler.gap {text : List Char} (h : Filler text) (rest : List Char) : Gap text rest := by
  induction h with
  | nothing => exact .nothing
  | blank hblank _ ih => exact .blank hblank ih
  | comment hbody _ ih =>
      have hends : ∀ more : List Char, Ends (· != '\n') ('\n' :: more) := by
        rintro more c ⟨⟩
        decide
      exact .comment hbody (hends _) (.blank (by decide) ih)

theorem Separator.parted {text : List Char} (h : Separator text) (rest : List Char) :
    Parted (text ++ rest) := by
  obtain ⟨c, hc, hblank⟩ := (Option.any_eq_true _ _).1 h.head
  obtain ⟨more, rfl⟩ := List.head?_eq_some_iff.1 hc
  rintro d ⟨⟩
  exact hblank

/-- A lexeme and a gap in front of a text are its first token. -/
theorem Cut.lexeme_gap {before raw gap rest text : List Char} {kind : Token.Kind}
    {tokens : List Token} (hlexeme : Lexeme raw (gap ++ rest) kind text) (hgap : Gap gap rest)
    (hmore : Cut (before ++ raw ++ gap) rest tokens) :
    Cut before (raw ++ (gap ++ rest))
      (⟨kind, String.ofList text, placeBehind before⟩ :: tokens) := by
  have hbehind := Cut.gap_append hgap hmore
  rw [← List.append_nil before] at hbehind
  have htoken := Cut.token .nothing hlexeme hbehind
  rwa [List.append_nil, List.nil_append] at htoken

/-- What may be written for tokens: each in one of its spellings, with a separator
between any two. -/
inductive Written : List (Token.Kind × String) → List Char → Prop
  | nothing : Written [] []
  | last {kind : Token.Kind} {text : String} {raw : List Char} (hraw : Spelled kind text raw) :
      Written [(kind, text)] raw
  | more {kind : Token.Kind} {text : String} {second : Token.Kind × String}
      {others : List (Token.Kind × String)} {raw separator rest : List Char}
      (hraw : Spelled kind text raw) (hseparator : Separator separator)
      (hmore : Written (second :: others) rest) :
      Written ((kind, text) :: second :: others) (raw ++ (separator ++ rest))

/-- What may be written in front of the first token and behind the last one. -/
def Margin (text : List Char) : Prop :=
  text = [] ∨ Separator text

theorem Margin.gap {text : List Char} (h : Margin text) (rest : List Char) : Gap text rest := by
  rcases h with rfl | h
  · exact .nothing
  · exact h.filler.gap rest

theorem Margin.parted {text : List Char} (h : Margin text) : Parted (text ++ []) := by
  rcases h with rfl | h
  · rintro c ⟨⟩
  · exact h.parted []

theorem Written.exists_cut {tokens : List (Token.Kind × String)} {text trail : List Char}
    (h : Written tokens text) (htrail : Margin trail) (before : List Char) :
    ∃ placed place, Cut before (text ++ trail) (placed ++ [.endMark place]) ∧
      placed.map (fun token => (token.kind, token.lexeme)) = tokens := by
  have hend : ∀ before, Cut (before ++ trail) [] [.endMark (placeBehind (before ++ trail))] := by
    intro before
    have hdone : Cut (before ++ trail) [] [.endMark (placeBehind (before ++ trail ++ []))] :=
      .done .nothing
    rwa [List.append_nil] at hdone
  induction h generalizing before with
  | nothing => exact ⟨[], _, .done (htrail.gap []), rfl⟩
  | @last kind text raw hraw =>
      have hcut := Cut.lexeme_gap (hraw.lexeme htrail.parted) (htrail.gap []) (hend (before ++ raw))
      rw [List.append_nil] at hcut
      exact ⟨[_], _, hcut, by simp⟩
  | @more kind text second others raw separator rest hraw hseparator _ ih =>
      obtain ⟨placed, place, hcut, htokens⟩ := ih (before ++ raw ++ separator)
      have hlexeme := hraw.lexeme (hseparator.parted (rest ++ trail))
      have hmore := Cut.lexeme_gap hlexeme (hseparator.filler.gap _) hcut
      refine ⟨⟨kind, String.ofList text.toList, placeBehind before⟩ :: placed, place, ?_, ?_⟩
      · simpa only [List.append_assoc, List.cons_append] using hmore
      · simp [htokens]

/--
What is written for tokens is cut into these tokens.

Every token is one that a source can hold, strings have any content at all, and the
quotes of each are of either kind.
-/
theorem tokenize_written {tokens : List (Token.Kind × String)} {lead text trail : List Char}
    (hlead : Margin lead) (h : Written tokens text) (htrail : Margin trail) :
    ∃ placed place,
      tokenize (String.ofList (lead ++ (text ++ trail))) = .ok (placed ++ [.endMark place]) ∧
        placed.map (fun token => (token.kind, token.lexeme)) = tokens := by
  obtain ⟨placed, place, hcut, htokens⟩ := h.exists_cut htrail lead
  refine ⟨placed, place, tokenize_of_cut ?_, htokens⟩
  rw [String.toList_ofList]
  apply Cut.gap_append (hlead.gap _)
  rwa [List.nil_append]

/-- A string of a backslash, its own quote and a line feed, then a comment with a quote in
it, then a slash. -/
theorem tokenize_written_quotes :
    let tokens := [(Token.Kind.string, "\\'\n"), (Token.Kind.operator, "/")]
    let text := '\'' :: (['\\', '\\', '\\', '\'', '\n'] ++ ['\'']) ++
      ([' ', '/', '/', '\'', '\n'] ++ ['/'])
    (Margin [] ∧ Written tokens text ∧ Margin ['\t']) ∧
      ∃ placed place, tokenize "'\\\\\\'\n' //'\n/\t" = .ok (placed ++ [.endMark place]) ∧
        placed.map (fun token => (token.kind, token.lexeme)) = tokens := by
  intro tokens text
  have hbody : ∀ c ∈ ['\''], (c != '\n') = true := by simp
  have hcomment : Filler ['/', '/', '\'', '\n'] := .comment hbody .nothing
  have hseparator : Separator [' ', '/', '/', '\'', '\n'] := ⟨.blank (by decide) hcomment, rfl⟩
  have hquote : '\'' ∈ quotes := by decide
  have hstring : Spelled .string "\\'\n"
      ('\'' :: (Escape.guarded '\'' "\\'\n".toList ++ ['\''])) := .string hquote
  have hslash : Spelled .operator "/" "/".toList := .symbol rfl rfl
  have hwritten : Written tokens text := .more hstring hseparator (.last hslash)
  have htrail : Margin ['\t'] := .inr ⟨.blank (by decide) .nothing, rfl⟩
  have hsource : "'\\\\\\'\n' //'\n/\t" = String.ofList ([] ++ (text ++ ['\t'])) := rfl
  rw [hsource]
  exact ⟨⟨.inl rfl, hwritten, htrail⟩, tokenize_written (.inl rfl) hwritten htrail⟩

end Lexical

end Nomi
