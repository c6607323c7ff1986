import Nomi.Proofs.Syntax.Grammar
import Nomi.Syntax.Parser

/-!
# What a parser reads

A parser is described by what it takes off the tokens ahead: which tokens, with
which result, and before which rest.  A failure is described by what it is not:
tokens whose numerals denote numbers are never refused for a numeral.

Descriptions are built along the parser.  The rest that one step leaves is what
the next one has ahead.
-/

namespace Nomi.Parser

open Grammar

variable {α β : Type}

/-- A token that is no end mark and that denotes a number if it is a
numeral. -/
def Legible (token : Token) : Prop :=
  Cursor.isEnd token = false ∧
    (token.kind = .number → ∃ value, Numeral.read? token.lexeme.toList = some value)

/--
What the parser does with the given tokens ahead, all of them legible.

The description of a result is about the tokens taken, the result and the tokens
left.
-/
def Reads (parser : Parser α) (ahead : List Token)
    (result : List Token → α → List Token → Prop) : Prop :=
  (∀ token ∈ ahead, Legible token) → ∀ stop index, Cursor.isEnd stop = true →
    match parser ⟨ahead, stop, index⟩ with
    | .ok value next => ∃ taken rest, ahead = taken ++ rest ∧
        next = ⟨rest, stop, index + taken.length⟩ ∧ result taken value rest
    | .error error _ => ∀ lexeme, error.cause ≠ .notANumeral lexeme

theorem reads_pure {value : α} {ahead : List Token} {result : List Token → α → List Token → Prop}
    (h : result [] value ahead) : Reads (pure value) ahead result := by
  intro _ stop index _
  exact ⟨[], ahead, rfl, rfl, h⟩

theorem reads_bind {first : Parser α} {next : α → Parser β} {ahead : List Token}
    {middle : List Token → α → List Token → Prop} {result : List Token → β → List Token → Prop}
    (hfirst : Reads first ahead middle)
    (hnext : ∀ taken value rest, ahead = taken ++ rest → middle taken value rest →
      Reads (next value) rest fun more outcome left => result (taken ++ more) outcome left) :
    Reads (first >>= next) ahead result := by
  intro hlegible stop index hstop
  have hone := hfirst hlegible stop index hstop
  rw [bind_apply]
  cases h : first ⟨ahead, stop, index⟩ with
  | error error cursor =>
      rw [h] at hone
      exact hone
  | ok value cursor =>
      rw [h] at hone
      obtain ⟨taken, rest, hahead, rfl, hmiddle⟩ := hone
      have hrest : ∀ token ∈ rest, Legible token := fun token hmem =>
        hlegible token (by rw [hahead]; exact List.mem_append_right taken hmem)
      have htwo := hnext taken value rest hahead hmiddle hrest stop (index + taken.length) hstop
      cases hn : next value ⟨rest, stop, index + taken.length⟩ with
      | error error cursor =>
          simp only [hn] at htwo ⊢
          exact htwo
      | ok outcome cursor =>
          simp only [hn] at htwo ⊢
          obtain ⟨more, left, hmore, hcursor, hresult⟩ := htwo
          refine ⟨taken ++ more, left, ?_, ?_, hresult⟩
          · rw [hahead, hmore, List.append_assoc]
          · rw [hcursor, List.length_append, Nat.add_assoc]

theorem Reads.imp {parser : Parser α} {ahead : List Token}
    {result weaker : List Token → α → List Token → Prop} (h : Reads parser ahead result)
    (himp : ∀ taken value rest, ahead = taken ++ rest → result taken value rest →
      weaker taken value rest) : Reads parser ahead weaker := by
  intro hlegible stop index hstop
  have hone := h hlegible stop index hstop
  cases hp : parser ⟨ahead, stop, index⟩ with
  | error error cursor =>
      rw [hp] at hone
      exact hone
  | ok value cursor =>
      rw [hp] at hone
      obtain ⟨taken, rest, hahead, hcursor, hresult⟩ := hone
      exact ⟨taken, rest, hahead, hcursor, himp taken value rest hahead hresult⟩

theorem reads_map {parser : Parser α} {f : α → β} {ahead : List Token}
    {result : List Token → β → List Token → Prop}
    (h : Reads parser ahead fun taken value rest => result taken (f value) rest) :
    Reads (f <$> parser) ahead result := by
  intro hlegible stop index hstop
  have hone := h hlegible stop index hstop
  show match EStateM.map f parser ⟨ahead, stop, index⟩ with
    | .ok value cursor => _
    | .error error _ => _
  unfold EStateM.map
  cases hp : parser ⟨ahead, stop, index⟩ with
  | error error cursor =>
      rw [hp] at hone
      exact hone
  | ok value cursor =>
      rw [hp] at hone
      exact hone

/-- A parser that fails, and not for a numeral, reads whatever is asked for. -/
theorem reads_throw {error : SyntaxError} {ahead : List Token}
    {result : List Token → α → List Token → Prop}
    (h : ∀ lexeme, error.cause ≠ .notANumeral lexeme) : Reads (throw error) ahead result :=
  fun _ _ _ _ => h

theorem reads_fail {cause : SyntaxCause} {position : Position} {ahead : List Token}
    {result : List Token → α → List Token → Prop} (h : ∀ lexeme, cause ≠ .notANumeral lexeme) :
    Reads (fail cause position) ahead result :=
  reads_throw h

/-- The tokens ahead may be taken to be legible. -/
theorem reads_of_legible {parser : Parser α} {ahead : List Token}
    {result : List Token → α → List Token → Prop}
    (h : (∀ token ∈ ahead, Legible token) → Reads parser ahead result) :
    Reads parser ahead result :=
  fun hlegible => h hlegible hlegible

theorem legible_kind_ne {token : Token} (h : Legible token) : token.kind ≠ .endOfSource := by
  simpa [Cursor.isEnd] using h.1

theorem kind_of_isEnd {token : Token} (h : Cursor.isEnd token = true) :
    token.kind = .endOfSource := by
  simpa [Cursor.isEnd] using h

/-- The token at a cursor is of a kind other than the end mark's when the tokens
ahead begin with that kind. -/
theorem check_eq_begins {ahead : List Token} {stop : Token} {index : Nat} {kind : Token.Kind}
    (hstop : Cursor.isEnd stop = true) (hkind : kind ≠ .endOfSource) :
    (Cursor.mk ahead stop index).check kind = begins [kind] ahead := by
  cases ahead with
  | nil =>
      have hne : ¬Token.Kind.endOfSource = kind := fun h => hkind h.symm
      simp [Cursor.check, Cursor.peek, begins, kind_of_isEnd hstop, hne]
  | cons token rest =>
      by_cases h : token.kind = kind <;> simp [Cursor.check, Cursor.peek, begins, h]

theorem reads_peek {next : Token → Parser α} {ahead : List Token}
    {result : List Token → α → List Token → Prop}
    (hend : ∀ stop, stop.kind = .endOfSource → ahead = [] → Reads (next stop) ahead result)
    (htoken : ∀ token rest, ahead = token :: rest → Reads (next token) ahead result) :
    Reads (peek >>= next) ahead result := by
  intro hlegible stop index hstop
  show match next (Cursor.peek ⟨ahead, stop, index⟩) ⟨ahead, stop, index⟩ with
    | .ok value cursor => _
    | .error error _ => _
  cases ahead with
  | nil => exact hend stop (kind_of_isEnd hstop) rfl hlegible stop index hstop
  | cons token rest => exact htoken token rest rfl hlegible stop index hstop

theorem reads_check {kind : Token.Kind} {yes no : Parser α} {ahead : List Token}
    {result : List Token → α → List Token → Prop} (hkind : kind ≠ .endOfSource)
    (hyes : begins [kind] ahead = true → Reads yes ahead result)
    (hno : begins [kind] ahead = false → Reads no ahead result) :
    Reads (get >>= fun cursor => if cursor.check kind then yes else no) ahead result := by
  intro hlegible stop index hstop
  show match (if (Cursor.mk ahead stop index).check kind then yes else no) ⟨ahead, stop, index⟩ with
    | .ok value cursor => _
    | .error error _ => _
  rw [check_eq_begins hstop hkind]
  cases h : begins [kind] ahead with
  | true => exact hyes h hlegible stop index hstop
  | false => exact hno h hlegible stop index hstop

theorem begins_singleton {kind : Token.Kind} {ahead : List Token}
    (h : begins [kind] ahead = true) : ∃ token rest, ahead = token :: rest ∧ token.kind = kind := by
  cases ahead with
  | nil => simp [begins] at h
  | cons token rest => exact ⟨token, rest, rfl, by simpa [begins] using h⟩

theorem reads_checkOperator {symbols : List String} {yes no : Parser α} {ahead : List Token}
    {result : List Token → α → List Token → Prop}
    (hyes : ∀ token rest, ahead = token :: rest → token.kind = .operator →
      token.lexeme ∈ symbols → Reads yes ahead result)
    (hno : Reads no ahead result) :
    Reads (get >>= fun cursor => if cursor.checkOperator symbols then yes else no) ahead
      result := by
  intro hlegible stop index hstop
  show match (if (Cursor.mk ahead stop index).checkOperator symbols then yes else no)
      ⟨ahead, stop, index⟩ with
    | .ok value cursor => _
    | .error error _ => _
  cases h : (Cursor.mk ahead stop index).checkOperator symbols with
  | true =>
      rw [Cursor.checkOperator, check_eq_begins hstop (by decide), Bool.and_eq_true] at h
      obtain ⟨token, rest, rfl, hkind⟩ := begins_singleton h.1
      exact hyes token rest rfl hkind (List.contains_iff_mem.1 h.2) hlegible stop index hstop
  | false => exact hno hlegible stop index hstop

/-! ## Single tokens -/

theorem reads_advance {token : Token} {rest : List Token} {next : Token → Parser α}
    {result : List Token → α → List Token → Prop}
    (h : Reads (next token) rest fun more value left => result (token :: more) value left) :
    Reads (advance >>= next) (token :: rest) result := by
  have hone : Reads advance (token :: rest) fun taken value left =>
      taken = [token] ∧ value = token ∧ left = rest :=
    fun _ _ _ _ => ⟨[token], rest, rfl, rfl, rfl, rfl, rfl⟩
  apply reads_bind hone
  intro taken value left _ htaken
  obtain ⟨rfl, rfl, rfl⟩ := htaken
  exact h

theorem reads_expect {kind : Token.Kind} {expectation : Expectation} {ahead : List Token}
    {next : Token → Parser α} {result : List Token → α → List Token → Prop}
    (hkind : kind ≠ .endOfSource)
    (h : ∀ token rest, ahead = token :: rest → token.kind = kind →
      Reads (next token) rest fun more value left => result (token :: more) value left) :
    Reads (expect kind expectation >>= next) ahead result := by
  have hone : Reads (expect kind expectation) ahead fun taken token _ =>
      taken = [token] ∧ token.kind = kind := by
    apply reads_peek
    · intro stop hstop _
      rw [hstop, if_neg fun h => hkind h.symm]
      exact reads_fail (by simp)
    · intro token rest hahead
      subst hahead
      by_cases htoken : token.kind = kind
      · rw [if_pos htoken]
        exact reads_advance (reads_pure ⟨rfl, htoken⟩)
      · rw [if_neg htoken]
        exact reads_fail (by simp)
  apply reads_bind hone
  intro taken token rest hahead htaken
  obtain ⟨rfl, htoken⟩ := htaken
  exact h token rest hahead htoken

theorem reads_accept {kind : Token.Kind} {ahead : List Token} {next : Option Token → Parser α}
    {result : List Token → α → List Token → Prop} (hkind : kind ≠ .endOfSource)
    (hsome : ∀ token rest, ahead = token :: rest → token.kind = kind →
      Reads (next (some token)) rest fun more value left => result (token :: more) value left)
    (hnone : begins [kind] ahead = false → Reads (next none) ahead result) :
    Reads (accept kind >>= next) ahead result := by
  have hone : Reads (accept kind) ahead fun taken value rest =>
      (∃ token, taken = [token] ∧ value = some token ∧ token.kind = kind) ∨
        (taken = [] ∧ value = none ∧ begins [kind] rest = false) := by
    apply reads_check hkind
    · intro hbegins
      obtain ⟨token, rest, rfl, htoken⟩ := begins_singleton hbegins
      apply reads_map
      exact reads_advance (reads_pure (.inl ⟨token, rfl, rfl, htoken⟩))
    · intro hbegins
      exact reads_pure (.inr ⟨rfl, rfl, hbegins⟩)
  apply reads_bind hone
  intro taken value rest hahead htaken
  rcases htaken with ⟨token, rfl, rfl, htoken⟩ | ⟨rfl, rfl, hbegins⟩
  · exact hsome token rest hahead htoken
  · rw [List.nil_append] at hahead
    subst hahead
    exact hnone hbegins

theorem reads_unexpected {ahead : List Token} {result : List Token → α → List Token → Prop} :
    Reads unexpected ahead result :=
  reads_peek (fun _ _ _ => reads_fail (by simp)) (fun _ _ _ => reads_fail (by simp))

theorem reads_remaining {next : Nat → Parser α} {ahead : List Token}
    {result : List Token → α → List Token → Prop} (h : Reads (next ahead.length) ahead result) :
    Reads (remaining >>= next) ahead result :=
  h

theorem reads_standsAt {kind : Token.Kind} {yes no : Parser α} {ahead : List Token}
    {result : List Token → α → List Token → Prop}
    (hyes : ahead = [] ∨ begins [kind] ahead = true → Reads yes ahead result)
    (hno : ahead ≠ [] → begins [kind] ahead = false → Reads no ahead result) :
    Reads (standsAt kind >>= fun stands => if stands then yes else no) ahead result := by
  intro hlegible stop index hstop
  show match (if (Cursor.mk ahead stop index).atEnd || (Cursor.mk ahead stop index).check kind
      then yes else no) ⟨ahead, stop, index⟩ with
    | .ok value cursor => _
    | .error error _ => _
  cases ahead with
  | nil =>
      have hend : (Cursor.mk [] stop index).atEnd = true := hstop
      simp only [hend, Bool.true_or, if_true]
      exact hyes (.inl rfl) hlegible stop index hstop
  | cons token rest =>
      have hend : (Cursor.mk (token :: rest) stop index).atEnd = false :=
        (hlegible token List.mem_cons_self).1
      have hcheck : (Cursor.mk (token :: rest) stop index).check kind =
          begins [kind] (token :: rest) := by
        by_cases h : token.kind = kind <;> simp [Cursor.check, Cursor.peek, begins, h]
      rw [hend, hcheck, Bool.false_or]
      cases h : begins [kind] (token :: rest) with
      | true => exact hyes (.inr h) hlegible stop index hstop
      | false => exact hno (List.cons_ne_nil token rest) h hlegible stop index hstop

/-- Items are not parsed where the tokens ahead begin with the closing kind. -/
theorem reads_itemsUpTo_stopped {kind : Token.Kind} {item : Parser α} {rounds : Nat}
    {ahead : List Token} (h : begins [kind] ahead = true) :
    Reads (itemsUpTo kind item rounds) ahead fun taken items _ => taken = [] ∧ items = [] := by
  cases rounds with
  | zero => exact reads_pure ⟨rfl, rfl⟩
  | succ rounds =>
      refine reads_standsAt (fun _ => reads_pure ⟨rfl, rfl⟩) fun _ hno => ?_
      rw [h] at hno
      contradiction

end Nomi.Parser
