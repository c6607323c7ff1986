import Nomi.Proofs.Syntax.First
import Nomi.Proofs.Syntax.Reading

/-!
# What a parser takes

To take some tokens is to succeed with exactly these off the front of the tokens
ahead, whatever the end mark and however many tokens came before.
-/

namespace Nomi.Parser

open Grammar

variable {α β : Type}

/-- The parser takes the given tokens off the front, and has the given result. -/
def Takes (parser : Parser α) (taken rest : List Token) (value : α) : Prop :=
  ∀ stop index, Cursor.isEnd stop = true →
    parser ⟨taken ++ rest, stop, index⟩ = .ok value ⟨rest, stop, index + taken.length⟩

theorem takes_pure (value : α) (rest : List Token) : Takes (pure value) [] rest value :=
  fun _ _ _ => rfl

theorem Takes.bind {first : Parser α} {next : α → Parser β} {taken more rest : List Token}
    {value : α} {outcome : β} (hfirst : Takes first taken (more ++ rest) value)
    (hnext : Takes (next value) more rest outcome) :
    Takes (first >>= next) (taken ++ more) rest outcome := by
  intro stop index hstop
  have hone := hfirst stop index hstop
  have htwo := hnext stop (index + taken.length) hstop
  rw [bind_apply, List.append_assoc, hone, List.length_append, ← Nat.add_assoc]
  exact htwo

theorem Takes.bind_cons {first : Parser α} {next : α → Parser β} {token : Token}
    {more rest : List Token} {value : α} {outcome : β}
    (hfirst : Takes first [token] (more ++ rest) value)
    (hnext : Takes (next value) more rest outcome) :
    Takes (first >>= next) (token :: more) rest outcome :=
  hfirst.bind hnext

theorem Takes.bind_nil {first : Parser α} {next : α → Parser β} {more rest : List Token}
    {value : α} {outcome : β} (hfirst : Takes first [] (more ++ rest) value)
    (hnext : Takes (next value) more rest outcome) :
    Takes (first >>= next) more rest outcome :=
  hfirst.bind hnext

/-- What comes last takes nothing. -/
theorem Takes.bind_last {first : Parser α} {next : α → Parser β} {taken rest : List Token}
    {value : α} {outcome : β} (hfirst : Takes first taken rest value)
    (hnext : Takes (next value) [] rest outcome) :
    Takes (first >>= next) taken rest outcome := by
  have hbind : Takes (first >>= next) (taken ++ []) rest outcome := hfirst.bind hnext
  rwa [List.append_nil] at hbind

theorem takes_advance {next : Token → Parser α} {token : Token} {more rest : List Token}
    {value : α} (hnext : Takes (next token) more rest value) :
    Takes (advance >>= next) (token :: more) rest value := by
  have hone : Takes advance [token] (more ++ rest) token := fun _ _ _ => rfl
  exact hone.bind_cons hnext

theorem takes_peek {next : Token → Parser α} {token : Token} {taken rest : List Token} {value : α}
    (h : Takes (next token) (token :: taken) rest value) :
    Takes (peek >>= next) (token :: taken) rest value :=
  h

/-- Nothing is taken whatever is ahead. -/
theorem takes_peek_nil {next : Token → Parser α} {rest : List Token} {value : α}
    (hend : ∀ stop, stop.kind = .endOfSource → rest = [] → Takes (next stop) [] rest value)
    (htoken : ∀ token more, rest = token :: more → Takes (next token) [] rest value) :
    Takes (peek >>= next) [] rest value := by
  intro stop index hstop
  cases rest with
  | nil => exact hend stop (kind_of_isEnd hstop) rfl stop index hstop
  | cons token more => exact htoken token more rfl stop index hstop

theorem takes_expect {kind : Token.Kind} {expectation : Expectation} {next : Token → Parser α}
    {token : Token} {more rest : List Token} {value : α} (h : token.kind = kind)
    (hnext : Takes (next token) more rest value) :
    Takes (expect kind expectation >>= next) (token :: more) rest value := by
  have hone : Takes (expect kind expectation) [token] (more ++ rest) token := by
    apply takes_peek
    rw [if_pos h]
    exact fun _ _ _ => rfl
  exact hone.bind_cons hnext

theorem takes_check {kind : Token.Kind} {yes no : Parser α} {taken rest : List Token} {value : α}
    (hkind : kind ≠ .endOfSource)
    (h : Takes (if begins [kind] (taken ++ rest) then yes else no) taken rest value) :
    Takes (get >>= fun cursor => if cursor.check kind then yes else no) taken rest value := by
  intro stop index hstop
  show (if (Cursor.mk (taken ++ rest) stop index).check kind then yes else no)
    ⟨taken ++ rest, stop, index⟩ = _
  rw [check_eq_begins hstop hkind]
  exact h stop index hstop

theorem takes_checkOperator {symbols : List String} {yes no : Parser α} {token : Token}
    {taken rest : List Token} {value : α} (hkind : token.kind = .operator)
    (hsymbol : token.lexeme ∈ symbols) (h : Takes yes (token :: taken) rest value) :
    Takes (get >>= fun cursor => if cursor.checkOperator symbols then yes else no)
      (token :: taken) rest value := by
  intro stop index hstop
  have hcheck : (Cursor.mk (token :: taken ++ rest) stop index).checkOperator symbols = true := by
    simp [Cursor.checkOperator, Cursor.check, Cursor.peek, hkind, hsymbol]
  show (if (Cursor.mk (token :: taken ++ rest) stop index).checkOperator symbols then yes else no)
    ⟨token :: taken ++ rest, stop, index⟩ = _
  rw [hcheck, if_pos rfl]
  exact h stop index hstop

theorem takes_checkOperator_none {symbols : List String} {yes no : Parser α} {rest : List Token}
    {value : α} (hrest : ∀ token more, rest = token :: more → token.kind = .operator →
      token.lexeme ∉ symbols) (h : Takes no [] rest value) :
    Takes (get >>= fun cursor => if cursor.checkOperator symbols then yes else no) [] rest
      value := by
  intro stop index hstop
  have hcheck : (Cursor.mk rest stop index).checkOperator symbols = false := by
    cases rest with
    | nil => simp [Cursor.checkOperator, Cursor.check, Cursor.peek, kind_of_isEnd hstop]
    | cons token more =>
        simpa [Cursor.checkOperator, Cursor.check, Cursor.peek] using hrest token more rfl
  show (if (Cursor.mk rest stop index).checkOperator symbols then yes else no)
    ⟨rest, stop, index⟩ = _
  rw [hcheck]
  exact h stop index hstop

theorem takes_accept {kind : Token.Kind} {next : Option Token → Parser α} {token : Token}
    {more rest : List Token} {value : α} (hkind : kind ≠ .endOfSource) (h : token.kind = kind)
    (hnext : Takes (next (some token)) more rest value) :
    Takes (accept kind >>= next) (token :: more) rest value := by
  have hone : Takes (accept kind) [token] (more ++ rest) (some token) := by
    apply takes_check hkind
    have hbegins : begins [kind] ([token] ++ (more ++ rest)) = true := by simp [begins, h]
    rw [hbegins, if_pos rfl]
    exact fun _ _ _ => rfl
  exact hone.bind_cons hnext

theorem takes_accept_none {kind : Token.Kind} {next : Option Token → Parser α}
    {taken rest : List Token} {value : α} (hkind : kind ≠ .endOfSource)
    (h : begins [kind] (taken ++ rest) = false) (hnext : Takes (next none) taken rest value) :
    Takes (accept kind >>= next) taken rest value := by
  have hone : Takes (accept kind) [] (taken ++ rest) none := by
    apply takes_check hkind
    rw [List.nil_append, h]
    exact takes_pure none _
  exact hone.bind_nil hnext

/-! ## Repetition -/

theorem takes_remaining {next : Nat → Parser α} {taken rest : List Token} {value : α}
    (h : Takes (next (taken ++ rest).length) taken rest value) :
    Takes (remaining >>= next) taken rest value :=
  h

/-- No loop goes on at the end or before its closing kind. -/
theorem takes_standsAt {kind : Token.Kind} {yes no : Parser α} {rest : List Token} {value : α}
    (hrest : rest = [] ∨ begins [kind] rest = true) (h : Takes yes [] rest value) :
    Takes (standsAt kind >>= fun stands => if stands then yes else no) [] rest value := by
  intro stop index hstop
  have hstands : ((Cursor.mk rest stop index).atEnd || (Cursor.mk rest stop index).check kind) =
      true := by
    rcases hrest with rfl | hbegins
    · have hend : (Cursor.mk [] stop index).atEnd = true := hstop
      rw [hend, Bool.true_or]
    · obtain ⟨token, more, rfl, hkind⟩ := begins_singleton hbegins
      simp [Cursor.check, Cursor.peek, hkind]
  show (if (Cursor.mk rest stop index).atEnd || (Cursor.mk rest stop index).check kind
    then yes else no) ⟨rest, stop, index⟩ = _
  rw [hstands, if_pos rfl]
  exact h stop index hstop

/-- A loop goes on before a token that begins an item. -/
theorem takes_item {kind : Token.Kind} {kinds : List Token.Kind} {yes no : Parser α}
    {taken rest : List Token} {value : α} (hbegins : begins kinds taken = true)
    (hend : .endOfSource ∉ kinds) (hkind : kind ∉ kinds) (h : Takes no taken rest value) :
    Takes (standsAt kind >>= fun stands => if stands then yes else no) taken rest value := by
  intro stop index hstop
  cases taken with
  | nil => simp [begins] at hbegins
  | cons token more =>
      have hmem : token.kind ∈ kinds := by simpa [begins] using hbegins
      have hnotEnd : token.kind ≠ .endOfSource := fun heq => hend (heq ▸ hmem)
      have hnotKind : token.kind ≠ kind := fun heq => hkind (heq ▸ hmem)
      have hstands : ((Cursor.mk (token :: more ++ rest) stop index).atEnd ||
          (Cursor.mk (token :: more ++ rest) stop index).check kind) = false := by
        simp [Cursor.atEnd, Cursor.isEnd, Cursor.check, Cursor.peek, hnotEnd, hnotKind]
      show (if (Cursor.mk (token :: more ++ rest) stop index).atEnd ||
          (Cursor.mk (token :: more ++ rest) stop index).check kind
        then yes else no) ⟨token :: more ++ rest, stop, index⟩ = _
      rw [hstands]
      exact h stop index hstop

theorem takes_extend {first : Parser α} {step? : α → Parser (Option α)}
    {taken more rest : List Token} {value final : α}
    (hfirst : Takes first taken (more ++ rest) value)
    (hmore : Takes (extendUpTo step? (more ++ rest).length value) more rest final) :
    Takes (extend first step?) (taken ++ more) rest final :=
  hfirst.bind (takes_remaining hmore)

theorem takes_step {step? : α → Parser (Option α)} {rounds : Nat} {taken more rest : List Token}
    {value next final : α} (hstep : Takes (step? value) taken (more ++ rest) (some next))
    (hmore : Takes (extendUpTo step? rounds next) more rest final) :
    Takes (extendUpTo step? (rounds + 1) value) (taken ++ more) rest final :=
  hstep.bind hmore

theorem takes_noStep {step? : α → Parser (Option α)} {rest : List Token} {value : α}
    (rounds : Nat) (hstep : Takes (step? value) [] rest none) :
    Takes (extendUpTo step? rounds value) [] rest value := by
  cases rounds with
  | zero => exact takes_pure value rest
  | succ rounds =>
      apply Takes.bind_nil hstep
      exact takes_pure value rest

theorem takes_itemsUpTo_stopped {kind : Token.Kind} {item : Parser α} {rest : List Token}
    (rounds : Nat) (hrest : rest = [] ∨ begins [kind] rest = true) :
    Takes (itemsUpTo kind item rounds) [] rest [] := by
  cases rounds with
  | zero => exact takes_pure [] rest
  | succ rounds => exact takes_standsAt hrest (takes_pure [] rest)

theorem takes_commaItemsUpTo_stopped {kind : Token.Kind} {item : Parser α} {rest : List Token}
    (rounds : Nat) (hrest : rest = [] ∨ begins [kind] rest = true) :
    Takes (commaItemsUpTo kind item rounds) [] rest [] := by
  cases rounds with
  | zero => exact takes_pure [] rest
  | succ rounds => exact takes_standsAt hrest (takes_pure [] rest)

theorem takes_itemsUpTo {kind : Token.Kind} {kinds : List Token.Kind} {item : Parser α}
    {rounds : Nat} {taken more rest : List Token} {first : α} {others : List α}
    (hbegins : begins kinds taken = true) (hend : .endOfSource ∉ kinds) (hkind : kind ∉ kinds)
    (hfirst : Takes item taken (more ++ rest) first)
    (hmore : Takes (itemsUpTo kind item rounds) more rest others) :
    Takes (itemsUpTo kind item (rounds + 1)) (taken ++ more) rest (first :: others) := by
  apply takes_item (begins_append more hbegins) hend hkind
  apply hfirst.bind
  exact hmore.bind_last (takes_pure (first :: others) rest)

theorem takes_commaItemsUpTo_last {kind : Token.Kind} {kinds : List Token.Kind} {item : Parser α}
    {taken rest : List Token} {first : α} (rounds : Nat) (hbegins : begins kinds taken = true)
    (hend : .endOfSource ∉ kinds) (hkind : kind ∉ kinds) (hrest : begins [.comma] rest = false)
    (hfirst : Takes item taken rest first) :
    Takes (commaItemsUpTo kind item (rounds + 1)) taken rest [first] := by
  apply takes_item hbegins hend hkind
  apply hfirst.bind_last
  apply takes_accept_none (by decide) hrest
  exact takes_pure [first] rest

theorem takes_commaItemsUpTo {kind : Token.Kind} {kinds : List Token.Kind} {item : Parser α}
    {rounds : Nat} {taken more rest : List Token} {comma : Token} {first : α} {others : List α}
    (hbegins : begins kinds taken = true) (hend : .endOfSource ∉ kinds) (hkind : kind ∉ kinds)
    (hcomma : comma.kind = .comma) (hfirst : Takes item taken (comma :: more ++ rest) first)
    (hmore : Takes (commaItemsUpTo kind item rounds) more rest others) :
    Takes (commaItemsUpTo kind item (rounds + 1)) (taken ++ comma :: more) rest
      (first :: others) := by
  apply takes_item (begins_append (comma :: more) hbegins) hend hkind
  apply hfirst.bind
  apply takes_accept (by decide) hcomma
  exact hmore.bind_last (takes_pure (first :: others) rest)

theorem takes_noFurther {item : Parser α} {rest : List Token} (rounds : Nat)
    (hrest : begins [.comma] rest = false) : Takes (furtherUpTo item rounds) [] rest [] := by
  cases rounds with
  | zero => exact takes_pure [] rest
  | succ rounds =>
      apply takes_accept_none (by decide) hrest
      exact takes_pure [] rest

theorem takes_further {item : Parser α} {rounds : Nat} {taken more rest : List Token}
    {comma : Token} {first : α} {others : List α} (hcomma : comma.kind = .comma)
    (hfirst : Takes item taken (more ++ rest) first)
    (hmore : Takes (furtherUpTo item rounds) more rest others) :
    Takes (furtherUpTo item (rounds + 1)) (comma :: (taken ++ more)) rest (first :: others) := by
  apply takes_accept (by decide) hcomma
  apply hfirst.bind
  exact hmore.bind_last (takes_pure (first :: others) rest)

theorem takes_separated {item : Parser α} {taken more rest : List Token} {first : α}
    {others : List α} (hfirst : Takes item taken (more ++ rest) first)
    (hmore : Takes (furtherUpTo item (more ++ rest).length) more rest others) :
    Takes (separated item) (taken ++ more) rest (first :: others) := by
  apply hfirst.bind
  exact takes_remaining (hmore.bind_last (takes_pure (first :: others) rest))

end Nomi.Parser
