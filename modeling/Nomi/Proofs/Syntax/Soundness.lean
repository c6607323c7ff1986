import Nomi.Proofs.Syntax.First
import Nomi.Proofs.Syntax.Reading
import Nomi.Syntax.Program

/-!
# What is read derives

Every parser of the syntax reads tokens that derive as its result.  Each lemma
takes the description of the parsers below and gives that of the parser above;
the descriptions of full expressions and statements then follow by induction on
their depth.
-/

namespace Nomi.Grammar

/-- A phrase that derives from the tokens and may end before the rest. -/
def Bounded (phrase : Bool → Phrase) (tokens rest : List Token) : Prop :=
  ∃ marked, Derives .greedy tokens (phrase marked) ∧ Boundary.greedy marked rest

theorem Bounded.marked {phrase : Bool → Phrase} {tokens rest : List Token}
    (h : Derives .greedy tokens (phrase true)) : Bounded phrase tokens rest :=
  ⟨true, h, fun hfalse => by contradiction⟩

end Nomi.Grammar

namespace Nomi.Parser

open Grammar

def ReadsExpressions (expression : Parser Node) : Prop :=
  ∀ ahead, Reads expression ahead fun taken tree rest =>
    Bounded (.expression tree) taken rest

variable {expression : Parser Node}

theorem ReadsExpressions.bind {α : Type} (hexpression : ReadsExpressions expression)
    {next : Node → Parser α} {ahead : List Token} {result : List Token → α → List Token → Prop}
    (h : ∀ taken tree rest marked, ahead = taken ++ rest →
      Derives .greedy taken (.expression tree marked) → Boundary.greedy marked rest →
        Reads (next tree) rest fun more value left => result (taken ++ more) value left) :
    Reads (expression >>= next) ahead result := by
  apply reads_bind (hexpression ahead)
  intro taken tree rest hahead htree
  obtain ⟨marked, htree, hend⟩ := htree
  exact h taken tree rest marked hahead htree hend

theorem reads_primary (hexpression : ReadsExpressions expression) (ahead : List Token) :
    Reads (primary expression) ahead fun taken tree _ =>
      Derives .greedy taken (.primary tree) := by
  apply reads_of_legible
  intro hlegible
  apply reads_peek
  · intro stop hstop _
    rw [hstop]
    exact reads_unexpected
  · intro token rest hahead
    subst hahead
    split
    · next hkind =>
        apply reads_advance
        exact reads_pure (.identifier hkind)
    · next hkind =>
        apply reads_advance
        obtain ⟨number, hvalue⟩ := (hlegible token List.mem_cons_self).2 hkind
        unfold numeral
        rw [hvalue]
        exact reads_pure (.number hkind hvalue)
    · next hkind =>
        apply reads_advance
        exact reads_pure (.string hkind)
    · next hkind =>
        apply reads_advance
        apply hexpression.bind
        intro inner tree behind marked _ hinner _
        apply reads_expect (by decide)
        intro right last _ hright
        exact reads_pure (.group hkind hinner hright)
    · exact reads_unexpected

/-! ## Members and calls -/

theorem reads_furtherUpTo (hexpression : ReadsExpressions expression) (rounds : Nat)
    (ahead : List Token) :
    Reads (furtherUpTo expression rounds) ahead fun taken trees _ =>
      (taken = [] ∧ trees = []) ∨ ∃ comma more, taken = comma :: more ∧ comma.kind = .comma ∧
        Derives .greedy more (.values trees) := by
  induction rounds generalizing ahead with
  | zero => exact reads_pure (.inl ⟨rfl, rfl⟩)
  | succ rounds ih =>
      apply reads_accept (by decide)
      · intro comma rest _ hcomma
        apply hexpression.bind
        intro first tree behind marked _ hfirst _
        apply reads_bind (ih behind)
        intro more trees last _ hmore
        rcases hmore with ⟨rfl, rfl⟩ | ⟨other, more, rfl, hother, hmore⟩
        · exact reads_pure (.inr ⟨comma, first, by simp, hcomma, .lastValue hfirst⟩)
        · exact reads_pure (.inr ⟨comma, first ++ other :: more, by simp, hcomma,
            .value hfirst hother hmore⟩)
      · intro _
        exact reads_pure (.inl ⟨rfl, rfl⟩)

theorem reads_separated (hexpression : ReadsExpressions expression) (ahead : List Token) :
    Reads (separated expression) ahead fun taken trees _ =>
      Derives .greedy taken (.values trees) := by
  apply hexpression.bind
  intro first tree rest marked _ hfirst _
  apply reads_remaining
  apply reads_bind (reads_furtherUpTo hexpression rest.length rest)
  intro more trees left _ hmore
  rcases hmore with ⟨rfl, rfl⟩ | ⟨comma, more, rfl, hcomma, hmore⟩
  · exact reads_pure (by simpa using Derives.lastValue hfirst)
  · exact reads_pure (by simpa using Derives.value hfirst hcomma hmore)

theorem reads_arguments (hexpression : ReadsExpressions expression) (ahead : List Token) :
    Reads (arguments expression) ahead fun taken trees _ =>
      Derives .greedy taken (.arguments trees) := by
  apply reads_expect (by decide)
  intro left rest _ hleft
  apply reads_check (by decide)
  · intro _
    change Reads (expect .closeParen .argumentsEnd >>= fun _ => pure []) rest _
    apply reads_expect (by decide)
    intro right behind _ hright
    exact reads_pure (.noArguments hleft hright)
  · intro _
    apply reads_bind (reads_separated hexpression rest)
    intro inner trees behind _ hinner
    apply reads_expect (by decide)
    intro right last _ hright
    exact reads_pure (.arguments hleft hinner hright)

theorem reads_memberName (ahead : List Token) :
    Reads memberName ahead fun taken tree _ =>
      ∃ name, taken = [name] ∧ name.kind = .identifier ∧
        tree = .identifier name.position name.lexeme := by
  apply reads_peek
  · intro stop hstop _
    rw [hstop, if_neg (by decide)]
    exact reads_fail (by simp)
  · intro token rest hahead
    subst hahead
    by_cases h : token.kind = .identifier
    · rw [if_pos h]
      apply reads_advance
      exact reads_pure ⟨token, rfl, h, rfl⟩
    · rw [if_neg h]
      exact reads_fail (by simp)

/-- A suffix goes in front of further suffixes; where there is none, no bracket
is ahead. -/
theorem reads_suffix? (hexpression : ReadsExpressions expression) (object : Node)
    (ahead : List Token) :
    Reads (suffix? expression object) ahead fun taken result rest =>
      (taken = [] ∧ result = none ∧ begins openings rest = false) ∨
        ∃ tree, taken ≠ [] ∧ result = some tree ∧ ∀ more final,
          Derives .greedy more (.suffixes tree final) →
            Derives .greedy (taken ++ more) (.suffixes object final) := by
  apply reads_peek
  · intro stop hstop hahead
    subst hahead
    rw [hstop]
    exact reads_pure (.inl ⟨rfl, rfl, rfl⟩)
  · intro token rest hahead
    subst hahead
    split
    · next hpoint =>
        apply reads_advance
        apply reads_bind (reads_memberName rest)
        intro taken key behind _ hname
        obtain ⟨name, rfl, hname, hkey⟩ := hname
        apply reads_pure
        refine .inr ⟨_, by simp, rfl, ?_⟩
        intro more final hmore
        rw [hkey] at hmore
        exact .member hpoint hname hmore
    · next hleft =>
        apply reads_advance
        apply hexpression.bind
        intro inner key behind marked _ hinner _
        apply reads_expect (by decide)
        intro right last _ hright
        apply reads_pure
        refine .inr ⟨_, by simp, rfl, ?_⟩
        intro more final hmore
        have hindex := Derives.index hleft hinner hright hmore
        simpa using hindex
    · apply reads_bind (reads_arguments hexpression (token :: rest))
      intro taken values behind _ hinner
      have htaken : taken ≠ [] := hinner.ne_nil rfl
      apply reads_pure
      refine .inr ⟨_, by simpa using htaken, rfl, ?_⟩
      intro more final hmore
      have hcall := Derives.call hinner hmore
      simpa using hcall
    · next hdot hbracket hparen =>
        have hnone : begins openings (token :: rest) = false := by
          simpa [begins, openings] using ⟨hparen, hbracket⟩
        exact reads_pure (.inl ⟨rfl, rfl, hnone⟩)

theorem reads_suffixes (hexpression : ReadsExpressions expression) (rounds : Nat) (object : Node)
    (ahead : List Token) :
    Reads (extendUpTo (suffix? expression) rounds object) ahead fun taken tree rest =>
      Derives .greedy taken (.suffixes object tree) ∧
        (rounds ≤ taken.length ∨ begins openings rest = false) := by
  induction rounds generalizing object ahead with
  | zero => exact reads_pure ⟨.noSuffix, .inl (Nat.zero_le _)⟩
  | succ rounds ih =>
      apply reads_bind (reads_suffix? hexpression object ahead)
      intro taken result rest _ hresult
      rcases hresult with ⟨rfl, rfl, hnone⟩ | ⟨tree, htaken, rfl, hsuffix⟩
      · exact reads_pure ⟨.noSuffix, .inr hnone⟩
      · apply (ih tree rest).imp
        intro more final left _ hmore
        have hlength : 0 < taken.length := List.length_pos_iff.2 htaken
        constructor
        · exact hsuffix more _ hmore.1
        · rcases hmore.2 with hrounds | hleft
          · rw [List.length_append]
            exact .inl (by omega)
          · exact .inr hleft

/-- What is read as an operand derives as one, and no bracket is left ahead of
it. -/
def ReadsOperands (operand : Parser Node) (phrase : Node → Phrase) : Prop :=
  ∀ ahead, Reads operand ahead fun taken tree rest =>
    Derives .greedy taken (phrase tree) ∧ begins openings rest = false

/-- After as many rounds as there were tokens, either no token is left or the
rounds were not used up. -/
theorem begins_eq_false_of_rounds {kinds : List Token.Kind} {taken rest : List Token}
    (h : (taken ++ rest).length ≤ taken.length ∨ begins kinds rest = false) :
    begins kinds rest = false := by
  rcases h with hrounds | hrest
  · have hempty : rest = [] := by
      rw [List.length_append] at hrounds
      exact List.length_eq_zero_iff.1 (by omega)
    rw [hempty]
    rfl
  · exact hrest

theorem reads_suffixed (hexpression : ReadsExpressions expression) :
    ReadsOperands (suffixed expression) .suffixed := by
  intro ahead
  apply reads_bind (reads_primary hexpression ahead)
  intro first object rest _ hfirst
  apply reads_remaining
  apply (reads_suffixes hexpression rest.length object rest).imp
  intro more tree left hrest hmore
  subst hrest
  exact ⟨.suffixed hfirst hmore.1, begins_eq_false_of_rounds hmore.2⟩

theorem reads_operation? {level : Level} {operand : Parser Node}
    (hoperand : ReadsOperands operand level.operand) (left : Node) (ahead : List Token) :
    Reads (operation? level.symbols operand left) ahead fun taken result rest =>
      (taken = [] ∧ result = none) ∨
        ∃ tree, result = some tree ∧ begins openings rest = false ∧ ∀ more final,
          Derives .greedy more (.run level tree final) →
            Derives .greedy (taken ++ more) (.run level left final) := by
  apply reads_checkOperator
  · intro token rest hahead hkind hsymbol
    subst hahead
    apply reads_advance
    apply reads_bind (hoperand rest)
    intro tokens right last _ hright
    apply reads_pure
    refine .inr ⟨_, rfl, hright.2, ?_⟩
    intro more final hmore
    have hoperator := Derives.operator hkind hsymbol hright.1 hmore
    simpa using hoperator
  · exact reads_pure (.inl ⟨rfl, rfl⟩)

/-- No bracket is left ahead of a run that took any tokens. -/
theorem reads_run {level : Level} {operand : Parser Node}
    (hoperand : ReadsOperands operand level.operand) (rounds : Nat) (left : Node)
    (ahead : List Token) (hahead : begins openings ahead = false) :
    Reads (extendUpTo (operation? level.symbols operand) rounds left) ahead fun taken tree rest =>
      Derives .greedy taken (.run level left tree) ∧
        begins openings rest = false := by
  induction rounds generalizing left ahead with
  | zero => exact reads_pure ⟨.noOperator, hahead⟩
  | succ rounds ih =>
      apply reads_bind (reads_operation? hoperand left ahead)
      intro taken result rest htaken hresult
      rcases hresult with ⟨rfl, rfl⟩ | ⟨tree, rfl, hrest, hoperation⟩
      · rw [List.nil_append] at htaken
        subst htaken
        exact reads_pure ⟨.noOperator, hahead⟩
      · apply (ih tree rest hrest).imp
        intro more final last _ hmore
        exact ⟨hoperation more _ hmore.1, hmore.2⟩

theorem reads_chain {level : Level} {operand : Parser Node}
    (hoperand : ReadsOperands operand level.operand) :
    ReadsOperands (chain level.symbols operand) (.chain level) := by
  intro ahead
  apply reads_bind (hoperand ahead)
  intro first left rest _ hfirst
  apply reads_remaining
  apply (reads_run hoperand rest.length left rest hfirst.2).imp
  intro more tree last _ hmore
  exact ⟨.chain hfirst.1 hmore.1, hmore.2⟩

theorem reads_comparison (hexpression : ReadsExpressions expression) :
    ReadsOperands (comparison expression) (.chain .comparison) := by
  have hproduct : ReadsOperands _ (.chain .product) :=
    reads_chain (reads_suffixed hexpression)
  have hsum : ReadsOperands _ (.chain .sum) := reads_chain hproduct
  have hcomparison : ReadsOperands _ (.chain .comparison) := reads_chain hsum
  exact hcomparison

/-! ## Objects, arrays and assignments -/

theorem reads_entryEnd (ahead : List Token) :
    Reads entryEnd ahead fun taken _ rest =>
      (taken = [] ∧ begins [.closeBrace] rest = true) ∨
        ∃ comma, taken = [comma] ∧ comma.kind = .comma := by
  apply reads_check (by decide)
  · intro hclose
    exact reads_pure (.inl ⟨rfl, hclose⟩)
  · intro _
    apply reads_expect (by decide)
    intro comma rest _ hcomma
    exact reads_pure (.inr ⟨comma, rfl, hcomma⟩)

theorem reads_entryValue (hexpression : ReadsExpressions expression) (ahead : List Token) :
    Reads (entryValue expression) ahead fun taken value rest =>
      ∃ colon tokens marked, colon.kind = .colon ∧
        Derives .greedy tokens (.expression value marked) ∧
          ((taken = colon :: tokens ∧ begins [.closeBrace] rest = true) ∨
            ∃ comma, taken = colon :: (tokens ++ [comma]) ∧ comma.kind = .comma) := by
  apply reads_expect (by decide)
  intro colon rest _ hcolon
  apply hexpression.bind
  intro tokens value behind marked _ hvalue _
  apply reads_bind (reads_entryEnd behind)
  intro taken _ last _ hend
  rcases hend with ⟨rfl, hclose⟩ | ⟨comma, rfl, hcomma⟩
  · exact reads_pure ⟨colon, tokens, marked, hcolon, hvalue, .inl ⟨by simp, hclose⟩⟩
  · exact reads_pure ⟨colon, tokens, marked, hcolon, hvalue, .inr ⟨comma, by simp, hcomma⟩⟩

/-- An entry takes the comma behind it, or stands before the closing brace. -/
theorem reads_entry (hexpression : ReadsExpressions expression) (ahead : List Token) :
    Reads (entry expression) ahead fun taken tree rest =>
      (Derives .greedy taken (.entry tree) ∧ begins [.closeBrace] rest = true) ∨
        ∃ tokens comma, taken = tokens ++ [comma] ∧ comma.kind = .comma ∧
          Derives .greedy tokens (.entry tree) := by
  apply reads_expect (by decide)
  intro key rest _ hkey
  apply reads_accept (by decide)
  · intro comma behind _ hcomma
    exact reads_pure (.inr ⟨[key], comma, rfl, hcomma, .shorthand hkey⟩)
  · intro _
    apply reads_check (by decide)
    · intro hclose
      exact reads_pure (.inl ⟨.shorthand hkey, hclose⟩)
    · intro _
      apply reads_bind (reads_entryValue hexpression rest)
      intro taken value last _ hentry
      obtain ⟨colon, tokens, marked, hcolon, hvalue, hend⟩ := hentry
      have hproperty := Derives.property hkey hcolon hvalue
      rcases hend with ⟨rfl, hclose⟩ | ⟨comma, rfl, hcomma⟩
      · exact reads_pure (.inl ⟨by simpa using hproperty, hclose⟩)
      · exact reads_pure (.inr ⟨_, comma, by simp, hcomma, hproperty⟩)

theorem reads_entries (hexpression : ReadsExpressions expression) (rounds : Nat)
    (ahead : List Token) :
    Reads (itemsUpTo .closeBrace (entry expression) rounds) ahead fun taken trees _ =>
      Derives .greedy taken (.entries trees) := by
  induction rounds generalizing ahead with
  | zero => exact reads_pure .noEntry
  | succ rounds ih =>
      apply reads_standsAt
      · intro _
        exact reads_pure .noEntry
      · intro _ _
        apply reads_bind (reads_entry hexpression ahead)
        intro taken tree rest _ hentry
        rcases hentry with ⟨hlast, hclose⟩ | ⟨tokens, comma, rfl, hcomma, hfirst⟩
        · apply reads_bind (reads_itemsUpTo_stopped hclose)
          intro more trees left _ hnone
          obtain ⟨rfl, rfl⟩ := hnone
          exact reads_pure (by simpa using Derives.lastEntry hlast)
        · apply reads_bind (ih rest)
          intro more trees left _ hmore
          exact reads_pure (by simpa using Derives.entry hfirst hcomma hmore)

theorem reads_object (hexpression : ReadsExpressions expression) {token : Token}
    (rest : List Token) (hleft : token.kind = .openBrace) :
    Reads (object expression) (token :: rest) fun taken tree _ =>
      Derives .greedy taken (.target tree true) := by
  apply reads_advance
  apply reads_bind (reads_remaining (reads_entries hexpression rest.length rest))
  intro inner properties last _ hinner
  apply reads_expect (by decide)
  intro right final _ hright
  exact reads_pure (.object hleft hinner hright)

theorem reads_elements (hexpression : ReadsExpressions expression) (rounds : Nat)
    (ahead : List Token) :
    Reads (commaItemsUpTo .closeBracket expression rounds) ahead fun taken trees _ =>
      Derives .greedy taken (.elements trees) := by
  induction rounds generalizing ahead with
  | zero => exact reads_pure .noElement
  | succ rounds ih =>
      apply reads_standsAt
      · intro _
        exact reads_pure .noElement
      · intro _ _
        apply hexpression.bind
        intro first tree rest marked _ hfirst _
        apply reads_accept (by decide)
        · intro comma behind _ hcomma
          apply reads_bind (ih behind)
          intro more trees last _ hmore
          exact reads_pure (by simpa using Derives.element hfirst hcomma hmore)
        · intro _
          exact reads_pure (by simpa using Derives.lastElement hfirst)

theorem reads_array (hexpression : ReadsExpressions expression) {token : Token}
    (rest : List Token) (hleft : token.kind = .openBracket) :
    Reads (array expression) (token :: rest) fun taken tree _ =>
      Derives .greedy taken (.expression tree true) := by
  apply reads_advance
  apply reads_bind (reads_remaining (reads_elements hexpression rest.length rest))
  intro inner elements last _ hinner
  apply reads_expect (by decide)
  intro right final _ hright
  exact reads_pure (.array hleft hinner hright)

theorem reads_readInto (token : Token) (rest : List Token) :
    Reads readInto (token :: rest) fun taken tree _ =>
      ∃ name semicolon, taken = [token, name, semicolon] ∧ name.kind = .identifier ∧
        semicolon.kind = .semicolon ∧
        tree = .read token.position name.lexeme "string" true := by
  apply reads_advance
  apply reads_expect (by decide)
  intro name last _ hname
  apply reads_expect (by decide)
  intro semicolon final _ hsemicolon
  exact reads_pure ⟨name, semicolon, rfl, hname, hsemicolon, rfl⟩

/-- What is read behind a target. -/
theorem reads_assigned (hexpression : ReadsExpressions expression) {left rest : List Token}
    {target : Node} (htarget : Bounded (.target target) left rest) :
    Reads (do
        match ← accept .equals with
        | none => return target
        | some _ =>
            let value ← expression
            return .assignment target.position target value) rest
      fun more tree last => Bounded (.expression tree) (left ++ more) last := by
  obtain ⟨leftMarked, hleft, hend⟩ := htarget
  apply reads_accept (by decide)
  · intro equals behind _ hequals
    apply hexpression.bind
    intro right value last marked _ hright hlast
    have hassignment := Derives.assignment hleft hequals hright
    exact reads_pure ⟨marked, by simpa using hassignment, hlast⟩
  · intro _
    exact reads_pure ⟨leftMarked, by simpa using Derives.target hleft, hend⟩

theorem reads_assignment (hexpression : ReadsExpressions expression) :
    ReadsExpressions (assignment expression) := by
  intro ahead
  apply reads_check (by decide)
  · intro hbrace
    obtain ⟨token, rest, rfl, hleft⟩ := begins_singleton hbrace
    apply reads_bind (reads_object hexpression rest hleft)
    intro taken target left _ htarget
    exact reads_assigned hexpression (.marked htarget)
  · intro _
    apply reads_bind (reads_comparison hexpression ahead)
    intro taken target left _ htarget
    exact reads_assigned hexpression ⟨false, .comparison htarget.1, fun _ => htarget.2⟩

theorem reads_expression (depth : Nat) : ReadsExpressions (Parser.expression depth) := by
  induction depth with
  | zero => exact fun _ => reads_unexpected
  | succ depth ih =>
      intro ahead
      apply reads_peek
      · intro stop hstop _
        rw [hstop]
        exact reads_assignment ih ahead
      · intro token rest hahead
        subst hahead
        split
        · next hbracket =>
            apply (reads_array ih rest hbracket).imp
            intro taken tree left _ harray
            exact .marked harray
        · next hkeyword =>
            apply (reads_readInto token rest).imp
            intro taken tree left _ hread
            obtain ⟨name, semicolon, rfl, hname, hsemicolon, htree⟩ := hread
            rw [htree]
            exact .marked (.read hkeyword hname hsemicolon)
        · exact reads_assignment ih (token :: rest)

/-! ## Statements -/

def ReadsStatements (statement : Parser Node) : Prop :=
  ∀ ahead, Reads statement ahead fun taken tree rest =>
    Bounded (.statement tree) taken rest

theorem reads_readValue (name : String) (token : Token) (ahead : List Token) :
    Reads (readValue name token) ahead fun taken tree _ =>
      ∃ semicolon, taken = [semicolon] ∧ semicolon.kind = .semicolon ∧
        tree = .read token.position name "string" false := by
  apply reads_expect (by decide)
  intro semicolon rest _ hsemicolon
  exact reads_pure ⟨semicolon, rfl, hsemicolon, rfl⟩

theorem reads_declaration (hexpression : ReadsExpressions expression) {keyword : Token}
    (hkeyword : keyword.kind = .letWord ∨ keyword.kind = .constWord) (ahead : List Token) :
    Reads (declaration expression keyword) ahead fun taken tree _ =>
      Derives .greedy (keyword :: taken) (.statement tree true) := by
  apply reads_expect (by decide)
  intro name rest _ hname
  apply reads_accept (by decide)
  · intro equals behind _ hequals
    apply reads_accept (by decide)
    · intro read last _ hread
      apply reads_bind (reads_readValue name.lexeme read last)
      intro taken tree final _ htree
      obtain ⟨semicolon, rfl, hsemicolon, htree⟩ := htree
      apply reads_pure
      rw [htree]
      exact .declarationOfLine hkeyword hname hequals hread hsemicolon
    · intro hread
      apply hexpression.bind
      intro tokens tree final marked hbehind htree _
      rw [hbehind] at hread
      apply reads_expect (by decide)
      intro semicolon _ _ hsemicolon
      exact reads_pure (.declaration hkeyword hname hequals (begins_of_append hread) htree
        hsemicolon)
  · intro _
    apply reads_expect (by decide)
    intro semicolon last _ hsemicolon
    by_cases hconst : keyword.kind = .constWord
    · simp only [hconst, decide_true, if_true]
      exact reads_fail (by simp)
    · simp only [hconst, decide_false, Bool.false_eq_true, if_false]
      exact reads_pure (.declarationWithoutValue (hkeyword.resolve_right hconst) hname hsemicolon)

theorem parameterNames_ok {written : List Node} {names : List String}
    (h : parameterNames written = .ok names) :
    Node.unplacedAll written = names.map (.identifier .nowhere) := by
  induction written generalizing names with
  | nil =>
      cases h
      rfl
  | cons node rest ih =>
      cases node with
      | identifier position name =>
          rw [parameterNames] at h
          cases hrest : parameterNames rest with
          | error error => simp [hrest, Except.map] at h
          | ok more =>
              simp only [hrest, Except.map, Except.ok.injEq] at h
              subst h
              simp [ih hrest]
      | _ => simp [parameterNames] at h

theorem parameterNames_error {written : List Node} {error : SyntaxError}
    (h : parameterNames written = .error error) : error.cause = .parameterNotIdentifier := by
  induction written with
  | nil => simp [parameterNames] at h
  | cons node rest ih =>
      cases node with
      | identifier position name =>
          rw [parameterNames] at h
          cases hrest : parameterNames rest with
          | error other =>
              simp only [hrest, Except.map, Except.error.injEq] at h
              subst h
              exact ih hrest
          | ok more => simp [hrest, Except.map] at h
      | _ =>
          simp only [parameterNames, Except.error.injEq] at h
          rw [← h]

/-- A loop over statements stops where its rounds, the tokens or the statements
end. -/
theorem reads_statements {statement : Parser Node} (hstatement : ReadsStatements statement)
    (kind : Token.Kind) (rounds : Nat) (ahead : List Token) :
    Reads (itemsUpTo kind statement rounds) ahead fun taken trees rest =>
      Derives .greedy taken (.statements trees) ∧
        (rounds ≤ taken.length ∨ rest = [] ∨ begins [kind] rest = true) := by
  induction rounds generalizing ahead with
  | zero => exact reads_pure ⟨.noStatement, .inl (Nat.zero_le _)⟩
  | succ rounds ih =>
      apply reads_standsAt
      · intro hstands
        exact reads_pure ⟨.noStatement, .inr hstands⟩
      · intro _ _
        apply reads_bind (hstatement ahead)
        intro first tree rest _ hfirst
        obtain ⟨marked, hfirst, hend⟩ := hfirst
        apply reads_bind (ih rest)
        intro more trees left hrest hmore
        obtain ⟨hmore, hleft⟩ := hmore
        rw [hrest] at hend
        have hlength : 0 < first.length := List.length_pos_iff.2 (hfirst.ne_nil rfl)
        have hboundary : Boundary.greedy marked more := fun hmarked =>
          begins_of_append (hend hmarked)
        have hstatements := Derives.statement hfirst hmore hboundary
        apply reads_pure
        constructor
        · simpa using hstatements
        · rcases hleft with hrounds | hstands
          · rw [List.append_nil, List.length_append]
            exact .inl (by omega)
          · exact .inr hstands

theorem reads_function {statement : Parser Node} (hexpression : ReadsExpressions expression)
    (hstatement : ReadsStatements statement) {keyword : Token} (hkeyword : keyword.kind = .fnWord)
    (ahead : List Token) :
    Reads (function expression statement keyword) ahead fun taken tree _ =>
      Derives .greedy (keyword :: taken) (.statement tree true) := by
  apply reads_expect (by decide)
  intro name rest _ hname
  apply reads_bind (reads_arguments hexpression rest)
  intro inner written behind _ hinner
  cases hnames : parameterNames written with
  | error error =>
      have hcause := parameterNames_error hnames
      exact reads_throw (by simp [hcause])
  | ok parameters =>
      apply reads_expect (by decide)
      intro left last _ hleft
      apply reads_bind (reads_remaining (reads_statements hstatement _ last.length last))
      intro body statements final _ hbody
      apply reads_expect (by decide)
      intro right _ _ hright
      have hfunction := Derives.function hkeyword hname hinner (parameterNames_ok hnames) hleft
        hbody.1 hright
      exact reads_pure (by simpa using hfunction)

theorem reads_expressionStatement (hexpression : ReadsExpressions expression)
    {ahead : List Token} (hread : begins [.readWord] ahead = false) :
    Reads (expressionStatement expression) ahead fun taken tree rest =>
      Bounded (.statement tree) taken rest := by
  apply hexpression.bind
  intro tokens tree rest marked hahead htree hend
  rw [hahead] at hread
  apply reads_accept (by decide)
  · intro semicolon left _ hsemicolon
    exact reads_pure (.marked (.endedStatement (begins_of_append hread) htree hsemicolon))
  · intro _
    have hstatement := Derives.expressionStatement (begins_of_append hread) htree
    exact reads_pure ⟨marked, by simpa using hstatement, hend⟩

theorem reads_statement (depth : Nat) : ReadsStatements (Parser.statement depth) := by
  induction depth with
  | zero => exact fun _ => reads_unexpected
  | succ depth ih =>
      intro ahead
      apply reads_peek
      · intro stop hstop hahead
        subst hahead
        rw [hstop]
        exact reads_expressionStatement (reads_expression (depth + 1)) rfl
      · intro token rest hahead
        subst hahead
        split
        · next hkeyword =>
            apply reads_advance
            apply (reads_declaration (reads_expression depth) (.inl hkeyword) rest).imp
            intro more tree last _ htree
            exact .marked htree
        · next hkeyword =>
            apply reads_advance
            apply (reads_declaration (reads_expression depth) (.inr hkeyword) rest).imp
            intro more tree last _ htree
            exact .marked htree
        · next hkeyword =>
            apply reads_advance
            apply (reads_function (reads_expression depth) ih hkeyword rest).imp
            intro more tree last _ htree
            exact .marked htree
        · next hkeyword =>
            apply (reads_readInto token rest).imp
            intro taken tree left _ hread
            obtain ⟨name, semicolon, rfl, hname, hsemicolon, htree⟩ := hread
            rw [htree]
            exact .marked (.readStatement hkeyword hname hsemicolon)
        · next hread =>
            exact reads_expressionStatement (reads_expression (depth + 1))
              (by simpa [begins] using hread)

/-- A program takes all tokens up to the end mark. -/
theorem reads_program (ahead : List Token) :
    Reads program ahead fun taken tree rest =>
      taken = ahead ∧ rest = [] ∧ ∃ body, tree = .program .start body ∧
        Derives .greedy ahead (.statements body) := by
  apply reads_of_legible
  intro hlegible
  apply reads_remaining
  apply reads_bind (reads_remaining
    (reads_statements (reads_statement ahead.length) .endOfSource ahead.length ahead))
  intro taken trees rest hahead hbody
  obtain ⟨hbody, hend⟩ := hbody
  have hrest : rest = [] := by
    rcases hend with hrounds | hempty | hstop
    · rw [hahead, List.length_append] at hrounds
      exact List.length_eq_zero_iff.1 (by omega)
    · exact hempty
    · obtain ⟨token, more, rfl, hkind⟩ := begins_singleton hstop
      have hmem : token ∈ ahead := by simp [hahead]
      exact absurd hkind (legible_kind_ne (hlegible token hmem))
  subst hrest
  rw [List.append_nil] at hahead
  subst hahead
  exact reads_pure ⟨by simp, rfl, _, rfl, hbody⟩

end Nomi.Parser
