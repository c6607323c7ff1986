import Nomi.Proofs.Syntax.Lookahead
import Nomi.Proofs.Syntax.Operations

/-!
# Progress of the parser

A parser that returns has taken a token.  Each round of a loop and each parser that is
nested in another thus begins at a later place than the one before, so that recursions
without a bound end at every place of a list of tokens, as the bounded ones do.
-/

namespace Nomi

open Nomi.Parser Cursor

variable {α ι : Type} {tokens : List Token} {place : Nat}

namespace Parser

/-- How a run that has begun at a place of a list may end: past this place if it returns,
not before it if it fails, and never past the first end mark. -/
inductive Onward (tokens : List Token) (place : Nat) :
    EStateM.Result SyntaxError Cursor α → Prop
  | returned {value : α} {later : Nat} (htaken : place < later) (hend : later ≤ firstEnd tokens) :
      Onward tokens place (.ok value ((ofList tokens).after later))
  | failed {error : SyntaxError} {later : Nat} (hkept : place ≤ later)
      (hend : later ≤ firstEnd tokens) :
      Onward tokens place (.error error ((ofList tokens).after later))

/-- Whether a parser that returns has taken a token, wherever in a list it began. -/
def Advances (tokens : List Token) (parser : Parser α) : Prop :=
  ∀ place ≤ firstEnd tokens, Onward tokens place (parser ((ofList tokens).after place))

/-- How a run through a whole list may end: at the first end mark if it returns, and
otherwise not past it. -/
inductive Exhausts (tokens : List Token) : EStateM.Result SyntaxError Cursor α → Prop
  | returned {value : α} : Exhausts tokens (.ok value ((ofList tokens).after (firstEnd tokens)))
  | failed {error : SyntaxError} {later : Nat} (hend : later ≤ firstEnd tokens) :
      Exhausts tokens (.error error ((ofList tokens).after later))

/-! ## Recursions without a bound -/

/-- Whether families of parsers do the same at all places of a list from a first one on. -/
def Same (tokens : List Token) (start : Nat) (one two : ι → Parser α) : Prop :=
  ∀ place, start ≤ place → place ≤ firstEnd tokens → ∀ i,
    one i ((ofList tokens).after place) = two i ((ofList tokens).after place)

/--
Whether a recursion without a bound, which repeats a round, ends at every place of a list,
and does there what the given loop does.

The loop repeats the round.  What a round does at a place depends on what the recursion does
at later places only, and at the end mark on nothing, so that all that repeats the round is
the loop.
-/
structure Terminates (tokens : List Token) (round : (ι → Parser α) → ι → Parser α)
    (loop : ι → Parser α) : Prop where
  repeats : Same tokens 0 loop (round loop)
  later : ∀ other start, Same tokens (start + 1) other loop →
    Same tokens start (round other) (round loop)
  only : ∀ other, Same tokens 0 other (round other) → Same tokens 0 other loop

abbrev Loops (tokens : List Token) (round : Parser α → Parser α) (loop : Parser α) : Prop :=
  Terminates tokens (fun loop (_ : Unit) => round (loop ())) fun _ => loop

/-- What repeats a round is determined from the end mark backwards. -/
theorem Terminates.intro {round : (ι → Parser α) → ι → Parser α} {loop : ι → Parser α}
    (hrepeats : Same tokens 0 loop (round loop))
    (hlater : ∀ other start, Same tokens (start + 1) other loop →
      Same tokens start (round other) (round loop)) : Terminates tokens round loop where
  repeats := hrepeats
  later := hlater
  only other hother := by
    have hfrom : ∀ rounds start, firstEnd tokens < start + rounds →
        Same tokens start other loop := by
      intro rounds
      induction rounds with
      | zero =>
          intro start hstart place hplace hend
          omega
      | succ rounds ih =>
          intro start hstart place hplace hend i
          have hnext := ih (start + 1) (by omega)
          rw [hother place (Nat.zero_le _) hend i, hrepeats place (Nat.zero_le _) hend i]
          exact hlater other start hnext place hplace hend i
    exact hfrom (firstEnd tokens + 1) 0 (by omega)

end Parser

namespace Window

/-- The whole of a list, twice. -/
def whole (tokens : List Token) : Window :=
  ⟨ofList tokens, ofList tokens, (ofList tokens).ahead.length, ended_ofList tokens,
    ended_ofList tokens, fun _ _ => rfl⟩

section

variable {first second : Parser α} {least : α → Nat}

/-- In the whole of a list, what is foreseen is what is done. -/
theorem Foresees.same (h : (whole tokens).Foresees first second place least)
    (hplace : place ≤ firstEnd tokens) :
    first ((ofList tokens).after place) = second ((ofList tokens).after place) := by
  rw [← length_ahead_ofList] at hplace
  have hrun : (whole tokens).Foreseen place least (first ((ofList tokens).after place))
      (second ((ofList tokens).after place)) := h hplace
  generalize first ((ofList tokens).after place) = result at hrun ⊢
  cases hrun with
  | ok _ _ hstop hother | error _ hstop hother => exact (hother hstop).symm

theorem Steps.advances {parser : Parser α}
    (h : ∀ place, (whole tokens).Steps parser parser place) : Advances tokens parser := by
  intro place hplace
  rw [← length_ahead_ofList] at hplace
  have hrun : (whole tokens).Foreseen place _ (parser ((ofList tokens).after place))
      (parser ((ofList tokens).after place)) := h place hplace
  generalize parser ((ofList tokens).after place) = result at hrun ⊢
  cases hrun with
  | ok _ htaken hstop _ => exact .returned htaken (by rwa [← length_ahead_ofList])
  | error hkept hstop _ => exact .failed hkept (by rwa [← length_ahead_ofList])

end

/-! ## Loops -/

section

variable {round : (ι → Parser α) → ι → Parser α} {loop : ι → Parser α}

/-- A loop that repeats its round ends if the round needs the loop at later places only. -/
theorem terminates_of_repeats (least : Nat → α → Nat)
    (hloop : ∀ start i, (whole tokens).Foresees (loop i) (loop i) start (least start))
    (hround : ∀ start (other twin : ι → Parser α),
      (∀ later i, start < later →
        (whole tokens).Foresees (other i) (twin i) later (least later)) →
      ∀ i, (whole tokens).Foresees (round other i) (round twin i) start (least start))
    (hrepeats : Same tokens 0 loop (round loop)) : Terminates tokens round loop := by
  refine .intro hrepeats fun other start hother place hplace hend i => ?_
  have hlater : ∀ later i, place < later →
      (whole tokens).Foresees (loop i) (other i) later (least later) := by
    intro later i hlater
    refine (hloop later i).congr rfl fun _ hlength => ?_
    exact hother later (Nat.lt_of_le_of_lt hplace hlater)
      (Nat.le_trans hlength (Nat.le_of_eq (length_ahead_ofList tokens))) i
  exact ((hround place loop other hlater i).same hend).symm

/-- The loops that are bounded by the number of tokens ahead. -/
theorem terminates_remaining (upTo : Nat → ι → Parser α)
    (hupTo : ∀ rounds more start i, (whole tokens).Enough rounds more start →
      (whole tokens).Foresees (upTo rounds i) (upTo more i) start fun _ => start)
    (hsucc : ∀ rounds, upTo (rounds + 1) = round (upTo rounds))
    (hround : ∀ start (other twin : ι → Parser α),
      (∀ later i, start < later → (whole tokens).Foresees (other i) (twin i) later fun _ => later) →
      ∀ i, (whole tokens).Foresees (round other i) (round twin i) start fun _ => start) :
    Terminates tokens round fun i => remaining >>= fun rounds => upTo rounds i := by
  refine terminates_of_repeats (fun start _ => start) (fun start i => ?_) hround ?_
  · exact foresees_remaining (hupTo _ _ start i ((whole tokens).enough_remaining start))
  · intro place _ hend i
    let ahead := (ofList tokens).ahead.length - place
    have henough : (whole tokens).Enough ahead ahead place := (whole tokens).enough_remaining place
    have hlater : ∀ later i, place < later → (whole tokens).Foresees (upTo ahead i)
        (remaining >>= fun rounds => upTo rounds i) later fun _ => later := by
      intro later i hlater
      have hfirst := (henough.mono (Nat.le_of_lt hlater)).1
      have hsecond := ((whole tokens).enough_remaining later).2
      refine (hupTo ahead _ later i ⟨hfirst, hsecond⟩).congr rfl fun _ _ => ?_
      show upTo ((ofList tokens).after later).ahead.length i _ = _
      rw [length_ahead_after]
      rfl
    calc upTo ((ofList tokens).after place).ahead.length i ((ofList tokens).after place)
      _ = upTo ahead i ((ofList tokens).after place) := by rw [length_ahead_after]
      _ = upTo (ahead + 1) i ((ofList tokens).after place) :=
          (hupTo ahead (ahead + 1) place i ⟨henough.1, Nat.le_succ_of_le henough.2⟩).same hend
      _ = round (upTo ahead) i ((ofList tokens).after place) := by rw [hsucc]
      _ = _ := (hround place _ _ hlater i).same hend

/-- Like `terminates_remaining`, where no value is carried along. -/
theorem loops_remaining {round : Parser α → Parser α} (upTo : Nat → Parser α)
    (hupTo : ∀ rounds more start, (whole tokens).Enough rounds more start →
      (whole tokens).Foresees (upTo rounds) (upTo more) start fun _ => start)
    (hsucc : ∀ rounds, upTo (rounds + 1) = round (upTo rounds))
    (hround : ∀ start other twin,
      (∀ later, start < later → (whole tokens).Foresees other twin later fun _ => later) →
      (whole tokens).Foresees (round other) (round twin) start fun _ => start) :
    Loops tokens round (remaining >>= upTo) := by
  refine terminates_remaining (fun rounds (_ : Unit) => upTo rounds)
    (fun rounds more start _ => hupTo rounds more start) ?_ ?_
  · exact fun rounds => funext fun _ => hsucc rounds
  · exact fun start other twin hlater _ =>
      hround start (other ()) (twin ()) fun later hstart => hlater later () hstart

end

section

variable {item : Parser α} {step? : α → Parser (Option α)}

theorem loops_items (kind : Token.Kind) (h : ∀ place, (whole tokens).Steps item item place) :
    Loops tokens (itemsRound kind item) (itemsUntil kind item) :=
  loops_remaining (itemsUpTo kind item)
    (fun _ _ _ henough => foresees_itemsUpTo kind (fun place _ => h place) henough)
    (itemsUpTo_succ kind item)
    fun start _ _ hloop => foresees_itemsRound kind (h start) hloop

theorem loops_commaItems (kind : Token.Kind)
    (h : ∀ place, (whole tokens).Steps item item place) :
    Loops tokens (commaItemsRound kind item) (commaItemsUntil kind item) :=
  loops_remaining (commaItemsUpTo kind item)
    (fun _ _ _ henough => foresees_commaItemsUpTo kind (fun place _ => h place) henough)
    (commaItemsUpTo_succ kind item)
    fun start _ _ hloop => foresees_commaItemsRound kind (h start) hloop

theorem loops_further (h : ∀ place, (whole tokens).Steps item item place) :
    Loops tokens (furtherRound item) (remaining >>= furtherUpTo item) :=
  loops_remaining (furtherUpTo item)
    (fun _ _ _ henough => foresees_furtherUpTo (fun place _ => h place) henough)
    (furtherUpTo_succ item)
    fun _ _ _ hloop => foresees_furtherRound (fun place _ => h place) hloop

theorem terminates_extend
    (h : ∀ place value, (whole tokens).StepsOn (step? value) (step? value) place)
    (hends : Ends step?) :
    Terminates tokens (extendRound step?)
      fun value => remaining >>= fun rounds => extendUpTo step? rounds value :=
  terminates_remaining (extendUpTo step?)
    (fun _ _ _ value henough =>
      foresees_extendUpTo (fun place value _ => h place value) hends hends henough value)
    (extendUpTo_succ step?)
    fun start _ _ hloop value => foresees_extendRound (h start value) hloop

end

theorem steps_expression (w : Window) (depth place : Nat) :
    w.Steps (expression depth) (expression depth) place := by
  induction depth generalizing place with
  | zero => exact foresees_unexpected
  | succ depth ih => exact steps_expressionLevel fun later _ => ih later

theorem steps_statement (w : Window) (depth place : Nat) :
    w.Steps (statement depth) (statement depth) place := by
  induction depth generalizing place with
  | zero => exact foresees_unexpected
  | succ depth ih =>
      exact steps_statementLevel (fun later _ => steps_expression w depth later)
        (steps_expression w (depth + 1) place) fun later _ => ih later

/-- More depth than there are tokens makes no difference. -/
theorem enough_of_firstEnd_le {depth deep : Nat} (hdepth : firstEnd tokens ≤ depth)
    (hdeep : firstEnd tokens ≤ deep) : (whole tokens).Enough depth deep 0 :=
  enough_of_le (by rwa [← length_ahead_ofList] at hdepth) (by rwa [← length_ahead_ofList] at hdeep)

theorem loops_expression {depth : Nat} (h : firstEnd tokens ≤ depth) :
    Loops tokens expressionLevel (expression depth) := by
  refine terminates_of_repeats (fun start _ => start + 1)
    (fun start _ => steps_expression _ depth start) ?_ ?_
  · exact fun start other twin hlater _ =>
      steps_expressionLevel fun place hplace => hlater place () hplace
  · intro place _ hend _
    have henough := enough_of_firstEnd_le h (Nat.le_succ_of_le h)
    show expression depth _ = expressionLevel (expression depth) _
    rw [← expression_succ]
    exact (follows_expression henough place (Nat.zero_le _)).same hend

theorem loops_statement {depth : Nat} (h : firstEnd tokens ≤ depth) :
    Loops tokens (statementLevel (expression depth) (expression depth)) (statement depth) := by
  refine terminates_of_repeats (fun start _ => start + 1)
    (fun start _ => steps_statement _ depth start) ?_ ?_
  · intro start other twin hlater _
    exact steps_statementLevel (fun place _ => steps_expression _ depth place)
      (steps_expression _ depth start) fun place hplace => hlater place () hplace
  · intro place _ hend _
    have henough := enough_of_firstEnd_le h (Nat.le_succ_of_le h)
    have hless := enough_of_firstEnd_le (Nat.le_succ_of_le h) h
    -- With a bound, an expression that is the whole statement may be one level deeper.
    have hlevel := steps_statementLevel (fun later _ => steps_expression _ depth later)
      (follows_expression hless place (Nat.zero_le _))
      fun later _ => steps_statement _ depth later
    calc statement depth ((ofList tokens).after place)
      _ = statement (depth + 1) ((ofList tokens).after place) :=
          (follows_statement henough place (Nat.zero_le _)).same hend
      _ = statementLevel (expression depth) (expression (depth + 1)) (statement depth)
            ((ofList tokens).after place) := by rw [statement_succ]
      _ = _ := hlevel.same hend

/-- Items up to the end mark are read up to there. -/
theorem foresees_itemsUpTo_endOfSource {w : Window} {item : Parser α} {rounds : Nat}
    (h : ∀ place, w.Steps item item place) (henough : w.one.ahead.length ≤ place + rounds) :
    w.Foresees (itemsUpTo .endOfSource item rounds) (itemsUpTo .endOfSource item rounds) place
      fun _ => w.one.ahead.length := by
  induction rounds generalizing place with
  | zero => exact foresees_pure henough
  | succ rounds ih =>
      intro hplace
      refine foresees_standsAt .endOfSource (fun hstands => ?_) ?_ hplace
      · have hend : (w.one.after place).atEnd = true := (Bool.or_self _).symm.trans hstands
        exact foresees_pure (Nat.le_of_eq ((w.one_ended.atEnd_after hplace).1 hend).symm)
      · apply (h place).bind
        intro first next hnext
        apply foresees_bind (ih (by omega))
        exact fun rest last _ hlast => foresees_pure hlast

theorem exhausts_program (tokens : List Token) : Exhausts tokens (program (ofList tokens)) := by
  have hprogram : (whole tokens).Foresees program program 0
      fun _ => (ofList tokens).ahead.length := by
    apply foresees_remaining
    apply foresees_bind (foresees_remaining
      (foresees_itemsUpTo_endOfSource (steps_statement _ _) (by omega)))
    exact fun body last _ hlast => foresees_pure hlast
  have hrun : (whole tokens).Foreseen 0 _ (program (ofList tokens)) (program (ofList tokens)) :=
    hprogram (Nat.zero_le _)
  generalize program (ofList tokens) = result at hrun ⊢
  cases hrun with
  | ok _ hleast hstop _ =>
      rw [Nat.le_antisymm hstop hleast]
      show Exhausts tokens (.ok _ ((ofList tokens).after (ofList tokens).ahead.length))
      rw [length_ahead_ofList]
      exact .returned
  | error _ hstop _ => exact .failed (by rwa [← length_ahead_ofList])

end Window

/-! ## Results -/

namespace Parser

/-- Whether every parser takes a token when it returns, with the given parsers for the
expressions and statements in what it reads. -/
structure Progress (tokens : List Token) (expression statement : Parser Node) : Prop where
  statements : Advances tokens statement
  declarations : Advances tokens (advance >>= declaration expression)
  functions : Advances tokens (advance >>= function expression statement)
  reads : Advances tokens readInto
  expressions : Advances tokens expression
  arrays : Advances tokens (array expression)
  assignments : Advances tokens (assignment expression)
  /-- Objects, and comparisons where there is no object. -/
  targets : Advances tokens (target expression)
  comparisons : Advances tokens (comparison expression)
  sums : Advances tokens
    (chain additiveSymbols (chain multiplicativeSymbols (suffixed expression)))
  products : Advances tokens (chain multiplicativeSymbols (suffixed expression))
  members : Advances tokens (suffixed expression)
  argumentLists : Advances tokens (arguments expression)
  primaries : Advances tokens (primary expression)

abbrev ChainEnds (tokens : List Token) (symbols : List String) (operand : Parser Node) : Prop :=
  Terminates tokens (extendRound (operation? symbols operand))
    fun left => do extendUpTo (operation? symbols operand) (← remaining) left

/-- Whether every recursion of the parser ends, with the given parsers for the expressions
and statements in what it reads. -/
structure Termination (tokens : List Token) (expression statement : Parser Node) : Prop where
  expressions : Loops tokens expressionLevel expression
  statements : Loops tokens (statementLevel expression expression) statement
  /-- The statements of a program. -/
  programs : Loops tokens (itemsRound .endOfSource statement) (itemsUntil .endOfSource statement)
  /-- The statements of a function's body. -/
  bodies : Loops tokens (itemsRound .closeBrace statement) (itemsUntil .closeBrace statement)
  entries : Loops tokens (itemsRound .closeBrace (entry expression))
    (itemsUntil .closeBrace (entry expression))
  elements : Loops tokens (commaItemsRound .closeBracket expression)
    (commaItemsUntil .closeBracket expression)
  /-- The arguments after the first one. -/
  furtherArguments : Loops tokens (furtherRound expression)
    (do furtherUpTo expression (← remaining))
  suffixes : Terminates tokens (extendRound (suffix? expression))
    fun object => do extendUpTo (suffix? expression) (← remaining) object
  products : ChainEnds tokens multiplicativeSymbols (suffixed expression)
  sums : ChainEnds tokens additiveSymbols (chain multiplicativeSymbols (suffixed expression))
  comparisons : ChainEnds tokens comparisonSymbols
    (chain additiveSymbols (chain multiplicativeSymbols (suffixed expression)))

end Parser

namespace Window

variable {expression statement : Parser Node}

theorem progress (h : ∀ place, (whole tokens).Steps expression expression place)
    (hstatement : ∀ place, (whole tokens).Steps statement statement place) :
    Progress tokens expression statement := by
  have hinner : ∀ place, (whole tokens).Follows expression expression place :=
    fun _ later _ => h later
  have hbody : ∀ place, (whole tokens).Follows statement statement place :=
    fun _ later _ => hstatement later
  have hmember := follows_suffixed (hinner 1)
  have hproduct := follows_chain multiplicativeSymbols hmember
  have hsum := follows_chain additiveSymbols hproduct
  constructor
  case statements => exact Steps.advances hstatement
  case declarations =>
    exact Steps.advances fun _ =>
      steps_keyword foresees_advance fun keyword later _ => steps_declaration (hinner later) keyword
  case functions =>
    exact Steps.advances fun _ =>
      steps_keyword foresees_advance fun keyword later _ =>
        steps_function (hinner later) (hbody later) keyword
  case reads => exact Steps.advances fun _ => steps_readInto
  case expressions => exact Steps.advances h
  case arrays => exact Steps.advances fun place => steps_array foresees_advance (hinner place)
  case assignments => exact Steps.advances fun place => steps_assignment (hinner (place + 1))
  case targets => exact Steps.advances fun place => steps_target (hinner (place + 1))
  case comparisons => exact Steps.advances fun place => steps_comparison (hinner (place + 1))
  case sums => exact Steps.advances fun place => hsum place (Nat.zero_le place)
  case products => exact Steps.advances fun place => hproduct place (Nat.zero_le place)
  case members => exact Steps.advances fun place => hmember place (Nat.zero_le place)
  case argumentLists => exact Steps.advances fun place => steps_arguments (hinner (place + 1))
  case primaries => exact Steps.advances fun place => steps_primary (hinner (place + 1))

theorem chainEnds (symbols : List String)
    (h : (whole tokens).Follows expression expression 0) : ChainEnds tokens symbols expression :=
  terminates_extend (fun _ left => foresees_operation? symbols (h.mono (Nat.zero_le _)) left)
    (ends_operation? symbols expression)

theorem termination {depth : Nat} (hdepth : firstEnd tokens ≤ depth) :
    Termination tokens (Parser.expression depth) (Parser.statement depth) := by
  have h := steps_expression (whole tokens) depth
  have hstatement := steps_statement (whole tokens) depth
  have hinner : ∀ place, (whole tokens).Follows (Parser.expression depth)
      (Parser.expression depth) place := fun _ later _ => h later
  have hmember := follows_suffixed (hinner 1)
  have hproduct := follows_chain multiplicativeSymbols hmember
  have hsum := follows_chain additiveSymbols hproduct
  constructor
  case expressions => exact loops_expression hdepth
  case statements => exact loops_statement hdepth
  case programs => exact loops_items .endOfSource hstatement
  case bodies => exact loops_items .closeBrace hstatement
  case entries => exact loops_items .closeBrace fun place => steps_entry (hinner (place + 1))
  case elements => exact loops_commaItems .closeBracket h
  case furtherArguments => exact loops_further h
  case suffixes =>
    exact terminates_extend (fun place => foresees_suffix? (hinner (place + 1))) (ends_suffix? _)
  case products => exact chainEnds multiplicativeSymbols hmember
  case sums => exact chainEnds additiveSymbols hproduct
  case comparisons => exact chainEnds comparisonSymbols hsum

end Window

/--
The parser makes progress, and its cursor is safe.

After any operations a cursor on a list of tokens stands at a place up to the first end
mark and shows the token that is there.  One more operation takes it on by one place at
most, never back, and not at all if it asks for a token that is not shown.

A parser that returns has taken a token, whichever place it began at.  So every loop of the
parser, and every nesting of expressions and statements, ends, at malformed tokens and at
the end mark too.  A whole program that is read leaves the cursor at the first end mark,
with nothing taken if nothing is there before it, and one that fails does so no later.
-/
theorem parser_progress (tokens : List Token) :
    (∀ (operations : List Operation) (operation : Operation),
        operation.Safe tokens (Operation.run operations (ofList tokens))) ∧
      (∀ depth, Progress tokens (expression depth) (statement depth)) ∧
      (∀ depth, firstEnd tokens ≤ depth →
        Termination tokens (expression depth) (statement depth)) ∧
      Exhausts tokens (program (ofList tokens)) := by
  refine ⟨Operation.safe_run tokens, fun depth => ?_, fun depth => Window.termination,
    Window.exhausts_program tokens⟩
  exact Window.progress (Window.steps_expression _ depth) (Window.steps_statement _ depth)

end Nomi
