import Nomi.Proofs.Eval.Agreement
import Nomi.Proofs.Eval.Bodies
import Nomi.Proofs.Eval.Growth
import Nomi.Proofs.Syntax.Joining

/-!
# Joined programs and sessions

A program that is put together of two runs as a session of both does.  The world
that the first leaves is all that the second goes on from, so only the places of
the second differ.
-/

namespace Nomi

def Node.statements : Node → List Node
  | .program _ body => body
  | _ => []

/-- Whether two worlds hold the same, apart from places in the bodies of functions,
which correspond. -/
structure World.Alike (places : Places) (first second : World) : Prop where
  size : first.store.size = second.store.size
  scopes : ∀ id, Option.Rel (Scope.Alike places fun _ => True)
    (first.store.scope? id) (second.store.scope? id)
  input : first.input = second.input
  output : first.output = second.output

theorem Outcome.Alike.mono {places : Places} {seen more : ScopeId → Prop} {first second : Outcome}
    (h : first.Alike places seen second) (hmore : ∀ id, seen id → more id) :
    first.Alike places more second := by
  cases h with
  | ok hvalue => exact .ok (hvalue.mono hmore)
  | error hfailure => exact .error hfailure

def wholeView (places : Places) : View where
  places := places
  shown := fun _ => True
  left := .empty
  right := .empty

variable {places : Places}

theorem wholeView_sees (size : Nat) (id : ScopeId) : (wholeView places).Sees size id :=
  .inl trivial

theorem View.Worlds.alike {first second : World} (h : (wholeView places).Worlds first second) :
    first.Alike places second where
  size := h.stores.size
  scopes := by
    intro id
    rcases h.stores.scope_cases (wholeView_sees _ id) with ⟨ha, hb⟩ | ⟨a, b, ha, hb, hscope⟩
    · rw [ha, hb]
      exact .none
    · rw [ha, hb]
      exact .some (hscope.mono fun _ _ => trivial)
  input := h.input
  output := h.output

theorem globalScope_alike {seen : ScopeId → Prop} :
    Scope.Alike places seen Store.globalScope Store.globalScope where
  parent := rfl
  outwards := fun id hparent => by contradiction
  values := .cons ⟨rfl, .boolean⟩ (.cons ⟨rfl, .boolean⟩ (.cons ⟨rfl, .null⟩
    (.cons ⟨rfl, .builtin⟩ (.cons ⟨rfl, .builtin⟩ .nil))))
  constants := rfl

theorem worlds_initial (input : List String) :
    (wholeView places).Worlds (.initial input) (.initial input) := by
  refine ⟨⟨rfl, Nat.zero_le _, fun id _ => ?_, ?_, ?_⟩, rfl, rfl⟩
  · show Option.Rel _ (Store.initial.scope? id) (Store.initial.scope? id)
    rw [Store.scope?_initial]
    split
    · exact .some globalScope_alike
    · exact .none
  · exact fun _ _ hhidden => absurd trivial hhidden
  · exact fun _ _ hhidden => absurd trivial hhidden

def globalStatement (host : Host) : Node → Eval Value :=
  evaluate host (depthLimit - 1) Store.globalId

theorem step_of_parse (host : Host) {source : String} {position : Position} {body : List Node}
    (h : parse source = .ok (.program position body)) :
    step host source = (Eval.runBody (globalStatement host) body).outcome := by
  funext world
  unfold step
  rw [h]
  rfl

theorem wrote_step (host : Host) (source : String) (world : World) :
    world.Wrote (step host source world).2 :=
  (onward_step host source world).output

/-! ## Joined programs -/

section Bodies

variable {statement : Node → Eval Value} {done rest : List Node} {world : World}

/-- A body that goes on behind one that ran well ends as the rest does from there. -/
theorem outcome_append_ok {value : Value}
    (h : ((Eval.runBody statement done).outcome world).1 = .ok value) (hrest : rest ≠ []) :
    (Eval.runBody statement (done ++ rest)).outcome world =
      (Eval.runBody statement rest).outcome ((Eval.runBody statement done).outcome world).2 := by
  unfold Eval.outcome at h ⊢
  cases hdone : Eval.runBody statement done world with
  | ok found next => rw [Eval.runBody_append_ok hdone hrest]
  | error failure next =>
      rw [hdone] at h
      contradiction

/-- A body that goes on behind one that failed has failed. -/
theorem outcome_append_error {failure : Failure}
    (h : ((Eval.runBody statement done).outcome world).1 = .error failure) (rest : List Node) :
    (Eval.runBody statement (done ++ rest)).outcome world =
      (Eval.runBody statement done).outcome world := by
  unfold Eval.outcome at h ⊢
  cases hdone : Eval.runBody statement done world with
  | ok found next =>
      rw [hdone] at h
      contradiction
  | error found last => rw [Eval.runBody_append_error hdone]

end Bodies

/-- Bodies that are alike end alike, from worlds that are alike. -/
theorem outcome_alike (host : Host) {xs ys : List Node} (hbody : Node.AlikeAll places xs ys)
    {one two : World} (hworlds : (wholeView places).Worlds one two) :
    let first := (Eval.runBody (globalStatement host) xs).outcome one
    let second := (Eval.runBody (globalStatement host) ys).outcome two
    first.1.Alike places (fun _ => True) second.1 ∧
      (wholeView places).Worlds first.2 second.2 := by
  have hbodies : (wholeView places).comparison.Agree 0 (Eval.runBody (globalStatement host) xs)
      (Eval.runBody (globalStatement host) ys) (wholeView places).Values :=
    Comparison.agree_runBody ((wholeView places).lawful_comparison host) hbody fun _ _ hnode =>
      agree_evaluate _ host _ (wholeView_sees _ Store.globalId) hnode
  have hends := (hbodies one two hworlds (Nat.zero_le _)).outcome
  exact ⟨hends.1.mono fun _ _ => trivial, hends.2⟩

/-- If the first of two programs runs well, statements that go on from the world that it
leaves end as the joined program does, if they are like the statements that follow there. -/
theorem Parsed.ends_join (host : Host) (input : List String) {first : String}
    {tokens : List Token} {stop : Token} {xs ys moved : List Node}
    (hfirst : Parsed first tokens stop xs) {joined : String}
    (hjoined : parse joined = .ok (.program .start (xs ++ moved))) (hsome : moved ≠ [])
    (hself : Node.AlikeAll places xs xs) (hbelow : Node.AlikeAll places ys moved)
    {value : Value} (hvalue : (step host first (.initial input)).1 = .ok value) :
    let world := (step host first (.initial input)).2
    let ends := (Eval.runBody (globalStatement host) ys).outcome world
    ends.1.Alike places (fun _ => True) (run host joined input).1 ∧
      ends.2.Alike places (run host joined input).2 := by
  rw [step_of_parse host hfirst.parse_eq] at hvalue ⊢
  -- Both runs go on from one world, which is like itself by these places.
  have hmiddle := (outcome_alike host hself (worlds_initial input)).2
  have hends := outcome_alike host hbelow hmiddle
  have hrun := congrFun (step_of_parse host hjoined) (.initial input)
  rw [run, hrun, outcome_append_ok hvalue hsome]
  exact ⟨hends.1, hends.2.alike⟩

section Sources

variable {first second : String} {program other : Node} {tokens : List Token} {stop : Token}

/-- Two sources that are joined, taken apart into their tokens and statements. -/
theorem exists_join (hfirst : parse first = .ok program) (hsecond : parse second = .ok other)
    (htokens : tokenize first = .ok (tokens ++ [stop]))
    (hended : tokens.getLast?.map (·.kind) = some .semicolon) (hsome : other.statements ≠ []) :
    ∃ before mark xs others last ys moved, program = .program .start xs ∧
      other = .program .start ys ∧ Parsed first before mark xs ∧ Parsed second others last ys ∧
      parseTokens ((others ++ [last]).map
          (Token.moved (Position.down (Lexical.height first.toList)))) =
        .ok (.program .start moved) ∧
      parse (first ++ "\n" ++ second) = .ok (.program .start (xs ++ moved)) ∧ moved ≠ [] := by
  obtain ⟨before, mark, xs, rfl, hone⟩ := parsed_of_parse hfirst
  obtain ⟨others, last, ys, rfl, htwo⟩ := parsed_of_parse hsecond
  have hlast : Grammar.Ended before := by
    have hcut := hone.cut.symm.trans htokens
    simp only [Except.ok.injEq, List.append_singleton_inj] at hcut
    rw [hcut.1]
    intro token hmem
    rw [hmem] at hended
    simpa using hended
  obtain ⟨moved, hmoved, hjoined⟩ := hone.join htwo hlast
  let anywhere : Places := fun _ _ => True
  have hbelow : Node.AlikeAll anywhere ys moved := htwo.moved_alike htwo.program_moved_id hmoved
    fun _ _ => trivial
  have hrest : moved ≠ [] := by
    rintro rfl
    cases hbelow
    exact hsome rfl
  exact ⟨before, mark, xs, others, last, ys, moved, rfl, rfl, hone, htwo, hmoved, hjoined, hrest⟩

/--
A program that ends in a semicolon and another program, with a line feed between
them, are one program.  If the first fails, the joined one fails in the same way and
leaves the same.  If not, the joined one ends as the second step of a session of both,
and leaves the same, but for places in the second.
-/
theorem run_joined (host : Host) (input : List String) {first second : String}
    {program other : Node} {tokens : List Token} {stop : Token}
    (hfirst : parse first = .ok program) (hsecond : parse second = .ok other)
    (htokens : tokenize first = .ok (tokens ++ [stop]))
    (hended : tokens.getLast?.map (·.kind) = some .semicolon) (hsome : other.statements ≠ []) :
    let lines := 1 + first.toList.count '\n'
    let joined := first ++ "\n" ++ second
    (∃ moved, Node.AlikeAll (fun p q => q = p.down lines) other.statements moved ∧
      parse joined = .ok (.program .start (program.statements ++ moved))) ∧
      ∃ one two, session host [first, second] (.initial input) = [one, two] ∧
        (∀ failure, one.1 = .error failure → run host joined input = one) ∧
        ∀ value, one.1 = .ok value →
          two.1.Alike (Joined lines) (fun _ => True) (run host joined input).1 ∧
            two.2.Alike (Joined lines) (run host joined input).2 ∧
            ∃ written, two.2.output = one.2.output ++ written := by
  intro lines joined
  obtain ⟨_, _, xs, _, _, ys, moved, rfl, rfl, hone, htwo, hmoved, hjoined, hrest⟩ :=
    exists_join hfirst hsecond htokens hended hsome
  have hdown : ∀ places : Places, (∀ p : Position, 1 ≤ p.line → places p (p.down lines)) →
      Node.AlikeAll places ys moved := fun _ hplaces =>
    htwo.moved_alike htwo.program_moved_id hmoved hplaces
  refine ⟨⟨moved, hdown _ fun _ _ => rfl, hjoined⟩, _, _, rfl, ?_, ?_⟩
  · intro failure hfailure
    have hrun := congrFun (step_of_parse host hjoined) (.initial input)
    rw [step_of_parse host hone.parse_eq] at hfailure ⊢
    exact hrun.trans (outcome_append_error hfailure moved)
  · intro value hvalue
    -- The first program is compared with itself, and the second with what lies further down.
    have hself : Node.AlikeAll (Joined lines) xs xs := hone.alike_self fun p hp => .inl ⟨hp, rfl⟩
    have hbelow : Node.AlikeAll (Joined lines) ys moved := by
      refine hdown _ fun p hp => .inr ⟨?_, rfl⟩
      show (lines : Int) < p.line + lines
      omega
    have hends := hone.ends_join host input hjoined hrest hself hbelow hvalue
    have hwrote := wrote_step host second ((step host first (.initial input)).2)
    rw [step_of_parse host htwo.parse_eq] at hwrote ⊢
    exact ⟨hends.1, hends.2, hwrote⟩

/-- A step that fails in the function of the first source, and one that fails by itself.  The
place of the first failure stays, and that of the second is further down. -/
theorem run_joined_failing :
    let first := "fn f(){f.x}let x;"
    let host : Host := ⟨0, .cancels⟩
    let fails := fun (type : String) (p : Position) =>
      (.error (.operation (.noProperties "x" type) p) : Outcome)
    (∃ one two, session host [first, "f()"] (.initial []) = [one, two] ∧
      two.1 = fails "function" ⟨1, 8⟩ ∧
      (run host (first ++ "\n" ++ "f()") []).1 = fails "function" ⟨1, 8⟩ ∧
      two.2.Alike (Joined 1) (run host (first ++ "\n" ++ "f()") []).2) ∧
    ∃ one two, session host [first, "x.x"] (.initial []) = [one, two] ∧
      two.1 = fails "null" ⟨1, 1⟩ ∧
      (run host (first ++ "\n" ++ "x.x") []).1 = fails "null" ⟨2, 1⟩ ∧
      two.2.Alike (Joined 1) (run host (first ++ "\n" ++ "x.x") []).2 := by
  intro first host fails
  let before : List Token := [⟨.fnWord, "fn", ⟨1, 1⟩⟩, ⟨.identifier, "f", ⟨1, 4⟩⟩,
    ⟨.openParen, "(", ⟨1, 5⟩⟩, ⟨.closeParen, ")", ⟨1, 6⟩⟩, ⟨.openBrace, "\x7b", ⟨1, 7⟩⟩,
    ⟨.identifier, "f", ⟨1, 8⟩⟩, ⟨.dot, ".", ⟨1, 9⟩⟩, ⟨.identifier, "x", ⟨1, 10⟩⟩,
    ⟨.closeBrace, "\x7d", ⟨1, 11⟩⟩, ⟨.letWord, "let", ⟨1, 12⟩⟩, ⟨.identifier, "x", ⟨1, 16⟩⟩,
    ⟨.semicolon, ";", ⟨1, 17⟩⟩]
  let declared : List Node := [.function ⟨1, 1⟩ "f" []
      [.member ⟨1, 8⟩ (.identifier ⟨1, 8⟩ "f") (.identifier ⟨1, 10⟩ "x") false],
    .declaration ⟨1, 12⟩ "x" false .absent]
  have hcut : tokenize first = .ok (before ++ [.endMark ⟨1, 18⟩]) := by decide
  have hparse : parse first = .ok (.program .start declared) := parse_of_tokenize hcut rfl
  have hstep : (step host first (.initial [])).1 = .ok .null := by
    rw [step, hparse]
    with_unfolding_all rfl
  -- The place in the session is told by the place in the joined program.
  have hjoin : ∀ {second : String} {statement moved : Node} {type : String} {p q : Position},
      parse second = .ok (.program .start [statement]) →
      parse (first ++ "\n" ++ second) = .ok (.program .start (declared ++ [moved])) →
      (evaluateGlobally host (.program .start (declared ++ [moved])) (.initial [])).1 =
        fails type q →
      (∀ r, Joined 1 r q → r = p) →
      ∃ one two, session host [first, second] (.initial []) = [one, two] ∧
        two.1 = fails type p ∧ (run host (first ++ "\n" ++ second) []).1 = fails type q ∧
        two.2.Alike (Joined 1) (run host (first ++ "\n" ++ second) []).2 := by
    intro second statement moved type p q hsecond hjoined hends hplace
    obtain ⟨one, two, hsession, -, hjoins⟩ :=
      (run_joined host [] hparse hsecond hcut rfl (List.cons_ne_nil _ _)).2
    have hone : one.1 = .ok .null := by
      cases hsession
      exact hstep
    obtain ⟨halike, hworlds, -⟩ := hjoins _ hone
    have hlines : 1 + first.toList.count '\n' = 1 := by decide
    rw [hlines] at halike hworlds
    have hrun : (run host (first ++ "\n" ++ second) []).1 = fails type q := by
      rw [run, step, hjoined]
      exact hends
    refine ⟨one, two, hsession, ?_, hrun, hworlds⟩
    rw [hrun] at halike
    generalize two.1 = ending at halike
    cases halike with
    | error hfailure =>
        cases hfailure with
        | operation _ hjoined =>
            rw [hplace _ hjoined]
  constructor
  · have hsecond : tokenize "f()" = .ok [⟨.identifier, "f", ⟨1, 1⟩⟩, ⟨.openParen, "(", ⟨1, 2⟩⟩,
        ⟨.closeParen, ")", ⟨1, 3⟩⟩, .endMark ⟨1, 4⟩] := by decide
    have hjoined : tokenize (first ++ "\n" ++ "f()") = .ok (before ++
        [⟨.identifier, "f", ⟨2, 1⟩⟩, ⟨.openParen, "(", ⟨2, 2⟩⟩, ⟨.closeParen, ")", ⟨2, 3⟩⟩,
        .endMark ⟨2, 4⟩]) := by decide
    refine hjoin (parse_of_tokenize hsecond rfl) (parse_of_tokenize hjoined rfl) ?_ ?_
    · with_unfolding_all rfl
    · rintro r (⟨_, hsame⟩ | ⟨hline, _⟩)
      · exact hsame.symm
      · contradiction
  · have hsecond : tokenize "x.x" = .ok [⟨.identifier, "x", ⟨1, 1⟩⟩, ⟨.dot, ".", ⟨1, 2⟩⟩,
        ⟨.identifier, "x", ⟨1, 3⟩⟩, .endMark ⟨1, 4⟩] := by decide
    have hjoined : tokenize (first ++ "\n" ++ "x.x") = .ok (before ++
        [⟨.identifier, "x", ⟨2, 1⟩⟩, ⟨.dot, ".", ⟨2, 2⟩⟩, ⟨.identifier, "x", ⟨2, 3⟩⟩,
        .endMark ⟨2, 4⟩]) := by decide
    refine hjoin (parse_of_tokenize hsecond rfl) (parse_of_tokenize hjoined rfl) ?_ ?_
    · with_unfolding_all rfl
    · rintro ⟨line, column⟩ (⟨hline, _⟩ | ⟨_, hbelow⟩)
      · contradiction
      · simp only [Position.down, Position.mk.injEq] at hbelow ⊢
        omega

/-- Wherever the places of the second program have been moved, a session goes on with it to
the end of the joined program.  What is said of a place of the first program is said there
of the same place, and what is said of one that has been moved, of the place further down. -/
theorem run_joined_moved (host : Host) (input : List String)
    (hfirst : parse first = .ok program) (hsecond : parse second = .ok other)
    (htokens : tokenize first = .ok (tokens ++ [stop]))
    (hended : tokens.getLast?.map (·.kind) = some .semicolon) (hsome : other.statements ≠ [])
    (move : Position → Position) :
    let lines := 1 + first.toList.count '\n'
    let joined := first ++ "\n" ++ second
    ∃ body, Node.AlikeAll (fun p q => q = move p) other.statements body ∧
      ∀ value, (step host first (.initial input)).1 = .ok value →
        let world := (step host first (.initial input)).2
        let ends := (Eval.runBody (globalStatement host) body).outcome world
        ends.1.Alike (JoinedFrom lines move) (fun _ => True) (run host joined input).1 ∧
          ends.2.Alike (JoinedFrom lines move) (run host joined input).2 := by
  intro lines joined
  obtain ⟨_, _, xs, _, _, ys, moved, rfl, rfl, hone, htwo, hmoved, hjoined, hrest⟩ :=
    exists_join hfirst hsecond htokens hended hsome
  obtain ⟨body, hbody⟩ := htwo.exists_moved move
  refine ⟨body, htwo.moved_alike htwo.program_moved_id hbody fun _ _ => rfl, ?_⟩
  intro value hvalue
  have hself : Node.AlikeAll (JoinedFrom lines move) xs xs :=
    hone.alike_self fun p hp => .inl ⟨hp, rfl⟩
  have hbelow : Node.AlikeAll (JoinedFrom lines move) body moved :=
    htwo.moved_alike hbody hmoved fun p hp => .inr ⟨p, hp, rfl, rfl⟩
  exact hone.ends_join host input hjoined hrest hself hbelow hvalue

end Sources

end Nomi
