import Nomi.Proofs.Lexical.Numerals
import Nomi.Proofs.Syntax.Recognition
import Nomi.Syntax.Program

/-!
# The language of the parser

The parser returns the trees that the tokens before the end mark derive as, and
fails if there are none.  The grammar decides every choice: a bracket behind an
operand always goes on with it, even where only a new statement could begin
with the bracket.
-/

namespace Nomi

open Grammar Nomi.Parser

variable {before : List Token} {stop : Token}

theorem Cursor.ofList_append_stop (hstop : stop.kind = .endOfSource)
    (hbefore : ∀ token ∈ before, token.kind ≠ .endOfSource) :
    Cursor.ofList (before ++ [stop]) = ⟨before, stop, 0⟩ := by
  have hend : Cursor.isEnd stop = true := by simp [Cursor.isEnd, hstop]
  have hgoes : ∀ token ∈ before, (!Cursor.isEnd token) = true := by
    intro token hmem
    simp [Cursor.isEnd, hbefore token hmem]
  have hnone : before.find? Cursor.isEnd = none :=
    List.find?_eq_none.2 fun token hmem => by simpa using hgoes token hmem
  have hahead : (before ++ [stop]).takeWhile (!Cursor.isEnd ·) = before := by
    rw [List.takeWhile_append_of_pos hgoes]
    simp [hend]
  have hfound : (before ++ [stop]).find? Cursor.isEnd = some stop := by
    simp [List.find?_append, hnone, hend]
  simp only [Cursor.ofList, hahead, hfound, Option.getD_some]

/-- Tokens that sources are cut into can be read. -/
theorem Parser.legible_of_isPlain {token : Token} (hend : token.kind ≠ .endOfSource)
    (hnumber : token.kind = .number → Numeral.isPlain token.lexeme.toList = true) :
    Legible token := by
  refine ⟨by simp [Cursor.isEnd, hend], ?_⟩
  intro hkind
  exact Numeral.read?_of_isPlain (hnumber hkind)

/-- Statements that take up all tokens are the program. -/
theorem parseTokens_of_takes {nodes : List Node} (hstop : stop.kind = .endOfSource)
    (hbefore : ∀ token ∈ before, token.kind ≠ .endOfSource)
    (h : Takes (itemsUpTo .endOfSource (statement before.length) before.length) before [] nodes) :
    parseTokens (before ++ [stop]) = .ok (.program .start nodes) := by
  have hend : Cursor.isEnd stop = true := by simp [Cursor.isEnd, hstop]
  have hrounds : Takes (itemsUntil .endOfSource (statement before.length)) before [] nodes := by
    apply takes_remaining
    rw [List.append_nil]
    exact h
  have hprogram : Takes program before [] (.program .start nodes) := by
    apply takes_remaining
    rw [List.append_nil]
    exact hrounds.bind_last (takes_pure _ [])
  have hrun := hprogram stop 0 hend
  rw [List.append_nil] at hrun
  rw [parseTokens, Cursor.ofList_append_stop hstop hbefore, hrun]

theorem parseTokens_of_derives {trees : List Node} (hstop : stop.kind = .endOfSource)
    (hbefore : ∀ token ∈ before, token.kind ≠ .endOfSource)
    (h : Derives .greedy before (.statements trees)) :
    parseTokens (before ++ [stop]) = .ok (.program .start trees) := by
  have hbody := accepts_of_derives h .endOfSource before.length before.length [] (Nat.le_refl _)
    (Nat.le_refl _) (.inl ⟨rfl, rfl⟩)
  exact parseTokens_of_takes hstop hbefore hbody

/-- Whatever the parser makes of tokens that can be read, it is what they derive
as or an error of the grammar. -/
theorem parseTokens_spec (hstop : stop.kind = .endOfSource)
    (hlegible : ∀ token ∈ before, Legible token) :
    (∃ trees, parseTokens (before ++ [stop]) = .ok (.program .start trees) ∧
        Derives .greedy before (.statements trees)) ∨
      ∃ error, parseTokens (before ++ [stop]) = .error error ∧
        ∀ lexeme, error.cause ≠ .notANumeral lexeme := by
  have hend : Cursor.isEnd stop = true := by simp [Cursor.isEnd, hstop]
  have hbefore : ∀ token ∈ before, token.kind ≠ .endOfSource :=
    fun token hmem => legible_kind_ne (hlegible token hmem)
  have hreads := reads_program before hlegible stop 0 hend
  rw [parseTokens, Cursor.ofList_append_stop hstop hbefore]
  cases h : program ⟨before, stop, 0⟩ with
  | error error cursor =>
      rw [h] at hreads
      exact .inr ⟨error, rfl, hreads⟩
  | ok tree cursor =>
      rw [h] at hreads
      obtain ⟨taken, rest, _, _, _, _, trees, rfl, hderives⟩ := hreads
      exact .inl ⟨trees, rfl, hderives⟩

/--
The parser accepts exactly its grammar.

Of the tokens it is only asked that the end mark is the last one and that
numerals are written as in sources.  The places of the program are those of the
derivation, and so the same holds when places are left out on both sides.
-/
theorem parseTokens_iff_derives (before : List Token) (stop : Token)
    (hstop : stop.kind = .endOfSource)
    (hbefore : ∀ token ∈ before, token.kind ≠ .endOfSource)
    (hnumbers : ∀ token ∈ before, token.kind = .number →
      Numeral.isPlain token.lexeme.toList = true) :
    (∀ tree : Node, parseTokens (before ++ [stop]) = .ok tree ↔
      ∃ trees, tree = .program .start trees ∧ Derives .greedy before (.statements trees)) ∧
    (∀ tree : Node,
      (∃ program, parseTokens (before ++ [stop]) = .ok program ∧
        program.unplaced = tree.unplaced) ↔
      ∃ trees, tree.unplaced = .program .nowhere (Node.unplacedAll trees) ∧
        Derives .greedy before (.statements trees)) ∧
    ((∀ trees, ¬ Derives .greedy before (.statements trees)) →
      ∃ error, parseTokens (before ++ [stop]) = .error error ∧
        ∀ lexeme, error.cause ≠ .notANumeral lexeme) := by
  have hlegible : ∀ token ∈ before, Legible token := fun token hmem =>
    legible_of_isPlain (hbefore token hmem) (hnumbers token hmem)
  have hspec := parseTokens_spec hstop hlegible
  have hexact (tree : Node) : parseTokens (before ++ [stop]) = .ok tree ↔
      ∃ trees, tree = .program .start trees ∧ Derives .greedy before (.statements trees) := by
    constructor
    · intro h
      rcases hspec with ⟨trees, htrees, hderives⟩ | ⟨error, herror, _⟩
      · rw [h, Except.ok.injEq] at htrees
        exact ⟨trees, htrees, hderives⟩
      · rw [h] at herror
        contradiction
    · rintro ⟨trees, rfl, hderives⟩
      exact parseTokens_of_derives hstop hbefore hderives
  refine ⟨hexact, fun tree => ⟨?_, ?_⟩, ?_⟩
  · rintro ⟨program, hprogram, htree⟩
    obtain ⟨trees, rfl, hderives⟩ := (hexact program).1 hprogram
    exact ⟨trees, htree.symm, hderives⟩
  · rintro ⟨trees, htree, hderives⟩
    exact ⟨_, (hexact _).2 ⟨trees, rfl, hderives⟩, htree.symm⟩
  · intro hnone
    rcases hspec with ⟨trees, _, hderives⟩ | herror
    · exact absurd hderives (hnone trees)
    · exact herror

/-- In `a [1]` the bracket goes on with the name. -/
theorem derives_greedy_member :
    Derives .greedy [⟨.identifier, "a", ⟨1, 1⟩⟩, ⟨.openBracket, "[", ⟨1, 3⟩⟩,
        ⟨.number, "1", ⟨1, 4⟩⟩, ⟨.closeBracket, "]", ⟨1, 5⟩⟩]
      (.statements [.member ⟨1, 1⟩ (.identifier ⟨1, 1⟩ "a")
        (.number ⟨1, 4⟩ ((Decimal.mk 1 0).toFloat false)) true]) := by
  have hiff := parseTokens_iff_derives [⟨.identifier, "a", ⟨1, 1⟩⟩, ⟨.openBracket, "[", ⟨1, 3⟩⟩,
    ⟨.number, "1", ⟨1, 4⟩⟩, ⟨.closeBracket, "]", ⟨1, 5⟩⟩] (.endMark ⟨1, 6⟩) rfl (by decide)
    (by decide)
  obtain ⟨trees, htrees, hderives⟩ :=
    (hiff.1 (.program .start [.member ⟨1, 1⟩ (.identifier ⟨1, 1⟩ "a")
      (.number ⟨1, 4⟩ ((Decimal.mk 1 0).toFloat false)) true])).1 rfl
  cases htrees
  exact hderives

/-- An operand alone is a chain. -/
theorem Grammar.derives_chain_of_operand {boundary : Boundary} {level : Level}
    {tokens : List Token} {tree : Node} (h : Derives boundary tokens (level.operand tree)) :
    Derives boundary tokens (.chain level tree) := by
  have hchain := Derives.chain h .noOperator
  rw [List.append_nil] at hchain
  exact hchain

theorem Grammar.derives_expression_of_primary {boundary : Boundary} {tokens : List Token}
    {tree : Node} (h : Derives boundary tokens (.primary tree)) :
    Derives boundary tokens (.expression tree false) := by
  have hsuffixed := Derives.suffixed h .noSuffix
  rw [List.append_nil] at hsuffixed
  have hproduct : Derives boundary tokens (.chain .product tree) :=
    derives_chain_of_operand hsuffixed
  have hsum : Derives boundary tokens (.chain .sum tree) := derives_chain_of_operand hproduct
  exact .target (.comparison (derives_chain_of_operand hsum))

/-- The choice matters: with boundaries anywhere, `a []` derives as two
statements, but the parser refuses it. -/
theorem not_parseTokens_iff_derives_anywhere :
    ¬ ∀ (before : List Token) (stop : Token), stop.kind = .endOfSource →
      (∀ token ∈ before, token.kind ≠ .endOfSource) →
      (∀ token ∈ before, token.kind = .number → Numeral.isPlain token.lexeme.toList = true) →
      ∀ tree : Node,
        (∃ program, parseTokens (before ++ [stop]) = .ok program ∧
          program.unplaced = tree.unplaced) ↔
        ∃ trees, tree.unplaced = .program .nowhere (Node.unplacedAll trees) ∧
          Derives .anywhere before (.statements trees) := by
  intro h
  have hname : Derives .anywhere [⟨.identifier, "a", ⟨1, 1⟩⟩]
      (.statement (.identifier ⟨1, 1⟩ "a") false) :=
    .expressionStatement rfl (derives_expression_of_primary (.identifier rfl))
  have harray : Derives .anywhere [⟨.openBracket, "[", ⟨1, 3⟩⟩, ⟨.closeBracket, "]", ⟨1, 4⟩⟩]
      (.statement (.array ⟨1, 3⟩ []) true) :=
    .expressionStatement rfl (.array rfl .noElement rfl)
  have hderives := Derives.statement hname (.statement harray .noStatement trivial) trivial
  obtain ⟨program, hprogram, _⟩ :=
    (h [⟨.identifier, "a", ⟨1, 1⟩⟩, ⟨.openBracket, "[", ⟨1, 3⟩⟩, ⟨.closeBracket, "]", ⟨1, 4⟩⟩]
      (.endMark ⟨1, 5⟩) rfl (by decide) (by decide)
      (.program .start [.identifier ⟨1, 1⟩ "a", .array ⟨1, 3⟩ []])).2
      ⟨_, rfl, hderives⟩
  have herror : parseTokens [⟨.identifier, "a", ⟨1, 1⟩⟩, ⟨.openBracket, "[", ⟨1, 3⟩⟩,
      ⟨.closeBracket, "]", ⟨1, 4⟩⟩, .endMark ⟨1, 5⟩] =
      .error ⟨.unexpected .closeBracket "]", ⟨1, 4⟩⟩ := rfl
  have hboth := hprogram.symm.trans herror
  contradiction

end Nomi
