import Nomi.Proofs.Number.Equality
import Nomi.Proofs.Syntax.Cursor
import Nomi.Proofs.Syntax.Placement
import Nomi.Proofs.Syntax.Sources

/-!
# Trees that are equal up to places

There are three ways to say that two trees are the same up to places: they are
alike with any places for any others, they are the same without places, or they
compare as equal.  The first two always agree.  The third passes over the sign of a
zero, which no numeral of a source has.
-/

namespace Nomi

open Grammar

def Places.any : Places :=
  fun _ _ => True

namespace Node

theorem alike_of_unplaced_eq {a b : Node} (h : a.unplaced = b.unplaced) :
    Alike Places.any a b := by
  induction a using children_induction generalizing b with
  | step a ih =>
      obtain ⟨hhead, hchildren⟩ := unplaced_eq_iff.1 h
      refine alike_of_parts hhead (fun _ => trivial) ?_
      exact rel_of_mem hchildren fun child hmem _ _ => ih child hmem

mutual

/-- Whether no number of a tree has a minus sign. -/
def isUnsigned : Node → Bool
  | .program _ nodes | .function _ _ _ nodes | .array _ nodes | .object _ nodes =>
      isUnsignedAll nodes
  | .declaration _ _ _ value | .property _ _ value => isUnsigned value
  | .assignment _ left right | .binary _ _ left right | .member _ left right _ =>
      isUnsigned left && isUnsigned right
  | .call _ callee values => isUnsigned callee && isUnsignedAll values
  | .number _ value => decide (Binary64.Unsigned value)
  | .identifier .. | .string .. | .read .. | .abstract .. | .absent => true

def isUnsignedAll : List Node → Bool
  | [] => true
  | node :: rest => isUnsigned node && isUnsignedAll rest

end

theorem isUnsignedAll_iff {nodes : List Node} :
    isUnsignedAll nodes = true ↔ ∀ node ∈ nodes, node.isUnsigned = true := by
  induction nodes with
  | nil => simp [isUnsignedAll]
  | cons node rest ih => simp [isUnsignedAll, ih]

theorem isUnsigned_iff {node : Node} :
    node.isUnsigned = true ↔
      node.head.isUnsigned = true ∧ ∀ child ∈ node.children, child.isUnsigned = true := by
  cases node <;> simp [isUnsigned, isUnsignedAll, isUnsignedAll_iff, head, children]

theorem rel_of_sameAll {xs ys : List Node} (h : sameAll xs ys = true) :
    List.Forall₂ (fun x y => x.same y = true) xs ys := by
  induction xs generalizing ys with
  | nil =>
      cases ys with
      | nil => exact .nil
      | cons _ _ => simp [sameAll] at h
  | cons x rest ih =>
      cases ys with
      | nil => simp [sameAll] at h
      | cons y more =>
          rw [sameAll, Bool.and_eq_true] at h
          exact .cons h.1 (ih h.2)

/-- Trees that compare as equal have children that do. -/
theorem children_of_same {a b : Node} (h : a.same b = true) :
    List.Forall₂ (fun x y => x.same y = true) a.children b.children := by
  unfold same at h
  split at h
  all_goals simp_all [children, rel_of_sameAll]

/-- Without signs, trees that compare as equal have the same head. -/
theorem head_eq_of_same {a b : Node} (ha : a.isUnsigned = true) (hb : b.isUnsigned = true)
    (h : a.same b = true) : a.head = b.head := by
  unfold same at h
  split at h
  case h_11 =>
    simp only [isUnsigned, decide_eq_true_eq] at ha hb
    rw [head, head, Binary64.eq_of_beq ha hb h]
  all_goals simp_all [head]

theorem unplaced_eq_of_same {a b : Node} (ha : a.isUnsigned = true) (hb : b.isUnsigned = true)
    (h : a.same b = true) : a.unplaced = b.unplaced := by
  induction a using children_induction generalizing b with
  | step a ih =>
      refine unplaced_eq_iff.2 ⟨head_eq_of_same ha hb h, ?_⟩
      have hones := (isUnsigned_iff.1 ha).2
      have hothers := (isUnsigned_iff.1 hb).2
      refine rel_of_mem (children_of_same h) fun child hmem other hother hsame => ?_
      exact ih child hmem (hones child hmem) (hothers other hother) hsame

end Node

theorem Decimal.unsigned_toFloat (decimal : Decimal) :
    Binary64.Unsigned (decimal.toFloat false) := by
  unfold toFloat
  split <;> exact Binary64.unsigned_nearest _ _

theorem Numeral.unsigned_of_isPlain {text : List Char} {value : Float}
    (hplain : isPlain text = true) (hvalue : read? text = some value) :
    Binary64.Unsigned value := by
  obtain ⟨decimal, hdecimal⟩ := read?_eq_toFloat hplain
  rw [hdecimal, Option.some.injEq] at hvalue
  rw [← hvalue]
  exact decimal.unsigned_toFloat

namespace Grammar

open Node

def Phrase.isUnsigned : Phrase → Prop
  | .primary tree | .suffixed tree | .chain _ tree | .target tree _ | .expression tree _
  | .entry tree | .statement tree _ => tree.isUnsigned = true
  | .suffixes before tree | .run _ before tree =>
      before.isUnsigned = true → tree.isUnsigned = true
  | .elements trees | .values trees | .arguments trees | .entries trees | .statements trees =>
      isUnsignedAll trees = true

theorem Phrase.isUnsigned_operand {level : Level} {tree : Node} :
    (level.operand tree).isUnsigned ↔ tree.isUnsigned = true := by
  cases level <;> rfl

/-- Whether every numeral among tokens is written as in sources. -/
def Plain (tokens : List Token) : Prop :=
  ∀ token ∈ tokens, token.kind = .number → Numeral.isPlain token.lexeme.toList = true

theorem plain_append {first more : List Token} :
    Plain (first ++ more) ↔ Plain first ∧ Plain more :=
  List.forall_mem_append

theorem plain_cons {token : Token} {more : List Token} :
    Plain (token :: more) ↔
      (token.kind = .number → Numeral.isPlain token.lexeme.toList = true) ∧ Plain more :=
  List.forall_mem_cons

theorem Derives.isUnsigned {boundary : Boundary} {tokens : List Token} {phrase : Phrase}
    (h : Derives boundary tokens phrase) (hplain : Plain tokens) : phrase.isUnsigned := by
  induction h with
  | number htoken hvalue =>
      have htext := (plain_cons.1 hplain).1 htoken
      exact decide_eq_true (Numeral.unsigned_of_isPlain htext hvalue)
  | chain _ _ ihFirst ihMore =>
      obtain ⟨hfirst, hmore⟩ := plain_append.1 hplain
      exact ihMore hmore (Phrase.isUnsigned_operand.1 (ihFirst hfirst))
  | operator _ _ _ _ ihOperand ihMore =>
      obtain ⟨hoperand, hmore⟩ := plain_append.1 (plain_cons.1 hplain).2
      intro hleft
      have hright := Phrase.isUnsigned_operand.1 (ihOperand hoperand)
      exact ihMore hmore (by simp [Node.isUnsigned, hleft, hright])
  | _ => simp_all [plain_append, plain_cons, Phrase.isUnsigned, Node.isUnsigned, isUnsignedAll]

end Grammar

/-- Tokens that are the same up to places are the same program up to places, or are
refused for the same reason. -/
theorem parseTokens_eq_of_same {tokens others : List Token}
    (h : tokens.map (fun token => (token.kind, token.lexeme)) =
      others.map fun token => (token.kind, token.lexeme)) :
    (∃ program other, parseTokens tokens = .ok program ∧ parseTokens others = .ok other ∧
        program.unplaced = other.unplaced) ∨
      ∃ error failure, parseTokens tokens = .error error ∧ parseTokens others = .error failure ∧
        error.cause = failure.cause := by
  have hpairs : List.Forall₂ (fun token other : Token =>
      (token.kind, token.lexeme) = (other.kind, other.lexeme)) tokens others := by
    rwa [← List.forall₂_eq_eq_eq, List.forall₂_map_left_iff, List.forall₂_map_right_iff] at h
  have htokens : List.Forall₂ (Token.Alike Places.any) tokens others := by
    refine hpairs.imp fun token other hpair => ⟨?_, ?_, trivial⟩
    · exact congrArg Prod.fst hpair
    · exact congrArg Prod.snd hpair
  have hmark : (Token.endMark .nowhere).Alike Places.any (Token.endMark .nowhere) :=
    ⟨rfl, rfl, trivial⟩
  have hended := parseTokens_alike (List.rel_append htokens (.cons hmark .nil))
    ⟨Token.endMark .nowhere, by simp, rfl⟩
  unfold parseTokens at hended ⊢
  rw [Cursor.ofList_append_endMark, Cursor.ofList_append_endMark] at hended
  rcases hended with ⟨xs, ys, hone, htwo, hbody⟩ | ⟨error, failure, hone, htwo, herror⟩
  · refine .inl ⟨_, _, hone, htwo, ?_⟩
    simp [hbody.unplaced_eq]
  · exact .inr ⟨error, failure, hone, htwo, herror.cause⟩

/-- Tokens are refused for a numeral only if one of them is a numeral that denotes
no number. -/
theorem exists_notANumeral {tokens : List Token} {error : SyntaxError} {lexeme : String}
    (h : parseTokens tokens = .error error) (hcause : error.cause = .notANumeral lexeme) :
    ∃ token ∈ tokens, token.kind = .number ∧ Numeral.read? token.lexeme.toList = none := by
  by_contra hnone
  let cursor := Cursor.ofList tokens
  have hbefore : ∀ token ∈ cursor.ahead, Cursor.isEnd token = false :=
    fun token hmem => Cursor.isEnd_of_mem_ahead_ofList hmem
  have hlegible : ∀ token ∈ cursor.ahead, Parser.Legible token := by
    intro token hmem
    refine ⟨hbefore token hmem, fun hkind => ?_⟩
    apply Option.ne_none_iff_exists'.1
    intro hvalue
    exact hnone ⟨token, (List.takeWhile_subset _ hmem : token ∈ tokens), hkind, hvalue⟩
  have hstop : cursor.stop.kind = .endOfSource :=
    Parser.kind_of_isEnd (Cursor.isEnd_stop_ofList tokens)
  have hsame : parseTokens (cursor.ahead ++ [cursor.stop]) = parseTokens tokens := by
    unfold parseTokens
    rw [Cursor.ofList_append_stop hstop fun token hmem =>
      Parser.legible_kind_ne (hlegible token hmem)]
    rfl
  rcases parseTokens_spec hstop hlegible with ⟨_, hprogram, _⟩ | ⟨failure, hfailure, hno⟩
  · rw [hsame, h] at hprogram
    contradiction
  · rw [hsame, h] at hfailure
    cases hfailure
    exact hno lexeme hcause

/-- No number of a source has a sign. -/
theorem isUnsigned_of_parse {source : String} {tree : Node} (h : parse source = .ok tree) :
    tree.isUnsigned = true := by
  obtain ⟨tokens, stop, body, rfl, hparsed⟩ := parsed_of_parse h
  obtain ⟨found, last, heq, _, hfound⟩ := (Lexical.cut_of_tokenize hparsed.cut).exists_body
  obtain ⟨rfl, _⟩ := List.append_inj' heq rfl
  have hplain : Plain tokens := fun token hmem => (hfound token hmem).2
  exact hparsed.derives.isUnsigned hplain

/-- Programs of sources that compare as equal are the same without places. -/
theorem unplaced_eq_of_parse {first second : String} {program other : Node}
    (hfirst : parse first = .ok program) (hsecond : parse second = .ok other)
    (hsame : program.same other = true) : program.unplaced = other.unplaced :=
  Node.unplaced_eq_of_same (isUnsigned_of_parse hfirst) (isUnsigned_of_parse hsecond) hsame

end Nomi
