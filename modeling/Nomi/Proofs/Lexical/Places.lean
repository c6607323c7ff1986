import Nomi.Proofs.Lexical.Tokens

/-!
# Where tokens and refusals stand

The place of a token, and that of the end mark, is the place behind a piece of the
source.  A source is refused at one of its characters.
-/

namespace Nomi.Lexical

/-- Every token stands behind a piece of the text it was cut from. -/
theorem Cut.exists_place {before text : List Char} {tokens : List Token}
    (h : Cut before text tokens) :
    ∀ token ∈ tokens, ∃ first rest, text = first ++ rest ∧
      token.position = placeBehind (before ++ first) := by
  induction h with
  | @done before gap hgap =>
      intro token hmem
      rw [List.mem_singleton.1 hmem]
      exact ⟨gap, [], (List.append_nil gap).symm, rfl⟩
  | @token before gap raw rest text kind tokens hgap hlexeme _ ih =>
      intro token hmem
      rcases List.mem_cons.1 hmem with rfl | hmem
      · exact ⟨gap, raw ++ rest, rfl, rfl⟩
      · obtain ⟨first, behind, rfl, hplace⟩ := ih token hmem
        refine ⟨gap ++ raw ++ first, behind, by simp, ?_⟩
        simpa only [List.append_assoc] using hplace

theorem Refused.ne_nil {text : List Char} {cause : LexicalCause} (h : Refused text cause) :
    text ≠ [] := by
  cases h with
  | malformedNumber hrun =>
      intro hnil
      have hhead := hrun.head
      simp [(List.append_eq_nil_iff.1 hnil).1] at hhead
  | unterminatedString => exact List.cons_ne_nil _ _
  | unrecognized => exact List.cons_ne_nil _ _

/-- A text is refused at one of its characters. -/
theorem Stuck.exists_place {before text : List Char} {error : LexicalError}
    (h : Stuck before text error) :
    ∃ first c rest, text = first ++ c :: rest ∧
      error.position = placeBehind (before ++ first) := by
  induction h with
  | @here before gap rest cause hgap hrefused =>
      obtain ⟨c, more, rfl⟩ := List.exists_cons_of_ne_nil hrefused.ne_nil
      exact ⟨gap, c, more, rfl, rfl⟩
  | @later before gap raw rest text kind error hgap hlexeme _ ih =>
      obtain ⟨first, c, behind, rfl, hplace⟩ := ih
      refine ⟨gap ++ raw ++ first, c, behind, by simp, ?_⟩
      simpa only [List.append_assoc] using hplace

end Nomi.Lexical
