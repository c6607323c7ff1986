import Nomi.Token.Cursor

/-!
# Places of a cursor

From where it stands a cursor shows the tokens ahead and then the end mark.  Places are
counted from there, so that two cursors can be compared place by place.
-/

namespace Nomi

namespace Cursor

def after (cursor : Cursor) (count : Nat) : Cursor :=
  { cursor with ahead := cursor.ahead.drop count, index := cursor.index + count }

/-- The tokens that a cursor shows as it moves on, the end mark last. -/
def shown (cursor : Cursor) : List Token :=
  cursor.ahead ++ [cursor.stop]

/-- Whether the end mark is where a cursor stops, and nowhere before. -/
structure Ended (cursor : Cursor) : Prop where
  ahead : ∀ token ∈ cursor.ahead, isEnd token = false
  stop : isEnd cursor.stop = true

variable {cursor : Cursor} {count : Nat}

@[simp] theorem after_zero (cursor : Cursor) : cursor.after 0 = cursor :=
  rfl

@[simp] theorem length_ahead_after (cursor : Cursor) (count : Nat) :
    (cursor.after count).ahead.length = cursor.ahead.length - count :=
  List.length_drop

theorem next_after (h : count < cursor.ahead.length) :
    (cursor.after count).next = cursor.after (count + 1) := by
  have hdrop := List.drop_eq_getElem_cons h
  simp only [next, after, hdrop, Nat.add_assoc]

/-- The end mark is not passed. -/
theorem next_after_length (cursor : Cursor) :
    (cursor.after cursor.ahead.length).next = cursor.after cursor.ahead.length := by
  simp only [next, after, List.drop_length]

theorem shown_eq_peek (h : count ≤ cursor.ahead.length) :
    cursor.shown[count]? = some (cursor.after count).peek := by
  rcases Nat.lt_or_eq_of_le h with hlt | rfl
  · have hdrop := List.drop_eq_getElem_cons hlt
    rw [shown, List.getElem?_append_left hlt, List.getElem?_eq_getElem hlt]
    simp only [peek, after, hdrop, List.headD_cons]
  · simp [shown, peek, after]

theorem length_shown (cursor : Cursor) : cursor.shown.length = cursor.ahead.length + 1 :=
  List.length_append

theorem Ended.atEnd_after (h : cursor.Ended) (hcount : count ≤ cursor.ahead.length) :
    (cursor.after count).atEnd = true ↔ count = cursor.ahead.length := by
  unfold atEnd
  rcases Nat.lt_or_eq_of_le hcount with hlt | rfl
  · have hdrop := List.drop_eq_getElem_cons hlt
    have htoken := h.ahead _ (List.getElem_mem hlt)
    simp only [peek, after, hdrop, List.headD_cons, htoken, Bool.false_eq_true, false_iff]
    exact Nat.ne_of_lt hlt
  · simpa [peek, after] using h.stop

theorem ended_ofList (tokens : List Token) : (ofList tokens).Ended :=
  ⟨fun _ => isEnd_of_mem_ahead_ofList, isEnd_stop_ofList tokens⟩

theorem shown_ofList_cons (token : Token) (rest : List Token) :
    (ofList (token :: rest)).shown =
      if isEnd token then [token] else token :: (ofList rest).shown := by
  by_cases h : isEnd token = true
  · simp [ofList, shown, h]
  · simp [ofList, shown, h]

/-- What a cursor shows of a list depends on the list up to there only. -/
theorem shown_ofList_congr {tokens others : List Token} {last : Nat}
    (h : ∀ place ≤ last, tokens[place]? = others[place]?) :
    ∀ place ≤ last, (ofList tokens).shown[place]? = (ofList others).shown[place]? := by
  induction tokens generalizing others last with
  | nil =>
      cases others with
      | nil => exact fun _ _ => rfl
      | cons other more => simpa using h 0 (Nat.zero_le last)
  | cons token rest ih =>
      cases others with
      | nil => simpa using h 0 (Nat.zero_le last)
      | cons other more =>
          have hfirst : token = other := by simpa using h 0 (Nat.zero_le last)
          subst hfirst
          intro place hplace
          rw [shown_ofList_cons, shown_ofList_cons]
          split
          · rfl
          · cases place with
            | zero => rfl
            | succ place =>
                have hrest : ∀ other ≤ place, rest[other]? = more[other]? := by
                  intro other hother
                  simpa using h (other + 1) (by omega)
                simpa using ih hrest place (Nat.le_refl place)

/-- No end mark of a list is ahead of the cursor. -/
theorem length_ahead_ofList_le {tokens : List Token} {token : Token} {place : Nat}
    (h : tokens[place]? = some token) (hend : isEnd token = true) :
    (ofList tokens).ahead.length ≤ place := by
  rcases Nat.lt_or_ge place (ofList tokens).ahead.length with hlt | hle
  · have hahead : (ofList tokens).ahead <+: tokens := List.takeWhile_prefix _
    have htoken := isEnd_of_mem_ahead_ofList (List.getElem_mem hlt)
    rw [hahead.getElem hlt, (List.getElem?_eq_some_iff.1 h).2, hend] at htoken
    contradiction
  · exact hle

/-- A list of tokens with an end mark put after it, if it does not end with one. -/
def closed (tokens : List Token) : List Token :=
  if tokens.getLast?.any isEnd then tokens else tokens ++ [Token.endMark .nowhere]

/-- The cursor at a place of a list.  Behind the list it stands at the last token. -/
def ofPlace (tokens : List Token) (place : Nat) : Cursor :=
  { ofList ((closed tokens).drop (min place ((closed tokens).length - 1))) with index := place }

variable {tokens others : List Token} {place last : Nat}

/-- A list without an end mark has one put after it. -/
theorem ofList_append_endMark (tokens : List Token) :
    ofList (tokens ++ [Token.endMark .nowhere]) = ofList tokens := by
  have hend : isEnd (Token.endMark .nowhere) = true := rfl
  unfold ofList
  congr 1
  · induction tokens with
    | nil => rfl
    | cons token rest ih => simp only [List.cons_append, List.takeWhile_cons, ih]
  · simp only [List.find?_append, List.find?_cons, hend]
    cases tokens.find? isEnd <;> rfl

theorem ofList_closed (tokens : List Token) : ofList (closed tokens) = ofList tokens := by
  unfold closed
  split
  · rfl
  · exact ofList_append_endMark tokens

theorem ended_ofPlace (tokens : List Token) (place : Nat) : (ofPlace tokens place).Ended :=
  have hended := ended_ofList ((closed tokens).drop (min place ((closed tokens).length - 1)))
  ⟨hended.ahead, hended.stop⟩

/-- What a cursor shows from a place on depends on what the lists agree on. -/
theorem shown_ofPlace_congr (h : ∀ other ≤ last, (closed tokens)[other]? = (closed others)[other]?)
    (hplace : place ≤ last) :
    ∀ count ≤ last - place,
      (ofPlace tokens place).shown[count]? = (ofPlace others place).shown[count]? := by
  by_cases hwithin : place < (closed tokens).length
  · have hother : place < (closed others).length := by
      have hshared := h place hplace
      rw [List.getElem?_eq_getElem hwithin] at hshared
      exact (List.getElem?_eq_some_iff.1 hshared.symm).1
    apply shown_ofList_congr
    intro count hcount
    rw [Nat.min_eq_left (by omega), Nat.min_eq_left (by omega), List.getElem?_drop,
      List.getElem?_drop]
    exact h (place + count) (by omega)
  · -- The first list ends before the place, so the lists agree up to its end and are the same.
    have hsame : closed tokens = closed others := by
      have hend := h (closed tokens).length (by omega)
      rw [List.getElem?_eq_none (Nat.le_refl _)] at hend
      have hlength := List.getElem?_eq_none_iff.1 hend.symm
      apply List.ext_getElem?
      intro other
      by_cases hother : other ≤ last
      · exact h other hother
      · rw [List.getElem?_eq_none (by omega), List.getElem?_eq_none (by omega)]
    intro count _
    unfold ofPlace
    rw [hsame]

end Cursor

end Nomi
