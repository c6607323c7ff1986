import Nomi.Eval.Evaluate

/-!
# Bodies

Statements run one after the other.  A body that is put together runs as its
parts do in turn, and one that fails has run up to the statement that failed.
-/

namespace Nomi

namespace Eval

variable {statement : Node → Eval Value} {node : Node} {body done rest : List Node}
  {world middle next : World} {value : Value} {failure : Failure}

theorem runBody_singleton (statement : Node → Eval Value) (node : Node) :
    runBody statement [node] = statement node := by
  unfold runBody
  rw [List.foldlM_cons]
  exact bind_pure _

theorem runBody_cons_cons (statement : Node → Eval Value) (first second : Node)
    (rest : List Node) :
    runBody statement (first :: second :: rest) =
      (statement first >>= fun _ => runBody statement (second :: rest)) := by
  simp only [runBody, List.foldlM_cons]

/-- A body with something behind its first statement runs that statement first. -/
theorem runBody_cons_ok (h : statement node world = .ok value middle) (hrest : rest ≠ []) :
    runBody statement (node :: rest) world = runBody statement rest middle := by
  obtain ⟨second, more, rfl⟩ := List.exists_cons_of_ne_nil hrest
  rw [runBody_cons_cons, bind_apply, h]

theorem runBody_cons_error (h : statement node world = .error failure next) :
    runBody statement (node :: rest) world = .error failure next := by
  cases rest with
  | nil => rw [runBody_singleton, h]
  | cons second more => rw [runBody_cons_cons, bind_apply, h]

theorem runBody_append_ok (h : runBody statement done world = .ok value middle)
    (hrest : rest ≠ []) :
    runBody statement (done ++ rest) world = runBody statement rest middle := by
  induction done generalizing world value with
  | nil =>
      cases h
      rfl
  | cons node more ih =>
      cases hfirst : statement node world with
      | error failure next =>
          rw [runBody_cons_error hfirst] at h
          contradiction
      | ok found next =>
          have happend : more ++ rest ≠ [] := List.append_ne_nil_of_right_ne_nil _ hrest
          rw [List.cons_append, runBody_cons_ok hfirst happend]
          cases more with
          | nil =>
              rw [runBody_singleton, hfirst] at h
              cases h
              rfl
          | cons second others =>
              rw [runBody_cons_ok hfirst (List.cons_ne_nil _ _)] at h
              exact ih h

theorem runBody_append_error (h : runBody statement done world = .error failure next) :
    runBody statement (done ++ rest) world = .error failure next := by
  induction done generalizing world with
  | nil => cases h
  | cons node more ih =>
      cases hfirst : statement node world with
      | error failure next =>
          rw [runBody_cons_error hfirst] at h
          rw [List.cons_append, runBody_cons_error hfirst, h]
      | ok found middle =>
          cases more with
          | nil =>
              rw [runBody_singleton, hfirst] at h
              contradiction
          | cons second others =>
              rw [runBody_cons_ok hfirst (List.cons_ne_nil _ _)] at h
              rw [List.cons_append, List.cons_append, runBody_cons_ok hfirst (List.cons_ne_nil _ _)]
              exact ih h

/-- A body fails at one of its statements, when those before it have run. -/
theorem runBody_error (h : runBody statement body world = .error failure next) :
    ∃ done failing rest value middle, body = done ++ failing :: rest ∧
      runBody statement done world = .ok value middle ∧
      statement failing middle = .error failure next := by
  induction body generalizing world with
  | nil => cases h
  | cons node more ih =>
      cases hfirst : statement node world with
      | error failure next =>
          rw [runBody_cons_error hfirst] at h
          cases h
          exact ⟨[], node, more, .null, world, rfl, rfl, hfirst⟩
      | ok found middle =>
          cases more with
          | nil =>
              rw [runBody_singleton, hfirst] at h
              contradiction
          | cons second others =>
              rw [runBody_cons_ok hfirst (List.cons_ne_nil _ _)] at h
              obtain ⟨done, failing, rest, value, last, hbody, hdone, hfailing⟩ := ih h
              rw [hbody]
              cases done with
              | nil =>
                  cases hdone
                  exact ⟨[node], failing, rest, found, middle, rfl,
                    by rw [runBody_singleton, hfirst], hfailing⟩
              | cons third more =>
                  refine ⟨node :: third :: more, failing, rest, value, last, rfl, ?_, hfailing⟩
                  rw [runBody_cons_ok hfirst (List.cons_ne_nil _ _), hdone]

end Eval

end Nomi
