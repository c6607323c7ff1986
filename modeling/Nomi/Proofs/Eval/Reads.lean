import Nomi.Proofs.Eval.Cutoff
import Nomi.Proofs.Store.Laws

/-!
# Reading into a variable

A read stores its line where an assignment of the line would, past the operation that
assigns.  It finds the owner of the name and looks for a constant by itself, so that the
two agree is a fact about both.  Where the assignment is refused the read is not, and
stores nothing.
-/

namespace Nomi

namespace Store

variable {store : Store} {id owner : ScopeId} {name : String} {value : Value}

/-- What an assignment does, by the nearest binding of the name. -/
theorem assign_cases (store : Store) (id : ScopeId) (name : String) (value : Value) :
    (∃ owner, store.Nearest id owner name ∧ store.holdsConstant owner name = false ∧
        store.assign id name value = .ok (store.update owner (·.set name value))) ∨
      (∃ owner, store.Nearest id owner name ∧ store.holdsConstant owner name = true ∧
        store.assign id name value = .error (.constant name)) ∨
      (∀ scope ∈ store.chain id, store.binds scope name = false) ∧
        store.assign id name value = .error (.unresolved name) := by
  unfold assign
  rw [resolve_eq]
  cases howner : store.owner? id name with
  | none => exact .inr (.inr ⟨owner?_eq_none_iff.1 howner, rfl⟩)
  | some owner =>
      have hnearest := owner?_eq_some_iff.1 howner
      cases hconstant : store.holdsConstant owner name with
      | true =>
          refine .inr (.inl ⟨owner, hnearest, hconstant, ?_⟩)
          simp [bind, Except.bind, hconstant]
      | false =>
          refine .inl ⟨owner, hnearest, hconstant, ?_⟩
          simp [bind, Except.bind, hconstant]

theorem overwrite_of_nearest (value : Value) (h : store.Nearest id owner name) :
    store.overwrite id name value =
      if store.holdsConstant owner name then store else store.update owner (·.set name value) := by
  rw [overwrite, owner?_eq_some_iff.2 h]

theorem overwrite_of_unbound (value : Value)
    (h : ∀ scope ∈ store.chain id, store.binds scope name = false) :
    store.overwrite id name value = store := by
  rw [overwrite, owner?_eq_none_iff.2 h]

/-- To overwrite is to assign, or to do nothing where that is refused. -/
theorem overwrite_eq_assign (store : Store) (id : ScopeId) (name : String) (value : Value) :
    store.overwrite id name value =
      match store.assign id name value with
      | .ok after => after
      | .error _ => store := by
  rcases assign_cases store id name value with
    ⟨owner, hnearest, hconstant, hassign⟩ | ⟨owner, hnearest, hconstant, hassign⟩ |
      ⟨hunbound, hassign⟩
  · rw [hassign, overwrite_of_nearest value hnearest, hconstant]
    rfl
  · rw [hassign, overwrite_of_nearest value hnearest, hconstant]
    rfl
  · rw [hassign, overwrite_of_unbound value hunbound]

end Store

namespace Eval

variable {world : World} {line : String} {rest : List String}

theorem evaluate_read_nil (host : Host) (depth : Nat) (scope : ScopeId) (name type : String)
    (place : Position) (h : world.input = []) :
    evaluate host (depth + 1) scope (.read place name type true) world =
      .error host.ending.failure world := by
  rw [evaluate, readLine, bind_apply, takeLine_nil host h]

theorem evaluate_read_cons (host : Host) (depth : Nat) (scope : ScopeId) (name type : String)
    (place : Position) (h : world.input = line :: rest) :
    evaluate host (depth + 1) scope (.read place name type true) world =
      .ok (.string line)
        { world with input := rest, store := world.store.overwrite scope name (.string line) } := by
  rw [evaluate, readLine, bind_apply, takeLine_cons host h]
  rfl

/-- An assignment of a text does with it what the store does. -/
theorem evaluate_assign_string (host : Host) (depth : Nat) (scope : ScopeId) (name : String)
    (text : String) (place target written : Position) (world : World) :
    evaluate host (depth + 2) scope
        (.assignment place (.identifier target name) (.string written text)) world =
      match world.store.assign scope name (.string text) with
      | .ok store => .ok (.string text) { world with store }
      | .error error => .error (.scope error) world := by
  rw [evaluate, bind_apply]
  simp only [evaluate]
  show (changeStore _ >>= fun _ => pure _ : Eval Value) world = _
  rw [bind_apply, changeStore]
  cases world.store.assign scope name (.string text) <;> rfl

/--
A read into a variable beside the assignment of its line.

At the end of the input the read fails and changes nothing.  Otherwise it takes the one
line and gives it.  If the assignment goes through, then into the nearest scope that binds
the name, and the read leaves the store that the assignment leaves.  If it is refused,
then because no scope of the chain binds the name or because the nearest one that does
holds it constant, whatever the scopes behind it hold, and the read leaves the store as it
was.
-/
theorem read_beside_assignment (host : Host) (depth levels : Nat) (scope : ScopeId)
    (name type : String) (place target written : Position) (world : World) :
    let read := evaluate host (depth + 1) scope (.read place name type true) world
    match world.input with
    | [] => read = .error host.ending.failure world
    | line :: rest =>
        match evaluate host (levels + 2) scope
          (.assignment place (.identifier target name) (.string written line)) world with
        | .ok value next =>
            value = .string line ∧ next = { world with store := next.store } ∧
              (∃ owner, world.store.Nearest scope owner name ∧
                world.store.holdsConstant owner name = false ∧
                next.store = world.store.update owner (·.set name (.string line))) ∧
              read = .ok (.string line) { next with input := rest }
        | .error failure next =>
            next = world ∧
              (failure = .scope (.constant name) ∧
                  (∃ owner, world.store.Nearest scope owner name ∧
                    world.store.holdsConstant owner name = true) ∨
                failure = .scope (.unresolved name) ∧
                  ∀ other ∈ world.store.chain scope, world.store.binds other name = false) ∧
              read = .ok (.string line) { world with input := rest } := by
  intro read
  cases hinput : world.input with
  | nil => exact evaluate_read_nil host depth scope name type place hinput
  | cons line rest =>
      have hread : read = .ok (.string line) { world with
          input := rest, store := world.store.overwrite scope name (.string line) } :=
        evaluate_read_cons host depth scope name type place hinput
      rw [Store.overwrite_eq_assign] at hread
      simp only [evaluate_assign_string]
      rcases Store.assign_cases world.store scope name (.string line) with
        ⟨owner, hnearest, hconstant, hassign⟩ | ⟨owner, hnearest, hconstant, hassign⟩ |
          ⟨hunbound, hassign⟩
      · rw [hassign] at hread ⊢
        exact ⟨rfl, by simp only [hinput], ⟨owner, hnearest, hconstant, rfl⟩, hread⟩
      · rw [hassign] at hread ⊢
        exact ⟨rfl, .inl ⟨rfl, owner, hnearest, hconstant⟩, hread⟩
      · rw [hassign] at hread ⊢
        exact ⟨rfl, .inr ⟨rfl, hunbound⟩, hread⟩

end Eval

end Nomi
