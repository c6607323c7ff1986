import Nomi.Value.Store

/-!
# What an operation does to a store

Each operation either refuses, for one of few reasons, or changes one scope in
one way.  Later proofs take this as what the operations are.
-/

namespace Nomi

namespace Fields

variable {α : Type}

theorem mem_put {fields : Fields α} {name : String} {value : α} {entry : String × α}
    (h : entry ∈ fields.put name value) : entry = (name, value) ∨ entry ∈ fields := by
  induction fields with
  | nil => simpa [put] using h
  | cons first rest ih =>
      obtain ⟨key, old⟩ := first
      by_cases hkey : key = name
      · simp only [put, hkey, if_true, List.mem_cons] at h
        rcases h with rfl | hrest
        · exact .inl rfl
        · exact .inr (List.mem_cons_of_mem _ hrest)
      · simp only [put, hkey, if_false, List.mem_cons] at h
        rcases h with rfl | hput
        · exact .inr List.mem_cons_self
        · exact (ih hput).imp_right (List.mem_cons_of_mem _)

theorem mem_ofList {writings : List (String × α)} {entry : String × α}
    (h : entry ∈ ofList writings) : entry ∈ writings := by
  have hfold : entry ∈ ofList writings → entry ∈ writings := by
    unfold ofList
    apply List.foldlRecOn (motive := fun fields => entry ∈ fields → entry ∈ writings)
    · intro hnone
      contradiction
    · intro fields ih writing hwriting hmem
      rcases mem_put hmem with rfl | hfields
      · exact hwriting
      · exact ih hfields
  exact hfold h

theorem mem_of_get? {fields : Fields α} {name : String} {value : α}
    (h : fields.get? name = some value) : (name, value) ∈ fields := by
  induction fields with
  | nil => contradiction
  | cons first rest ih =>
      obtain ⟨key, old⟩ := first
      by_cases hname : name = key
      · subst hname
        simp only [get?, List.lookup_cons, beq_self_eq_true, Option.some.injEq] at h
        subst h
        exact List.mem_cons_self
      · have hb : (name == key) = false := beq_eq_false_iff_ne.2 hname
        simp only [get?, List.lookup_cons, hb] at h
        exact List.mem_cons_of_mem _ (ih h)

theorem isSome_get? (fields : Fields α) (name : String) :
    (fields.get? name).isSome = (fields.map (·.1)).contains name := by
  induction fields with
  | nil => rfl
  | cons first rest ih =>
      obtain ⟨key, old⟩ := first
      by_cases hname : name = key
      · simp [get?, hname]
      · have hb : (name == key) = false := beq_eq_false_iff_ne.2 hname
        simp only [get?] at ih
        simp [get?, List.lookup_cons, hb, ih, hname]

end Fields

namespace Scope

theorem isSome_value? (scope : Scope) (name : String) :
    (scope.value? name).isSome = scope.binds name :=
  Fields.isSome_get? scope.values name

theorem binds_eq_true {scope : Scope} {name : String} :
    scope.binds name = true ↔ name ∈ scope.names := by
  simp [binds]

theorem isConstant_eq_true {scope : Scope} {name : String} :
    scope.isConstant name = true ↔ name ∈ scope.constants := by
  simp [isConstant]

theorem names_set (scope : Scope) (name : String) (value : Value) :
    (scope.set name value).names =
      if name ∈ scope.names then scope.names else scope.names ++ [name] :=
  Fields.names_put scope.values name value

theorem value?_set (scope : Scope) (name other : String) (value : Value) :
    (scope.set name value).value? other = if other = name then some value else scope.value? other :=
  Fields.get?_put scope.values name other value

end Scope

namespace Store

variable {store after : Store} {id : ScopeId} {name : String} {value : Value} {constant : Bool}

theorem scope?_of_size_le (h : store.size ≤ id) : store.scope? id = none :=
  Array.getElem?_eq_none h

theorem scope?_initial (id : ScopeId) :
    initial.scope? id = if id = globalId then some globalScope else none := by
  cases id <;> rfl

theorem isSome_value? (store : Store) (id : ScopeId) (name : String) :
    (store.value? id name).isSome = store.binds id name := by
  unfold value? binds
  cases store.scope? id with
  | none => rfl
  | some scope => exact scope.isSome_value? name

theorem binds_owner {owner : ScopeId} (h : store.owner? id name = some owner) :
    store.binds owner name = true := by
  have hfound := List.find?_some h
  exact hfound

theorem declare_ok (h : store.declare id name value constant = .ok after) :
    store.binds id name = false ∧ after = store.update id (·.add name value constant) := by
  unfold declare at h
  split at h
  · contradiction
  · next hbinds =>
      cases h
      exact ⟨by simpa using hbinds, rfl⟩

theorem declare_error {error : ScopeError}
    (h : store.declare id name value constant = .error error) :
    error = .alreadyDeclared name := by
  unfold declare at h
  split at h
  · cases h
    rfl
  · contradiction

theorem resolve_eq (store : Store) (id : ScopeId) (name : String) :
    store.resolve id name =
      match store.owner? id name with
      | some owner => .ok owner
      | none => .error (.unresolved name) := rfl

theorem assign_ok (h : store.assign id name value = .ok after) :
    ∃ owner, store.owner? id name = some owner ∧ store.holdsConstant owner name = false ∧
      after = store.update owner (·.set name value) := by
  unfold assign at h
  rw [resolve_eq] at h
  cases howner : store.owner? id name with
  | none =>
      rw [howner] at h
      contradiction
  | some owner =>
      rw [howner] at h
      simp only [bind, Except.bind] at h
      split at h
      · contradiction
      · next hconstant =>
          cases h
          exact ⟨owner, rfl, by simpa using hconstant, rfl⟩

theorem assign_error {error : ScopeError} (h : store.assign id name value = .error error) :
    error = .unresolved name ∨ error = .constant name := by
  unfold assign at h
  rw [resolve_eq] at h
  cases howner : store.owner? id name with
  | none =>
      rw [howner] at h
      cases h
      exact .inl rfl
  | some owner =>
      rw [howner] at h
      simp only [bind, Except.bind] at h
      split at h
      · cases h
        exact .inr rfl
      · contradiction

theorem overwrite_cases (store : Store) (id : ScopeId) (name : String) (value : Value) :
    store.overwrite id name value = store ∨
      ∃ owner, store.owner? id name = some owner ∧ store.holdsConstant owner name = false ∧
        store.overwrite id name value = store.update owner (·.set name value) := by
  unfold overwrite
  cases store.owner? id name with
  | none => exact .inl rfl
  | some owner =>
      by_cases hconstant : store.holdsConstant owner name = true
      · simp [hconstant]
      · refine .inr ⟨owner, rfl, by simpa using hconstant, ?_⟩
        simp [hconstant]

/-- A name that is found has a value. -/
theorem lookup_cases (store : Store) (id : ScopeId) (name : String) :
    store.lookup id name = .error (.unresolved name) ∨
      ∃ owner value, store.owner? id name = some owner ∧
        store.value? owner name = some value ∧ store.lookup id name = .ok value := by
  unfold lookup
  rw [resolve_eq]
  cases howner : store.owner? id name with
  | none => exact .inl rfl
  | some owner =>
      have hsome := isSome_value? store owner name
      rw [binds_owner howner] at hsome
      obtain ⟨value, hvalue⟩ := Option.isSome_iff_exists.1 hsome
      refine .inr ⟨owner, value, rfl, hvalue, ?_⟩
      simp [bind, Except.bind, hvalue]

theorem lookup_error {error : ScopeError} (h : store.lookup id name = .error error) :
    error = .unresolved name := by
  rcases lookup_cases store id name with herror | ⟨_, _, _, _, hok⟩
  · rw [h] at herror
    cases herror
    rfl
  · rw [h] at hok
    contradiction

theorem size_declare (h : store.declare id name value constant = .ok after) :
    after.size = store.size := by
  obtain ⟨_, rfl⟩ := declare_ok h
  exact size_update ..

theorem size_assign (h : store.assign id name value = .ok after) : after.size = store.size := by
  obtain ⟨_, _, _, rfl⟩ := assign_ok h
  exact size_update ..

theorem size_overwrite (store : Store) (id : ScopeId) (name : String) (value : Value) :
    (store.overwrite id name value).size = store.size := by
  rcases overwrite_cases store id name value with hsame | ⟨_, _, _, hchanged⟩
  · rw [hsame]
  · rw [hchanged, size_update]

end Store

end Nomi
