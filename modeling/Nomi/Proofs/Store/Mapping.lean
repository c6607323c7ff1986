import Nomi.Proofs.Store.Laws

/-!
# Stores with other values

When every value of a store is replaced by a function of it, names, constants and
chains stay as they are, so each operation commutes with the replacement: it is refused
for the same reason, or does to the other values what it did to these.
-/

namespace Nomi

namespace Fields

variable {α β : Type}

def mapValues (f : α → β) (fields : Fields α) : Fields β :=
  fields.map fun (name, value) => (name, f value)

@[simp] theorem mapValues_cons (f : α → β) (name : String) (value : α) (rest : Fields α) :
    mapValues f ((name, value) :: rest) = (name, f value) :: mapValues f rest := rfl

@[simp] theorem names_mapValues (f : α → β) (fields : Fields α) :
    (mapValues f fields).map (·.1) = fields.map (·.1) := by
  simp [mapValues]

theorem get?_mapValues (f : α → β) (fields : Fields α) (name : String) :
    (mapValues f fields).get? name = (fields.get? name).map f := by
  induction fields with
  | nil => rfl
  | cons first rest ih =>
      obtain ⟨key, value⟩ := first
      simp only [get?, mapValues_cons, List.lookup_cons] at ih ⊢
      cases name == key with
      | true => rfl
      | false => exact ih

theorem mapValues_put (f : α → β) (fields : Fields α) (name : String) (value : α) :
    mapValues f (fields.put name value) = (mapValues f fields).put name (f value) := by
  induction fields with
  | nil => rfl
  | cons first rest ih =>
      obtain ⟨key, old⟩ := first
      by_cases hkey : key = name
      · simp only [put, mapValues_cons, hkey, if_true]
      · simp only [put, mapValues_cons, hkey, if_false, ih]

theorem mapValues_ofList (f : α → β) (writings : List (String × α)) :
    mapValues f (ofList writings) = ofList (mapValues f writings) := by
  have hfold : ∀ fields : Fields α,
      mapValues f (writings.foldl (fun fields (name, value) => fields.put name value) fields) =
        (mapValues f writings).foldl (fun fields (name, value) => fields.put name value)
          (mapValues f fields) := by
    induction writings with
    | nil => exact fun fields => rfl
    | cons first rest ih =>
        obtain ⟨name, value⟩ := first
        intro fields
        rw [List.foldl_cons, ih, mapValues_put, mapValues_cons, List.foldl_cons]
  exact hfold []

end Fields

namespace Scope

def mapValues (f : Value → Value) (scope : Scope) : Scope :=
  { scope with values := Fields.mapValues f scope.values }

variable (f : Value → Value) (scope : Scope) (name : String)

theorem binds_mapValues : (scope.mapValues f).binds name = scope.binds name := by
  simp [binds, names, mapValues]

theorem value?_mapValues : (scope.mapValues f).value? name = (scope.value? name).map f :=
  Fields.get?_mapValues f scope.values name

theorem mapValues_set (value : Value) :
    (scope.set name value).mapValues f = (scope.mapValues f).set name (f value) := by
  simp only [set, mapValues, Fields.mapValues_put]

theorem mapValues_add (value : Value) (constant : Bool) :
    (scope.add name value constant).mapValues f =
      (scope.mapValues f).add name (f value) constant := by
  simp only [add, set, mapValues, Fields.mapValues_put]

end Scope

namespace Store

def mapValues (f : Value → Value) (store : Store) : Store :=
  ⟨store.scopes.map (Scope.mapValues f)⟩

variable (f : Value → Value) (store : Store) (id : ScopeId) (name : String) (value : Value)

@[simp] theorem size_mapValues : (store.mapValues f).size = store.size := by
  simp [mapValues, size]

theorem scope?_mapValues :
    (store.mapValues f).scope? id = (store.scope? id).map (Scope.mapValues f) := by
  simp [mapValues, scope?]

theorem chain_mapValues : (store.mapValues f).chain id = store.chain id := by
  apply chain_congr
  intro scope
  unfold parent?
  rw [scope?_mapValues]
  cases store.scope? scope <;> rfl

theorem binds_mapValues : (store.mapValues f).binds id name = store.binds id name := by
  unfold binds
  rw [scope?_mapValues]
  cases store.scope? id with
  | none => rfl
  | some scope => exact scope.binds_mapValues f name

theorem holdsConstant_mapValues :
    (store.mapValues f).holdsConstant id name = store.holdsConstant id name := by
  unfold holdsConstant
  rw [scope?_mapValues]
  cases store.scope? id <;> rfl

theorem value?_mapValues : (store.mapValues f).value? id name = (store.value? id name).map f := by
  unfold value?
  rw [scope?_mapValues]
  cases store.scope? id with
  | none => rfl
  | some scope => exact scope.value?_mapValues f name

theorem owner?_mapValues : (store.mapValues f).owner? id name = store.owner? id name := by
  unfold owner?
  simp only [chain_mapValues, binds_mapValues]

theorem lookup_mapValues : (store.mapValues f).lookup id name = (store.lookup id name).map f := by
  unfold lookup
  rw [resolve_eq, resolve_eq, owner?_mapValues]
  cases store.owner? id name with
  | none => rfl
  | some owner =>
      simp only [bind, Except.bind, value?_mapValues]
      cases store.value? owner name <;> rfl

theorem mapValues_create (parent : Option ScopeId) :
    (store.create parent).mapValues f = (store.mapValues f).create parent := by
  apply ext_scope?
  intro other
  simp only [scope?_mapValues, scope?_create, size_mapValues]
  split <;> rfl

theorem mapValues_update {change other : Scope → Scope}
    (h : ∀ scope : Scope, (change scope).mapValues f = other (scope.mapValues f)) :
    (store.update id change).mapValues f = (store.mapValues f).update id other := by
  apply ext_scope?
  intro place
  simp only [scope?_mapValues, scope?_update]
  split
  · cases store.scope? place with
    | none => rfl
    | some scope => exact congrArg some (h scope)
  · rfl

theorem mapValues_update_set :
    (store.update id (·.set name value)).mapValues f =
      (store.mapValues f).update id (·.set name (f value)) :=
  store.mapValues_update f id fun scope => scope.mapValues_set f name value

theorem mapValues_update_add (constant : Bool) :
    (store.update id (·.add name value constant)).mapValues f =
      (store.mapValues f).update id (·.add name (f value) constant) :=
  store.mapValues_update f id fun scope => scope.mapValues_add f name value constant

theorem declare_mapValues (constant : Bool) :
    (store.mapValues f).declare id name (f value) constant =
      (store.declare id name value constant).map (mapValues f) := by
  unfold declare
  rw [binds_mapValues]
  cases store.binds id name with
  | true => rfl
  | false => exact congrArg Except.ok (store.mapValues_update_add f id name value constant).symm

theorem assign_mapValues :
    (store.mapValues f).assign id name (f value) =
      (store.assign id name value).map (mapValues f) := by
  unfold assign
  rw [resolve_eq, resolve_eq, owner?_mapValues]
  cases store.owner? id name with
  | none => rfl
  | some owner =>
      simp only [bind, Except.bind, holdsConstant_mapValues]
      cases store.holdsConstant owner name with
      | true => rfl
      | false => exact congrArg Except.ok (store.mapValues_update_set f owner name value).symm

theorem overwrite_mapValues :
    (store.mapValues f).overwrite id name (f value) =
      (store.overwrite id name value).mapValues f := by
  unfold overwrite
  rw [owner?_mapValues]
  cases store.owner? id name with
  | none => rfl
  | some owner =>
      simp only [holdsConstant_mapValues]
      cases store.holdsConstant owner name with
      | true => rfl
      | false => exact (store.mapValues_update_set f owner name value).symm

end Store

end Nomi
