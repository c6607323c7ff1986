import Nomi.Proofs.Store.Operations

/-!
# What holds of all values of a store

A property of values that holds all over a store goes on to hold as long as only
values with it are written, and values that are read have it.
-/

namespace Nomi

variable {good : Value → Prop}

def Scope.Every (good : Value → Prop) (scope : Scope) : Prop :=
  ∀ entry ∈ scope.values, good entry.2

theorem Scope.Every.set {scope : Scope} {value : Value} (h : scope.Every good) (name : String)
    (hvalue : good value) : (scope.set name value).Every good := by
  intro entry hmem
  rcases Fields.mem_put hmem with rfl | hold
  · exact hvalue
  · exact h entry hold

namespace Store

def Every (good : Value → Prop) (store : Store) : Prop :=
  ∀ id scope, store.scope? id = some scope → scope.Every good

/-- The values that every program finds are the first ones of a store. -/
theorem every_initial (h : ∀ entry ∈ predeclared, good entry.2) : initial.Every good := by
  intro id scope hscope
  rw [scope?_initial] at hscope
  split at hscope
  · cases hscope
    exact h
  · contradiction

variable {store after : Store} {id : ScopeId} {name : String} {value : Value} {constant : Bool}

theorem Every.create (h : store.Every good) (parent : Option ScopeId) :
    (store.create parent).Every good := by
  intro other scope hscope
  rw [scope?_create] at hscope
  split at hscope
  · cases hscope
    intro entry hmem
    contradiction
  · exact h other scope hscope

theorem Every.update (h : store.Every good) (id : ScopeId) {change : Scope → Scope}
    (hchange : ∀ scope, scope.Every good → (change scope).Every good) :
    (store.update id change).Every good := by
  intro other scope hscope
  rw [scope?_update] at hscope
  split at hscope
  · obtain ⟨before, hbefore, rfl⟩ := Option.map_eq_some_iff.1 hscope
    exact hchange before (h other before hbefore)
  · exact h other scope hscope

theorem Every.declare (h : store.Every good) (hvalue : good value)
    (hafter : store.declare id name value constant = .ok after) : after.Every good := by
  obtain ⟨_, rfl⟩ := declare_ok hafter
  exact h.update id fun scope hscope => hscope.set name hvalue

theorem Every.assign (h : store.Every good) (hvalue : good value)
    (hafter : store.assign id name value = .ok after) : after.Every good := by
  obtain ⟨owner, _, _, rfl⟩ := assign_ok hafter
  exact h.update owner fun scope hscope => hscope.set name hvalue

theorem Every.overwrite (h : store.Every good) (id : ScopeId) (name : String)
    (hvalue : good value) : (store.overwrite id name value).Every good := by
  rcases overwrite_cases store id name value with hsame | ⟨owner, _, _, hchanged⟩
  · rwa [hsame]
  · rw [hchanged]
    exact h.update owner fun scope hscope => hscope.set name hvalue

theorem Every.lookup (h : store.Every good) (hvalue : store.lookup id name = .ok value) :
    good value := by
  rcases lookup_cases store id name with herror | ⟨owner, found, _, hfound, hok⟩
  · rw [hvalue] at herror
    contradiction
  · rw [hvalue, Except.ok.injEq] at hok
    subst hok
    obtain ⟨scope, hscope, hentry⟩ := Option.bind_eq_some_iff.1 hfound
    exact h owner scope hscope _ (Fields.mem_of_get? hentry)

end Store

end Nomi
