import Nomi.Proofs.Store.Operations

/-!
# What a store keeps

Stores only grow.  A scope keeps its parent, its names and their order, and its
constants with their values, and no variable becomes a constant.  A change keeps
all that only if every constant has a value to begin with, so the two are carried
along together.
-/

namespace Nomi

namespace Scope

/-- Whether every constant of a scope is bound in it. -/
def WellFormed (scope : Scope) : Prop :=
  ∀ name, scope.isConstant name = true → scope.binds name = true

/-- What a scope keeps from an earlier moment to a later one. -/
structure Keeps (before after : Scope) : Prop where
  parent : after.parent = before.parent
  names : before.names <+: after.names
  constant : ∀ name, before.isConstant name = true →
    after.isConstant name = true ∧ after.value? name = before.value? name
  writable : ∀ name, before.binds name = true → before.isConstant name = false →
    after.isConstant name = false

variable {scope : Scope} {name : String}

theorem Keeps.refl (scope : Scope) : scope.Keeps scope :=
  ⟨rfl, List.prefix_refl _, fun _ h => ⟨h, rfl⟩, fun _ _ h => h⟩

theorem Keeps.binds {before after : Scope} (h : before.Keeps after)
    (hbinds : before.binds name = true) : after.binds name = true :=
  binds_eq_true.2 (h.names.subset (binds_eq_true.1 hbinds))

theorem Keeps.trans {first second third : Scope} (hone : first.Keeps second)
    (htwo : second.Keeps third) : first.Keeps third := by
  refine ⟨htwo.parent.trans hone.parent, hone.names.trans htwo.names, ?_, ?_⟩
  · intro name hconstant
    have hmiddle := hone.constant name hconstant
    have hlast := htwo.constant name hmiddle.1
    exact ⟨hlast.1, hlast.2.trans hmiddle.2⟩
  · intro name hbinds hvariable
    exact htwo.writable name (hone.binds hbinds) (hone.writable name hbinds hvariable)

theorem names_prefix_set (scope : Scope) (name : String) (value : Value) :
    scope.names <+: (scope.set name value).names := by
  rw [names_set]
  split
  · exact List.prefix_refl _
  · exact List.prefix_append _ _

/-- A variable may get another value. -/
theorem keeps_set (value : Value) (h : scope.isConstant name = false) :
    scope.Keeps (scope.set name value) := by
  refine ⟨rfl, scope.names_prefix_set name value, ?_, fun _ _ hvariable => hvariable⟩
  intro other hconstant
  have hother : other ≠ name := by
    intro heq
    rw [heq, h] at hconstant
    contradiction
  exact ⟨hconstant, by rw [value?_set, if_neg hother]⟩

theorem WellFormed.set (h : scope.WellFormed) (name : String) (value : Value) :
    (scope.set name value).WellFormed := by
  intro other hconstant
  have hbinds := binds_eq_true.1 (h other hconstant)
  exact binds_eq_true.2 ((scope.names_prefix_set name value).subset hbinds)

theorem isConstant_add (scope : Scope) (name other : String) (value : Value) (constant : Bool) :
    (scope.add name value constant).isConstant other =
      (scope.isConstant other || constant && decide (other = name)) := by
  cases constant with
  | false => simp [isConstant, add, set]
  | true => simp [isConstant, add, set, List.contains_eq_mem]

/-- A name that is not bound may get a value, constant or not. -/
theorem keeps_add (value : Value) (constant : Bool) (hscope : scope.WellFormed)
    (h : scope.binds name = false) : scope.Keeps (scope.add name value constant) := by
  have hvariable : scope.isConstant name = false := by
    cases hconstant : scope.isConstant name with
    | false => rfl
    | true =>
        rw [hscope name hconstant] at h
        contradiction
  have hset := keeps_set value hvariable
  refine ⟨rfl, hset.names, ?_, ?_⟩
  · intro other hconstant
    refine ⟨?_, (hset.constant other hconstant).2⟩
    rw [isConstant_add, hconstant, Bool.true_or]
  · intro other hbinds hother
    have hne : other ≠ name := by
      intro heq
      rw [heq, h] at hbinds
      contradiction
    simp [isConstant_add, hother, hne]

theorem binds_set (scope : Scope) (name : String) (value : Value) :
    (scope.set name value).binds name = true := by
  apply binds_eq_true.2
  rw [names_set]
  by_cases h : name ∈ scope.names
  · rwa [if_pos h]
  · rw [if_neg h]
    exact List.mem_append_right _ List.mem_cons_self

theorem WellFormed.add (h : scope.WellFormed) (name : String) (value : Value) (constant : Bool) :
    (scope.add name value constant).WellFormed := by
  intro other hconstant
  rw [isConstant_add] at hconstant
  by_cases hother : other = name
  · subst hother
    exact scope.binds_set other value
  · have hold : scope.isConstant other = true := by simpa [hother] using hconstant
    exact h.set name value other hold

end Scope

/-! ## Stores -/

namespace Store

/-- Whether every constant of every scope is bound in its scope. -/
def WellFormed (store : Store) : Prop :=
  ∀ id scope, store.scope? id = some scope → scope.WellFormed

/-- Every scope is still there and has kept what scopes keep. -/
def Keeps (before after : Store) : Prop :=
  ∀ id scope, before.scope? id = some scope →
    ∃ later, after.scope? id = some later ∧ scope.Keeps later

/-- The later store is well formed and has kept what the earlier one had, if that
one was well formed. -/
def Grows (before after : Store) : Prop :=
  before.WellFormed → after.WellFormed ∧ before.Keeps after

variable {store : Store}

theorem Keeps.trans {first second third : Store} (hone : first.Keeps second)
    (htwo : second.Keeps third) : first.Keeps third := by
  intro id scope hscope
  obtain ⟨middle, hmiddle, hkept⟩ := hone id scope hscope
  obtain ⟨last, hlast, hstill⟩ := htwo id middle hmiddle
  exact ⟨last, hlast, hkept.trans hstill⟩

theorem Grows.refl (store : Store) : store.Grows store :=
  fun h => ⟨h, fun _ scope hscope => ⟨scope, hscope, .refl scope⟩⟩

theorem Grows.trans {first second third : Store} (hone : first.Grows second)
    (htwo : second.Grows third) : first.Grows third := by
  intro hfirst
  have hmiddle := hone hfirst
  have hlast := htwo hmiddle.1
  exact ⟨hlast.1, hmiddle.2.trans hlast.2⟩

theorem scope?_size (store : Store) : store.scope? store.size = none := by
  simp [scope?, size]

theorem grows_create (store : Store) (parent : Option ScopeId) :
    store.Grows (store.create parent) := by
  intro hstore
  constructor
  · intro id scope hscope
    rw [scope?_create] at hscope
    split at hscope
    · cases hscope
      intro name hconstant
      contradiction
    · exact hstore id scope hscope
  · intro id scope hscope
    have hne : id ≠ store.size := by
      intro heq
      rw [heq, scope?_size] at hscope
      contradiction
    exact ⟨scope, by rw [scope?_create, if_neg hne, hscope], .refl scope⟩

/-- Whether a store grows by a change of one scope shows in that scope. -/
theorem grows_update {id : ScopeId} {change : Scope → Scope}
    (h : ∀ scope, store.scope? id = some scope → scope.WellFormed →
      (change scope).WellFormed ∧ scope.Keeps (change scope)) :
    store.Grows (store.update id change) := by
  intro hstore
  constructor
  · intro other scope hscope
    rw [scope?_update] at hscope
    split at hscope
    · next heq =>
        subst heq
        obtain ⟨before, hbefore, rfl⟩ := Option.map_eq_some_iff.1 hscope
        exact (h before hbefore (hstore id before hbefore)).1
    · exact hstore other scope hscope
  · intro other scope hscope
    by_cases heq : id = other
    · subst heq
      refine ⟨change scope, ?_, (h scope hscope (hstore id scope hscope)).2⟩
      rw [scope?_update, if_pos rfl, hscope, Option.map_some]
    · refine ⟨scope, ?_, .refl scope⟩
      rw [scope?_update, if_neg heq, hscope]

variable {after : Store} {id : ScopeId} {name : String} {value : Value} {constant : Bool}

theorem grows_declare (h : store.declare id name value constant = .ok after) :
    store.Grows after := by
  obtain ⟨hbinds, rfl⟩ := declare_ok h
  apply grows_update
  intro scope hscope hwellFormed
  have hfree : scope.binds name = false := by simpa [binds, hscope] using hbinds
  exact ⟨hwellFormed.add name value constant, Scope.keeps_add value constant hwellFormed hfree⟩

theorem grows_set {owner : ScopeId} (value : Value)
    (h : store.holdsConstant owner name = false) :
    store.Grows (store.update owner (·.set name value)) := by
  apply grows_update
  intro scope hscope hwellFormed
  have hvariable : scope.isConstant name = false := by simpa [holdsConstant, hscope] using h
  exact ⟨hwellFormed.set name value, Scope.keeps_set value hvariable⟩

theorem grows_assign (h : store.assign id name value = .ok after) : store.Grows after := by
  obtain ⟨owner, _, hconstant, rfl⟩ := assign_ok h
  exact grows_set value hconstant

theorem grows_overwrite (store : Store) (id : ScopeId) (name : String) (value : Value) :
    store.Grows (store.overwrite id name value) := by
  rcases overwrite_cases store id name value with hsame | ⟨owner, _, hconstant, hchanged⟩
  · rw [hsame]
    exact .refl store
  · rw [hchanged]
    exact grows_set value hconstant

theorem wellFormed_initial : initial.WellFormed := by
  intro id scope hscope
  rw [scope?_initial] at hscope
  split at hscope
  · cases hscope
    have hconstants : ∀ name ∈ globalScope.constants, name ∈ globalScope.names := by decide
    intro name hconstant
    exact Scope.binds_eq_true.2 (hconstants name (Scope.isConstant_eq_true.1 hconstant))
  · contradiction

/-- What every program finds declared is still there, with its value and
constant. -/
theorem Keeps.predeclared {later : Store} (h : initial.Keeps later) :
    ∀ entry ∈ predeclared,
      later.value? globalId entry.1 = some entry.2 ∧
        later.holdsConstant globalId entry.1 = true := by
  intro entry hmem
  obtain ⟨scope, hscope, hkept⟩ := h globalId globalScope (scope?_initial globalId)
  have hglobal : globalScope.isConstant entry.1 = true := by
    apply Scope.isConstant_eq_true.2
    exact List.mem_map_of_mem hmem
  have hvalue : globalScope.value? entry.1 = some entry.2 := by
    simp only [Store.predeclared, List.mem_cons, List.not_mem_nil, or_false] at hmem
    rcases hmem with rfl | rfl | rfl | rfl | rfl <;> rfl
  have hconstant := hkept.constant entry.1 hglobal
  constructor
  · simp only [Store.value?, hscope, Option.bind_some]
    exact hconstant.2.trans hvalue
  · simp only [holdsConstant, hscope, Option.any_some]
    exact hconstant.1

end Store

end Nomi
