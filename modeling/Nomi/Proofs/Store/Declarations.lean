import Nomi.Proofs.Store.Growth

/-!
# What scopes are declared

From one moment to another a scope gains names, each at the end and either constant
or not.  What it had before stays as it was, except for the values of its variables.
-/

namespace Nomi

/-- A name and whether it is constant, without the value. -/
abbrev Declared :=
  String × Bool

namespace Scope

/-- Whether a scope has gained the given names, in this order, and has otherwise
kept its parent, its names, its constants and the values of these. -/
structure Gains (declared : List Declared) (before after : Scope) : Prop where
  parent : after.parent = before.parent
  names : after.names = before.names ++ declared.map (·.1)
  constants : after.constants = before.constants ++ (declared.filter (·.2)).map (·.1)
  values : ∀ name, before.binds name = true → before.isConstant name = true →
    after.value? name = before.value? name

variable {scope first second third : Scope} {name : String} {earlier later : List Declared}

theorem Gains.refl (scope : Scope) : scope.Gains [] scope :=
  ⟨rfl, by simp, by simp, fun _ _ _ => rfl⟩

theorem Gains.binds (h : first.Gains earlier second) (hbinds : first.binds name = true) :
    second.binds name = true := by
  rw [binds_eq_true, h.names]
  exact List.mem_append_left _ (binds_eq_true.1 hbinds)

theorem Gains.isConstant (h : first.Gains earlier second)
    (hconstant : first.isConstant name = true) : second.isConstant name = true := by
  rw [isConstant_eq_true, h.constants]
  exact List.mem_append_left _ (isConstant_eq_true.1 hconstant)

theorem Gains.trans (hone : first.Gains earlier second) (htwo : second.Gains later third) :
    first.Gains (earlier ++ later) third where
  parent := htwo.parent.trans hone.parent
  names := by rw [htwo.names, hone.names, List.map_append, List.append_assoc]
  constants := by
    rw [htwo.constants, hone.constants, List.filter_append, List.map_append, List.append_assoc]
  values := by
    intro name hbinds hconstant
    have hmiddle := htwo.values name (hone.binds hbinds) (hone.isConstant hconstant)
    exact hmiddle.trans (hone.values name hbinds hconstant)

/-- A variable that gets another value is no gain. -/
theorem gains_set (value : Value) (hbinds : scope.binds name = true)
    (h : scope.isConstant name = false) : scope.Gains [] (scope.set name value) where
  parent := rfl
  names := by rw [names_set, if_pos (binds_eq_true.1 hbinds), List.map_nil, List.append_nil]
  constants := by simp [set]
  values := by
    intro other _ hconstant
    have hother : other ≠ name := by
      rintro rfl
      rw [h] at hconstant
      contradiction
    rw [value?_set, if_neg hother]

theorem gains_add (value : Value) (constant : Bool) (h : scope.binds name = false) :
    scope.Gains [(name, constant)] (scope.add name value constant) where
  parent := rfl
  names := by
    have hfree : name ∉ scope.names := by
      intro hmem
      rw [binds_eq_true.2 hmem] at h
      contradiction
    exact (scope.names_set name value).trans (if_neg hfree)
  constants := by cases constant <;> simp [add, set]
  values := by
    intro other hbinds _
    have hother : other ≠ name := by
      rintro rfl
      rw [h] at hbinds
      contradiction
    exact (scope.value?_set name other value).trans (if_neg hother)

end Scope

namespace Store

/-- Whether every scope is still there and has gained the names given for it. -/
def Gains (declared : ScopeId → List Declared) (before after : Store) : Prop :=
  ∀ id scope, before.scope? id = some scope →
    ∃ later, after.scope? id = some later ∧ scope.Gains (declared id) later

def Stays (before after : Store) : Prop :=
  before.Gains (fun _ => []) after

def onlyIn (id : ScopeId) (declared : List Declared) : ScopeId → List Declared :=
  fun other => if other = id then declared else []

@[simp] theorem onlyIn_self (id : ScopeId) (declared : List Declared) :
    onlyIn id declared id = declared :=
  if_pos rfl

theorem onlyIn_other {id other : ScopeId} (declared : List Declared) (h : other ≠ id) :
    onlyIn id declared other = [] :=
  if_neg h

@[simp] theorem onlyIn_nil (id : ScopeId) : onlyIn id [] = fun _ => [] :=
  funext fun _ => ite_self _

/-- Whether one scope has gained the given names and no other scope has gained
any. -/
def Declares (id : ScopeId) (declared : List Declared) (before after : Store) : Prop :=
  before.Gains (onlyIn id declared) after

variable {store first second third after : Store} {id : ScopeId} {name : String}
  {value : Value} {constant : Bool} {earlier later : List Declared}

theorem Gains.trans {before middle : ScopeId → List Declared} (hone : first.Gains before second)
    (htwo : second.Gains middle third) :
    first.Gains (fun id => before id ++ middle id) third := by
  intro id scope hscope
  obtain ⟨next, hnext, hgains⟩ := hone id scope hscope
  obtain ⟨last, hlast, hmore⟩ := htwo id next hnext
  exact ⟨last, hlast, hgains.trans hmore⟩

theorem Stays.refl (store : Store) : store.Stays store :=
  fun _ scope hscope => ⟨scope, hscope, .refl scope⟩

theorem Stays.trans (hone : first.Stays second) (htwo : second.Stays third) :
    first.Stays third :=
  Gains.trans hone htwo

theorem declares_nil (id : ScopeId) : first.Declares id [] second ↔ first.Stays second := by
  rw [Declares, onlyIn_nil, Stays]

theorem Declares.trans (hone : first.Declares id earlier second)
    (htwo : second.Declares id later third) : first.Declares id (earlier ++ later) third := by
  intro other scope hscope
  obtain ⟨last, hlast, hgains⟩ := Gains.trans hone htwo other scope hscope
  refine ⟨last, hlast, ?_⟩
  by_cases hother : other = id
  · subst hother
    simpa using hgains
  · simpa [onlyIn_other _ hother] using hgains

theorem lt_size_of_scope? {scope : Scope} (h : store.scope? id = some scope) :
    id < store.size :=
  (Array.getElem?_eq_some_iff.1 h).1

/-- No scope is ever removed. -/
theorem Stays.size_le (h : first.Stays second) : first.size ≤ second.size := by
  refine Nat.le_of_not_lt fun hlast => ?_
  obtain ⟨later, hlater, _⟩ := h second.size _ (Array.getElem?_eq_getElem hlast)
  exact absurd (lt_size_of_scope? hlater) (Nat.lt_irrefl _)

theorem stays_create (store : Store) (parent : Option ScopeId) :
    store.Stays (store.create parent) := by
  intro id scope hscope
  have hold : id ≠ store.size := by
    rintro rfl
    rw [scope?_size] at hscope
    contradiction
  exact ⟨scope, by rw [scope?_create, if_neg hold, hscope], .refl scope⟩

/-- What a change of one scope gains is what this scope gains. -/
theorem declares_update {declared : List Declared} {change : Scope → Scope}
    (h : ∀ scope, store.scope? id = some scope → scope.Gains declared (change scope)) :
    store.Declares id declared (store.update id change) := by
  intro other scope hscope
  by_cases hother : other = id
  · subst hother
    refine ⟨change scope, ?_, ?_⟩
    · rw [scope?_update, if_pos rfl, hscope, Option.map_some]
    · rw [onlyIn_self]
      exact h scope hscope
  · refine ⟨scope, ?_, ?_⟩
    · rw [scope?_update, if_neg (Ne.symm hother), hscope]
    · rw [onlyIn_other declared hother]
      exact .refl scope

theorem declares_declare (h : store.declare id name value constant = .ok after) :
    store.Declares id [(name, constant)] after := by
  obtain ⟨hbinds, rfl⟩ := declare_ok h
  refine declares_update fun scope hscope => ?_
  have hfree : scope.binds name = false := by simpa [binds, hscope] using hbinds
  exact Scope.gains_add value constant hfree

/-- What is declared in a scope that was not there before is no gain. -/
theorem Declares.stays {declared : List Declared} (h : second.Declares id declared third)
    (hfirst : first.Stays second) (hnew : first.size ≤ id) : first.Stays third := by
  intro other scope hscope
  have hold : other ≠ id := by
    rintro rfl
    exact absurd (lt_size_of_scope? hscope) (Nat.not_lt_of_le hnew)
  obtain ⟨next, hnext, hgains⟩ := hfirst other scope hscope
  obtain ⟨last, hlast, hmore⟩ := h other next hnext
  rw [onlyIn_other declared hold] at hmore
  exact ⟨last, hlast, hgains.trans hmore⟩

theorem stays_set {owner : ScopeId} (value : Value) (hbinds : store.binds owner name = true)
    (h : store.holdsConstant owner name = false) :
    store.Stays (store.update owner (·.set name value)) := by
  refine (declares_nil owner).1 (declares_update fun scope hscope => ?_)
  have hbound : scope.binds name = true := by simpa [binds, hscope] using hbinds
  have hvariable : scope.isConstant name = false := by simpa [holdsConstant, hscope] using h
  exact Scope.gains_set value hbound hvariable

theorem stays_assign (h : store.assign id name value = .ok after) : store.Stays after := by
  obtain ⟨owner, howner, hconstant, rfl⟩ := assign_ok h
  exact stays_set value (binds_owner howner) hconstant

theorem stays_overwrite (store : Store) (id : ScopeId) (name : String) (value : Value) :
    store.Stays (store.overwrite id name value) := by
  rcases overwrite_cases store id name value with hsame | ⟨owner, howner, hconstant, hchanged⟩
  · rw [hsame]
    exact .refl store
  · rw [hchanged]
    exact stays_set value (binds_owner howner) hconstant

end Store

end Nomi
